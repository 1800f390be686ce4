import CoinLedger.Proofs.Encoding.Keys
import CoinLedger.Proofs.Steps
import CoinLedger.Transaction.Signing
import Mathlib.Data.List.Zip

/-! # What a signature covers

Signing and replacing signatures leave the outpoints and the outputs of a transaction alone, and the
signing image is made from these alone, so it stays as it is. As the wire format is canonical, the
image also determines them (`CoinLedger.Transaction.signingImage_eq_iff`): bytes of inputs are never
taken for bytes of outputs. What the image leaves open are the signatures, and the encoding
determines these as well (`CoinLedger.Transaction.image_binds_all_but_signatures`).
-/

namespace CoinLedger

/-- An index names a place in a list of a given length. It is that place, or less than it by the
length, and then it counts from the end. -/
def NamesPlace (length : Nat) (index : Int) (place : Nat) : Prop :=
  place < length ∧ (index = place ∨ index = (place : Int) - length)

instance (length : Nat) (index : Int) (place : Nat) : Decidable (NamesPlace length index place) :=
  inferInstanceAs (Decidable (_ ∧ _))

/-- An index is taken for the place that it names. -/
theorem placeOf_eq_ok_iff {index : Int} {length place : Nat} :
    placeOf index length = .ok place ↔ NamesPlace length index place := by
  unfold placeOf NamesPlace
  split
  · exact ⟨(fun placed => nomatch placed), (by omega)⟩
  · split
    · rw [Except.ok.injEq]
      omega
    · split
      · rw [Except.ok.injEq]
        omega
      · exact ⟨(fun placed => nomatch placed), (by omega)⟩

/-- An index names one place at most. -/
theorem NamesPlace.unique {length left right : Nat} {index : Int}
    (first : NamesPlace length index left) (second : NamesPlace length index right) :
    left = right := by
  unfold NamesPlace at first second
  omega

/-- An index names a place exactly when it lies within the length, counted from either end. -/
theorem exists_namesPlace_iff {index : Int} {length : Nat} :
    (∃ place, NamesPlace length index place) ↔ -(length : Int) ≤ index ∧ index < length := by
  unfold NamesPlace
  constructor
  · rintro ⟨place, named⟩
    omega
  · rintro ⟨low, high⟩
    rcases Int.lt_or_le index 0 with negative | natural
    · exact ⟨(index + length).toNat, by omega⟩
    · exact ⟨index.toNat, by omega⟩

namespace Transaction

variable {tx left right signed : Transaction}

/-- The signatures of the inputs, in order. -/
def signatures (tx : Transaction) : List Signature := tx.inputs.map Input.signature

/-- The transaction with the signature of every input replaced by the one for its place. -/
def withSignatures (tx : Transaction) (signatureAt : Nat → Signature) : Transaction :=
  { tx with inputs := tx.inputs.mapIdx fun place input =>
      { input with signature := signatureAt place } }

theorem inputs_eq_zipWith (tx : Transaction) :
    tx.inputs = List.zipWith Input.mk tx.outpoints tx.signatures := by
  rw [outpoints, signatures, List.zipWith_map, List.zipWith_self]
  exact (List.map_id _).symm

/-- A transaction is its outpoints, its signatures and its outputs. -/
theorem eq_iff : left = right ↔
    left.outpoints = right.outpoints ∧ left.signatures = right.signatures ∧
      left.outputs = right.outputs := by
  constructor
  · rintro rfl
    exact ⟨rfl, rfl, rfl⟩
  · rintro ⟨outpoints, signatures, outputs⟩
    refine Transaction.ext ?_ outputs
    rw [left.inputs_eq_zipWith, right.inputs_eq_zipWith, outpoints, signatures]

/-- Without its signatures a transaction has its outpoints under empty signatures, and its
outputs. -/
theorem unsigned_eq (tx : Transaction) :
    tx.unsigned = ⟨tx.outpoints.map fun outpoint => ⟨outpoint, emptySignature⟩, tx.outputs⟩ := by
  rw [outpoints, List.map_map]
  rfl

theorem outpoints_unsigned (tx : Transaction) : tx.unsigned.outpoints = tx.outpoints := by
  rw [outpoints, unsigned, List.map_map]
  rfl

/-- Two transactions are the same without signatures exactly when their outpoints and outputs
are. -/
theorem unsigned_eq_iff : left.unsigned = right.unsigned ↔
    left.outpoints = right.outpoints ∧ left.outputs = right.outputs := by
  constructor
  · intro same
    have outputs : left.unsigned.outputs = right.unsigned.outputs := by rw [same]
    rw [← left.outpoints_unsigned, ← right.outpoints_unsigned, same]
    exact ⟨rfl, outputs⟩
  · rintro ⟨outpoints, outputs⟩
    rw [unsigned_eq, unsigned_eq, outpoints, outputs]

/-- The transactions that can be written are those whose numbers of inputs and outputs are not
refused when they are written. -/
theorem writable_iff : tx.Writable ↔
    (∃ form, IntegerForm.compact.encode tx.inputs.length = .ok form) ∧
      ∃ form, IntegerForm.compact.encode tx.outputs.length = .ok form := by
  have written (count : Nat) :
      (∃ form, IntegerForm.compact.encode count = .ok form) ↔ count ≤ Compact.max := by
    simp [Compact.encode_eq_ok_iff]
  rw [written, written]
  rfl

/-- Taking the signatures off does not change whether a transaction can be written. -/
theorem writable_unsigned : tx.unsigned.Writable ↔ tx.Writable := by
  rw [Writable, Writable, unsigned, List.length_map]

/-- The signing image depends on the outpoints and the outputs only. -/
theorem signingImage_congr (outpoints : left.outpoints = right.outpoints)
    (outputs : left.outputs = right.outputs) : left.signingImage = right.signingImage := by
  rw [signingImage, signingImage, unsigned_eq_iff.mpr ⟨outpoints, outputs⟩]

/-- **The signing image covers the outpoints and the outputs**, each list as a whole. -/
theorem signingImage_eq_iff (leftWritable : left.Writable) (rightWritable : right.Writable) :
    left.signingImage = right.signingImage ↔
      left.outpoints = right.outpoints ∧ left.outputs = right.outputs := by
  rw [← unsigned_eq_iff]
  constructor
  · exact encode_injective (writable_unsigned.mpr leftWritable)
      (writable_unsigned.mpr rightWritable)
  · exact congrArg encode

/-- Transactions with one image differ by their signatures at most. -/
theorem encode_eq_iff_of_image (leftWritable : left.Writable) (rightWritable : right.Writable)
    (image : left.signingImage = right.signingImage) :
    left.encode = right.encode ↔ left.signatures = right.signatures := by
  obtain ⟨outpoints, outputs⟩ := (signingImage_eq_iff leftWritable rightWritable).mp image
  constructor
  · intro same
    rw [encode_injective leftWritable rightWritable same]
  · intro signatures
    rw [eq_iff.mpr ⟨outpoints, signatures, outputs⟩]

/-- Setting a signature keeps the outpoints. -/
theorem outpoints_withSignature (tx : Transaction) (place : Nat) (signature : Signature) :
    (tx.withSignature place signature).outpoints = tx.outpoints := by
  apply List.ext_getElem?
  intro index
  rw [outpoints, outpoints, withSignature, List.getElem?_map, List.getElem?_modify,
    List.getElem?_map]
  cases tx.inputs[index]? with
  | none => rfl
  | some input => exact congrArg some (apply_ite Input.outpoint _ _ _ |>.trans (ite_self _))

/-- Setting a signature changes the one at its place. -/
theorem signatures_withSignature (tx : Transaction) (place : Nat) (signature : Signature) :
    (tx.withSignature place signature).signatures = tx.signatures.set place signature := by
  apply List.ext_getElem?
  intro index
  rw [signatures, signatures, withSignature, List.getElem?_map, List.getElem?_modify,
    List.set_eq_modify, List.getElem?_modify, List.getElem?_map]
  cases tx.inputs[index]? with
  | none => rfl
  | some input => exact congrArg some (apply_ite Input.signature _ _ _)

/-- Setting all signatures keeps the outpoints. -/
theorem outpoints_withSignatures (tx : Transaction) (signatureAt : Nat → Signature) :
    (tx.withSignatures signatureAt).outpoints = tx.outpoints := by
  apply List.ext_getElem?
  intro index
  rw [outpoints, outpoints, withSignatures, List.getElem?_map, List.getElem?_mapIdx,
    List.getElem?_map, Option.map_map]
  rfl

section

variable {scheme : SignatureScheme} {index : Int} {pair : scheme.Pair} {pairs : List scheme.Pair}
  {entropy : Entropy} {entropyAt : Nat → Entropy}

/-- Signing an input sets the signature over the image at the place that the index names. -/
theorem signInput_eq_ok_iff :
    tx.signInput scheme index pair entropy = .ok signed ↔
      ∃ place, NamesPlace tx.inputs.length index place ∧
        signed = tx.withSignature place (scheme.sign pair tx.signingImage entropy) := by
  simp only [signInput, bind_eq_ok_iff, placeOf_eq_ok_iff]
  exact exists_congr fun place => and_congr_right fun _ =>
    ⟨fun made => (Except.ok.inj made).symm, fun same => congrArg Except.ok same.symm⟩

/-- Signing an input succeeds exactly when the index lies within the inputs, counted from either
end. -/
theorem exists_signInput_iff :
    (∃ signed, tx.signInput scheme index pair entropy = .ok signed) ↔
      -(tx.inputs.length : Int) ≤ index ∧ index < tx.inputs.length := by
  simp only [signInput_eq_ok_iff]
  rw [exists_comm, ← exists_namesPlace_iff]
  exact exists_congr fun place => ⟨fun ⟨_, named, _⟩ => named, fun named => ⟨_, named, rfl⟩⟩

/-- Signing an input keeps the outpoints and the outputs and replaces one signature. -/
theorem signInput_ok (run : tx.signInput scheme index pair entropy = .ok signed) :
    signed.outpoints = tx.outpoints ∧ signed.outputs = tx.outputs ∧
      ∃ place, NamesPlace tx.inputs.length index place ∧ signed.signatures =
        tx.signatures.set place (scheme.sign pair tx.signingImage entropy) := by
  obtain ⟨place, named, rfl⟩ := signInput_eq_ok_iff.mp run
  exact ⟨tx.outpoints_withSignature place _, rfl, place, named, tx.signatures_withSignature place _⟩

/-- Signing an input does not change what is signed. -/
theorem signingImage_signInput (run : tx.signInput scheme index pair entropy = .ok signed) :
    signed.signingImage = tx.signingImage := by
  obtain ⟨outpoints, outputs, _⟩ := signInput_ok run
  exact signingImage_congr outpoints outputs

/-- Signing all inputs succeeds exactly when there are as many pairs as inputs. -/
theorem exists_signInputs_iff :
    (∃ signed, tx.signInputs scheme pairs entropyAt = .ok signed) ↔
      pairs.length = tx.inputs.length := by
  rw [signInputs]
  split
  · rename_i length
    exact ⟨fun _ => length, fun _ => ⟨_, rfl⟩⟩
  · rename_i length
    exact ⟨(fun ⟨_, made⟩ => nomatch made), (fun same => absurd same length)⟩

/-- Signing all inputs keeps the outpoints and the outputs and gives each input the signature of its
pair. -/
theorem signInputs_ok (run : tx.signInputs scheme pairs entropyAt = .ok signed) :
    signed.outpoints = tx.outpoints ∧ signed.outputs = tx.outputs ∧ signed.signatures =
      pairs.mapIdx fun place pair => scheme.sign pair tx.signingImage (entropyAt place) := by
  rw [signInputs] at run
  split at run
  · rename_i length
    cases run
    have size : (pairs.mapIdx fun place pair =>
        scheme.sign pair tx.signingImage (entropyAt place)).length = tx.inputs.length := by
      rw [List.length_mapIdx, length]
    have first := List.map_fst_zip (Nat.le_of_eq size.symm)
    have second := List.map_snd_zip (Nat.le_of_eq size)
    refine ⟨?_, rfl, ?_⟩
    · rw [outpoints, outpoints, List.map_zipWith, ← List.map_uncurry_zip_eq_zipWith]
      conv_rhs => rw [← first, List.map_map]
      rfl
    · rw [signatures, List.map_zipWith, ← List.map_uncurry_zip_eq_zipWith]
      conv_rhs => rw [← second]
      rfl
  · cases run

/-- Signing all inputs does not change what is signed. -/
theorem signingImage_signInputs (run : tx.signInputs scheme pairs entropyAt = .ok signed) :
    signed.signingImage = tx.signingImage := by
  obtain ⟨outpoints, outputs, _⟩ := signInputs_ok run
  exact signingImage_congr outpoints outputs

end

/-- **The signing image binds everything but the signatures.** A transaction has an image and an
encoding if it can be written, which is when the numbers of its inputs and of its outputs have
compact forms. Two of these have the same image exactly when they have the same outpoints and the
same outputs, and then their encodings, and what is hashed for the keys of their outputs, are equal
exactly when all their signatures are. Signing one input or all of them, with any random bytes, and
any other replacement of signatures leaves the image as it is. -/
theorem image_binds_all_but_signatures :
    (∀ tx : Transaction, tx.Writable ↔
      (∃ form, IntegerForm.compact.encode tx.inputs.length = .ok form) ∧
        ∃ form, IntegerForm.compact.encode tx.outputs.length = .ok form) ∧
    (∀ left right : Transaction, left.Writable → right.Writable →
      (left.signingImage = right.signingImage ↔
        left.outpoints = right.outpoints ∧ left.outputs = right.outputs) ∧
      (left.signingImage = right.signingImage →
        (left.encode = right.encode ↔ left.signatures = right.signatures) ∧
          ∀ index : UInt64,
            outputPreimage left.encode index = outputPreimage right.encode index ↔
              left.signatures = right.signatures)) ∧
    ∀ (scheme : SignatureScheme) (tx : Transaction),
      (∀ index pair entropy, (∃ signed, tx.signInput scheme index pair entropy = .ok signed) ↔
        -(tx.inputs.length : Int) ≤ index ∧ index < tx.inputs.length) ∧
      (∀ index pair entropy signed, tx.signInput scheme index pair entropy = .ok signed →
        signed.signingImage = tx.signingImage) ∧
      (∀ pairs entropyAt, (∃ signed, tx.signInputs scheme pairs entropyAt = .ok signed) ↔
        pairs.length = tx.inputs.length) ∧
      (∀ pairs entropyAt signed, tx.signInputs scheme pairs entropyAt = .ok signed →
        signed.signingImage = tx.signingImage) ∧
      ∀ signatureAt, (tx.withSignatures signatureAt).signingImage = tx.signingImage := by
  refine ⟨fun tx => writable_iff, fun left right leftWritable rightWritable => ⟨?_, ?_⟩,
    fun scheme tx => ⟨?_, ?_, ?_, ?_, ?_⟩⟩
  · exact signingImage_eq_iff leftWritable rightWritable
  · intro image
    have bound := encode_eq_iff_of_image leftWritable rightWritable image
    refine ⟨bound, fun index => ?_⟩
    rw [outputPreimage_inj, and_iff_left rfl, bound]
  · exact fun index pair entropy => exists_signInput_iff
  · exact fun index pair entropy signed => signingImage_signInput
  · exact fun pairs entropyAt => exists_signInputs_iff
  · exact fun pairs entropyAt signed => signingImage_signInputs
  · exact fun signatureAt => signingImage_congr (tx.outpoints_withSignatures signatureAt) rfl

/-- An input is as long as two outputs, and yet an image with one input is none with two outputs.
The signature of the input changes the encoding and not the image. -/
theorem input_is_not_two_outputs :
    let scheme : SignatureScheme :=
      { Pair := Unit
        ofSeed := fun _ => ()
        publicKey := fun _ => FixedBytes.zero 32
        sign := fun _ _ _ => ⟨List.replicate 64 1, rfl⟩
        verify := fun _ _ _ => true }
    let coin : Output := ⟨Amount.zero, FixedBytes.zero 32⟩
    let spending : Transaction := ⟨[⟨FixedBytes.zero 32, emptySignature⟩], []⟩
    let creating : Transaction := ⟨[], [coin, coin]⟩
    spending.Writable ∧ creating.Writable ∧
      spending.signingImage.length = creating.signingImage.length ∧
      spending.signingImage ≠ creating.signingImage ∧
      ∃ signed, spending.signInput scheme 0 () (FixedBytes.zero 32) = .ok signed ∧
        signed.signingImage = spending.signingImage ∧ signed.encode ≠ spending.encode := by
  intro scheme coin spending creating
  obtain ⟨_, binds, signing⟩ := image_binds_all_but_signatures
  have few (count : Nat) (small : count < 3) : count ≤ Compact.max :=
    Compact.le_max_iff.mpr (Nat.lt_trans small (by decide))
  have spendingWritable : spending.Writable := ⟨few 1 (by decide), few 0 (by decide)⟩
  have creatingWritable : creating.Writable := ⟨few 0 (by decide), few 2 (by decide)⟩
  obtain ⟨available, unchanged, _⟩ := signing scheme spending
  obtain ⟨signed, made⟩ := (available 0 () (FixedBytes.zero 32)).mpr ⟨by decide, by decide⟩
  have image := unchanged 0 () (FixedBytes.zero 32) signed made
  have signedWritable : signed.Writable := by
    cases made
    exact spendingWritable
  refine ⟨spendingWritable, creatingWritable, by decide, ?_, signed, made, image, ?_⟩
  · rw [Ne, (binds spending creating spendingWritable creatingWritable).1]
    decide
  · rw [Ne, ((binds signed spending signedWritable spendingWritable).2 image).1]
    cases made
    decide

end Transaction
end CoinLedger

import CoinLedger.Proofs.Encoding.Compact
import CoinLedger.Transaction.Basic
import Mathlib.Data.List.Nodup
import Mathlib.Data.List.Perm.Subperm

/-! # The wire format is canonical

Inputs, outputs and transactions are read by canonical decoders. A transaction can be written when
the numbers of its inputs and outputs have compact forms (`CoinLedger.Transaction.Writable`). The
byte strings that are read as transactions are then exactly the encodings of these, each
transaction has one encoding, and no encoding continues another one
(`CoinLedger.Transaction.wire_format_canonical`).
-/

namespace CoinLedger

/-- Byte strings of a fixed size are canonical. -/
theorem FixedBytes.canonical (size : Nat) :
    Decoder.Canonical (Decoder.fixed size) FixedBytes.bytes (fun _ => True) := by
  have wraps (chunk : ByteString) (length : chunk.length = size) :
      Decoder.Canonical (pure ⟨chunk, length⟩ : Decoder (FixedBytes size)) (fun _ => [])
        (fun bytes => bytes.bytes = chunk) :=
    (Decoder.Canonical.pure rfl).congr (fun _ => rfl) (fun _ => FixedBytes.ext_iff)
  apply (Decoder.Canonical.take size).bind
  · intro chunk length
    rw [FixedBytes.ofBytes?, dif_pos length]
    exact wraps chunk length
  · rintro chunk bytes length rfl
    exact ⟨trivial, (List.append_nil _).symm⟩
  · exact fun bytes _ => ⟨bytes.bytes, bytes.length_bytes, rfl⟩

/-- There are no more byte strings of a size than numbers with that many bytes. -/
theorem FixedBytes.length_le_of_nodup {size : Nat} {items : List (FixedBytes size)}
    (distinct : items.Nodup) : items.length ≤ 256 ^ size := by
  have injective : Function.Injective fun item : FixedBytes size => ofLittleEndian item.bytes := by
    intro left right same
    exact FixedBytes.ext
      (eq_of_ofLittleEndian_eq (left.length_bytes.trans right.length_bytes.symm) same)
  have bounded : (items.map fun item => ofLittleEndian item.bytes) ⊆ List.range (256 ^ size) := by
    intro number member
    obtain ⟨item, _, rfl⟩ := List.mem_map.mp member
    have below := ofLittleEndian_lt item.bytes
    rw [item.length_bytes] at below
    exact List.mem_range.mpr below
  have fewer := (List.subperm_of_subset (List.Nodup.map injective distinct) bounded).length_le
  rwa [List.length_map, List.length_range] at fewer

/-- An integer is taken as an amount exactly when it is one. -/
theorem Amount.ofInt_eq_ok_iff {name : String} {value : Int} {amount : Amount} :
    Amount.ofInt name value = .ok amount ↔ value = amount.toNat := by
  have bound := amount.toNat_lt
  unfold Amount.ofInt
  constructor
  · intro taken
    split at taken
    · rename_i fits
      cases taken
      exact (Int.toNat_of_nonneg fits.1).symm
    · cases taken
  · rintro rfl
    have fits : 0 ≤ (amount.toNat : Int) ∧ (amount.toNat : Int).toNat < amountBound :=
      ⟨Int.natCast_nonneg _, bound⟩
    rw [dif_pos fits]
    rfl

/-- The amount with the bytes of an amount is that amount. -/
theorem Amount.decode_encode (amount : Amount) (length : amount.encode.length = 16) :
    Amount.decode ⟨amount.encode, length⟩ = amount := by
  apply Amount.ext
  exact ofLittleEndian_littleEndian amount.toNat_lt

/-- The bytes of the amount with given bytes are those. -/
theorem Amount.encode_decode (bytes : FixedBytes 16) :
    (Amount.decode bytes).encode = bytes.bytes := by
  have spelled := littleEndian_ofLittleEndian bytes.bytes
  rwa [bytes.length_bytes] at spelled

theorem Amount.length_encode (amount : Amount) : amount.encode.length = 16 :=
  littleEndian_length 16 amount.toNat

/-- Inputs are canonical. -/
theorem Input.canonical : Decoder.Canonical Input.decoder Input.encode (fun _ => True) := by
  have follows (outpoint : Outpoint) : Decoder.Canonical
      (Decoder.fixed 64 >>= fun signature => pure (⟨outpoint, signature⟩ : Input))
      (fun input => input.signature.bytes) (fun input => input.outpoint = outpoint) := by
    refine (FixedBytes.canonical 64).map _ (fun signature _ => ⟨rfl, rfl⟩) ?_
    rintro input rfl
    exact ⟨input.signature, trivial, rfl⟩
  refine (FixedBytes.canonical 32).bind (fun outpoint _ => follows outpoint) ?_ ?_
  · rintro outpoint input _ rfl
    exact ⟨trivial, rfl⟩
  · exact fun input _ => ⟨input.outpoint, trivial, rfl⟩

/-- Outputs are canonical. -/
theorem Output.canonical : Decoder.Canonical Output.decoder Output.encode (fun _ => True) := by
  have follows (value : FixedBytes 16) : Decoder.Canonical
      (Decoder.fixed 32 >>= fun owner => pure (⟨Amount.decode value, owner⟩ : Output))
      (fun output => output.owner.bytes) (fun output => output.value = Amount.decode value) := by
    refine (FixedBytes.canonical 32).map _ (fun owner _ => ⟨rfl, rfl⟩) ?_
    intro output same
    exact ⟨output.owner, trivial, Output.ext same rfl⟩
  refine (FixedBytes.canonical 16).bind (fun value _ => follows value) ?_ ?_
  · intro value output _ same
    refine ⟨trivial, ?_⟩
    rw [Output.encode, same, Amount.encode_decode]
  · exact fun output _ => ⟨⟨output.value.encode, output.value.length_encode⟩, trivial,
      (output.value.decode_encode output.value.length_encode).symm⟩

/-- Bytes are decoded as an output exactly when they are its encoding. -/
theorem Output.decode_eq_ok_iff {data : ByteString} {output : Output} :
    Output.decode data = .ok output ↔ output.encode = data :=
  Output.canonical.whole_eq_ok_iff.trans (and_iff_right trivial)

/-- The encoding of an output is decoded as the output. -/
theorem Output.decode_encode (output : Output) : Output.decode output.encode = .ok output :=
  Output.decode_eq_ok_iff.mpr rfl

theorem Output.length_encode (coin : Output) : coin.encode.length = 48 := by
  rw [Output.encode, List.length_append, coin.value.length_encode, coin.owner.length_bytes]

namespace Transaction

/-- The numbers of inputs and outputs have compact forms. -/
def Writable (tx : Transaction) : Prop :=
  tx.inputs.length ≤ Compact.max ∧ tx.outputs.length ≤ Compact.max

/-- **Transactions are canonical.** -/
theorem canonical : Decoder.Canonical decoder encode Writable := by
  have readOutputs (inputs : List Input) (count : Nat) : Decoder.Canonical
      (Decoder.repeated Output.decoder count >>= fun outputs =>
        pure (⟨inputs, outputs⟩ : Transaction))
      (fun tx => tx.outputs.flatMap Output.encode)
      (fun tx => tx.inputs = inputs ∧ tx.outputs.length = count) := by
    refine (Output.canonical.repeated count).map _ (fun outputs valid => ⟨⟨rfl, valid.1⟩, rfl⟩) ?_
    rintro tx ⟨rfl, length⟩
    exact ⟨tx.outputs, ⟨length, fun _ _ => trivial⟩, rfl⟩
  have countOutputs (inputs : List Input) : Decoder.Canonical
      (Decoder.compact >>= fun count => Decoder.repeated Output.decoder count >>=
        fun outputs => pure (⟨inputs, outputs⟩ : Transaction))
      (fun tx => Compact.encode tx.outputs.length ++ tx.outputs.flatMap Output.encode)
      (fun tx => tx.inputs = inputs ∧ tx.outputs.length ≤ Compact.max) := by
    refine Compact.canonical.bind (fun count _ => readOutputs inputs count) ?_ ?_
    · rintro count tx fits ⟨same, rfl⟩
      exact ⟨⟨same, fits⟩, rfl⟩
    · exact fun tx valid => ⟨tx.outputs.length, valid.2, valid.1, rfl⟩
  have readInputs (count : Nat) : Decoder.Canonical
      (Decoder.repeated Input.decoder count >>= fun inputs => Decoder.compact >>= fun count =>
        Decoder.repeated Output.decoder count >>=
          fun outputs => pure (⟨inputs, outputs⟩ : Transaction))
      (fun tx => tx.inputs.flatMap Input.encode ++
        (Compact.encode tx.outputs.length ++ tx.outputs.flatMap Output.encode))
      (fun tx => tx.inputs.length = count ∧ tx.outputs.length ≤ Compact.max) := by
    refine (Input.canonical.repeated count).bind (fun inputs _ => countOutputs inputs) ?_ ?_
    · rintro inputs tx ⟨length, _⟩ ⟨rfl, fits⟩
      exact ⟨⟨length, fits⟩, rfl⟩
    · exact fun tx valid => ⟨tx.inputs, ⟨valid.1, fun _ _ => trivial⟩, rfl, valid.2⟩
  refine Compact.canonical.bind (fun count _ => readInputs count) ?_ ?_
  · rintro count tx fits ⟨rfl, outputsFit⟩
    exact ⟨⟨fits, outputsFit⟩, List.append_assoc _ _ _⟩
  · exact fun tx valid => ⟨tx.inputs.length, valid.1, rfl, valid.2⟩

/-- **Bytes are decoded as a transaction exactly when they are the encoding of a writable one.** -/
theorem decode_eq_ok_iff {data : ByteString} {tx : Transaction} :
    decode data = .ok tx ↔ tx.Writable ∧ tx.encode = data :=
  canonical.whole_eq_ok_iff

/-- A byte string that encodes no transaction is refused, and not for a place before its first
byte. -/
theorem decode_refuses {data : ByteString}
    (foreign : ∀ tx : Transaction, tx.Writable → tx.encode ≠ data) :
    ∃ error, decode data = .error error ∧ error ≠ .beforeInput := by
  rcases read : decode data with error | tx
  · refine ⟨error, rfl, ?_⟩
    rintro rfl
    exact canonical.whole_ne_beforeInput data read
  · obtain ⟨writable, encoded⟩ := decode_eq_ok_iff.mp read
    exact absurd encoded (foreign tx writable)

/-- No encoding of a writable transaction continues that of another. -/
theorem eq_of_encode_prefix {left right : Transaction} (leftWritable : left.Writable)
    (rightWritable : right.Writable) (shorter : left.encode <+: right.encode) : left = right :=
  canonical.eq_of_prefix leftWritable rightWritable shorter

/-- Different writable transactions have different encodings. -/
theorem encode_injective {left right : Transaction} (leftWritable : left.Writable)
    (rightWritable : right.Writable) (same : left.encode = right.encode) : left = right :=
  eq_of_encode_prefix leftWritable rightWritable (same ▸ List.prefix_rfl)

/-- Bytes after the encoding of a transaction are refused. -/
theorem decode_extended {tx : Transaction} (writable : tx.Writable) {rest : ByteString}
    (more : rest ≠ []) : ∃ error, decode (tx.encode ++ rest) = .error error ∧
      error ≠ .beforeInput := by
  apply decode_refuses
  intro other otherWritable encoded
  have same : tx = other :=
    eq_of_encode_prefix writable otherWritable (encoded ▸ List.prefix_append _ _)
  rw [same] at encoded
  exact more (List.append_right_eq_self.mp encoded.symm)

/-- An encoding of a transaction that is cut short is refused. -/
theorem decode_truncated {tx : Transaction} (writable : tx.Writable) {size : Nat}
    (shorter : size < tx.encode.length) : ∃ error, decode (tx.encode.take size) = .error error ∧
      error ≠ .beforeInput := by
  apply decode_refuses
  intro other otherWritable encoded
  have same : other = tx :=
    eq_of_encode_prefix otherWritable writable (encoded ▸ List.take_prefix _ _)
  rw [same] at encoded
  have length := congrArg List.length encoded
  rw [List.length_take] at length
  omega

/-- **The wire format is canonical.** A byte string is either the encoding of the transaction that
it is read as, or refused by the decoder; every transaction that can be written is read back; no
encoding continues another one, so that an encoding with bytes missing or added is refused. -/
theorem wire_format_canonical :
    (∀ data : ByteString,
      (∃ tx, decode data = .ok tx ∧ tx.Writable ∧ tx.encode = data) ∨
        ∃ error, decode data = .error error ∧ error ≠ .beforeInput) ∧
    (∀ tx : Transaction, tx.Writable → decode tx.encode = .ok tx) ∧
    (∀ left right : Transaction, left.Writable → right.Writable → left.encode <+: right.encode →
      left = right) ∧
    ∀ tx : Transaction, tx.Writable →
      (∀ rest : ByteString, rest ≠ [] →
        ∃ error, decode (tx.encode ++ rest) = .error error ∧ error ≠ .beforeInput) ∧
      ∀ size, size < tx.encode.length →
        ∃ error, decode (tx.encode.take size) = .error error ∧ error ≠ .beforeInput := by
  refine ⟨?_, ?_, ?_, ?_⟩
  · intro data
    rcases Classical.em (∃ tx : Transaction, tx.Writable ∧ tx.encode = data) with
      ⟨tx, writable, encoded⟩ | foreign
    · exact .inl ⟨tx, decode_eq_ok_iff.mpr ⟨writable, encoded⟩, writable, encoded⟩
    · exact .inr (decode_refuses fun tx writable encoded => foreign ⟨tx, writable, encoded⟩)
  · exact fun tx writable => decode_eq_ok_iff.mpr ⟨writable, rfl⟩
  · exact fun left right => eq_of_encode_prefix
  · exact fun tx writable => ⟨fun rest more => decode_extended writable more,
      fun size shorter => decode_truncated writable shorter⟩

/-- A transaction with one input and one output is read back, and refused with a byte added. -/
theorem one_to_one_read_back :
    let tx : Transaction :=
      ⟨[⟨FixedBytes.zero 32, emptySignature⟩], [⟨Amount.zero, FixedBytes.zero 32⟩]⟩
    tx.Writable ∧ decode tx.encode = .ok tx ∧
      ∃ error, decode (tx.encode ++ [0]) = .error error ∧ error ≠ .beforeInput := by
  intro tx
  have writable : tx.Writable := by
    constructor
    · exact Compact.le_max_iff.mpr (Nat.one_lt_pow (by decide) (by decide))
    · exact Compact.le_max_iff.mpr (Nat.one_lt_pow (by decide) (by decide))
  obtain ⟨_, readBack, _, refused⟩ := wire_format_canonical
  exact ⟨writable, readBack tx writable, (refused tx writable).1 [0] (List.cons_ne_nil _ _)⟩

end Transaction
end CoinLedger

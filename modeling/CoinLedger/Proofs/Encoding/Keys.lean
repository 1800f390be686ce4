import CoinLedger.Proofs.Encoding.Transaction
import CoinLedger.Transaction.Keys
import Mathlib.Data.List.Basic

/-! # Where keys come from

The keys of a transaction's outputs are the digests of its encoding with one position after
another (`CoinLedger.Transaction.outputKeysFrom_eq_ok_iff`). What is hashed for a genesis coin,
for a reward and for an output of a transaction has different lengths, and each of the three
determines what it was made from.
-/

namespace CoinLedger

/-- An integer is taken as a number of 64 bits exactly when it is one. -/
theorem u64OfInt_eq_ok_iff {value : Int} {number : UInt64} :
    u64OfInt value = .ok number ↔ value = number.toNat := by
  have bound : number.toNat < 2 ^ 64 := number.toNat_lt
  unfold u64OfInt
  constructor
  · intro taken
    split at taken
    · rename_i range
      cases taken
      have fits : value.toNat < 2 ^ 64 := by omega
      rw [UInt64.toNat_ofNat_of_lt' fits]
      omega
    · cases taken
  · rintro rfl
    rw [if_pos (by omega), Int.toNat_natCast, UInt64.ofNat_toNat]

theorem length_u64Bytes (number : UInt64) : (u64Bytes number).length = 8 :=
  littleEndian_length 8 number.toNat

/-- The bytes of a number of 64 bits are read as that number. -/
theorem ofLittleEndian_u64Bytes (number : UInt64) :
    ofLittleEndian (u64Bytes number) = number.toNat :=
  ofLittleEndian_littleEndian number.toNat_lt

/-- Different numbers have different bytes. -/
theorem u64Bytes_inj {left right : UInt64} : u64Bytes left = u64Bytes right ↔ left = right := by
  constructor
  · intro same
    have numbers := congrArg ofLittleEndian same
    rw [ofLittleEndian_u64Bytes, ofLittleEndian_u64Bytes] at numbers
    exact UInt64.toNat_inj.mp numbers
  · rintro rfl
    rfl

/-- Different outputs have different encodings. -/
theorem Output.encode_inj {left right : Output} : left.encode = right.encode ↔ left = right := by
  constructor
  · intro same
    have read := Output.decode_encode left
    rw [same, Output.decode_encode] at read
    cases read
    rfl
  · rintro rfl
    rfl

theorem Output.length_rewardPreimage (coin : Output) (block : UInt64) :
    (coin.rewardPreimage block).length = 56 := by
  rw [Output.rewardPreimage, List.length_append, coin.length_encode, length_u64Bytes]

/-- What is hashed for a reward determines the coin and the block. -/
theorem Output.rewardPreimage_inj {left right : Output} {leftBlock rightBlock : UInt64} :
    left.rewardPreimage leftBlock = right.rewardPreimage rightBlock ↔
      left = right ∧ leftBlock = rightBlock := by
  constructor
  · intro same
    obtain ⟨coins, blocks⟩ := List.append_inj same (by rw [left.length_encode, right.length_encode])
    exact ⟨Output.encode_inj.mp coins, u64Bytes_inj.mp blocks⟩
  · rintro ⟨rfl, rfl⟩
    rfl

theorem length_outputPreimage (encoded : ByteString) (index : UInt64) :
    (outputPreimage encoded index).length = encoded.length + 8 := by
  rw [outputPreimage, List.length_append, length_u64Bytes]

/-- What is hashed for an output determines the encoding of its transaction and its position. -/
theorem outputPreimage_inj {left right : ByteString} {leftIndex rightIndex : UInt64} :
    outputPreimage left leftIndex = outputPreimage right rightIndex ↔
      left = right ∧ leftIndex = rightIndex := by
  constructor
  · intro same
    obtain ⟨encodings, indices⟩ :=
      List.append_inj' same (by rw [length_u64Bytes, length_u64Bytes])
    exact ⟨encodings, u64Bytes_inj.mp indices⟩
  · rintro ⟨rfl, rfl⟩
    rfl

theorem Input.length_encode (input : Input) : input.encode.length = 96 := by
  rw [Input.encode, List.length_append, input.outpoint.length_bytes, input.signature.length_bytes]

namespace Transaction

/-- The encoding of a transaction that spends something is longer than that of a coin. -/
theorem lt_length_encode {tx : Transaction} (spends : tx.inputs ≠ []) : 48 < tx.encode.length := by
  obtain ⟨input, rest, same⟩ := List.exists_cons_of_ne_nil spends
  rw [encode, same, List.flatMap_cons]
  simp only [List.length_append, input.length_encode]
  omega

variable [CoinHash]

/-- Outputs have keys exactly when each has a position, and then the digests with one position after
another. -/
theorem outputKeysFrom_eq_ok_iff {encoded : ByteString} {index : Nat} {outputs : List Output}
    {keys : List Outpoint} :
    outputKeysFrom encoded index outputs = .ok keys ↔
      (outputs = [] ∨ index + outputs.length ≤ 2 ^ 64) ∧
        keys = (List.range' index outputs.length).map fun position =>
          deriveOutputKey encoded (UInt64.ofNat position) := by
  induction outputs generalizing index keys with
  | nil =>
      constructor
      · intro taken
        exact ⟨.inl rfl, (Except.ok.inj taken).symm⟩
      · rintro ⟨_, spelled⟩
        exact congrArg Except.ok spelled.symm
  | cons output outputs inductive_step =>
      simp only [outputKeysFrom, List.length_cons, List.range'_succ, List.map_cons]
      constructor
      · intro taken
        split at taken
        · exact nomatch taken
        · rename_i position fits
          split at taken
          · exact nomatch taken
          · rename_i later read
            obtain ⟨inside, spelled⟩ := inductive_step.mp read
            have number := u64OfInt_eq_ok_iff.mp fits
            have bound := position.toNat_lt
            have same : index = position.toNat := by omega
            refine ⟨.inr ?_, ?_⟩
            · rcases inside with rfl | inside
              · rw [List.length_nil]
                omega
              · omega
            · rw [← Except.ok.inj taken, spelled, same, UInt64.ofNat_toNat]
      · rintro ⟨inside, spelled⟩
        have inside : index + (outputs.length + 1) ≤ 2 ^ 64 :=
          inside.resolve_left (List.cons_ne_nil _ _)
        have small : index < 2 ^ 64 := by omega
        have fits : u64OfInt index = .ok (UInt64.ofNat index) := by
          rw [u64OfInt_eq_ok_iff, UInt64.toNat_ofNat_of_lt' small]
        rw [fits, inductive_step.mpr ⟨.inr (by omega), rfl⟩, spelled]

/-- **A transaction's outputs have keys exactly when each has a position, counted from zero.** -/
theorem outputKeys_eq_ok_iff {tx : Transaction} {keys : List Outpoint} :
    tx.outputKeys = .ok keys ↔
      (tx.outputs = [] ∨ tx.outputs.length ≤ 2 ^ 64) ∧
        keys = (List.range' 0 tx.outputs.length).map fun position =>
          deriveOutputKey tx.encode (UInt64.ofNat position) := by
  rw [outputKeys, outputKeysFrom_eq_ok_iff, Nat.zero_add]

/-- There is a key for each output. -/
theorem length_outputKeys {tx : Transaction} {keys : List Outpoint}
    (derived : tx.outputKeys = .ok keys) : keys.length = tx.outputs.length := by
  obtain ⟨_, rfl⟩ := outputKeys_eq_ok_iff.mp derived
  rw [List.length_map, List.length_range']

end Transaction
end CoinLedger

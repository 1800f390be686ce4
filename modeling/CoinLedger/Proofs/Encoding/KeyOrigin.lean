import CoinLedger.Proofs.Encoding.Keys

/-! # Keys tell where they come from

What is hashed for a key does not say which kind of key it is. The kinds are apart by their lengths:
the bytes of a genesis coin are 48, those of a reward are 56, and those of an output are eight more
than the encoding of its transaction, which is two bytes long or longer than a coin. Within a kind
the encodings determine what they encode. So what is hashed determines the origin of a key
(`CoinLedger.KeyOrigin.preimage_injective`), and equal keys of different origins are a collision of
the hash function (`CoinLedger.KeyOrigin.keys_tell_their_origin`).
-/

namespace CoinLedger

theorem Compact.length_encode_pos (value : Nat) : 0 < (Compact.encode value).length := by
  unfold Compact.encode
  split_ifs <;> simp only [List.length_append, littleEndian_length] <;> omega

theorem Compact.length_encode_zero : (Compact.encode 0).length = 1 := by decide

namespace Transaction

/-- The length of a transaction is that of its counts, 96 bytes for each input and 48 for each
output. -/
theorem length_encode (tx : Transaction) :
    tx.encode.length = (Compact.encode tx.inputs.length).length + 96 * tx.inputs.length +
      ((Compact.encode tx.outputs.length).length + 48 * tx.outputs.length) := by
  have inputs : (tx.inputs.flatMap Input.encode).length = 96 * tx.inputs.length := by
    rw [List.length_flatMap, List.map_congr_left fun input _ => input.length_encode,
      List.map_const', List.sum_replicate_nat, Nat.mul_comm]
  have outputs : (tx.outputs.flatMap Output.encode).length = 48 * tx.outputs.length := by
    rw [List.length_flatMap, List.map_congr_left fun output _ => output.length_encode,
      List.map_const', List.sum_replicate_nat, Nat.mul_comm]
  simp only [encode, List.length_append, inputs, outputs]

/-- The encoding of a transaction with neither inputs nor outputs is two bytes long, and that of any
other is longer than that of a coin. -/
theorem length_encode_cases (tx : Transaction) : tx.encode.length = 2 ∨ 48 < tx.encode.length := by
  rcases Nat.eq_zero_or_pos tx.inputs.length with spends | spends
  · rcases Nat.eq_zero_or_pos tx.outputs.length with creates | creates
    · left
      rw [length_encode, spends, creates, Compact.length_encode_zero]
    · right
      have counted := Compact.length_encode_pos tx.outputs.length
      rw [length_encode, spends, Compact.length_encode_zero]
      omega
  · exact .inr (lt_length_encode (List.ne_nil_of_length_pos spends))

end Transaction

/-- Where the key of a coin comes from. -/
inductive KeyOrigin where
  /-- A coin that is seeded at genesis. -/
  | genesis (coin : Output)
  /-- A coin that is paid as a reward in a block. -/
  | reward (coin : Output) (block : UInt64)
  /-- The output at a position of a transaction. -/
  | output (tx : Transaction) (index : UInt64)

namespace KeyOrigin

/-- What is hashed for a key. -/
def preimage : KeyOrigin → ByteString
  | genesis coin => coin.encode
  | reward coin block => coin.rewardPreimage block
  | output tx index => outputPreimage tx.encode index

/-- The key of a coin with an origin. -/
def key [CoinHash] : KeyOrigin → Outpoint
  | genesis coin => coin.genesisKey
  | reward coin block => coin.rewardKey block
  | output tx index => deriveOutputKey tx.encode index

/-- A transaction that a key comes from can be written. -/
def Writable : KeyOrigin → Prop
  | genesis _ => True
  | reward _ _ => True
  | output tx _ => tx.Writable

/-- Every key is the digest of what is hashed for it. -/
theorem key_eq_digest [CoinHash] (origin : KeyOrigin) :
    origin.key = CoinHash.digest origin.preimage := by
  cases origin <;> rfl

/-- What is hashed for a genesis coin is not hashed for a reward. -/
theorem encode_ne_rewardPreimage (coin other : Output) (block : UInt64) :
    coin.encode ≠ other.rewardPreimage block := by
  intro same
  have lengths := congrArg List.length same
  rw [coin.length_encode, other.length_rewardPreimage] at lengths
  omega

/-- What is hashed for a genesis coin is not hashed for an output. -/
theorem encode_ne_outputPreimage (coin : Output) (tx : Transaction) (index : UInt64) :
    coin.encode ≠ outputPreimage tx.encode index := by
  intro same
  have lengths := congrArg List.length same
  have cases := tx.length_encode_cases
  rw [coin.length_encode, length_outputPreimage] at lengths
  omega

/-- What is hashed for a reward is not hashed for an output. -/
theorem rewardPreimage_ne_outputPreimage (coin : Output) (block : UInt64) (tx : Transaction)
    (index : UInt64) : coin.rewardPreimage block ≠ outputPreimage tx.encode index := by
  intro same
  have lengths := congrArg List.length same
  have cases := tx.length_encode_cases
  rw [coin.length_rewardPreimage, length_outputPreimage] at lengths
  omega

/-- What is hashed for an output determines its transaction and its position. -/
theorem outputPreimage_encode_inj {left right : Transaction} (leftWritable : left.Writable)
    (rightWritable : right.Writable) {leftIndex rightIndex : UInt64} :
    outputPreimage left.encode leftIndex = outputPreimage right.encode rightIndex ↔
      left = right ∧ leftIndex = rightIndex := by
  rw [outputPreimage_inj]
  refine and_congr_left fun _ => ⟨Transaction.encode_injective leftWritable rightWritable, ?_⟩
  exact congrArg Transaction.encode

/-- **What is hashed for a key determines where the key comes from.** -/
theorem preimage_injective {left right : KeyOrigin} (leftWritable : left.Writable)
    (rightWritable : right.Writable) (same : left.preimage = right.preimage) : left = right := by
  cases left with
  | genesis coin =>
      cases right with
      | genesis other => rw [Output.encode_inj.mp same]
      | reward other block => exact absurd same (encode_ne_rewardPreimage coin other block)
      | output tx index => exact absurd same (encode_ne_outputPreimage coin tx index)
  | reward coin block =>
      cases right with
      | genesis other => exact absurd same.symm (encode_ne_rewardPreimage other coin block)
      | reward other later =>
          obtain ⟨coins, blocks⟩ := Output.rewardPreimage_inj.mp same
          rw [coins, blocks]
      | output tx index => exact absurd same (rewardPreimage_ne_outputPreimage coin block tx index)
  | output tx index =>
      cases right with
      | genesis other => exact absurd same.symm (encode_ne_outputPreimage other tx index)
      | reward other block =>
          exact absurd same.symm (rewardPreimage_ne_outputPreimage other block tx index)
      | output other position =>
          obtain ⟨transactions, positions⟩ :=
            (outputPreimage_encode_inj leftWritable rightWritable).mp same
          rw [transactions, positions]

/-- **The kinds of keys are separated.** What is hashed for the key of a genesis coin, of a reward
and of an output determines the coin, the coin and the block, and the transaction and the position,
where a transaction is any that can be written; and what is hashed for one kind of key is never
hashed for another kind. So under every hash function, two keys that are equal have the same origin,
or what is hashed for them are two distinct byte strings with one digest. -/
theorem keys_tell_their_origin :
    (∀ left right : Output, left.encode = right.encode ↔ left = right) ∧
    (∀ (left right : Output) (leftBlock rightBlock : UInt64),
      left.rewardPreimage leftBlock = right.rewardPreimage rightBlock ↔
        left = right ∧ leftBlock = rightBlock) ∧
    (∀ left right : Transaction, left.Writable → right.Writable →
      ∀ leftIndex rightIndex : UInt64,
        outputPreimage left.encode leftIndex = outputPreimage right.encode rightIndex ↔
          left = right ∧ leftIndex = rightIndex) ∧
    (∀ (coin other : Output) (block : UInt64), coin.encode ≠ other.rewardPreimage block) ∧
    (∀ (coin : Output) (tx : Transaction) (index : UInt64),
      coin.encode ≠ outputPreimage tx.encode index) ∧
    (∀ (coin : Output) (block : UInt64) (tx : Transaction) (index : UInt64),
      coin.rewardPreimage block ≠ outputPreimage tx.encode index) ∧
    ∀ [CoinHash] (left right : KeyOrigin), left.Writable → right.Writable → left.key = right.key →
      left = right ∨
        (left.preimage ≠ right.preimage ∧
          CoinHash.digest left.preimage = CoinHash.digest right.preimage) := by
  refine ⟨fun left right => Output.encode_inj,
    fun left right leftBlock rightBlock => Output.rewardPreimage_inj,
    fun left right leftWritable rightWritable leftIndex rightIndex =>
      outputPreimage_encode_inj leftWritable rightWritable,
    encode_ne_rewardPreimage, encode_ne_outputPreimage, rewardPreimage_ne_outputPreimage, ?_⟩
  intro _ left right leftWritable rightWritable same
  rw [key_eq_digest, key_eq_digest] at same
  by_cases hashed : left.preimage = right.preimage
  · exact .inl (preimage_injective leftWritable rightWritable hashed)
  · exact .inr ⟨hashed, same⟩

/-- Under a hash function with one digest a reward and the output of a transaction without inputs
have the same key, and what is hashed for them is a collision. -/
theorem reward_collides_with_output :
    let hash : CoinHash := ⟨fun _ => FixedBytes.zero 32⟩
    let coin : Output := ⟨Amount.zero, FixedBytes.zero 32⟩
    let left : KeyOrigin := .reward coin 7
    let right : KeyOrigin := .output ⟨[], [coin]⟩ 0
    left.Writable ∧ right.Writable ∧ left.key = right.key ∧ left.preimage ≠ right.preimage ∧
      hash.digest left.preimage = hash.digest right.preimage := by
  intro hash coin left right
  have few (count : Nat) (small : count < 2) : count ≤ Compact.max :=
    Compact.le_max_iff.mpr (Nat.lt_trans small (by decide))
  have rightWritable : right.Writable := ⟨few 0 (by decide), few 1 (by decide)⟩
  obtain ⟨_, _, _, _, _, _, origins⟩ := keys_tell_their_origin
  have collides := (origins left right trivial rightWritable rfl).resolve_left
    (fun same => nomatch same)
  exact ⟨trivial, rightWritable, rfl, collides⟩

end KeyOrigin
end CoinLedger

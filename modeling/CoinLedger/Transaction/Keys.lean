import CoinLedger.Transaction.Basic

/-! # Keys of coins

A coin is stored under a digest that is derived from where it comes from: a genesis coin from its
own encoding, a reward from its encoding and the number of the block that pays it, and an output of
a transaction from the encoding of the transaction and the position of the output.
-/

namespace CoinLedger

variable [CoinHash]

/-- The bytes whose digest names a reward. -/
def Output.rewardPreimage (output : Output) (block : UInt64) : ByteString :=
  output.encode ++ u64Bytes block

/-- The bytes whose digest names an output of a transaction with the given encoding. -/
def outputPreimage (encoded : ByteString) (index : UInt64) : ByteString :=
  encoded ++ u64Bytes index

/-- The key of an output that is seeded at genesis. -/
def Output.genesisKey (output : Output) : Outpoint := CoinHash.digest output.encode

/-- The key of an output that is paid as a reward in a block. -/
def Output.rewardKey (output : Output) (block : UInt64) : Outpoint :=
  CoinHash.digest (output.rewardPreimage block)

/-- The key of the output at a position of a transaction with the given encoding. -/
def deriveOutputKey (encoded : ByteString) (index : UInt64) : Outpoint :=
  CoinHash.digest (outputPreimage encoded index)

namespace Transaction

/-- The digest that identifies the transaction in logs and events. -/
def id (tx : Transaction) : Digest := CoinHash.digest tx.encode

/-- The key of the output at a position, which need not be a position of an output. -/
def outputKey (tx : Transaction) (index : Int) : Except InvalidValue Outpoint := do
  let index ← u64OfInt index
  pure (deriveOutputKey tx.encode index)

/-- The keys of the outputs of a transaction with the given encoding, from a position on. -/
def outputKeysFrom (encoded : ByteString) : (index : Nat) → (outputs : List Output) →
    Except InvalidValue (List Outpoint)
  | _, [] => .ok []
  | index, _ :: outputs =>
      match u64OfInt index with
      | .error error => .error error
      | .ok position =>
          match outputKeysFrom encoded (index + 1) outputs with
          | .error error => .error error
          | .ok keys => .ok (deriveOutputKey encoded position :: keys)

/-- The keys of all outputs, in order. -/
def outputKeys (tx : Transaction) : Except InvalidValue (List Outpoint) :=
  outputKeysFrom tx.encode 0 tx.outputs

/-- A short description of a transaction. -/
def summary (tx : Transaction) : String :=
  s!"Transaction(id={Hex.short tx.id.bytes}, inputs={tx.inputs.length}, " ++
    s!"outputs={tx.outputs.length})"

end Transaction
end CoinLedger

import CoinLedger.Amount
import CoinLedger.Text.Hex

/-! # Transactions

A transaction spends coins that exist and creates new ones. Its encoding is canonical: the number of
inputs, the inputs, the number of outputs, the outputs. Signatures cannot cover themselves, so every
input signs the encoding in which all signatures are replaced by zeros.
-/

namespace CoinLedger

-- Sums start at the zero of the core library, also where others are in scope.
attribute [local instance (high)] Zero.ofOfNat0

/-- The signature of an input that is not signed yet. -/
def emptySignature : Signature := FixedBytes.zero 64

/-- A reference to a coin that is spent, with its owner's signature. -/
@[ext] structure Input where
  /-- The coin that is spent. -/
  outpoint : Outpoint
  /-- The owner's signature over the signing image. -/
  signature : Signature
  deriving DecidableEq

/-- A coin: an amount and the public key of its owner. -/
@[ext] structure Output where
  /-- The amount. -/
  value : Amount
  /-- The public key of the owner. -/
  owner : PublicKey
  deriving DecidableEq

/-- An atomic change of the coin set. -/
@[ext] structure Transaction where
  /-- The coins that are spent, in order. -/
  inputs : List Input
  /-- The coins that are created, in order. -/
  outputs : List Output
  deriving DecidableEq

namespace Input

/-- The bytes of an input: the outpoint and the signature. -/
def encode (input : Input) : ByteString := input.outpoint.bytes ++ input.signature.bytes

/-- The input without its signature. -/
def unsigned (input : Input) : Input := { input with signature := emptySignature }

/-- Read an input. -/
def decoder : Decoder Input := do
  let outpoint ← Decoder.fixed 32
  let signature ← Decoder.fixed 64
  pure { outpoint, signature }

/-- The input with the given bytes. -/
def decode (data : ByteString) : Except DecodeError Input := decoder.whole data

/-- An input made from values of any kind. -/
def ofLoose (outpoint signature : Loose) : Except InvalidValue Input := do
  let outpoint ← outpoint.toFixedBytes "outpoint" 32
  let signature ← signature.toFixedBytes "sigscript" 64
  pure { outpoint, signature }

/-- Inputs are ordered by their outpoints, then by their signatures. -/
def precedes (left right : Input) : Bool :=
  left.outpoint < right.outpoint ∨
    (left.outpoint = right.outpoint ∧ left.signature < right.signature)

/-- Inputs in ascending order. -/
def sort (inputs : List Input) : List Input :=
  inputs.mergeSort fun left right => !right.precedes left

end Input

namespace Output

/-- The bytes of an output: the amount and the owner. -/
def encode (output : Output) : ByteString := output.value.encode ++ output.owner.bytes

/-- Read an output. -/
def decoder : Decoder Output := do
  let value ← Decoder.fixed 16
  let owner ← Decoder.fixed 32
  pure { value := Amount.decode value, owner }

/-- The output with the given bytes. -/
def decode (data : ByteString) : Except DecodeError Output := decoder.whole data

/-- An output made from values of any kind. The amount is checked before the owner. -/
def ofLoose (value owner : Loose) : Except InvalidValue Output := do
  let value ←
    match value with
    | .integer amount => Amount.ofInt "value" amount
    | other => .error (.wrongKind "value" "int" other.kind)
  let owner ← owner.toFixedBytes "pubkey" 32
  pure { value, owner }

/-- Outputs are ordered by their amounts, then by their owners. -/
def precedes (left right : Output) : Bool :=
  left.value.toNat < right.value.toNat ∨
    (left.value = right.value ∧ left.owner < right.owner)

/-- Outputs in ascending order. -/
def sort (outputs : List Output) : List Output :=
  outputs.mergeSort fun left right => !right.precedes left

/-- A short description of an output. -/
def summary (output : Output) : String :=
  s!"TransactionOutput(value={output.value.toNat}, pubkey={Hex.short output.owner.bytes})"

end Output

namespace Transaction

/-- The canonical encoding. -/
def encode (tx : Transaction) : ByteString :=
  Compact.encode tx.inputs.length ++ tx.inputs.flatMap Input.encode ++
    (Compact.encode tx.outputs.length ++ tx.outputs.flatMap Output.encode)

/-- Read a transaction. -/
def decoder : Decoder Transaction := do
  let inputCount ← Decoder.compact
  let inputs ← Decoder.repeated Input.decoder inputCount
  let outputCount ← Decoder.compact
  let outputs ← Decoder.repeated Output.decoder outputCount
  pure { inputs, outputs }

/-- The transaction that a whole byte string encodes. -/
def decode (data : ByteString) : Except DecodeError Transaction := decoder.whole data

/-- The transaction without its signatures. -/
def unsigned (tx : Transaction) : Transaction :=
  { tx with inputs := tx.inputs.map Input.unsigned }

/-- What every input signs: the encoding with all signatures replaced by zeros. -/
def signingImage (tx : Transaction) : ByteString := tx.unsigned.encode

/-- The coins that the transaction spends. -/
def outpoints (tx : Transaction) : List Outpoint := tx.inputs.map Input.outpoint

/-- The sum of the amounts of the outputs. -/
def totalOutput (tx : Transaction) : Nat := (tx.outputs.map fun output => output.value.toNat).sum

end Transaction
end CoinLedger

import CoinLedger.Text.Hex

/-! # Why a transaction is rejected

Each reason belongs to one rule; the number of the rule is the reason's code. A reason is worded
from the texts of its details.
-/

namespace CoinLedger

/-- The rules that a transaction can break. -/
inductive RejectionKind where
  | empty
  | duplicateInput
  | duplicateOutput
  | zeroOutputValue
  | missingInput
  | invalidSignature
  | overflow
  | negativeFee
  | outputAlreadyExists
  | indexOverflow
  deriving DecidableEq, Repr

namespace RejectionKind

/-- The rules, in the order of their numbers. -/
def all : List RejectionKind :=
  [empty, duplicateInput, duplicateOutput, zeroOutputValue, missingInput, invalidSignature,
    overflow, negativeFee, outputAlreadyExists, indexOverflow]

/-- The number of a rule. -/
def code : RejectionKind → Nat
  | empty => 1
  | duplicateInput => 2
  | duplicateOutput => 3
  | zeroOutputValue => 4
  | missingInput => 5
  | invalidSignature => 6
  | overflow => 7
  | negativeFee => 8
  | outputAlreadyExists => 9
  | indexOverflow => 10

/-- The name of a rule. -/
def name : RejectionKind → String
  | empty => "EMPTY"
  | duplicateInput => "DUPLICATE_INPUT"
  | duplicateOutput => "DUPLICATE_OUTPUT"
  | zeroOutputValue => "ZERO_OUTPUT_VALUE"
  | missingInput => "MISSING_INPUT"
  | invalidSignature => "INVALID_SIGNATURE"
  | overflow => "OVERFLOW"
  | negativeFee => "NEGATIVE_FEE"
  | outputAlreadyExists => "OUTPUT_ALREADY_EXISTS"
  | indexOverflow => "INDEX_OVERFLOW"

/-- What is said of a transaction that breaks a rule, given the texts of the details; `write` makes
such a text of words. -/
def wording {α : Type} [Append α] (write : String → α) (kind : RejectionKind)
    (texts : List α) : α :=
  let first := texts.headD (write "")
  let second := (texts.drop 1).headD (write "")
  match kind with
  | empty => write "Transaction has no " ++ first
  | duplicateInput => write "Outpoint " ++ first ++ write " referenced twice"
  | duplicateOutput => write "Output " ++ first ++ write " duplicates an earlier output"
  | zeroOutputValue => write "Output " ++ first ++ write " has zero value"
  | missingInput => write "Outpoint " ++ first ++ write " is not in the UTXO set"
  | invalidSignature => write "Input " ++ first ++ write ": invalid signature"
  | overflow => texts.headD (write "overflow")
  | negativeFee => write "Outputs exceed inputs: " ++ second ++ write " > " ++ first
  | outputAlreadyExists => write "Output key " ++ first ++ write " already exists"
  | indexOverflow => texts.headD (write "index_overflow")

end RejectionKind

/-- A reason for rejecting a transaction. -/
inductive Rejection where
  /-- There are no inputs, or no outputs. -/
  | empty (side : String)
  /-- Two inputs spend one coin. -/
  | duplicateInput (outpoint : ByteString)
  /-- Two outputs are equal. -/
  | duplicateOutput (index : Nat)
  /-- An output has no value. -/
  | zeroOutputValue (index : Nat)
  /-- A coin that is spent does not exist. -/
  | missingInput (outpoint : ByteString)
  /-- A signature does not verify. -/
  | invalidSignature (index : Nat)
  /-- A sum does not fit in 128 bits. -/
  | overflow (detail : String)
  /-- The outputs are worth more than the inputs. -/
  | negativeFee (inputSum outputSum : Int)
  /-- A coin with the key of an output exists. -/
  | outputAlreadyExists (key : ByteString)
  /-- There are too many outputs to number them. -/
  | indexOverflow (detail : String)
  deriving DecidableEq, Repr

namespace Rejection

/-- The rule that a reason belongs to. -/
def kind : Rejection → RejectionKind
  | empty _ => .empty
  | duplicateInput _ => .duplicateInput
  | duplicateOutput _ => .duplicateOutput
  | zeroOutputValue _ => .zeroOutputValue
  | missingInput _ => .missingInput
  | invalidSignature _ => .invalidSignature
  | overflow _ => .overflow
  | negativeFee _ _ => .negativeFee
  | outputAlreadyExists _ => .outputAlreadyExists
  | indexOverflow _ => .indexOverflow

/-- The texts of the details of a reason. An empty one says nothing about a sum or a number. -/
def texts : Rejection → List String
  | empty side => [side]
  | duplicateInput outpoint | missingInput outpoint => [Hex.encode outpoint]
  | duplicateOutput index | zeroOutputValue index | invalidSignature index => [toString index]
  | overflow detail | indexOverflow detail => if detail.isEmpty then [] else [detail]
  | negativeFee inputSum outputSum => [toString inputSum, toString outputSum]
  | outputAlreadyExists key => [Hex.encode key]

/-- The wording of a reason. -/
def message (reason : Rejection) : String := reason.kind.wording id reason.texts

end Rejection
end CoinLedger

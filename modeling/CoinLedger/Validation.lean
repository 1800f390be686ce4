import CoinLedger.CoinSet
import CoinLedger.Rejection.Basic

/-! # Admissibility of transactions

Validation reads a view of the coins and never writes. Its rules run in a fixed order, so that every
replica reports the same reason for the same transaction: neither side empty, no coin spent twice,
no two equal outputs, no output without value, every coin present, every signature valid, both sums
within 128 bits, no more going out than coming in, and no key of an output taken.
-/

namespace CoinLedger

/-- Why an operation of the ledger fails. -/
inductive LedgerError where
  /-- A transaction breaks a rule. -/
  | rejected (reason : Rejection)
  /-- A cell of the host's state does not hold a coin. -/
  | malformedCell (reason : DecodeError)
  /-- A value is refused. -/
  | invalid (reason : InvalidValue)
  /-- The chain has its genesis coins already. -/
  | genesisDone
  deriving DecidableEq

/-- The wording of a failure. -/
def LedgerError.message : LedgerError → String
  | rejected reason => reason.message
  | malformedCell reason => reason.message
  | invalid reason => reason.message
  | genesisDone => "Genesis already initialized"

/-- A read-only look-up of coins. A look-up fails where a stored coin cannot be read. -/
abbrev CoinView := Outpoint → Except DecodeError (Option Output)

/-- The look-up that finds the coins of a map. -/
def CoinView.ofMap (coins : Outpoint → Option Output) : CoinView := fun key => .ok (coins key)

/-- A rejection as an error of the ledger. -/
def reject {α : Type} : Except Rejection α → Except LedgerError α
  | .ok value => .ok value
  | .error reason => .error (.rejected reason)

/-- The sum of two integers, if it does not exceed 128 bits. -/
def checkedAdd (left right : Int) : Except Rejection Int :=
  if left + right < amountBound then .ok (left + right)
  else .error (.overflow s!"u128 overflow: {left} + {right}")

/-- A running total with integers added one after another, as long as it does not exceed 128
bits. -/
def checkedSumFrom (total : Int) : List Int → Except Rejection Int
  | [] => .ok total
  | value :: values =>
      match checkedAdd total value with
      | .error reason => .error reason
      | .ok total => checkedSumFrom total values

/-- The sum of integers, if no partial sum exceeds 128 bits. -/
def checkedSum (values : List Int) : Except Rejection Int := checkedSumFrom 0 values

/-- The sum of the amounts of coins, if every partial sum fits in 128 bits. -/
def checkedTotal (coins : List Output) : Except Rejection Int :=
  checkedSum (coins.map fun coin => coin.value.toNat)

/-- The first item that equals an earlier one or one seen before, with its position. -/
def firstRepeat? {α : Type} [DecidableEq α] (seen : List α) (position : Nat) :
    List α → Option (Nat × α)
  | [] => none
  | item :: items =>
      if item ∈ seen then some (position, item)
      else firstRepeat? (item :: seen) (position + 1) items

/-- The rules that need no look-up. -/
def checkStructure (tx : Transaction) : Except Rejection Unit :=
  if tx.inputs = [] then .error (.empty "inputs")
  else if tx.outputs = [] then .error (.empty "outputs")
  else
    match firstRepeat? [] 0 tx.outpoints with
    | some (_, outpoint) => .error (.duplicateInput outpoint.bytes)
    | none =>
        match firstRepeat? [] 0 tx.outputs with
        | some (index, _) => .error (.duplicateOutput index)
        | none =>
            match tx.outputs.findIdx? fun output => output.value.toNat = 0 with
            | some index => .error (.zeroOutputValue index)
            | none => .ok ()

/-- The coins that inputs refer to, in order. -/
def resolve (view : CoinView) : List Input → Except LedgerError (List Output)
  | [] => .ok []
  | input :: inputs =>
      match view input.outpoint with
      | .error reason => .error (.malformedCell reason)
      | .ok none => .error (.rejected (.missingInput input.outpoint.bytes))
      | .ok (some coin) =>
          match resolve view inputs with
          | .error error => .error error
          | .ok coins => .ok (coin :: coins)

/-- Check the signature of each input against the owner of its coin. -/
def checkSignatures (verify : Verifier) (image : ByteString) (index : Nat) :
    List (Input × Output) → Except Rejection Unit
  | [] => .ok ()
  | (input, coin) :: rest =>
      if verify input.signature image coin.owner then checkSignatures verify image (index + 1) rest
      else .error (.invalidSignature index)

/-- The fee that sums of inputs and outputs leave. -/
def feeOf (coins outputs : List Output) : Except Rejection Nat :=
  match checkedTotal coins with
  | .error reason => .error reason
  | .ok inputSum =>
      match checkedTotal outputs with
      | .error reason => .error reason
      | .ok outputSum =>
          if inputSum < outputSum then .error (.negativeFee inputSum outputSum)
          else .ok (inputSum - outputSum).toNat

/-- Check that no coin has one of the given keys. -/
def checkKeys (view : CoinView) : List Outpoint → Except LedgerError Unit
  | [] => .ok ()
  | key :: keys =>
      match view key with
      | .error reason => .error (.malformedCell reason)
      | .ok (some _) => .error (.rejected (.outputAlreadyExists key.bytes))
      | .ok none => checkKeys view keys

section

variable [CoinHash]

/-- Check that the keys of all outputs are free, and give them. -/
def checkFresh (view : CoinView) (tx : Transaction) : Except LedgerError (List Outpoint) :=
  match tx.outputKeys with
  | .error reason => .error (.invalid reason)
  | .ok keys =>
      match checkKeys view keys with
      | .error error => .error error
      | .ok () => .ok keys

/-- Validate a transaction against a view; the result is its fee. -/
def validate (verify : Verifier) (view : CoinView) (tx : Transaction) : Except LedgerError Nat := do
  reject (checkStructure tx)
  let coins ← resolve view tx.inputs
  reject (checkSignatures verify tx.signingImage 0 (tx.inputs.zip coins))
  let fee ← reject (feeOf coins tx.outputs)
  let _ ← checkFresh view tx
  pure fee

/-- What a pool of waiting transactions needs to know about one of them. -/
structure Validity where
  /-- The coins that have to appear before the transaction can apply. -/
  requires : List Outpoint
  /-- The keys of the coins that it creates. -/
  provides : List Outpoint
  /-- Its fee if nothing is missing, else zero. -/
  priority : Nat
  /-- The number of blocks for which it stays valid. -/
  longevity : Int
  /-- Whether it should be passed on to peers. -/
  propagate : Bool
  deriving DecidableEq

/-- Whether a transaction can apply now. -/
def Validity.isReady (validity : Validity) : Bool := validity.requires.isEmpty

/-- Divide inputs into the outpoints of missing coins and the coins that are there, whose owners'
signatures are checked on the way. -/
def divideInputs (verify : Verifier) (view : CoinView) (image : ByteString) (index : Nat) :
    List Input → Except LedgerError (List Outpoint × List Output)
  | [] => .ok ([], [])
  | input :: inputs =>
      match view input.outpoint with
      | .error reason => .error (.malformedCell reason)
      | .ok none =>
          match divideInputs verify view image (index + 1) inputs with
          | .error error => .error error
          | .ok (missing, coins) => .ok (input.outpoint :: missing, coins)
      | .ok (some coin) =>
          if verify input.signature image coin.owner then
            match divideInputs verify view image (index + 1) inputs with
            | .error error => .error error
            | .ok (missing, coins) => .ok (missing, coin :: coins)
          else .error (.rejected (.invalidSignature index))

/-- Tag a transaction for a pool. Missing coins are required instead of refused, and sums are looked
at only when nothing is missing. -/
def poolValidity (verify : Verifier) (longevity : Int) (view : CoinView) (tx : Transaction) :
    Except LedgerError Validity := do
  reject (checkStructure tx)
  let (requires, coins) ← divideInputs verify view tx.signingImage 0 tx.inputs
  let provides ← checkFresh view tx
  let priority ← if requires = [] then reject (feeOf coins tx.outputs) else pure 0
  pure { requires, provides, priority, longevity, propagate := true }

end
end CoinLedger

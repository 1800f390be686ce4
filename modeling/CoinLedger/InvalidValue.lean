import CoinLedger.Identifier
import CoinLedger.Loose.Basic
import CoinLedger.Text.Hex

/-! # Values that are refused

The reasons for which a value handed to the ledger is not acceptable, and the checks that turn loose
values into typed ones.
-/

namespace CoinLedger

-- Powers are those of the core library, also where others are in scope.
attribute [local instance (high)] instPowNat

/-- Why a value is refused. -/
inductive InvalidValue where
  /-- An integer does not fit the named form. -/
  | outOfRange (form : String) (value : Int)
  /-- A named value is of the wrong kind. -/
  | wrongKind (name expected found : String)
  /-- A byte string is given by a text that is not hexadecimal. -/
  | malformedHex (reason : Hex.Malformed)
  /-- A named byte string has the wrong length. -/
  | wrongLength (name : String) (size found : Nat)
  /-- A named amount does not fit in 128 bits. -/
  | tooWide (name : String) (value : Int)
  /-- A genesis output has no value. -/
  | zeroGenesisOutput (index : Nat)
  /-- A genesis output has the key of a coin that exists. -/
  | duplicateGenesisKey (index : Nat) (key : String)
  /-- A block is to be finalized and nothing tells its number. -/
  | noBlockNumber
  /-- The number of signing keys differs from the number of inputs. -/
  | signerCount (signers inputs : Nat)
  /-- No call has this name. -/
  | unknownCall (name : String)
  deriving DecidableEq, Repr

/-- The wording of a refusal. -/
def InvalidValue.message : InvalidValue → String
  | outOfRange form value => s!"{form} out of range: {value}"
  | wrongKind name expected found => s!"{name} must be {expected}, got {found}"
  | malformedHex reason => reason.message
  | wrongLength name size found => s!"{name} must be {size} bytes, got {found}"
  | tooWide name value => s!"{name} must fit in u128, got {value}"
  | zeroGenesisOutput index => s!"Genesis output {index} has zero value"
  | duplicateGenesisKey index key => s!"Genesis output {index} duplicates key {key}"
  | noBlockNumber => "No block number given and no block-number source configured"
  | signerCount signers inputs => s!"Need one keypair per input: {signers} != {inputs}"
  | unknownCall name => s!"Unknown call: {name}"

/-- A byte string of exactly `size` bytes. -/
def FixedBytes.ofBytes (name : String) (size : Nat) (bytes : ByteString) :
    Except InvalidValue (FixedBytes size) :=
  if fits : bytes.length = size then .ok ⟨bytes, fits⟩
  else .error (.wrongLength name size bytes.length)

/-- A value that has to be a byte string of exactly `size` bytes. -/
def Loose.toFixedBytes (name : String) (size : Nat) (value : Loose) :
    Except InvalidValue (FixedBytes size) :=
  match value with
  | bytes content => FixedBytes.ofBytes name size content
  | other => .error (.wrongKind name "bytes" other.kind)

/-- An integer that has to fit in 64 bits. -/
def u64OfInt (value : Int) : Except InvalidValue UInt64 :=
  if 0 ≤ value ∧ value.toNat < 2 ^ (64 : Nat) then .ok (UInt64.ofNat value.toNat)
  else .error (.outOfRange "u64" value)

/-- The eight bytes of a 64-bit integer. -/
def u64Bytes (value : UInt64) : ByteString := littleEndian 8 value.toNat

end CoinLedger

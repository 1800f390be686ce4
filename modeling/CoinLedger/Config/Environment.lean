import CoinLedger.FileName

/-! # Environment variables

Names and values of variables consist of bytes. They are received as names of files are: a byte that
is no part of a character is a surrogate of its own.
-/

namespace CoinLedger

/-- Environment variables with their values. The first value of a name counts. -/
abbrev Environment := List (Text.Raw × Text.Raw)

/-- Why a variable cannot be set. -/
inductive VariableFault where
  /-- The name or the value has a code point that has no bytes. -/
  | illFormed
  /-- The name or the value has the null character in it, or the name an equals sign. -/
  | forbidden
  /-- The name is empty. -/
  | nameless
  deriving DecidableEq, Repr

namespace Environment

/-- Set a variable to a value. Both are received as their bytes read. -/
def set (environment : Environment) (name value : Text.Raw) : Except VariableFault Environment :=
  match FileName.ofPoints? name.points, FileName.ofPoints? value.points with
  | some name, some value =>
      if 0 ∈ name ∨ 0 ∈ value ∨ UInt8.ofNat '='.toNat ∈ name then .error .forbidden
      else if name.isEmpty then .error .nameless
      else .ok ((FileName.toRaw name, FileName.toRaw value) :: environment)
  | _, _ => .error .illFormed

end Environment
end CoinLedger

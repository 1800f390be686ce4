import CoinLedger.Compact
import CoinLedger.InvalidValue

/-! # Amounts and checked sums

Amounts of money are unsigned integers of 128 bits. Sums of amounts are checked: a partial sum that
leaves 128 bits is an error, never a smaller amount.
-/

namespace CoinLedger

-- Powers are those of the core library, also where others are in scope.
attribute [local instance (high)] instPowNat

/-- The first integer that does not fit in 128 bits. -/
def amountBound : Nat := 2 ^ (128 : Nat)

/-- An unsigned integer of 128 bits. -/
@[ext] structure Amount where
  /-- The amount as a natural number. -/
  toNat : Nat
  /-- It fits in 128 bits. -/
  toNat_lt : toNat < amountBound
  deriving DecidableEq

namespace Amount

/-- The amount of nothing. -/
def zero : Amount := ⟨0, by decide⟩

instance : Inhabited Amount := ⟨zero⟩

/-- An integer that has to be an amount, under the name that a refusal gives it. -/
def ofInt (name : String) (value : Int) : Except InvalidValue Amount :=
  if fits : 0 ≤ value ∧ value.toNat < amountBound then .ok ⟨value.toNat, fits.2⟩
  else .error (.tooWide name value)

/-- The sixteen bytes of an amount. -/
def encode (amount : Amount) : ByteString := littleEndian 16 amount.toNat

/-- The amount whose sixteen bytes are given. -/
def decode (bytes : FixedBytes 16) : Amount :=
  ⟨ofLittleEndian bytes.bytes, by
    have bound := ofLittleEndian_lt bytes.bytes
    rw [bytes.length_bytes] at bound
    exact bound⟩

end Amount

/-- An integer in one of the forms that amounts, counters and lengths are written in. -/
inductive IntegerForm where
  | u64
  | u128
  | compact
  deriving DecidableEq

/-- The name of a form. -/
def IntegerForm.name : IntegerForm → String
  | u64 => "u64"
  | u128 => "u128"
  | compact => "compact value"

/-- The largest integer that a form holds. -/
def IntegerForm.max : IntegerForm → Nat
  | u64 => 2 ^ (64 : Nat) - 1
  | u128 => 2 ^ (128 : Nat) - 1
  | compact => Compact.max

/-- The bytes of an integer in a form, if the form holds it. -/
def IntegerForm.encode (form : IntegerForm) (value : Int) : Except InvalidValue ByteString :=
  if 0 ≤ value ∧ value ≤ form.max then
    match form with
    | u64 => .ok (littleEndian 8 value.toNat)
    | u128 => .ok (littleEndian 16 value.toNat)
    | compact => .ok (Compact.encode value.toNat)
  else .error (.outOfRange form.name value)

end CoinLedger

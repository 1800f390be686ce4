/-! # Binary floating-point numbers of 64 bits

The numbers that JSON text with a fraction or an exponent stands for: the binary64 number nearest to
the decimal one, a tie going to the even significand.
-/

namespace CoinLedger

-- Powers are those of the core library, also where others are in scope.
attribute [local instance (high)] instPowNat

/-- A binary64 number; a finite one is `± significand * 2 ^ exponent`. -/
inductive Binary64 where
  | nan
  | infinity (negative : Bool)
  | finite (negative : Bool) (significand : Nat) (exponent : Int)
  deriving DecidableEq, Repr

namespace Binary64

/-- The integer nearest to a quotient, a tie going to the even one. -/
def divideToNearest (numerator denominator : Nat) : Nat :=
  let quotient := numerator / denominator
  let twice := 2 * (numerator % denominator)
  if twice < denominator then quotient
  else if twice = denominator then quotient + quotient % 2
  else quotient + 1

/-- Both terms of the fraction `numerator / (denominator * 2 ^ exponent)`. -/
def scaled (numerator denominator : Nat) (exponent : Int) : Nat × Nat :=
  if 0 ≤ exponent then (numerator, denominator * 2 ^ exponent.toNat)
  else (numerator * 2 ^ exponent.natAbs, denominator)

/-- The number nearest to a positive fraction. -/
def ofFraction (negative : Bool) (numerator denominator : Nat) : Binary64 :=
  let guess : Int := (Nat.log2 numerator : Int) - Nat.log2 denominator
  let (high, low) := scaled numerator denominator guess
  let magnitude := if low ≤ high then guess else guess - 1
  let exponent := max (magnitude - 52) (-1074)
  let (high, low) := scaled numerator denominator exponent
  let significand := divideToNearest high low
  if 971 < exponent ∨ (exponent = 971 ∧ 2 ^ (53 : Nat) ≤ significand) then infinity negative
  else finite negative significand exponent

/-- The number nearest to `digits * 10 ^ exponent`. -/
def ofDecimal (negative : Bool) (digits : Nat) (exponent : Int) : Binary64 :=
  let length : Int := (Nat.toDigits 10 digits).length
  if digits = 0 then finite negative 0 0
  else if 310 < length + exponent then infinity negative
  else if length + exponent < -330 then finite negative 0 0
  else if 0 ≤ exponent then ofFraction negative (digits * 10 ^ exponent.toNat) 1
  else ofFraction negative digits (10 ^ exponent.natAbs)

/-- Whether a number is zero. -/
def isZero : Binary64 → Bool
  | finite _ significand _ => significand = 0
  | _ => false

/-- The whole part of a number, towards zero, and whether there is nothing else. -/
def truncate (negative : Bool) (significand : Nat) (exponent : Int) : Int × Bool :=
  let (whole, exact) :=
    if 0 ≤ exponent then (significand * 2 ^ exponent.toNat, true)
    else (significand / 2 ^ exponent.natAbs, significand % 2 ^ exponent.natAbs == 0)
  (if negative then -(whole : Int) else whole, exact)

end Binary64
end CoinLedger

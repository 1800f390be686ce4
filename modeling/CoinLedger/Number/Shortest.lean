import CoinLedger.Number.Binary64

/-! # The shortest decimal text of a number

Among the decimal numbers that read back as a given binary64 number, the text gives one with the
fewest digits, and of those the nearest, a tie going to the even digit. Numbers from a
ten-thousandth up to ten quadrillion are written positionally, others with an exponent.
-/

namespace CoinLedger.Binary64

-- Powers are those of the core library, also where others are in scope.
attribute [local instance (high)] instPowNat

/-- The significand and exponent of a finite number, the significand being below `2 ^ 53`. -/
def normalized (significand : Nat) (exponent : Int) : Nat × Int :=
  if significand = 2 ^ (53 : Nat) then (2 ^ (52 : Nat), exponent + 1) else (significand, exponent)

/-- Both terms of the fraction `digits * 10 ^ power`. -/
def decimalFraction (digits : Nat) (power : Int) : Nat × Nat :=
  if 0 ≤ power then (digits * 10 ^ power.toNat, 1) else (digits, 10 ^ power.natAbs)

/-- The order of two fractions. -/
def compareFractions (left right : Nat × Nat) : Ordering :=
  compare (left.1 * right.2) (right.1 * left.2)

/-- The decimal numbers that read back as a binary64 number: those between two ends, which belong to
them if the significand is even. -/
structure Neighbourhood where
  low : Nat × Nat
  high : Nat × Nat
  closed : Bool

namespace Neighbourhood

/-- The neighbourhood of `significand * 2 ^ exponent`. Below a power of two it reaches half as
far. -/
def of (significand : Nat) (exponent : Int) : Neighbourhood where
  low :=
    let reach := if significand = 2 ^ (52 : Nat) ∧ -1074 < exponent then 1 else 2
    scaled (4 * significand - reach) 1 (2 - exponent)
  high := scaled (4 * significand + 2) 1 (2 - exponent)
  closed := significand % 2 = 0

/-- Whether a decimal number lies in a neighbourhood. -/
def holds (place : Neighbourhood) (digits : Nat) (power : Int) : Bool :=
  let value := decimalFraction digits power
  let above := compareFractions place.low value
  let below := compareFractions value place.high
  (above = .lt || (place.closed && above = .eq)) && (below = .lt || (place.closed && below = .eq))

end Neighbourhood

/-- The least power of ten that is greater than a positive fraction. -/
def decimalMagnitude (numerator denominator : Nat) : Int :=
  if denominator ≤ numerator then (Nat.toDigits 10 (numerator / denominator)).length
  else
    let size := (Nat.toDigits 10 (denominator / numerator)).length - 1
    if numerator * 10 ^ size = denominator then 1 - (size : Int) else -(size : Int)

/-- The number on the grid of a power of ten that lies in a neighbourhood of a fraction, if there is
one: of two the nearer, and the even one of two that are equally near. -/
def onGrid? (place : Neighbourhood) (value : Nat × Nat) (power : Int) : Option (Nat × Int) :=
  let (numerator, denominator) :=
    if 0 ≤ power then (value.1, value.2 * 10 ^ power.toNat)
    else (value.1 * 10 ^ power.natAbs, value.2)
  let below := numerator / denominator
  match place.holds below power, place.holds (below + 1) power with
  | true, false => some (below, power)
  | false, true => some (below + 1, power)
  | false, false => none
  | true, true => some (divideToNearest numerator denominator, power)

/-- The shortest digits of a positive number and the power of ten that they are multiplied by. -/
def shortestDigits (significand : Nat) (exponent : Int) : Nat × Int :=
  let (significand, exponent) := normalized significand exponent
  let value := scaled significand 1 (-exponent)
  let magnitude := decimalMagnitude value.1 value.2
  let place := Neighbourhood.of significand exponent
  match (List.range 17).findSome? fun count =>
      onGrid? place value (magnitude - (count + 1 : Nat)) with
  | some found => found
  | none =>
      if 0 ≤ exponent then (significand * 2 ^ exponent.toNat, 0)
      else (significand * 5 ^ exponent.natAbs, exponent)

/-- An exponent with its sign and at least two digits. -/
def exponentText (exponent : Int) : List Char :=
  let digits := Nat.toDigits 10 exponent.natAbs
  (if exponent < 0 then '-' else '+') :: (List.replicate (2 - digits.length) '0' ++ digits)

/-- Digits laid out with a point after a given number of them. -/
def layOut (digits : List Char) (point : Int) : List Char :=
  if -4 < point ∧ point ≤ 16 then
    if point ≤ 0 then '0' :: '.' :: (List.replicate point.natAbs '0' ++ digits)
    else
      let whole := digits.take point.toNat
      let padded := whole ++ List.replicate (point.toNat - whole.length) '0'
      match digits.drop point.toNat with
      | [] => padded ++ ['.', '0']
      | places => padded ++ '.' :: places
  else
    match digits with
    | [] => []
    | [digit] => digit :: 'e' :: exponentText (point - 1)
    | digit :: places => digit :: '.' :: places ++ 'e' :: exponentText (point - 1)

/-- The shortest text of a number. -/
def shortestText : Binary64 → String
  | nan => "nan"
  | infinity false => "inf"
  | infinity true => "-inf"
  | finite negative significand exponent =>
      let magnitude :=
        if significand = 0 then ['0', '.', '0']
        else
          let (digits, power) := shortestDigits significand exponent
          let written := Nat.toDigits 10 digits
          layOut (written.reverse.dropWhile (· = '0')).reverse (written.length + power)
      String.ofList (if negative then '-' :: magnitude else magnitude)

/-- The text of a number in base sixteen: its significand with thirteen places, and the power of two
that it is multiplied by. -/
def hexadecimalText : Binary64 → String
  | nan => "nan"
  | infinity false => "inf"
  | infinity true => "-inf"
  | finite negative significand exponent =>
      let (significand, exponent) := normalized significand exponent
      let sign := if negative then "-" else ""
      if significand = 0 then sign ++ "0x0.0p+0"
      else
        let power := exponent + 52
        let mark := if power < 0 then "" else "+"
        let whole := significand / 2 ^ (52 : Nat)
        let digits := Nat.toDigits 16 (significand % 2 ^ (52 : Nat))
        let places := String.ofList (List.replicate (13 - digits.length) '0' ++ digits)
        sign ++ s!"0x{whole}.{places}p{mark}{power}"

end CoinLedger.Binary64

import CoinLedger.Number.Binary64
import CoinLedger.Text.DecimalDigit

/-! # Real numbers in text

A real number is written with an optional sign, digits of any script with a point before, between or
after them, and an optional exponent, or as one of the names of infinity and of what is no number.
Single underscores may stand between digits, and blanks around the whole.
-/

namespace CoinLedger.Text

/-- Write a decimal digit of any script as an ASCII one. -/
def plainDigit (c : Char) : Char := ((decimalValue c).map Nat.digitChar).getD c

/-- Drop underscores, each of which has to stand between two digits. -/
def dropUnderscores : (afterDigit : Bool) → List Char → Option (List Char)
  | _, [] => some []
  | afterDigit, c :: rest =>
      if c = '_' then
        if afterDigit ∧ (rest.head?.any Char.isDigit) then dropUnderscores false rest else none
      else (dropUnderscores c.isDigit rest).map (c :: ·)

/-- The value of an exponent, from the letter on. -/
def exponentOf : List Char → Option Int
  | [] => some 0
  | letter :: rest =>
      let (negative, digits) :=
        match rest with
        | '-' :: digits => (true, digits)
        | '+' :: digits => (false, digits)
        | digits => (false, digits)
      if (letter = 'e' ∨ letter = 'E') ∧ digits ≠ [] ∧ digits.all Char.isDigit then
        let size : Int := digits.foldl (fun value c => 10 * value + (c.toNat - '0'.toNat)) 0
        some (if negative then -size else size)
      else none

/-- The real number that a text without sign, blanks and underscores stands for. -/
def unsignedRealOf (negative : Bool) (text : List Char) : Option Binary64 :=
  match String.ofList (text.map Char.toLower) with
  | "inf" | "infinity" => some (.infinity negative)
  | "nan" => some .nan
  | _ =>
      let whole := text.takeWhile Char.isDigit
      let (places, rest) :=
        match text.dropWhile Char.isDigit with
        | '.' :: rest => (rest.takeWhile Char.isDigit, rest.dropWhile Char.isDigit)
        | rest => ([], rest)
      let digits := whole ++ places
      if digits = [] then none
      else
        (exponentOf rest).map fun exponent =>
          .ofDecimal negative
            (digits.foldl (fun value c => 10 * value + (c.toNat - '0'.toNat)) 0)
            (exponent - places.length)

/-- Read a real number. -/
def realOf (text : String) : Option Binary64 := do
  match ← dropUnderscores false ((trim text.toList).map plainDigit) with
  | '-' :: rest => unsignedRealOf true rest
  | '+' :: rest => unsignedRealOf false rest
  | rest => unsignedRealOf false rest

end CoinLedger.Text

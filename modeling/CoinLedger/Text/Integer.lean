import CoinLedger.Text.DecimalDigit

/-! # Integers in text

An integer is written with an optional sign and decimal digits, between which single underscores may
stand, and blanks may surround it. Two grammars differ in the rest. The wide one admits the digits
of all scripts. The plain one is that of numerals, which have ASCII digits alone and no needless
zero in front; a text that is no numeral is tidied into one first, which drops blanks, a plus sign,
what stands before the first digit that counts, a fraction of zeros and underscores. A minus sign in
front is set aside meanwhile.
-/

namespace CoinLedger.Text

/-- The largest number of digits of an integer that is read. -/
def maxIntegerDigits : Nat := 4300

/-- Read digits under a digit test; `separated` tells that a digit stands right before. -/
def readDigits (digit : Char → Option Nat) : (separated : Bool) → (value count : Nat) →
    List Char → Option (Nat × Nat)
  | separated, value, count, [] => if separated then some (value, count) else none
  | separated, value, count, c :: rest =>
      match digit c with
      | some n => readDigits digit true (10 * value + n) (count + 1) rest
      | none => if c = '_' ∧ separated then readDigits digit false value count rest else none

/-- The natural number that digits with single underscores between them stand for. -/
def naturalOf (digit : Char → Option Nat) (text : List Char) : Option Nat :=
  match readDigits digit false 0 0 text with
  | some (value, count) => if count ≤ maxIntegerDigits then some value else none
  | none => none

/-- The integer that a sign and digits stand for. -/
def signedOf (digit : Char → Option Nat) : List Char → Option Int
  | '-' :: rest => (naturalOf digit rest).map fun n => -(n : Int)
  | '+' :: rest => (naturalOf digit rest).map fun n => (n : Int)
  | text => (naturalOf digit text).map fun n => (n : Int)

/-- Read an integer whose digits may be of any script. -/
def integerOf (text : String) : Option Int :=
  signedOf decimalValue (trim text.toList)

/-- Why a text is not a plain integer. -/
inductive PlainIntegerError where
  /-- The text does not follow the grammar. -/
  | malformed
  /-- The integer has too many digits. -/
  | oversized
  deriving DecidableEq, Repr

/-- Whether a text is a digit and has no other digit after it, or starts with one that counts. -/
def startsNumeral (digits : List Char) : Bool :=
  match digits with
  | [] => false
  | first :: rest => first ≠ '0' || rest.isEmpty

/-- Read a numeral. Its size is looked at before what follows its digits. -/
def numeralOf (text : List Char) : Except PlainIntegerError Int :=
  let (sign, rest) := text.span (· = '-')
  let digits := rest.takeWhile Char.isDigit
  if 1 < sign.length ∨ startsNumeral digits = false then .error .malformed
  else if maxIntegerDigits < digits.length then .error .oversized
  else if digits.length < rest.length then .error .malformed
  else
    let size : Int := digits.foldl (fun value c => 10 * value + (c.toNat - '0'.toNat : Nat)) 0
    .ok (if sign.isEmpty then size else -size)

/-- Drop a plus sign, which may not have a minus sign after it. -/
def dropPlus : List Char → Option (List Char)
  | '+' :: '-' :: _ => none
  | '+' :: rest => some rest
  | text => some text

/-- Whether the part of a numeral that counts can start with a character. -/
def startsPart (c : Char) : Bool := c = '-' || (c.isDigit && c ≠ '0')

/-- Drop zeros and underscores before the part that counts. Before a point and at the end the last
of them stays; `last` is the character before the text. -/
def dropZeros (last : Char) : List Char → Option (List Char)
  | [] => some [last]
  | c :: rest =>
      if c = '0' ∨ c = '_' then dropZeros c rest
      else if c = '.' then some (last :: c :: rest)
      else if startsPart c then some (c :: rest)
      else none

/-- Drop a zero with the zeros and underscores after it. -/
def dropLeadingZeros : List Char → Option (List Char)
  | [] => none
  | c :: rest =>
      if c = '0' then dropZeros c rest else if startsPart c then some (c :: rest) else none

/-- Drop a fraction of zeros at the end. -/
def dropZeroFraction (text : List Char) : List Char :=
  let (whole, fraction) := text.span (· ≠ '.')
  if 1 < fraction.length ∧ (fraction.drop 1).all (· = '0') then whole else text

/-- Drop underscores, which may stand neither at an end nor side by side. `joined` tells that an
underscore may come next. -/
def dropJoints : (joined : Bool) → List Char → Option (List Char)
  | joined, [] => if joined then some [] else none
  | joined, c :: rest =>
      if c = '_' then if joined then dropJoints false rest else none
      else (dropJoints true rest).map (c :: ·)

/-- Turn what follows the sign of a text into a numeral. -/
def tidiedDigits (text : List Char) : Option (List Char) := do
  let counting ← dropLeadingZeros text
  dropJoints false (dropZeroFraction counting)

/-- Turn a text into the numeral that it is a liberal form of. -/
def tidiedNumeral (text : List Char) : Option (List Char) := do
  match ← dropPlus (trim text) with
  | '-' :: rest => (tidiedDigits rest).map ('-' :: ·)
  | unsigned => tidiedDigits unsigned

/-- Read an integer of the plain grammar. Only a text that is a numeral as it stands is too
large. -/
def plainIntegerOf (text : String) : Except PlainIntegerError Int :=
  match numeralOf text.toList with
  | .error .malformed =>
      match (tidiedNumeral text.toList).map numeralOf with
      | some (.ok value) => .ok value
      | _ => .error .malformed
  | result => result

end CoinLedger.Text

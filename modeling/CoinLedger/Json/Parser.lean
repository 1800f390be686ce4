import CoinLedger.Json.Value
import CoinLedger.Text.Integer

/-! # Reading JSON text

A text is one value between blanks. Besides the standard there are the literals `NaN`, `Infinity`
and `-Infinity`. Of two members of an object with one name the later gives the value. Arrays and
objects are read only to a certain depth.
-/

namespace CoinLedger.Json

/-- Why a text is refused. -/
inductive ParseError where
  /-- The text is not one JSON value. -/
  | malformed
  /-- An integer has too many digits. -/
  | oversizedInteger
  /-- Too many arrays and objects are inside one another. -/
  | tooDeep
  deriving DecidableEq, Repr

/-- The largest number of arrays and objects that may be inside one another. -/
def maxDepth : Nat := 980

/-- Drop blanks: space, tab, line feed and carriage return. -/
def skipBlanks : List Char → List Char
  | c :: rest => if c = ' ' ∨ c = '\t' ∨ c = '\n' ∨ c = '\r' then skipBlanks rest else c :: rest
  | [] => []

/-- The value of a hexadecimal digit. -/
def hexDigit (c : Char) : Option Nat :=
  if '0' ≤ c ∧ c ≤ '9' then some (c.toNat - '0'.toNat)
  else if 'a' ≤ c ∧ c ≤ 'f' then some (c.toNat - 'a'.toNat + 10)
  else if 'A' ≤ c ∧ c ≤ 'F' then some (c.toNat - 'A'.toNat + 10)
  else none

/-- The code unit that four hexadecimal digits give, and the text after them. -/
def readUnit : List Char → Option (Nat × List Char)
  | a :: b :: c :: d :: rest =>
      match hexDigit a, hexDigit b, hexDigit c, hexDigit d with
      | some a, some b, some c, some d => some (((a * 16 + b) * 16 + c) * 16 + d, rest)
      | _, _, _, _ => none
  | _ => none

/-- The code point of a code unit, joined with the low surrogate that follows a high one. -/
def joinUnits (unit : Nat) (rest : List Char) : Text.CodePoint × List Char :=
  match rest with
  | '\\' :: 'u' :: after =>
      match readUnit after with
      | some (low, final) =>
          if 0xd800 ≤ unit ∧ unit < 0xdc00 ∧ 0xdc00 ≤ low ∧ low < 0xe000 then
            (.ofNat (0x10000 + (unit - 0xd800) * 0x400 + (low - 0xdc00)), final)
          else (.ofNat unit, rest)
      | none => (.ofNat unit, rest)
  | _ => (.ofNat unit, rest)

/-- The character of a one-letter escape. -/
def shortEscape : Char → Option Char
  | '"' => some '"'
  | '\\' => some '\\'
  | '/' => some '/'
  | 'b' => some '\x08'
  | 'f' => some '\x0c'
  | 'n' => some '\n'
  | 'r' => some '\r'
  | 't' => some '\t'
  | _ => none

/-- Read the rest of a string, whose opening quote has been read. -/
def readString : (fuel : Nat) → (reversed : List Text.CodePoint) → List Char →
    Except ParseError (List Text.CodePoint × List Char)
  | 0, _, _ => .error .malformed
  | _ + 1, _, [] => .error .malformed
  | _ + 1, reversed, '"' :: rest => .ok (reversed.reverse, rest)
  | fuel + 1, reversed, '\\' :: 'u' :: rest =>
      match readUnit rest with
      | none => .error .malformed
      | some (unit, rest) =>
          let (point, rest) := joinUnits unit rest
          readString fuel (point :: reversed) rest
  | fuel + 1, reversed, '\\' :: c :: rest =>
      match shortEscape c with
      | none => .error .malformed
      | some c => readString fuel (.character c :: reversed) rest
  | fuel + 1, reversed, c :: rest =>
      if c.toNat < 0x20 ∨ c = '\\' then .error .malformed
      else readString fuel (.character c :: reversed) rest

/-- The digits at the front of a text, and what follows them. -/
def spanDigits (text : List Char) : List Char × List Char :=
  (text.takeWhile Char.isDigit, text.dropWhile Char.isDigit)

/-- The natural number that ASCII digits stand for. -/
def naturalOfDigits (digits : List Char) : Nat :=
  digits.foldl (fun value c => 10 * value + (c.toNat - '0'.toNat)) 0

/-- The fraction at the front of a text: its digits, and what follows. -/
def readFraction : List Char → Option (List Char) × List Char
  | '.' :: rest =>
      let (digits, after) := spanDigits rest
      if digits.isEmpty then (none, '.' :: rest) else (some digits, after)
  | text => (none, text)

/-- The exponent at the front of a text, and what follows. -/
def readExponent : List Char → Option Int × List Char
  | [] => (none, [])
  | e :: rest =>
      if e = 'e' ∨ e = 'E' then
        let (negative, unsigned) :=
          match rest with
          | '-' :: after => (true, after)
          | '+' :: after => (false, after)
          | _ => (false, rest)
        let (digits, after) := spanDigits unsigned
        if digits.isEmpty then (none, e :: rest)
        else
          let size : Int := naturalOfDigits digits
          (some (if negative then -size else size), after)
      else (none, e :: rest)

/-- Read a number after its sign. -/
def readNumber (negative : Bool) (text : List Char) : Except ParseError (Json × List Char) :=
  let (digits, rest) :=
    match text with
    | '0' :: rest => (['0'], rest)
    | _ => spanDigits text
  if digits.isEmpty then .error .malformed
  else
    let (fraction, rest) := readFraction rest
    let (exponent, rest) := readExponent rest
    match fraction, exponent with
    | none, none =>
        if Text.maxIntegerDigits < digits.length then .error .oversizedInteger
        else
          let size : Int := naturalOfDigits digits
          .ok (integer (if negative then -size else size), rest)
    | _, _ =>
        let places := fraction.getD []
        .ok (real (Binary64.ofDecimal negative (naturalOfDigits (digits ++ places))
          (exponent.getD 0 - places.length)), rest)

mutual

/-- Read a value at the front of a text; `depth` arrays and objects may be inside one another. -/
def readValue : (fuel depth : Nat) → List Char → Except ParseError (Json × List Char)
  | 0, _, _ => .error .malformed
  | fuel + 1, depth, text =>
      match text with
      | 'n' :: 'u' :: 'l' :: 'l' :: rest => .ok (null, rest)
      | 't' :: 'r' :: 'u' :: 'e' :: rest => .ok (boolean true, rest)
      | 'f' :: 'a' :: 'l' :: 's' :: 'e' :: rest => .ok (boolean false, rest)
      | 'N' :: 'a' :: 'N' :: rest => .ok (real .nan, rest)
      | 'I' :: 'n' :: 'f' :: 'i' :: 'n' :: 'i' :: 't' :: 'y' :: rest =>
          .ok (real (.infinity false), rest)
      | '-' :: 'I' :: 'n' :: 'f' :: 'i' :: 'n' :: 'i' :: 't' :: 'y' :: rest =>
          .ok (real (.infinity true), rest)
      | '"' :: rest => do
          let (points, rest) ← readString (rest.length + 1) [] rest
          pure (ofPoints points, rest)
      | '[' :: rest =>
          match depth, skipBlanks rest with
          | 0, _ => .error .tooDeep
          | _ + 1, ']' :: rest => .ok (array [], rest)
          | depth + 1, rest => do
              let (items, rest) ← readItems fuel depth rest
              pure (array items, rest)
      | '{' :: rest =>
          match depth, skipBlanks rest with
          | 0, _ => .error .tooDeep
          | _ + 1, '}' :: rest => .ok (object [], rest)
          | depth + 1, rest => do
              let (members, rest) ← readMembers fuel depth rest
              pure (object (members.foldl (fun all (name, value) => setMember all name value) []),
                rest)
      | '-' :: rest => readNumber true rest
      | text => readNumber false text

/-- Read the items of an array up to its closing bracket. -/
def readItems : (fuel depth : Nat) → List Char → Except ParseError (List Json × List Char)
  | 0, _, _ => .error .malformed
  | fuel + 1, depth, text => do
      let (item, rest) ← readValue fuel depth text
      match skipBlanks rest with
      | ',' :: rest =>
          let (items, rest) ← readItems fuel depth (skipBlanks rest)
          pure (item :: items, rest)
      | ']' :: rest => pure ([item], rest)
      | _ => .error .malformed

/-- Read the members of an object up to its closing brace. -/
def readMembers : (fuel depth : Nat) → List Char →
    Except ParseError (List (Text.Raw × Json) × List Char)
  | 0, _, _ => .error .malformed
  | fuel + 1, depth, text =>
      match text with
      | '"' :: rest => do
          let (points, rest) ← readString (rest.length + 1) [] rest
          let name := Text.Raw.ofPoints points
          match skipBlanks rest with
          | ':' :: rest =>
              let (value, rest) ← readValue fuel depth (skipBlanks rest)
              match skipBlanks rest with
              | ',' :: rest =>
                  let (members, rest) ← readMembers fuel depth (skipBlanks rest)
                  pure ((name, value) :: members, rest)
              | '}' :: rest => pure ([(name, value)], rest)
              | _ => .error .malformed
          | _ => .error .malformed
      | _ => .error .malformed

end

/-- Read a whole text as one value. -/
def parse (text : String) : Except ParseError Json := do
  let characters := text.toList
  let (value, rest) ← readValue (characters.length + 1) maxDepth (skipBlanks characters)
  match skipBlanks rest with
  | [] => pure value
  | _ => .error .malformed

end CoinLedger.Json

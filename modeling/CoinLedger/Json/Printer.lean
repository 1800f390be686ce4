import CoinLedger.Json.Value

/-! # Writing JSON text

Text is ASCII: other characters are written as escapes of UTF-16 units. The compact form has one
blank after each comma and colon; the indented form puts each item and member on a line of its own.
-/

namespace CoinLedger.Json

-- Powers are those of the core library, also where others are in scope.
attribute [local instance (high)] instPowNat

/-- The escape of a UTF-16 code unit. -/
def unitEscape (unit : Nat) : String :=
  let digit (place : Nat) : Char := Nat.digitChar (unit / 16 ^ place % 16)
  String.ofList ['\\', 'u', digit 3, digit 2, digit 1, digit 0]

/-- How a character is written inside a string. -/
def characterText (c : Char) : String :=
  if c = '"' then "\\\""
  else if c = '\\' then "\\\\"
  else if c = '\n' then "\\n"
  else if c = '\r' then "\\r"
  else if c = '\t' then "\\t"
  else if c = '\x08' then "\\b"
  else if c = '\x0c' then "\\f"
  else if 0x20 ≤ c.toNat ∧ c.toNat < 0x7f then String.singleton c
  else if c.toNat < 0x10000 then unitEscape c.toNat
  else
    let offset := c.toNat - 0x10000
    unitEscape (0xd800 + offset / 0x400) ++ unitEscape (0xdc00 + offset % 0x400)

/-- How a code point is written inside a string. -/
def pointText : Text.CodePoint → String
  | .character c => characterText c
  | .surrogate unit => unitEscape unit

/-- How the string of code points is written. -/
def pointsText (points : List Text.CodePoint) : String :=
  "\"" ++ String.join (points.map pointText) ++ "\""

/-- How a string is written. -/
def stringText (value : String) : String := pointsText (Text.CodePoint.ofText value)

/-- How the name of a member is written. -/
def nameText (name : Text.Raw) : String := pointsText name.points

/-- The digits of a natural number with a point before the last `places` of them. -/
def withPoint (value places : Nat) : String :=
  let digits := Nat.toDigits 10 value
  let padded := List.replicate (places + 1 - digits.length) '0' ++ digits
  String.ofList
    (padded.take (padded.length - places) ++ '.' :: padded.drop (padded.length - places))

/-- How a binary64 number is written: in full, with as many decimal places as its exponent asks
for. -/
def realText : Binary64 → String
  | .nan => "NaN"
  | .infinity false => "Infinity"
  | .infinity true => "-Infinity"
  | .finite negative significand exponent =>
      let magnitude :=
        if 0 ≤ exponent then withPoint (significand * 2 ^ exponent.toNat * 10) 1
        else withPoint (significand * 5 ^ exponent.natAbs) exponent.natAbs
      if negative then "-" ++ magnitude else magnitude

mutual

/-- The compact text of a value. -/
def compactText : Json → String
  | null => "null"
  | boolean true => "true"
  | boolean false => "false"
  | integer value => toString value
  | real value => realText value
  | string value => stringText value
  | illFormed points => pointsText points
  | array items => "[" ++ itemsText items ++ "]"
  | object members => "\x7b" ++ membersText members ++ "\x7d"

/-- The compact text of the items of an array. -/
def itemsText : List Json → String
  | [] => ""
  | [item] => compactText item
  | item :: items => compactText item ++ ", " ++ itemsText items

/-- The compact text of the members of an object. -/
def membersText : List (Text.Raw × Json) → String
  | [] => ""
  | [(name, value)] => nameText name ++ ": " ++ compactText value
  | (name, value) :: members =>
      nameText name ++ ": " ++ compactText value ++ ", " ++ membersText members

end

/-- A line of text with a given number of blanks in front. -/
def indented (depth : Nat) (text : String) : String :=
  String.ofList (List.replicate depth ' ') ++ text

/-- Put a text before the first of some lines. -/
def beforeFirst (lead : String) : List String → List String
  | [] => [lead]
  | line :: lines => (lead ++ line) :: lines

/-- Put a text after the last of some lines. -/
def afterLast (trail : String) : List String → List String
  | [] => [trail]
  | [line] => [line ++ trail]
  | line :: lines => line :: afterLast trail lines

mutual

/-- The lines of the indented text of a value, whose own lines stand at a given depth. -/
def indentedLines (depth : Nat) : Json → List String
  | array (item :: items) =>
      "[" :: itemLines (depth + 2) (item :: items) ++ [indented depth "]"]
  | object (entry :: members) =>
      "\x7b" :: memberLines (depth + 2) (entry :: members) ++ [indented depth "\x7d"]
  | value => [compactText value]

/-- The lines of the items of an array. -/
def itemLines (depth : Nat) : List Json → List String
  | [] => []
  | [item] => beforeFirst (indented depth "") (indentedLines depth item)
  | item :: items =>
      afterLast "," (beforeFirst (indented depth "") (indentedLines depth item)) ++
        itemLines depth items

/-- The lines of the members of an object. -/
def memberLines (depth : Nat) : List (Text.Raw × Json) → List String
  | [] => []
  | [(name, value)] =>
      beforeFirst (indented depth (nameText name ++ ": ")) (indentedLines depth value)
  | (name, value) :: members =>
      afterLast ","
        (beforeFirst (indented depth (nameText name ++ ": ")) (indentedLines depth value)) ++
        memberLines depth members

end

end CoinLedger.Json

import CoinLedger.Loose.Basic
import CoinLedger.Number.Shortest
import CoinLedger.Text.Hex
import CoinLedger.Text.Quoted

/-! # Loose values in messages

A message shows a text as it is and any other value in a notation of its own: bytes between quotes
after a letter, numbers by their shortest text, lists and objects between brackets, with quotes
around texts.
-/

namespace CoinLedger

/-- The code points that have the numbers of bytes. -/
def bytePoints (bytes : ByteString) : List Text.CodePoint :=
  bytes.map fun byte => .ofNat byte.toNat

/-- How a byte is shown, given the quote that is escaped. -/
def shownByte (quote : Char) (byte : UInt8) : List Char :=
  if byte < 0x7f then Text.quotedCharacter quote (Char.ofNat byte.toNat)
  else '\\' :: 'x' :: Text.hexDigits 2 byte.toNat

/-- Bytes between quotes. -/
def shownBytes (bytes : ByteString) : String :=
  let quote := Text.quoteFor (bytePoints bytes)
  String.ofList ('b' :: quote :: bytes.flatMap (shownByte quote) ++ [quote])

/-- Bytes that may be changed. A single quote among them is escaped whatever the quotes are. -/
def shownByteArray (bytes : ByteString) : String :=
  let quote := Text.quoteFor (bytePoints bytes)
  "bytearray(b" ++ String.ofList (quote :: bytes.flatMap (shownByte '\'') ++ [quote]) ++ ")"

/-- How a truth value is shown. -/
def shownBoolean (value : Bool) : String := if value then "True" else "False"

/-- How the absence of a value is shown. -/
def shownNothing : String := "None"

mutual

/-- How a document is shown. -/
def Json.shown : Json → String
  | .null => shownNothing
  | .boolean value => shownBoolean value
  | .integer value => toString value
  | .real value => value.shortestText
  | .string value => Text.quoted value
  | .illFormed points => Text.quotedPoints points
  | .array items => "[" ++ shownItems items ++ "]"
  | .object members => "\x7b" ++ shownMembers members ++ "\x7d"

/-- How the items of an array are shown. -/
def Json.shownItems : List Json → String
  | [] => ""
  | [item] => item.shown
  | item :: items => item.shown ++ ", " ++ shownItems items

/-- How the members of an object are shown. -/
def Json.shownMembers : List (Text.Raw × Json) → String
  | [] => ""
  | [(name, value)] => name.quoted ++ ": " ++ value.shown
  | (name, value) :: members =>
      name.quoted ++ ": " ++ value.shown ++ ", " ++ shownMembers members

end

namespace Loose

/-- How a value is shown in a message. -/
def shown : Loose → Text.Raw
  | bytes value => shownBytes value
  | byteArray value => shownByteArray value
  | text value => value
  | integer value => toString value
  | boolean value => shownBoolean value
  | float value => value.shortestText
  | list items => (Json.array items).shown
  | object members => (Json.object members).shown
  | nothing => shownNothing

/-- The text in base sixteen of a value that has one: bytes and numbers of binary64. -/
def hexadecimal? : Loose → Option String
  | bytes value | byteArray value => some (Hex.encodeBare value)
  | float value => some value.hexadecimalText
  | _ => none

end Loose
end CoinLedger

import CoinLedger.Text.CodePoint
import CoinLedger.Text.Printable

/-! # Quoted text

A text is shown between quotes: single ones, unless it has a single quote and no double quote. The
backslash, the quote in use and what is not printable are written as escapes; so are surrogates.
-/

namespace CoinLedger.Text

-- Powers are those of the core library, also where others are in scope.
attribute [local instance (high)] instPowNat

/-- A number in a given count of lower-case hexadecimal digits. -/
def hexDigits (count value : Nat) : List Char :=
  (List.range count).reverse.map fun place => Nat.digitChar (value / 16 ^ place % 16)

/-- How a character is shown between the given quotes. -/
def quotedCharacter (quote c : Char) : List Char :=
  if c = quote ∨ c = '\\' then ['\\', c]
  else if c = '\n' then ['\\', 'n']
  else if c = '\r' then ['\\', 'r']
  else if c = '\t' then ['\\', 't']
  else if isPrintable c then [c]
  else if c.toNat < 0x100 then '\\' :: 'x' :: hexDigits 2 c.toNat
  else if c.toNat < 0x10000 then '\\' :: 'u' :: hexDigits 4 c.toNat
  else '\\' :: 'U' :: hexDigits 8 c.toNat

/-- How a code point is shown between the given quotes. -/
def quotedPoint (quote : Char) : CodePoint → List Char
  | .character c => quotedCharacter quote c
  | .surrogate unit => '\\' :: 'u' :: hexDigits 4 unit

/-- The quotes in which code points are shown. -/
def quoteFor (points : List CodePoint) : Char :=
  if points.contains (.character '\'') && !points.contains (.character '"') then '"' else '\''

/-- Code points between quotes. -/
def quotedPoints (points : List CodePoint) : String :=
  let quote := quoteFor points
  String.ofList (quote :: points.flatMap (quotedPoint quote) ++ [quote])

/-- A text between quotes. -/
def quoted (text : String) : String := quotedPoints (CodePoint.ofText text)

end CoinLedger.Text

/-! # Upper case, as far as it is ASCII

Words of a fixed ASCII vocabulary are recognised in any case. Besides the ASCII letters a few other
letters and ligatures of Unicode become ASCII in upper case.
-/

namespace CoinLedger.Text

/-- The upper-case form of a character that becomes ASCII; any other character is kept. -/
def upperCharacter (c : Char) : List Char :=
  if c = 'ß' then ['S', 'S']
  else if c = 'ı' then ['I']
  else if c = 'ſ' then ['S']
  else if c = 'ﬀ' then ['F', 'F']
  else if c = 'ﬁ' then ['F', 'I']
  else if c = 'ﬂ' then ['F', 'L']
  else if c = 'ﬃ' then ['F', 'F', 'I']
  else if c = 'ﬄ' then ['F', 'F', 'L']
  else if c = 'ﬅ' ∨ c = 'ﬆ' then ['S', 'T']
  else [c.toUpper]

/-- A text with every character that becomes ASCII in upper case. -/
def upperCase (text : String) : String := String.ofList (text.toList.flatMap upperCharacter)

end CoinLedger.Text

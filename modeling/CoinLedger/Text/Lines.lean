/-! # Lines of text

A line ends at a boundary: a carriage return, a line feed or the pair of them in this order, a
vertical tab, a form feed, a separator of files, groups or records, a next-line character, or a
separator of lines or paragraphs. The end of the text ends a line too, unless a boundary stands
right before it.
-/

namespace CoinLedger.Text

/-- The characters at which a line ends. -/
def lineBoundaries : List Char :=
  ['\n', '\x0b', '\x0c', '\r', '\x1c', '\x1d', '\x1e', '\x85', '\u2028', '\u2029']

/-- The lines of a text. A carriage return and a line feed after it are one boundary. -/
def lines : List Char → List (List Char)
  | [] => []
  | '\r' :: '\n' :: rest => [] :: lines rest
  | c :: rest =>
      if c ∈ lineBoundaries then [] :: lines rest
      else
        match lines rest with
        | [] => [[c]]
        | line :: others => (c :: line) :: others

/-- The lines of a text. -/
def linesOf (text : String) : List String := (lines text.toList).map String.ofList

end CoinLedger.Text

/-! # Similar words

Two words are compared by their common runs: the longest run that both have, then the longest on
each side of it, and so on. Words are similar if the characters in common runs make up at least
three fifths of both words taken together.
-/

namespace CoinLedger.Text

/-- The length of the common run at the front of two texts. -/
def commonFront : List Char → List Char → Nat
  | a :: left, b :: right => if a = b then commonFront left right + 1 else 0
  | _, _ => 0

/-- A run that two texts have in common: where it starts in each, and its length. -/
structure CommonRun where
  left : Nat
  right : Nat
  size : Nat
  deriving DecidableEq, Repr

/-- The longest run in common; of several the one that starts first in the left text, then in the
right one. -/
def longestRun (left right : List Char) : CommonRun :=
  let starts := (List.range left.length).flatMap fun i =>
    (List.range right.length).map fun j => (i, j)
  starts.foldl (fun best (i, j) =>
    let size := commonFront (left.drop i) (right.drop j)
    if best.size < size then ⟨i, j, size⟩ else best) ⟨0, 0, 0⟩

/-- How many characters are in common runs. A run found leaves shorter texts on both sides, so that
no more rounds are needed than the left text has characters. -/
def commonSize : (rounds : Nat) → List Char → List Char → Nat
  | 0, _, _ => 0
  | rounds + 1, left, right =>
      let run := longestRun left right
      if run.size = 0 then 0
      else
        commonSize rounds (left.take run.left) (right.take run.right) + run.size +
          commonSize rounds (left.drop (run.left + run.size)) (right.drop (run.right + run.size))

/-- How many characters of two words are in common runs. -/
def common (left right : String) : Nat :=
  commonSize (left.length + 1) left.toList right.toList

/-- Whether two words are similar. -/
def similar (left right : String) : Bool :=
  3 * (left.length + right.length) ≤ 10 * common left right

/-- Whether a word is at least as similar to a given one as another word is. -/
def nearer (word left right : String) : Bool :=
  let first := common left word * (right.length + word.length)
  let second := common right word * (left.length + word.length)
  second < first || (first = second && !(left < right))

/-- The words most similar to a given one, at most three of them, in alphabetical order. -/
def suggestions (word : String) (words : List String) : List String :=
  let best := ((words.filter (similar · word)).mergeSort (nearer word)).take 3
  best.mergeSort fun left right => !(right < left)

end CoinLedger.Text

import CoinLedger.Text.Quoted

/-! # Texts as they are received

Most texts that are received are sequences of characters. One with a surrogate on its own is not,
but it can still be compared, cut and shown.
-/

namespace CoinLedger.Text

/-- A text as it is received. -/
inductive Raw where
  /-- A sequence of characters. -/
  | text (value : String)
  /-- Code points of which one is a surrogate on its own. -/
  | illFormed (points : List CodePoint)
  deriving DecidableEq, Repr

namespace Raw

instance : Coe String Raw := ⟨text⟩

instance : Inhabited Raw := ⟨text ""⟩

/-- The text that code points spell. -/
def ofPoints (points : List CodePoint) : Raw :=
  match CodePoint.text? points with
  | some value => text value
  | none => illFormed points

/-- The code points of a text. -/
def points : Raw → List CodePoint
  | text value => CodePoint.ofText value
  | illFormed points => points

/-- The characters of a text, if it has nothing else. -/
def text? : Raw → Option String
  | text value => some value
  | illFormed _ => none

/-- The text with the replacement character for each surrogate. -/
def replaced : Raw → String
  | text value => value
  | illFormed points => CodePoint.replacedText points

/-- The text with an escape for each surrogate. -/
def escaped : Raw → String
  | text value => value
  | illFormed points =>
      String.ofList (points.flatMap fun
        | .character c => [c]
        | .surrogate unit => '\\' :: 'u' :: hexDigits 4 unit)

/-- Whether there is nothing in a text. -/
def isEmpty : Raw → Bool
  | text value => value.isEmpty
  | illFormed points => points.isEmpty

/-- Texts are ordered by the numbers of their code points. -/
def precedes (left right : Raw) : Bool :=
  left.points.map CodePoint.toNat < right.points.map CodePoint.toNat

/-- A text between quotes. -/
def quoted (raw : Raw) : String := quotedPoints raw.points

@[simp] theorem ofPoints_ofText (value : String) :
    ofPoints (CodePoint.ofText value) = text value := by
  simp [ofPoints]

/-- Code points read back from the text that they spell. -/
@[simp] theorem points_ofPoints (points : List CodePoint) : (ofPoints points).points = points := by
  unfold ofPoints
  split
  · next value spelled => exact CodePoint.ofText_of_text? spelled
  · rfl

end Raw
end CoinLedger.Text

/-! # Code points

Escapes in a text can name code points that are no characters: surrogates, which mean something only
in pairs. A text in which one stands alone has no encoding, but it can be shown and compared.
-/

namespace CoinLedger.Text

/-- A code point: a character, or half of a pair on its own. -/
inductive CodePoint where
  | character (c : Char)
  | surrogate (unit : Nat)
  deriving DecidableEq, Repr

namespace CodePoint

/-- The character that a code point is, if it is one. -/
def character? : CodePoint → Option Char
  | character c => some c
  | surrogate _ => none

/-- The code point of a number. -/
def ofNat (value : Nat) : CodePoint :=
  if 0xd800 ≤ value ∧ value < 0xe000 then surrogate value else character (Char.ofNat value)

/-- The number of a code point. -/
def toNat : CodePoint → Nat
  | character c => c.toNat
  | surrogate unit => unit

/-- The code points of a text. -/
def ofText (text : String) : List CodePoint := text.toList.map character

/-- The text that code points spell, if all of them are characters. -/
def text? (points : List CodePoint) : Option String :=
  (points.mapM character?).map String.ofList

/-- The text that code points spell when the replacement character stands for each surrogate. -/
def replacedText (points : List CodePoint) : String :=
  String.ofList (points.map fun point => point.character?.getD '\ufffd')

@[simp] theorem text?_ofText (text : String) : text? (ofText text) = some text := by
  have all : ∀ characters : List Char,
      (characters.map character).mapM character? = some characters := by
    intro characters
    induction characters with
    | nil => rfl
    | cons c rest inductive_step => simp [inductive_step, character?]
  simp [text?, ofText, all]

/-- Text joined at the end is spelled by code points joined at the end. -/
theorem ofText_append (left right : String) :
    ofText (left ++ right) = ofText left ++ ofText right := by
  simp [ofText]

/-- The text that code points spell is spelled by them alone. -/
theorem ofText_of_text? {points : List CodePoint} {value : String}
    (spelled : text? points = some value) : ofText value = points := by
  obtain ⟨characters, all, rfl⟩ := Option.map_eq_some_iff.mp spelled
  simp only [ofText, String.toList_ofList]
  clear spelled
  induction points generalizing characters with
  | nil => simp_all
  | cons point rest inductive_step =>
      cases point with
      | surrogate unit => simp [character?] at all
      | character c =>
          simp only [List.mapM_cons, character?, Option.pure_def, Option.bind_eq_bind,
            Option.bind_some, Option.bind_eq_some_iff, Option.some.injEq] at all
          obtain ⟨tail, read, rfl⟩ := all
          simp [inductive_step tail read]

end CodePoint
end CoinLedger.Text

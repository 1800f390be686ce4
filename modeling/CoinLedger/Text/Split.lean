/-! # Cutting text at marks

A mark is a character that stands between parts of a text: a slash in a path name, a colon before a
value. What lies between two marks has none itself.
-/

namespace CoinLedger.Text

variable {α : Type} [DecidableEq α]

/-- The parts of a text before and after the first of the given marks. -/
def splitAtFirst (mark : α) : List α → Option (List α × List α)
  | [] => none
  | c :: rest =>
      if c = mark then some ([], rest)
      else (splitAtFirst mark rest).map fun (before, after) => (c :: before, after)

/-- The parts of a text before and after the last of the given marks. -/
def splitAtLast (mark : α) : List α → Option (List α × List α)
  | [] => none
  | c :: rest =>
      match splitAtLast mark rest with
      | some (before, after) => some (c :: before, after)
      | none => if c = mark then some ([], rest) else none

/-- The pieces of a text between the given marks, at least one. -/
def pieces (mark : α) : List α → List (List α)
  | [] => [[]]
  | c :: rest =>
      if c = mark then [] :: pieces mark rest
      else
        match pieces mark rest with
        | [] => [[c]]
        | piece :: others => (c :: piece) :: others

/-- The first piece of a text goes up to the first mark. -/
theorem pieces_append (mark : α) (piece rest : List α) (absent : mark ∉ piece) :
    pieces mark (piece ++ mark :: rest) = piece :: pieces mark rest := by
  induction piece with
  | nil => simp [pieces]
  | cons c piece inductive_step =>
      have different : c ≠ mark := fun same => absent (same ▸ List.mem_cons_self)
      have below := inductive_step fun member => absent (List.mem_cons_of_mem _ member)
      simp [pieces, different, below]

/-- A text without a mark is one piece. -/
theorem pieces_of_not_mem (mark : α) (piece : List α) (absent : mark ∉ piece) :
    pieces mark piece = [piece] := by
  induction piece with
  | nil => rfl
  | cons c piece inductive_step =>
      have different : c ≠ mark := fun same => absent (same ▸ List.mem_cons_self)
      have below := inductive_step fun member => absent (List.mem_cons_of_mem _ member)
      simp [pieces, different, below]

end CoinLedger.Text

import CoinLedger.FileName
import CoinLedger.Text.Split

/-! # Path names

A path name is written with slashes between its parts. Empty parts and single dots mean nothing and
are dropped, so that one path has one normal form. Exactly two slashes in front are a root of their
own; any other number of them is the ordinary root.
-/

namespace CoinLedger

/-- The mark between the parts of a path name. -/
def slash : Text.CodePoint := .character '/'

/-- A part of a path name that means something. -/
@[ext] structure PathPart where
  /-- The part as it is written. -/
  name : List Text.CodePoint
  /-- It is not empty. -/
  name_ne_nil : name ≠ []
  /-- It is not a single dot. -/
  name_ne_dot : name ≠ [.character '.']
  /-- It has no slash in it. -/
  slash_not_mem : slash ∉ name
  deriving DecidableEq

/-- A part that means something, out of any. -/
def PathPart.ofName? (name : List Text.CodePoint) : Option PathPart :=
  if meaningful : name ≠ [] ∧ name ≠ [.character '.'] ∧ slash ∉ name then
    some ⟨name, meaningful.1, meaningful.2.1, meaningful.2.2⟩
  else none

@[simp] theorem PathPart.ofName?_name (part : PathPart) :
    PathPart.ofName? part.name = some part := by
  simp [PathPart.ofName?, part.name_ne_nil, part.name_ne_dot, part.slash_not_mem]

/-- What a path name starts from. -/
inductive PathStart where
  /-- The working directory. -/
  | here
  /-- The root. -/
  | root
  /-- The root that is written with two slashes. -/
  | secondRoot
  deriving DecidableEq, Repr

/-- A path name in normal form. -/
@[ext] structure PathName where
  /-- What it starts from. -/
  start : PathStart
  /-- Its parts, in order. -/
  parts : List PathPart
  deriving DecidableEq

/-- How the start of a path name is written. -/
def PathStart.points : PathStart → List Text.CodePoint
  | here => []
  | root => [slash]
  | secondRoot => [slash, slash]

/-- The start that a number of slashes in front stands for. -/
def PathStart.ofSlashes : Nat → PathStart
  | 0 => here
  | 2 => secondRoot
  | _ => root

namespace PathName

/-- The path name that code points spell. -/
def ofPoints (points : List Text.CodePoint) : PathName :=
  { start := .ofSlashes (points.takeWhile (· = slash)).length
    parts := (Text.pieces slash points).filterMap PathPart.ofName? }

/-- The path name that a text stands for. -/
def ofText (text : String) : PathName := ofPoints (Text.CodePoint.ofText text)

/-- Parts with a slash between each two. -/
def joinParts : List PathPart → List Text.CodePoint
  | [] => []
  | [part] => part.name
  | part :: parts => part.name ++ slash :: joinParts parts

/-- The code points of a path name. The working directory itself is written as a dot. -/
def points (path : PathName) : List Text.CodePoint :=
  match path.start, path.parts with
  | .here, [] => [.character '.']
  | start, parts => start.points ++ joinParts parts

/-- The text of a path name. -/
def text (path : PathName) : Text.Raw := .ofPoints path.points

/-- The bytes by which a file system knows a path name, if it can know it. -/
def bytes? (path : PathName) : Option FileName := FileName.ofPoints? path.points

/-- Parts that are joined are the pieces between the slashes. -/
theorem filterMap_pieces_joinParts (parts : List PathPart) :
    (Text.pieces slash (joinParts parts)).filterMap PathPart.ofName? = parts := by
  induction parts with
  | nil => simp [joinParts, Text.pieces, PathPart.ofName?]
  | cons part rest inductive_step =>
      cases rest with
      | nil => simp [joinParts, Text.pieces_of_not_mem _ _ part.slash_not_mem]
      | cons next others =>
          simp only [joinParts] at *
          rw [Text.pieces_append _ _ _ part.slash_not_mem]
          simpa using inductive_step

/-- Parts do not start with a slash. -/
theorem takeWhile_slash_joinParts (parts : List PathPart) :
    (joinParts parts).takeWhile (· = slash) = [] := by
  cases parts with
  | nil => rfl
  | cons part rest =>
      obtain ⟨c, tail, named⟩ := List.exists_cons_of_ne_nil part.name_ne_nil
      have different : c ≠ slash := fun same =>
        part.slash_not_mem (named ▸ same ▸ List.mem_cons_self)
      cases rest <;> simp [joinParts, named, different]

/-- A path name reads back from its code points. -/
theorem ofPoints_points (path : PathName) : ofPoints path.points = path := by
  obtain ⟨start, parts⟩ := path
  have read : ∀ start : PathStart, ofPoints (start.points ++ joinParts parts) = ⟨start, parts⟩ := by
    intro start
    have none := takeWhile_slash_joinParts parts
    have back := filterMap_pieces_joinParts parts
    cases start <;>
      simp [ofPoints, PathStart.points, PathStart.ofSlashes, none, Text.pieces, PathPart.ofName?,
        back]
  cases start with
  | here =>
      cases parts with
      | nil => decide
      | cons part rest => exact read .here
  | root => exact read .root
  | secondRoot => exact read .secondRoot

/-- The path name of a file in a directory. -/
def file (directory : PathName) (name : String) : PathName :=
  { directory with
    parts := directory.parts ++ (PathPart.ofName? (Text.CodePoint.ofText name)).toList }

/-- The user in whose home directory a path name starts: the one after a tilde in front, who has the
empty name if nothing follows it. -/
def user? (path : PathName) : Option (List Text.CodePoint) :=
  match path.start, path.parts with
  | .here, part :: _ =>
      match part.name with
      | .character '~' :: user => some user
      | _ => none
  | _, _ => none

/-- The path name with its first part replaced by a directory. -/
def within (directory path : PathName) : PathName :=
  { directory with parts := directory.parts ++ path.parts.drop 1 }

end PathName
end CoinLedger

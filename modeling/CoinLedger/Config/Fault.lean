import CoinLedger.PathName
import CoinLedger.Text.Quoted

/-! # Faults of a document

Checking a document does not stop at the first fault: every part is checked, and all faults are
reported together, in the order of the parts, each with the place where it is.
-/

namespace CoinLedger

/-- A step from a document to a part of it. -/
inductive DocumentStep where
  | member (name : String)
  | item (index : Nat)
  deriving DecidableEq, Repr

/-- What is wrong with a part of a document. -/
inductive Problem where
  /-- A member is required and absent. -/
  | missing
  /-- An integer is expected and the value is of another kind. -/
  | notInteger
  /-- A text is not an integer. -/
  | malformedInteger
  /-- A text is an integer with too many digits. -/
  | oversizedInteger
  /-- A number has a fraction. -/
  | fractional
  /-- A number is not finite. -/
  | notFinite
  /-- An integer is below the least one allowed. -/
  | tooSmall
  /-- An integer is above the greatest one allowed. -/
  | tooLarge
  /-- A text is expected and the value is of another kind. -/
  | notText
  /-- A list is expected and the value is of another kind. -/
  | notList
  /-- An object is expected and the value is of another kind. -/
  | notObject
  /-- A path name is expected and the value is of another kind. -/
  | notPath
  /-- A text that is to be an integer has code points in it that are no characters. -/
  | illFormedInteger
  /-- A text is not hexadecimal. -/
  | notHex (text : List Text.CodePoint)
  /-- A public key has the wrong number of bytes. -/
  | wrongKeyLength (found : Nat)
  /-- A text is not the name of a log level. -/
  | unknownLogLevel (text : String)
  /-- A text is not the name of a log level and has code points in it that are no characters, so
  that it cannot be shown either. -/
  | illFormedLogLevel
  deriving DecidableEq, Repr

/-- The wording of a problem. -/
def Problem.message : Problem → String
  | missing => "a member is missing"
  | notInteger => "not an integer"
  | malformedInteger => "not the text of an integer"
  | oversizedInteger => "an integer with too many digits"
  | fractional => "not a whole number"
  | notFinite => "not a finite number"
  | tooSmall => "too small"
  | tooLarge => "too large"
  | notText => "not a text"
  | notList => "not a list"
  | notObject => "not an object"
  | notPath => "not a path name"
  | illFormedInteger => "a text with code points that are no characters"
  | notHex text => s!"not a hex string: {Text.quotedPoints text}"
  | wrongKeyLength found => s!"public key must be 32 bytes, got {found}"
  | unknownLogLevel text => s!"unknown log level: {text}"
  | illFormedLogLevel => "a log level with code points that are no characters"

/-- A problem and the place where it is. -/
structure Fault where
  location : List DocumentStep
  problem : Problem
  deriving DecidableEq, Repr

/-- A value, or everything that is wrong. -/
abbrev Checked (α : Type) := Except (List Fault) α

namespace Checked

variable {α β : Type}

/-- The result of a check of a whole document. -/
def ofProblem : Except Problem α → Checked α
  | .ok value => .ok value
  | .error problem => .error [⟨[], problem⟩]

/-- The result of a check of a part, as seen from the whole. -/
def within (step : DocumentStep) : Checked α → Checked α
  | .ok value => .ok value
  | .error faults => .error (faults.map fun fault => ⟨step :: fault.location, fault.problem⟩)

/-- The results of two checks. -/
def both (first : Checked α) (second : Checked β) : Checked (α × β) :=
  match first, second with
  | .ok left, .ok right => .ok (left, right)
  | .ok _, .error faults => .error faults
  | .error faults, .ok _ => .error faults
  | .error before, .error after => .error (before ++ after)

/-- The results of checks of items, the first of them at a given position. -/
def allFrom (index : Nat) (check : β → Checked α) : List β → Checked (List α)
  | [] => .ok []
  | item :: items =>
      match both (within (.item index) (check item)) (allFrom (index + 1) check items) with
      | .ok (value, values) => .ok (value :: values)
      | .error faults => .error faults

/-- The faults that are reported: all of them, unless one of them cannot be shown, which ends the
check. -/
def reported (faults : List Fault) : List Fault :=
  match faults.find? fun fault => fault.problem = .illFormedLogLevel with
  | some fault => [fault]
  | none => faults

end Checked
end CoinLedger

import CoinLedger.Number.Binary64
import CoinLedger.Text.Raw

/-! # JSON values

The values that JSON text stands for. Integers are exact; numbers with a fraction or an exponent are
binary64. Members of an object keep the order in which they are written. A string whose escapes name
surrogates that are not part of a pair is kept apart from those that are texts; so is such a name.
-/

namespace CoinLedger

/-- A JSON value. -/
inductive Json where
  | null
  | boolean (value : Bool)
  | integer (value : Int)
  | real (value : Binary64)
  | string (value : String)
  /-- A string that is no text: one of its code points is a surrogate on its own. -/
  | illFormed (points : List Text.CodePoint)
  | array (items : List Json)
  | object (members : List (Text.Raw × Json))
  deriving Repr

namespace Json

instance : Inhabited Json := ⟨null⟩

/-- A natural number. -/
def natural (value : Nat) : Json := integer value

/-- The string of a text. -/
def ofRaw : Text.Raw → Json
  | .text value => string value
  | .illFormed points => illFormed points

/-- The string of code points. -/
def ofPoints (points : List Text.CodePoint) : Json := ofRaw (.ofPoints points)

/-- The member of an object with a given name. -/
def member? (members : List (Text.Raw × Json)) (name : Text.Raw) : Option Json :=
  members.lookup name

/-- The member of a value with a given name, if the value is an object that has one. -/
def field? (name : Text.Raw) : Json → Option Json
  | object members => member? members name
  | _ => none

/-- Add a member at the end, or replace the value of the member with that name in its place. -/
def setMember (members : List (Text.Raw × Json)) (name : Text.Raw) (value : Json) :
    List (Text.Raw × Json) :=
  match members with
  | [] => [(name, value)]
  | (key, old) :: rest =>
      if key = name then (key, value) :: rest else (key, old) :: setMember rest name value

/-- Whether a value counts as absent where an optional one is expected: null, false, zero, or
empty. -/
def isVacant : Json → Bool
  | null => true
  | boolean value => !value
  | integer value => value = 0
  | real value => value.isZero
  | string value => value.isEmpty
  | illFormed points => points.isEmpty
  | array items => items.isEmpty
  | object members => members.isEmpty

end Json
end CoinLedger

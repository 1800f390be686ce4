import CoinLedger.Bytes
import CoinLedger.Json.Value

/-! # Loose values

Callers may hand over values of any kind where the ledger expects one of a certain kind. A loose
value keeps what was handed over until it is used.
-/

namespace CoinLedger

/-- A value whose kind is known only when it is used. -/
inductive Loose where
  | bytes (value : ByteString)
  /-- Bytes that their owner may change. -/
  | byteArray (value : ByteString)
  | text (value : Text.Raw)
  | integer (value : Int)
  | boolean (value : Bool)
  | float (value : Binary64)
  | list (items : List Json)
  | object (members : List (Text.Raw × Json))
  | nothing
  deriving Repr

namespace Loose

/-- The name of the kind of a value, as refusals give it. -/
def kind : Loose → String
  | bytes _ => "bytes"
  | byteArray _ => "bytearray"
  | text _ => "str"
  | integer _ => "int"
  | boolean _ => "bool"
  | float _ => "float"
  | list _ => "list"
  | object _ => "dict"
  | nothing => "NoneType"

/-- Whether a value counts as absent where an optional one is expected: nothing, false, zero, or
empty. -/
def isVacant : Loose → Bool
  | bytes value | byteArray value => value.isEmpty
  | text value => value.isEmpty
  | integer value => value = 0
  | boolean value => !value
  | float value => value.isZero
  | list items => items.isEmpty
  | object members => members.isEmpty
  | nothing => true

end Loose
end CoinLedger

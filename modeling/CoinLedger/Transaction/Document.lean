import CoinLedger.Json.Printer
import CoinLedger.Text.Integer
import CoinLedger.Transaction.Keys

/-! # Transactions as documents

Inputs, outputs and transactions have a form as JSON documents, in which byte strings are
hexadecimal text. Reading is liberal: members that are not known are ignored, a signature may be
absent, and an amount may be a number, a truth value or a text.
-/

namespace CoinLedger

/-- Why a document is not a transaction. -/
inductive DocumentError where
  /-- An object lacks a member. -/
  | missingMember (name : String)
  /-- Something other than an object stands where members are looked up. -/
  | notAnObject
  /-- Something without members stands where one is required. -/
  | notSubscriptable
  /-- Something that is not a sequence stands where items are expected. -/
  | notIterable
  /-- Something other than a text stands where a hexadecimal text is expected. -/
  | notText
  /-- A text has code points in it that are no characters. -/
  | illFormedText
  /-- A text is not hexadecimal. -/
  | malformedHex (reason : Hex.Malformed)
  /-- A text is not an integer, or a number is not one. -/
  | malformedInteger
  /-- Something that has no integer value stands where an integer is expected. -/
  | notInteger
  /-- An infinite number stands where an integer is expected. -/
  | infiniteInteger
  /-- Bytes are not the encoding of a transaction. -/
  | malformedBytes (reason : DecodeError)
  /-- A value is refused. -/
  | invalid (reason : InvalidValue)
  deriving DecidableEq

namespace DocumentError

/-- The wording of a document error. -/
def message : DocumentError → String
  | missingMember name => s!"a document lacks the member {name}"
  | notAnObject => "a document is not an object"
  | notSubscriptable => "a document has no members"
  | notIterable => "a document is not a list"
  | notText => "a document is not a text"
  | illFormedText => "a text has code points that are no characters"
  | malformedHex reason => reason.message
  | malformedInteger => "a document is not an integer"
  | notInteger => "a document has no integer value"
  | infiniteInteger => "a document is an infinite number"
  | malformedBytes reason => reason.message
  | invalid reason => reason.message

/-- A refusal as a document error. -/
def ofInvalid {α : Type} : Except InvalidValue α → Except DocumentError α
  | .ok value => .ok value
  | .error reason => .error (invalid reason)

/-- A hexadecimal error as a document error. -/
def ofHex {α : Type} : Except Hex.Malformed α → Except DocumentError α
  | .ok value => .ok value
  | .error reason => .error (malformedHex reason)

/-- A decoding error as a document error. -/
def ofDecode {α : Type} : Except DecodeError α → Except DocumentError α
  | .ok value => .ok value
  | .error reason => .error (malformedBytes reason)

end DocumentError

namespace Document

/-- The members of a document, which has to be an object. -/
def members : Json → Except DocumentError (List (Text.Raw × Json))
  | .object members => .ok members
  | _ => .error .notAnObject

/-- The member that a document has to have. -/
def required (name : String) : Json → Except DocumentError Json
  | .object members =>
      match Json.member? members name with
      | some value => .ok value
      | none => .error (.missingMember name)
  | _ => .error .notSubscriptable

/-- The items of a document. A text gives its characters and an object the names of its members. -/
def items : Json → Except DocumentError (List Json)
  | .array items => .ok items
  | .string value => .ok (value.toList.map fun c => .string (String.singleton c))
  | .illFormed points => .ok (points.map fun point => Json.ofPoints [point])
  | .object members => .ok (members.map fun entry => Json.ofRaw entry.1)
  | _ => .error .notIterable

/-- The bytes of a hexadecimal text. -/
def bytes : Json → Except DocumentError ByteString
  | .string text => DocumentError.ofHex (Hex.decode text)
  | .illFormed _ => .error .illFormedText
  | _ => .error .notText

/-- The integer value of a document; a fraction is dropped. -/
def integer : Json → Except DocumentError Int
  | .integer value => .ok value
  | .boolean value => .ok (if value then 1 else 0)
  | .real .nan => .error .malformedInteger
  | .real (.infinity _) => .error .infiniteInteger
  | .real (.finite negative significand exponent) =>
      .ok (Binary64.truncate negative significand exponent).1
  | .string text =>
      match Text.integerOf text with
      | some value => .ok value
      | none => .error .malformedInteger
  | .illFormed _ => .error .illFormedText
  | _ => .error .notInteger

end Document

namespace Input

/-- The document of an input. -/
def toDocument (input : Input) : Json :=
  .object [("outpoint", .string (Hex.encode input.outpoint.bytes)),
    ("sigscript", .string (Hex.encode input.signature.bytes))]

/-- The input that a document describes. A vacant signature stands for the empty one. -/
def ofDocument (document : Json) : Except DocumentError Input := do
  let members ← Document.members document
  let outpoint ← Document.required "outpoint" document
  let outpoint ← Document.bytes outpoint
  let signature ←
    match Json.member? members "sigscript" with
    | none => pure emptySignature.bytes
    | some value =>
        if value.isVacant then pure emptySignature.bytes else Document.bytes value
  DocumentError.ofInvalid (ofLoose (.bytes outpoint) (.bytes signature))

end Input

namespace Output

/-- The document of an output. -/
def toDocument (output : Output) : Json :=
  .object [("value", .natural output.value.toNat),
    ("pubkey", .string (Hex.encode output.owner.bytes))]

/-- The output that a document describes. -/
def ofDocument (document : Json) : Except DocumentError Output := do
  let value ← Document.required "value" document
  let value ← Document.integer value
  let owner ← Document.required "pubkey" document
  let owner ← Document.bytes owner
  DocumentError.ofInvalid (ofLoose (.integer value) (.bytes owner))

end Output

namespace Transaction

/-- The hexadecimal text of the encoding. -/
def toHex (tx : Transaction) : String := Hex.encode tx.encode

/-- The transaction whose encoding a hexadecimal text gives. -/
def ofHex (text : String) : Except DocumentError Transaction := do
  let data ← DocumentError.ofHex (Hex.decode text)
  DocumentError.ofDecode (decode data)

/-- The document of a transaction. -/
def toDocument (tx : Transaction) : Json :=
  .object [("inputs", .array (tx.inputs.map Input.toDocument)),
    ("outputs", .array (tx.outputs.map Output.toDocument))]

/-- The transaction that a document describes. Absent inputs or outputs are none. -/
def ofDocument (document : Json) : Except DocumentError Transaction := do
  let members ← Document.members document
  let inputs ← Document.items ((Json.member? members "inputs").getD (.array []))
  let inputs ← inputs.mapM Input.ofDocument
  let outputs ← Document.items ((Json.member? members "outputs").getD (.array []))
  let outputs ← outputs.mapM Output.ofDocument
  pure { inputs, outputs }

/-- The transaction that an entry of a block gives: a text is the hexadecimal form, anything else a
document. -/
def ofEntry : Json → Except DocumentError Transaction
  | .string text => ofHex text
  | .illFormed _ => .error .illFormedText
  | document => ofDocument document

/-- The document of a transaction with its identifier and the keys of its outputs. -/
def toDetailedDocument [CoinHash] (tx : Transaction) : Except InvalidValue Json := do
  let keys ← tx.outputKeys
  pure (.object [("inputs", .array (tx.inputs.map Input.toDocument)),
    ("outputs", .array (tx.outputs.map Output.toDocument)),
    ("tx_hash", .string (Hex.encode tx.id.bytes)),
    ("output_keys", .array (keys.map fun key => .string (Hex.encode key.bytes)))])

end Transaction
end CoinLedger

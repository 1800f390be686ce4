import CoinLedger.Json.Parser
import CoinLedger.Json.Printer
import CoinLedger.Storage.Snapshots
import CoinLedger.Text.Hex

/-! # Tables in files

A table is kept in a file as a JSON object whose members are its rows, keys and values being
hexadecimal.
-/

namespace CoinLedger.TableFile

/-- The text of a table. -/
def encode (store : SnapshotStore) : String :=
  let rows := store.rows.entries.map fun (key, value) =>
    ((Hex.encode key : Text.Raw), Json.string (Hex.encode value))
  (Json.object rows).compactText

/-- A row of a table. -/
def decodeRow (row : Text.Raw × Json) : Option (ByteString × ByteString) :=
  match row.2 with
  | .string value => do
      let key ← (Hex.decode row.1.replaced).toOption
      let value ← (Hex.decode value).toOption
      pure (key, value)
  | _ => none

/-- The table of a text. -/
def decode (text : String) : Option SnapshotStore :=
  match Json.parse text with
  | .ok (.object rows) => (rows.mapM decodeRow).map fun rows => .ofMap (.ofList rows)
  | _ => none

end CoinLedger.TableFile

import CoinLedger.Config.Basic
import CoinLedger.Config.EnvironmentFile
import CoinLedger.Json.Parser

/-! # Loading a configuration

A configuration is the document of a file, or the empty one, in which two members may be set from
the environment: the log level and the data directory.
-/

namespace CoinLedger

/-- Why a configuration cannot be loaded. -/
inductive LoadError where
  /-- The file that adds to the environment sets a variable that cannot be set. -/
  | unsettable (fault : VariableFault)
  /-- The file is not a JSON text. -/
  | malformed (reason : Json.ParseError)
  /-- A member is to be set in a document that is not an object. -/
  | notAnObject
  /-- The document is not a configuration. -/
  | faulty (faults : List Fault)
  deriving DecidableEq

namespace Config

/-- The environment variable that sets the log level. -/
def logLevelVariable : String := "UTXO_LEDGER_LOG_LEVEL"

/-- The environment variable that sets the data directory. -/
def dataDirectoryVariable : String := "UTXO_LEDGER_DATA_DIR"

/-- Set a member of a document to a text, unless the text is absent or empty. -/
def override (name : String) (value : Option Text.Raw) (document : Json) : Except LoadError Json :=
  match value with
  | none => .ok document
  | some text =>
      if text.isEmpty then .ok document
      else
        match document with
        | .object members => .ok (.object (Json.setMember members name (.ofRaw text)))
        | _ => .error .notAnObject

/-- The document of a file. -/
def readDocument : Option String → Except LoadError Json
  | none => .ok (.object [])
  | some text =>
      match Json.parse text with
      | .ok document => .ok document
      | .error reason => .error (.malformed reason)

/-- Load a configuration from the text of a file, under an environment and a file that adds to
it. -/
def load (text : Option String) (environment : Environment) (environmentFile : String) :
    Except LoadError Config := do
  let environment ← (environment.extendedBy environmentFile).mapError .unsettable
  let document ← readDocument text
  let document ← override "log_level" (environment.lookup (.text logLevelVariable)) document
  let document ← override "data_dir" (environment.lookup (.text dataDirectoryVariable)) document
  match Config.ofDocument document with
  | .ok config => .ok config
  | .error faults => .error (.faulty faults)

end Config
end CoinLedger

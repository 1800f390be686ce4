import CoinLedger.Config.Scalar
import CoinLedger.Transaction.Document
import CoinLedger.Chain.Settings

/-! # Configurations

A configuration says which coins a chain starts with, who is paid at the end of each block, how long
a waiting transaction stays valid, and where its operator wants log and data. It is given as a JSON
object; what the object leaves out has a default, and members that are not known are ignored.
-/

namespace CoinLedger

-- Powers are those of the core library, also where others are in scope.
attribute [local instance (high)] instPowNat

/-- The longevity of a waiting transaction that has no limit, and the greatest one. -/
def maxLongevity : Nat := 2 ^ (64 : Nat) - 1

/-- What an operator configures. -/
structure Config where
  /-- The coins that the chain starts with. -/
  genesis : List Output
  /-- The authorities paid at the end of each block. -/
  authorities : List PublicKey
  /-- For how many blocks a waiting transaction stays valid. -/
  longevity : Nat
  /-- The least important lines that are logged. -/
  logLevel : LogLevel
  /-- The directory of the log file, if there is to be one. -/
  logDirectory : Option PathName
  /-- The directory of the table with the state, if the state is to be kept. -/
  dataDirectory : Option PathName
  deriving DecidableEq

namespace Config

/-- The member of an object under a check, or the default where the object lacks it. -/
def optionalMember {α : Type} (name : String) (default : α) (check : Json → Checked α)
    (members : List (Text.Raw × Json)) : Checked α :=
  match Json.member? members name with
  | none => .ok default
  | some value => Checked.within (.member name) (check value)

/-- The member that an object has to have, under a check. -/
def requiredMember {α : Type} (name : String) (check : Json → Checked α)
    (members : List (Text.Raw × Json)) : Checked α :=
  match Json.member? members name with
  | none => .error [⟨[.member name], .missing⟩]
  | some value => Checked.within (.member name) (check value)

/-- A list whose items all pass a check. -/
def checkedList {α : Type} (check : Json → Checked α) : Json → Checked (List α)
  | .array items => Checked.allFrom 0 check items
  | _ => .error [⟨[], .notList⟩]

/-- The amount of a coin: at least one. -/
def checkAmount (document : Json) : Checked Amount :=
  match document.integerBetween 1 (amountBound - 1) with
  | .ok ⟨value, bounds⟩ => .ok ⟨value, by have : 0 < amountBound := by decide
                                          omega⟩
  | .error problem => .error [⟨[], problem⟩]

/-- The public key of an owner. -/
def checkOwner (document : Json) : Checked PublicKey :=
  Checked.ofProblem (document.text.bind PublicKey.ofPoints)

/-- A coin that the chain starts with. -/
def checkCoin : Json → Checked Output
  | .object members =>
      (Checked.both (requiredMember "value" checkAmount members)
        (requiredMember "pubkey" checkOwner members)).map
        fun (value, owner) => { value, owner }
  | _ => .error [⟨[], .notObject⟩]

/-- The first public key that fails decides on all of them. -/
def publicKeys : List (List Text.CodePoint) → Except Problem (List PublicKey)
  | [] => .ok []
  | text :: texts =>
      match PublicKey.ofPoints text with
      | .error problem => .error problem
      | .ok key => (publicKeys texts).map (key :: ·)

/-- The authorities: texts first, then public keys as a whole. -/
def checkAuthorities (document : Json) : Checked (List PublicKey) :=
  match checkedList (fun item => Checked.ofProblem item.text) document with
  | .error faults => .error faults
  | .ok texts => Checked.ofProblem (publicKeys texts)

/-- For how many blocks a waiting transaction stays valid: at least one. -/
def checkLongevity (document : Json) : Checked Nat :=
  Checked.ofProblem ((document.integerBetween 1 maxLongevity).map Subtype.val)

/-- The least important lines that are logged. -/
def checkLogLevel (document : Json) : Checked LogLevel :=
  Checked.ofProblem (document.text.bind LogLevel.ofPoints)

/-- A directory that need not be given. -/
def checkDirectory (document : Json) : Checked (Option PathName) :=
  Checked.ofProblem document.optionalPath

/-- The configuration whose members are given, or everything that is wrong with them. -/
def ofMembers (members : List (Text.Raw × Json)) : Checked Config :=
  (Checked.both (optionalMember "genesis" [] (checkedList checkCoin) members)
    (Checked.both (optionalMember "authorities" [] checkAuthorities members)
    (Checked.both (optionalMember "longevity" maxLongevity checkLongevity members)
    (Checked.both (optionalMember "log_level" .info checkLogLevel members)
    (Checked.both (optionalMember "log_dir" none checkDirectory members)
      (optionalMember "data_dir" none checkDirectory members)))))).map
    fun (genesis, authorities, longevity, logLevel, logDirectory, dataDirectory) =>
      { genesis, authorities, longevity, logLevel, logDirectory, dataDirectory }

/-- The configuration that a document gives, or what is wrong with it. -/
def ofDocument : Json → Checked Config
  | .object members => (ofMembers members).mapError Checked.reported
  | _ => .error [⟨[], .notObject⟩]

/-- A directory as a member of a document. -/
def directoryDocument (directory : Option PathName) : Json :=
  (directory.map fun path => Json.ofPoints path.points).getD .null

/-- The document of a configuration, with every value in its normal form. -/
def toDocument (config : Config) : Json :=
  .object [("genesis", .array (config.genesis.map Output.toDocument)),
    ("authorities", .array (config.authorities.map fun key => .string (Hex.encode key.bytes))),
    ("longevity", .natural config.longevity), ("log_level", .string config.logLevel.name),
    ("log_dir", directoryDocument config.logDirectory),
    ("data_dir", directoryDocument config.dataDirectory)]

/-- What a chain is started with under a configuration. -/
def chainSettings (config : Config) : ChainSettings :=
  { authorities := config.authorities.map fun key => .bytes key.bytes
    longevity := config.longevity
    genesis? := some config.genesis }

end Config
end CoinLedger

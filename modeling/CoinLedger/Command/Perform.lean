import CoinLedger.Command.Help
import CoinLedger.Config.Load
import CoinLedger.Replay
import CoinLedger.Transaction.Signing
import CoinLedger.Workspace.OpenTable

/-! # Performing commands

A command reads and changes a workspace, prints lines and writes log lines, and may fail on the way;
what it printed and changed before stays.
-/

namespace CoinLedger

-- Sums start at the zero of the core library, also where others are in scope.
attribute [local instance (high)] Zero.ofOfNat0

/-- Why a command fails. -/
inductive CommandError where
  /-- The command line is refused. -/
  | usage (error : UsageError)
  /-- The transaction to show cannot be decoded. -/
  | undecodable (reason : DocumentError)
  /-- A text or a document is not what it should be. -/
  | document (reason : DocumentError)
  /-- A transaction cannot be signed. -/
  | signing (reason : SigningError)
  /-- A configuration cannot be loaded. -/
  | config (reason : LoadError)
  /-- The file with the blocks is not a JSON text. -/
  | blocks (reason : Json.ParseError)
  /-- An operation of the chain fails. -/
  | ledger (error : LedgerError)
  /-- Something in the file system cannot be used. -/
  | obstacle (reason : Obstacle)
  /-- There is no such home directory. -/
  | noHome
  deriving DecidableEq

/-- A command line that is refused as a failure. A name that no file can have is an obstacle, not a
mistake in the usage. -/
def CommandError.ofUsage : UsageError → CommandError
  | .nullInFileName _ => .obstacle .nullInName
  | .illFormedFileName _ => .obstacle .illFormedName
  | error => .usage error

/-- A line that a command writes. -/
inductive OutputLine where
  | printed (text : String)
  | logged (line : LogLine)
  deriving DecidableEq, Repr

/-- What a command does not control. -/
structure Surroundings where
  /-- A seed that nobody knows. -/
  freshSeed : Seed
  /-- The time. -/
  time : String
  /-- The home directories of users. The name of who runs the program is empty. -/
  homes : List (List Text.CodePoint × PathName)
  /-- The environment variables. -/
  environment : Environment
  /-- A file that adds to them. -/
  environmentFile : String
  /-- The random bytes for the signature of the input at a place. -/
  entropyAt : Nat → Entropy := fun _ => FixedBytes.zero 32

/-- What a command has done so far. -/
structure Progress where
  workspace : Workspace
  output : List OutputLine

/-- Work that may fail and keeps what has been done. -/
abbrev Work := ExceptT CommandError (StateM Progress)

namespace Work

/-- Print lines. -/
def print (lines : List String) : Work Unit :=
  modify fun progress =>
    { progress with output := progress.output ++ lines.map OutputLine.printed }

/-- Go on with a value, or fail. -/
def lift {ε α : Type} (wrap : ε → CommandError) : Except ε α → Work α
  | .ok value => pure value
  | .error reason => throw (wrap reason)

/-- Replace the workspace. -/
def setWorkspace (workspace : Workspace) : Work Unit :=
  modify fun progress => { progress with workspace }

/-- The workspace. -/
def workspace : Work Workspace := do return (← get).workspace

/-- Do something in the workspace, which changes also if it fails. -/
def inWorkspace {α : Type} (action : Workspace → Except Obstacle α × Workspace) : Work α := do
  let (outcome, after) := action (← workspace)
  setWorkspace after
  lift .obstacle outcome

/-- Do some work, and then something in the workspace, whether or not the work fails. -/
def ensuring {α : Type} (work : Work α) (afterwards : Workspace → Workspace) : Work α := do
  let (outcome, progress) := work.run (← get)
  set { progress with workspace := afterwards progress.workspace }
  lift id outcome

end Work

namespace LogLine

/-- A log line as it appears in a file, at a given time. -/
def plain (line : LogLine) (time : String) : String :=
  let level := line.level.name
  let padded := level ++ String.ofList (List.replicate (8 - level.length) ' ')
  s!"{time} [{line.source.name}] {padded} {line.text}\n"

end LogLine

/-- Where log lines go and which. -/
structure LogTarget where
  /-- The least important lines that are written. -/
  least : LogLevel
  /-- The file to which they are written besides the output. -/
  file? : Option Place
  /-- The time that is written in front. -/
  time : String

namespace LogTarget

/-- The lines that are written. -/
def selected (target : LogTarget) (lines : List LogLine) : List LogLine :=
  lines.filter fun line => target.least.rank ≤ line.level.rank

/-- Write log lines. -/
def write (target : LogTarget) (lines : List LogLine) : Work Unit := do
  let lines := target.selected lines
  modify fun progress =>
    { progress with output := progress.output ++ lines.map OutputLine.logged }
  match target.file? with
  | none => pure ()
  | some place =>
      let workspace ← Work.workspace
      let text := String.join (lines.map fun line => line.plain target.time)
      Work.setWorkspace (← Work.lift .obstacle (workspace.appendText place text))

/-- Write a log line that ends with a name, unless the name is no text. -/
def writeNaming (target : LogTarget) (level : LogLevel) (source : LogSource) (text : String)
    (name : Text.Raw) : Work Unit :=
  match name.text? with
  | some name => target.write [⟨level, source, text ++ name⟩]
  | none => pure ()

end LogTarget

namespace Command

variable (scheme : SignatureScheme)

/-- The key pair of a seed that is given as text. -/
def pairOfText (text : Text.Raw) : Except CommandError (Seed × scheme.Pair) :=
  match Hex.decode text.replaced with
  | .error reason => .error (.document (.malformedHex reason))
  | .ok bytes =>
      match FixedBytes.ofBytes "Seed" 32 bytes with
      | .error reason => .error (.document (.invalid reason))
      | .ok seed => .ok (seed, scheme.ofSeed seed)

/-- The lines that show a key pair. -/
def keyLines (seed : Seed) (pair : scheme.Pair) : List String :=
  ["Seed:       " ++ Hex.encode seed.bytes,
    "Public key: " ++ Hex.encode (scheme.publicKey pair).bytes]

/-- The bytes of an argument. -/
def bytesOfText (text : Text.Raw) : Except CommandError ByteString :=
  match Hex.decode text.replaced with
  | .error reason => .error (.document (.malformedHex reason))
  | .ok bytes => .ok bytes

/-- A recipient: a public key, a colon and a value. -/
def recipientOfText (text : Text.Raw) : Except CommandError (Loose × Loose) :=
  match Text.splitAtLast (.character ':') text.points with
  | none => .error (.usage (.malformedRecipient text))
  | some (owner, value) => do
      let owner ← bytesOfText (.ofPoints owner)
      match Text.integerOf (Text.CodePoint.replacedText value) with
      | none => .error (.document .malformedInteger)
      | some value => pure (.bytes owner, .integer value)

/-- The transaction that spends given coins of one owner and pays given recipients. -/
def transferOfTexts (seed : Text.Raw) (inputs outputs : List Text.Raw)
    (entropyAt : Nat → Entropy) : Except CommandError Transaction := do
  let (_, pair) ← pairOfText scheme seed
  let recipients ← outputs.mapM recipientOfText
  let outpoints ← inputs.mapM bytesOfText
  let coins := outpoints.map fun outpoint => (Loose.bytes outpoint, pair)
  match Transaction.transferOfLoose scheme coins recipients entropyAt with
  | .error reason => .error (.signing reason)
  | .ok tx => pure tx

variable [CoinHash]

/-- The lines that show a transaction. -/
def transactionLines (text : Text.Raw) : Except CommandError (List String) :=
  match Transaction.ofHex text.replaced with
  | .error reason => .error (.undecodable reason)
  | .ok tx =>
      match tx.toDetailedDocument with
      | .error reason => .error (.document (.invalid reason))
      | .ok document => .ok (document.indentedLines 0)

/-- The line about a coin that a chain starts with. -/
def coinLine (coin : Output) : String :=
  "  " ++ Hex.encode coin.genesisKey.bytes ++ s!"  value={coin.value.toNat}  owner=" ++
    Hex.encode coin.owner.bytes

/-- The lines about the coins that a chain starts with. -/
def genesisLines (coins : List Output) : List String :=
  let total := (coins.map fun coin => coin.value.toNat).sum
  s!"Genesis: {coins.length} outputs, {total} total" :: coins.map coinLine

/-- The configuration in a file. -/
def loadConfig (surroundings : Surroundings) (path : FileName) : Work Config := do
  let text ← Work.lift .obstacle ((← Work.workspace).readText path)
  Work.lift .config
    (Config.load (some text) surroundings.environment surroundings.environmentFile)

/-- The log as a configuration asks for it. -/
def openLog (time : String) (config : Config) : Work LogTarget := do
  match config.logDirectory with
  | none => pure { least := config.logLevel, file? := none, time }
  | some directory =>
      let place ← Work.inWorkspace fun workspace => workspace.makeDirectory directory
      let file := Workspace.child place (FileName.ofText "utxo_ledger.log")
      Work.setWorkspace (← Work.lift .obstacle ((← Work.workspace).appendText file ""))
      pure { least := config.logLevel, file? := some file, time }

/-- The name of the file with the table of a chain's state. -/
def tableName : String := "ledger.db"

/-- A path name with the home directory of a user in place of the user. -/
def expandHome (surroundings : Surroundings) (path : PathName) : Except CommandError PathName :=
  match path.user? with
  | none => .ok path
  | some user =>
      match FileName.ofPoints user, surroundings.homes.lookup user with
      | .error obstacle, _ => .error (.obstacle obstacle)
      | .ok _, none => .error .noHome
      | .ok _, some home => .ok (home.within path)

/-- The state of a chain and the table that keeps it. -/
structure KeptState where
  host : HostState
  table? : Option OpenTable

namespace KeptState

/-- Whether the state may change. -/
def writable (kept : KeptState) : Bool := (kept.table?.map OpenTable.writable).getD true

/-- Keep a state in the table. Nothing is written unless a change has been made: one that seeds the
genesis coins or begins a block. -/
def save (kept : KeptState) (before after : HostState) : Work Unit := do
  let changed := after.genesisDone ≠ before.genesisDone || after.blockNumber ≠ before.blockNumber
  match kept.table?, after with
  | some table, .table store =>
      if changed then Work.setWorkspace (table.keep store (← Work.workspace))
  | _, _ => pure ()

/-- End the use of the table. -/
def close (kept : KeptState) (workspace : Workspace) : Workspace :=
  match kept.table? with
  | some table => table.close workspace
  | none => workspace

end KeptState

/-- Work on the state of a chain: the table in a directory if one is given, or else a new state in
memory. The table is closed afterwards, also if the work fails. -/
def withState {α : Type} (surroundings : Surroundings) (log : LogTarget)
    (directory? : Option PathName) (work : KeptState → Work α) : Work α :=
  match directory? with
  | none => work { host := .emptyMemory, table? := none }
  | some directory => do
      let directory ← Work.lift id (expandHome surroundings directory)
      let table ← Work.inWorkspace fun workspace => workspace.openTable directory tableName
      let kept : KeptState := { host := .table table.store, table? := some table }
      let opened : Work α := do
        log.writeNaming .info .storage "SQLiteState opened at " (directory.file tableName).text
        work kept
      opened.ensuring kept.close

/-- The blocks in a file. -/
def loadBlocks (path : FileName) : Work (List Json) := do
  let text ← Work.lift .obstacle ((← Work.workspace).readText path)
  let document ← Work.lift .blocks (Json.parse text)
  Work.lift .document (Document.items document)

/-- What a replay that stopped says. -/
def replayError : ReplayError → CommandError
  | .document reason => .document reason
  | .ledger error => .ledger error

/-- Write what a block says. -/
def reportBlock (log : LogTarget) (block : ReplayedBlock) : Work Unit := do
  log.write block.journal
  Work.print block.receipt.lines

/-- Write what blocks say, one after another. -/
def reportBlocks (log : LogTarget) : List ReplayedBlock → Work Unit
  | [] => pure ()
  | block :: blocks => do
      reportBlock log block
      reportBlocks log blocks

/-- Fail unless the genesis coins are in a state that may not change. -/
def needNoGenesis (log : LogTarget) (config : Config) (host : HostState) : Work Unit := do
  if !host.genesisDone then
    if config.genesis = [] then log.write (Journal.starting config.chainSettings host)
    throw (.obstacle .readOnlyTable)

/-- Fail at the first block that is to be executed on a state that may not change. -/
def needNoBlock : List Json → Work Unit
  | [] => pure ()
  | document :: _ => do
      let _ ← Work.lift .document (blockOfDocument document)
      throw (.obstacle .readOnlyTable)

/-- Execute the blocks in a file on the chain of a configuration over a state. -/
def replayOver (log : LogTarget) (config : Config) (blocksPath : FileName) (kept : KeptState) :
    Work Unit := do
  unless kept.writable do needNoGenesis log config kept.host
  let (started, chain) := Chain.start config.chainSettings kept.host scheme.verify
  kept.save kept.host chain.host
  Work.lift .ledger started
  log.write (Journal.starting config.chainSettings kept.host)
  let documents ← loadBlocks blocksPath
  log.writeNaming .debug .cli s!"Replaying {documents.length} blocks from "
    (FileName.toRaw blocksPath)
  unless kept.writable do needNoBlock documents
  let replay := chain.replay documents
  reportBlocks log replay.blocks
  kept.save chain.host replay.chain.host
  match replay.error? with
  | some error => throw (replayError error)
  | none =>
      let statistics ← Work.lift (fun reason => .ledger (.malformedCell reason))
        replay.chain.statistics
      Work.print (statistics.indentedLines 0)

/-- Execute blocks on the chain of a configuration. -/
def performReplay (surroundings : Surroundings) (debug : Bool) (configPath blocksPath : FileName)
    (dataDirectory : Option PathName) : Work Unit := do
  let config ← loadConfig surroundings configPath
  let log ←
    if debug then pure { least := .debug, file? := none, time := surroundings.time }
    else openLog surroundings.time config
  withState surroundings log (dataDirectory <|> config.dataDirectory)
    (replayOver scheme log config blocksPath)

/-- Perform a command. -/
def perform (surroundings : Surroundings) (debug : Bool) : Command → Work Unit
  | keygen none =>
      let seed := surroundings.freshSeed
      Work.print (keyLines scheme seed (scheme.ofSeed seed))
  | keygen (some text) => do
      let (seed, pair) ← Work.lift id (pairOfText scheme text)
      Work.print (keyLines scheme seed pair)
  | transfer seed inputs outputs => do
      let tx ← Work.lift id (transferOfTexts scheme seed inputs outputs surroundings.entropyAt)
      Work.print [tx.toHex]
  | decode text => do
      let lines ← Work.lift id (transactionLines text)
      Work.print lines
  | genesis configPath => do
      let config ← loadConfig surroundings configPath
      Work.print (genesisLines config.genesis)
  | replay configPath blocksPath dataDirectory =>
      performReplay scheme surroundings debug configPath blocksPath dataDirectory

/-- Fulfil a request. -/
def fulfil (surroundings : Surroundings) : Request → Work Unit
  | .version => Work.print [s!"{Help.program}, version {Help.version}"]
  | .help topic => Work.print (Help.lines topic)
  | .perform debug command => perform scheme surroundings debug command

/-- The path of the file with the table that a command line makes use of, if it makes use of one. -/
def tablePath? (surroundings : Surroundings) (workspace : Workspace) (words : List Text.Raw) :
    Option PathName :=
  match Request.ofWords workspace words with
  | .ok (.perform _ (.replay configPath _ dataDirectory)) =>
      match (workspace.readText configPath).toOption.map fun text =>
        Config.load (some text) surroundings.environment surroundings.environmentFile with
      | some (.ok config) => do
          let directory ← dataDirectory <|> config.dataDirectory
          let directory ← (expandHome surroundings directory).toOption
          match TableAddress.ofBytes (← (directory.file tableName).bytes?) with
          | .ok (.file path _) => pure (.ofPoints (FileName.toRaw path).points)
          | _ => none
      | _ => none
  | _ => none

/-- Do what a command line asks for. -/
def run (surroundings : Surroundings) (workspace : Workspace) (words : List Text.Raw) :
    Except CommandError Unit × Progress :=
  let work : Work Unit := do
    let request ← Work.lift CommandError.ofUsage (Request.ofWords workspace words)
    fulfil scheme surroundings request
  work.run { workspace, output := [] }

end Command
end CoinLedger

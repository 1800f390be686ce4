import CoinLedger.Command.Report
import CoinLedger.Crypto.Blake2b
import CoinLedger.Crypto.Schnorr
import CoinLedger.Storage.TableFile
import Std.Time.Format

/-! # The program

Reads the files that the command line names, performs the command, writes what has changed and
prints the lines of the command. Environment variables may be added by a file `.env`, which is
looked for in the directory of the program and then in those above it. The working directory is not
searched.
-/

namespace CoinLedger

/-- What stands at a path: a file of text, a directory, or nothing. -/
def readEntry (path : String) : IO (Option FileEntry) := do
  match ← (IO.FS.readFile path).toBaseIO with
  | .ok content => pure (some (.text content))
  | .error (.noFileOrDirectory ..) => pure none
  | .error _ => pure (some .directory)

/-- The workspace with what stands at a path. -/
def loadEntry (workspace : Workspace) (path : String) : IO Workspace := do
  match ← readEntry path with
  | some entry => pure (workspace.installed (.ofText path) entry)
  | none => pure workspace

/-- The workspace with the table at a path, and with the directory that it is in. -/
def loadTable (workspace : Workspace) (path : PathName) : IO Workspace := do
  let directory : PathName := { path with parts := path.parts.dropLast }
  let workspace ← loadEntry workspace directory.text.replaced
  match ← readEntry path.text.replaced with
  | some (.text content) =>
      match TableFile.decode content with
      | some store => pure (workspace.installed path (.table ⟨store, .writeAhead, true⟩))
      | none => pure (workspace.installed path (.text content))
  | some entry => pure (workspace.installed path entry)
  | none => pure workspace

/-- Write an entry that a command left, given what stood there before. -/
def saveEntry (before : Workspace) (place : Place) (entry : FileEntry) : IO Unit := do
  let path := (FileName.toRaw (Workspace.pathOf place)).replaced
  match entry, before.entry? place with
  | .directory, none => IO.FS.createDirAll path
  | .table content, _ => IO.FS.writeFile path (TableFile.encode content.store)
  | .text content, none => do
      let file ← IO.FS.Handle.mk path .append
      file.putStr content
  | _, _ => pure ()

/-- The text of the environment file in a directory, or else of the nearest one above it; empty if
there is none. The parts of the directory's path are given from the last one on. -/
def nearestEnvironmentFile : List String → IO String
  | [] => pure ""
  | part :: above => do
      let path := "/".intercalate (".env" :: part :: above).reverse
      match ← (IO.FS.readFile path).toBaseIO with
      | .ok text => pure text
      | .error _ => nearestEnvironmentFile above

/-- What the command does not control, with random bytes for a number of signatures. -/
def surroundings (signatures : Nat) : IO Surroundings := do
  let random ← IO.getRandomBytes 32
  let entropy ← (List.range signatures).mapM fun _ => IO.getRandomBytes 32
  let now ← Std.Time.PlainDateTime.now
  let directory := (((← IO.appPath).toString.splitOn "/").reverse).drop 1
  let environmentFile ← nearestEnvironmentFile directory
  let names := Config.logLevelVariable :: Config.dataDirectoryVariable ::
    EnvironmentFile.namesIn environmentFile
  let environment ← names.filterMapM fun name => do
    return (← IO.getEnv name).map fun value => (.text name, .text value)
  pure
    { freshSeed := FixedBytes.truncate 32 random.toList
      time := now.format "uuuu-MM-dd HH:mm:ss"
      homes := [([], .ofText ((← IO.getEnv "HOME").getD "/"))]
      environment
      environmentFile
      entropyAt := fun place =>
        FixedBytes.truncate 32 ((entropy[place]?.map ByteArray.toList).getD []) }

/-- Do what a command line asks for; the result is the exit code. Each input of a transfer takes at
least one word, so there are not more signatures than words. -/
def runProgram (words : List String) : IO UInt32 := do
  let surroundings ← surroundings words.length
  let workingDirectory ← IO.currentDir
  let named ← words.foldlM loadEntry (.empty workingDirectory.toString.utf8ByteSize)
  let words := words.map Text.Raw.text
  let workspace ←
    match Command.tablePath? surroundings named words with
    | some path => loadTable named path
    | none => pure named
  let (outcome, progress) := Command.run sr25519 surroundings workspace words
  for (place, entry) in progress.workspace.entries.reverse do
    saveEntry workspace place entry
  for line in progress.output do
    IO.println (line.render surroundings.time)
  match outcome with
  | .ok () => pure 0
  | .error error => do
      for line in error.lines do
        IO.eprintln line
      pure error.exitCode

end CoinLedger

/-- The program. -/
def main (words : List String) : IO UInt32 := CoinLedger.runProgram words

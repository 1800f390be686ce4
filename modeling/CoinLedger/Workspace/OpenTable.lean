import CoinLedger.Storage.TableAddress
import CoinLedger.Workspace

/-! # Tables that are open

A table in a file has companions beside the file. A journal keeps what a change replaces, until the
change is complete; one that is found where no change is under way is played back and removed. A log
gathers changes while the table is open; an index of the log is shared by those who use the table; a
lock keeps others out. Who closes a table brings the log into the file and removes log and index.
Companions can stand in the way: a table cannot be opened if a directory has the name of one that is
needed.
-/

namespace CoinLedger

-- Sums start at the zero of the core library, also where others are in scope.
attribute [local instance (high)] Zero.ofOfNat0

/-- The largest number of bytes in the path from the root to a table. -/
def maxTablePathSize : Nat := 504

/-- Why a table with a faulty address cannot be opened. -/
def Obstacle.ofAddressFault : AddressFault → Obstacle
  | .unknown value => if FileName.isText value then .cannotOpenTable else .illFormedAddress
  | .contradictory => .cannotOpenTable

/-- A file that stands beside a table. -/
inductive Companion where
  | journal
  | log
  | index
  | lock
  deriving DecidableEq, Repr

/-- What the name of a companion has after the name of the table. -/
def Companion.ending : Companion → String
  | journal => "-journal"
  | log => "-wal"
  | index => "-shm"
  | lock => ".lock"

/-- Where changes of a table that is open go, and which companions serve it. -/
inductive TableSession where
  /-- Changes go into the file. -/
  | direct
  /-- Changes go into a log, and others find them by an index. -/
  | logged
  /-- Changes go into a log that no other can read. -/
  | loggedAlone
  /-- There can be no changes, since the index may not change. -/
  | frozen
  deriving DecidableEq, Repr

namespace TableSession

/-- Whether there is a log. -/
def hasLog : TableSession → Bool
  | direct => false
  | _ => true

end TableSession

/-- A table that is open. -/
structure OpenTable where
  /-- The place of its file, if it has one. -/
  place? : Option Place
  /-- What is in it. -/
  store : SnapshotStore
  /-- Whether it may change. -/
  writable : Bool
  session : TableSession

namespace Workspace

/-- Take a step on the way to a table. What need not exist to be left again is not looked up. -/
def approach (workspace : Workspace) (place : Place) (part : FileName) : Option Place :=
  if isIdle part then some place
  else if part = parentName then some (parent place)
  else if maxPartSize < part.length then none
  else
    match workspace.entry? place with
    | none | some .directory => some (child place part)
    | _ => none

/-- The number of bytes in the path from the root to a place. -/
def pathSize (workspace : Workspace) (place : Place) : Nat :=
  let below := (place.names.map fun name => name.length + 1).sum
  match place.origin with
  | .root => below
  | .above _ => workspace.workingPathSize + below

/-- The place of the table in the file that a path names. -/
def tablePlace? (workspace : Workspace) (path : FileName) : Option Place := do
  let place ← (Text.pieces slashByte path).foldlM workspace.approach
    (originOf (path.head? = some slashByte))
  if maxTablePathSize < workspace.pathSize place then none else some place

/-- The place of a companion of the table at a place. -/
def companionPlace (place : Place) (companion : Companion) : Place :=
  let name := place.names.getLast?.getD [] ++ FileName.ofText companion.ending
  { place with names := place.names.dropLast ++ [name] }

/-- What stands at the place of a companion. -/
def companion? (workspace : Workspace) (place : Place) (companion : Companion) :
    Option FileEntry :=
  workspace.entry? (companionPlace place companion)

/-- Put a file at the place of a companion. -/
def putCompanion (workspace : Workspace) (place : Place) (companion : Companion)
    (entry : FileEntry) : Workspace :=
  workspace.put (companionPlace place companion) entry

/-- Remove a companion. -/
def removeCompanion (workspace : Workspace) (place : Place) (companion : Companion) : Workspace :=
  workspace.remove (companionPlace place companion)

end Workspace

/-- Whether a text is so short that a table may be made in its place: it has at most one byte. -/
def yieldsToTable (content : String) : Bool := content.utf8ByteSize ≤ 1

namespace FileEntry

/-- Whether a table may be made in place of an entry. -/
def isBlank : FileEntry → Bool
  | text content => yieldsToTable content
  | _ => false

/-- Whether an entry is a file of no bytes. -/
def isEmpty : FileEntry → Bool
  | text content => content.isEmpty
  | _ => false

/-- Whether an entry is a file that starts with the byte zero, as a journal does that is
complete. -/
def startsWithZero : FileEntry → Bool
  | text content => content.startsWith "\x00"
  | _ => false

end FileEntry

/-- A step of the opening of a table. What has been done stays if it fails. -/
abbrev TableOpening := ExceptT Obstacle (StateM Workspace)

namespace TableOpening

variable (place : Place) (options : TableOptions)

/-- Find the file, or make an empty one if that is allowed. -/
def findFile : TableOpening Unit := do
  let workspace ← get
  if let some path := options.likeness? then
    if (workspace.find path).isNone then throw .cannotOpenTable
  match workspace.entry? place, workspace.entry? (Workspace.parent place) with
  | none, some .directory =>
      if options.mode = .create then set (workspace.put place (.text ""))
      else throw .cannotOpenTable
  | none, _ | some .directory, _ => throw .cannotOpenTable
  | some _, _ => pure ()

/-- Whether the file is one in which a table is to be made. -/
def isBlank : TableOpening Bool := do
  let workspace ← get
  return (FileEntry.isBlank <$> workspace.entry? place).getD false

/-- Make sure that nobody else has locked the file. -/
def needUnlocked : TableOpening Unit := do
  if options.locking && options.layer = .lockFile && ((← get).companion? place .lock).isSome then
    throw .cannotOpenTable

/-- Play a journal back that is left, and remove it. One that starts with the byte zero is complete,
and one of no bytes was never begun. -/
def settleJournal : TableOpening Unit := do
  if !options.playsBack then return
  let workspace ← get
  match workspace.companion? place .journal with
  | none => pure ()
  | some entry =>
      if entry.isEmpty then pure ()
      else if ← isBlank place then
        if options.mayReserve && !(entry matches .directory) then
          set (workspace.removeCompanion place .journal)
      else if entry matches .directory then throw .cannotOpenTable
      else if entry.startsWithZero then pure ()
      else if options.mode = .readOnly then throw .readOnlyTable
      else set (workspace.removeCompanion place .journal)

/-- Whether a log is left that is to be used. A log of a table that has yet to be made is
removed. -/
def settleLog : TableOpening Bool := do
  let workspace ← get
  match workspace.companion? place .log with
  | none => pure false
  | some entry =>
      if entry.isEmpty then pure false
      else if ← isBlank place then
        if entry matches .directory then throw .cannotOpenTable
        set (workspace.removeCompanion place .log)
        pure false
      else if options.mayLog && !(entry matches .directory) then pure true
      else throw .cannotOpenTable

/-- Use a log, and its index if it is shared. -/
def useLog : TableOpening TableSession := do
  let workspace ← get
  if workspace.companion? place .log matches some .directory then throw .cannotOpenTable
  if (workspace.companion? place .log).isNone then
    set (workspace.putCompanion place .log (.text ""))
  if !options.sharesIndex then pure .loggedAlone
  else
    match workspace.companion? place .index, options.indexReadOnly with
    | none, true => throw .cannotOpenTable
    | some .directory, _ | some _, true => pure .frozen
    | _, false =>
        modify fun workspace => workspace.putCompanion place .index .binary
        pure .logged

/-- Begin and end a change that goes into the file, which takes a journal. -/
def throughJournal : TableOpening Unit := do
  let workspace ← get
  let name := (Workspace.companionPlace place .journal).names.getLast?.getD []
  if maxPartSize < name.length then throw .cannotOpenTable
  if workspace.companion? place .journal matches some .directory then throw .cannotOpenTable
  set (workspace.removeCompanion place .journal)

/-- The table in the file. -/
def readTable : TableOpening StoredTable := do
  let workspace ← get
  match workspace.entry? place with
  | some (.table table) => pure table
  | some entry => if entry.isBlank then pure .blank else throw .notATable
  | none => throw .cannotOpenTable

/-- Open a table that is trusted not to change. -/
def openUnchanging : TableOpening OpenTable := do
  let table ← readTable place
  if !table.filled then throw .readOnlyTable
  pure { place? := some place, store := table.store, writable := false, session := .direct }

/-- Let the changes of a table gather in a log if they may, and use the log. -/
def beginSession (table : StoredTable) : TableOpening TableSession := do
  match table.journaling with
  | .writeAhead => if options.mayLog then useLog place options else throw .cannotOpenTable
  | .rollback =>
      if !options.mayLog then pure .direct
      else
        if options.mode = .readOnly then throw .readOnlyTable
        throughJournal place
        modify fun workspace =>
          workspace.put place (.table { table with journaling := .writeAhead })
        useLog place options

/-- Give a table rows if its file has none yet. -/
def beginRows (session : TableSession) : TableOpening Unit := do
  let table ← readTable place
  if !table.filled then
    if options.mode = .readOnly || session = .frozen then throw .readOnlyTable
    if session.hasLog then
      modify fun workspace => workspace.putCompanion place .log .binary
    else
      throughJournal place
      modify fun workspace => workspace.put place (.table { table with filled := true })

/-- Settle what stands beside the file, and begin to use it. -/
def settle : TableOpening TableSession := do
  needUnlocked place options
  settleJournal place options
  if ← settleLog place options then useLog place options
  else beginSession place options (← readTable place)

/-- Take the table into use. -/
def enter (session : TableSession) : TableOpening OpenTable := do
  beginRows place options session
  let table ← readTable place
  let writable := options.mode ≠ .readOnly && session ≠ .frozen
  pure { place? := some place, store := table.store, writable, session }

end TableOpening

namespace OpenTable

/-- A table that is kept nowhere. -/
def transient : OpenTable :=
  { place? := none, store := .ofMap .empty, writable := true, session := .direct }

/-- Keep what is in a table, to which changes have been made. -/
def keep (table : OpenTable) (store : SnapshotStore) (workspace : Workspace) : Workspace :=
  match table.place? with
  | none => workspace
  | some place =>
      match workspace.entry? place with
      | some (.table content) =>
          let kept := workspace.put place (.table { content with store })
          if table.session.hasLog then kept.putCompanion place .log .binary
          else kept.removeCompanion place .journal
      | _ => workspace

end OpenTable

namespace Workspace

/-- End the use of a table: bring the log into the file, and remove log and index. Nothing can be
done without the right to change both file and index. -/
def endSession (workspace : Workspace) (place : Place) (mode : TableMode) (session : TableSession) :
    Workspace :=
  let settled :=
    match workspace.entry? place, workspace.companion? place .log with
    | some (.table content), some .binary =>
        workspace.put place (.table { content with filled := true })
    | _, _ => workspace
  if mode = .readOnly then workspace
  else
    match session with
    | .direct | .frozen => workspace
    | .loggedAlone => settled.removeCompanion place .log
    | .logged => (settled.removeCompanion place .log).removeCompanion place .index

/-- Open the table at a place. If that fails when its use has begun, the use ends. -/
def openPlace (workspace : Workspace) (place : Place) (options : TableOptions) :
    Except Obstacle OpenTable × Workspace :=
  match (TableOpening.findFile place options).run workspace with
  | (.error obstacle, after) => (.error obstacle, after)
  | (.ok (), found) =>
      if options.unchanging then (TableOpening.openUnchanging place).run found
      else
        match (TableOpening.settle place options).run found with
        | (.error obstacle, after) => (.error obstacle, after)
        | (.ok session, settled) =>
            match (TableOpening.enter place options session).run settled with
            | (.ok table, opened) => (.ok table, opened)
            | (.error obstacle, stopped) =>
                (.error obstacle, stopped.endSession place options.mode session)

/-- Open the table at an address, making its file if it does not exist. -/
def openAddress (workspace : Workspace) : TableAddress → Except Obstacle OpenTable × Workspace
  | .transient => (.ok .transient, workspace)
  | .file path options =>
      match workspace.tablePlace? path with
      | none => (.error .cannotOpenTable, workspace)
      | some place => workspace.openPlace place options

/-- Open the table whose address is the path of a file in a directory, which is made if it does not
exist. -/
def openTable (workspace : Workspace) (directory : PathName) (name : String) :
    Except Obstacle OpenTable × Workspace :=
  match workspace.directoryAt directory with
  | (.error obstacle, after) => (.error obstacle, after)
  | (.ok _, after) =>
      match (directory.file name).bytes?.map TableAddress.ofBytes with
      | some (.ok address) => after.openAddress address
      | some (.error fault) => (.error (.ofAddressFault fault), after)
      | none => (.error .cannotOpenTable, after)

end Workspace

/-- End the use of a table. -/
def OpenTable.close (table : OpenTable) (workspace : Workspace) : Workspace :=
  match table.place? with
  | none => workspace
  | some place =>
      workspace.endSession place (if table.writable then .readWrite else .readOnly) table.session

end CoinLedger

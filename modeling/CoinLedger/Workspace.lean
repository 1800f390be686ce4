import CoinLedger.PathName
import CoinLedger.Storage.StoredTable

/-! # Workspaces

What commands find and leave in the file system: directories, files, and tables with the
state of a chain. Names are looked up from a working directory or from the root, part by part.
-/

namespace CoinLedger

/-- Where a look-up starts: at the root, or a number of levels above the working directory. -/
inductive Origin where
  | root
  | above (levels : Nat)
  deriving DecidableEq, Repr

/-- The place of an entry: where the look-up starts and the names on the way. -/
structure Place where
  origin : Origin
  names : List FileName
  deriving DecidableEq, Repr

/-- Something in the file system. -/
inductive FileEntry where
  | directory
  | text (content : String)
  /-- A file that does not hold text. -/
  | binary
  | table (content : StoredTable)

/-- Why something in the file system cannot be used. -/
inductive Obstacle where
  /-- A file stands where a directory is needed on the way. -/
  | notADirectory
  /-- A file stands where a directory is to be made. -/
  | fileExists
  /-- A directory stands where a file is needed. -/
  | isADirectory
  /-- There is no such file. -/
  | absent
  /-- A file does not hold text. -/
  | notText
  /-- A table cannot stand at this place. -/
  | cannotOpenTable
  /-- A file does not hold a table. -/
  | notATable
  /-- A table cannot be written to. -/
  | readOnlyTable
  /-- The address of a table is at fault by bytes that are no text. -/
  | illFormedAddress
  /-- A path name has a code point in it that has no bytes. -/
  | illFormedName
  /-- A path name has the null character in it. -/
  | nullInName
  /-- A path name, or a part of one, has too many bytes. -/
  | nameTooLong
  deriving DecidableEq, Repr

/-- The first number of bytes that a path name cannot have. -/
def pathSizeBound : Nat := 4096

/-- The largest number of bytes in a part of a path name. -/
def maxPartSize : Nat := 255

/-- The bytes that code points spell, if they can be looked up in a file system. -/
def FileName.ofPoints (points : List Text.CodePoint) : Except Obstacle FileName :=
  match FileName.ofPoints? points with
  | none => .error .illFormedName
  | some name => if 0 ∈ name then .error .nullInName else .ok name

/-- Why a path name as a whole can name nothing. -/
def PathName.obstacle? (path : PathName) : Option Obstacle :=
  match FileName.ofPoints path.points with
  | .error obstacle => some obstacle
  | .ok name => if pathSizeBound ≤ name.length then some .nameTooLong else none

/-- The name of the entry that a part of a path name names. -/
def PathPart.fileName (part : PathPart) : FileName := (FileName.ofPoints? part.name).getD []

/-- The entries of a file system, at most one at each place. The origins themselves are
directories. -/
structure Workspace where
  entries : List (Place × FileEntry)
  /-- The number of bytes in the path from the root to the working directory. -/
  workingPathSize : Nat

namespace Workspace

/-- The working directory. -/
def workingPlace : Place := ⟨.above 0, []⟩

/-- The name of the directory above a directory. -/
def parentName : FileName := FileName.ofText ".."

/-- Whether a name stands for the directory that it is looked up in. -/
def isIdle (name : FileName) : Bool := name.isEmpty || name = FileName.ofText "."

/-- The workspace in which there is nothing. -/
def empty (workingPathSize : Nat) : Workspace := ⟨[], workingPathSize⟩

/-- What stands at a place. -/
def entry? (workspace : Workspace) (place : Place) : Option FileEntry :=
  match place.names with
  | [] => some .directory
  | _ => workspace.entries.lookup place

/-- Put an entry at a place. -/
def put (workspace : Workspace) (place : Place) (entry : FileEntry) : Workspace :=
  { workspace with
    entries := (place, entry) :: workspace.entries.filter fun other => other.1 ≠ place }

/-- Leave nothing at a place. -/
def remove (workspace : Workspace) (place : Place) : Workspace :=
  { workspace with entries := workspace.entries.filter fun other => other.1 ≠ place }

/-- The place of a name in a directory. -/
def child (place : Place) (name : FileName) : Place := { place with names := place.names ++ [name] }

/-- The place of the directory that holds a place. -/
def parent (place : Place) : Place :=
  match place.names, place.origin with
  | [], .above levels => ⟨.above (levels + 1), []⟩
  | _, _ => { place with names := place.names.dropLast }

/-- Follow a part of a path from a place, which has to be a directory. Empty parts and dots stay. -/
def follow (workspace : Workspace) (place : Place) (part : FileName) : Option Place :=
  match workspace.entry? place with
  | some .directory =>
      if isIdle part then some place
      else if part = parentName then some (parent place)
      else
        match workspace.entry? (child place part) with
        | some _ => some (child place part)
        | none => none
  | _ => none

/-- Where a look-up of a text starts. -/
def originOf (absolute : Bool) : Place :=
  if absolute then ⟨.root, []⟩ else workingPlace

/-- The byte of a slash. -/
def slashByte : UInt8 := UInt8.ofNat '/'.toNat

/-- The place that a path names, if there is an entry at it. -/
def find (workspace : Workspace) (path : FileName) : Option Place :=
  if path.isEmpty then none
  else
    (Text.pieces slashByte path).foldlM workspace.follow (originOf (path.head? = some slashByte))

/-- The entry that a path names. -/
def lookup (workspace : Workspace) (path : FileName) : Option FileEntry :=
  (workspace.find path).bind workspace.entry?

/-- The content of the file that a path names. -/
def readText (workspace : Workspace) (path : FileName) : Except Obstacle String :=
  match workspace.lookup path with
  | some (.text content) => .ok content
  | some .directory => .error .isADirectory
  | some (.table content) => if content.filled then .error .notText else .ok StoredTable.mark
  | some .binary => .error .notText
  | none => .error .absent

/-- Make the directories on a path that do not exist, from a place on. Those made before an obstacle
stay. -/
def makeParts (place : Place) : List PathPart → Workspace → Except Obstacle Place × Workspace
  | [], workspace => (.ok place, workspace)
  | part :: parts, workspace =>
      match workspace.entry? place with
      | some .directory =>
          let name := part.fileName
          if name = parentName then makeParts (parent place) parts workspace
          else if maxPartSize < name.length then (.error .nameTooLong, workspace)
          else
            let next := child place name
            match workspace.entry? next with
            | none => makeParts next parts (workspace.put next .directory)
            | some .directory => makeParts next parts workspace
            | some _ => (.error (if parts.isEmpty then .fileExists else .notADirectory), workspace)
      | _ => (.error .notADirectory, workspace)

/-- Make the directory that a path names, with those on the way. -/
def makeDirectory (workspace : Workspace) (path : PathName) : Except Obstacle Place × Workspace :=
  match path.obstacle? with
  | some obstacle => (.error obstacle, workspace)
  | none => makeParts (originOf (path.start ≠ .here)) path.parts workspace

/-- Add text at the end of a file, which is made if it does not exist. -/
def appendText (workspace : Workspace) (place : Place) (text : String) :
    Except Obstacle Workspace :=
  match workspace.entry? place with
  | none => .ok (workspace.put place (.text text))
  | some (.text content) => .ok (workspace.put place (.text (content ++ text)))
  | some .directory => .error .isADirectory
  | some .binary | some (.table _) => .ok workspace

/-- The directory that a path names, which is made if it does not exist. -/
def directoryAt (workspace : Workspace) (path : PathName) : Except Obstacle Place × Workspace :=
  match path.obstacle?, path.bytes?.bind workspace.find with
  | none, some place => (.ok place, workspace)
  | _, _ => workspace.makeDirectory path

/-- Put an entry at a path, with the directories on the way. It takes the place of a file. -/
def install (workspace : Workspace) (path : PathName) (entry : FileEntry) :
    Except Obstacle Workspace := do
  if let some obstacle := path.obstacle? then throw obstacle
  let (made, opened) := workspace.makeDirectory { path with parts := path.parts.dropLast }
  let place ← made
  match path.parts.getLast? with
  | none => throw .isADirectory
  | some part =>
      if maxPartSize < part.fileName.length then throw .nameTooLong
      let place := child place part.fileName
      if opened.entry? place matches some .directory then throw .isADirectory
      return opened.put place entry

/-- The workspace with an entry at a path, unless something stands in the way. -/
def installed (workspace : Workspace) (path : PathName) (entry : FileEntry) : Workspace :=
  (workspace.install path entry).toOption.getD workspace

/-- The path of a place. -/
def pathOf (place : Place) : FileName :=
  let names := List.intercalate [slashByte] place.names
  match place.origin with
  | .root => slashByte :: names
  | .above levels => (List.replicate levels (parentName ++ [slashByte])).flatten ++ names

/-- Whether an entry is a file. -/
def isFile : FileEntry → Bool
  | .directory => false
  | _ => true

/-- The names of all files under the working directory, in order. -/
def fileNames (workspace : Workspace) : List Text.Raw :=
  let names := workspace.entries.filterMap fun (place, entry) =>
    if place.origin = .above 0 ∧ isFile entry then some (FileName.toRaw (pathOf place)) else none
  names.mergeSort fun left right => !right.precedes left

end Workspace
end CoinLedger

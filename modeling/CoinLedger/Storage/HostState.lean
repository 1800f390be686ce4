import CoinLedger.Storage.Layered
import CoinLedger.Storage.Snapshots

/-! # The state that a host supplies

The ledger keeps its coins in a key-value state that its host supplies, either in memory or in a
database table. Both nest transactions. They differ in one listing: a table does not list the empty
key under the empty prefix.
-/

namespace CoinLedger

/-- A key-value state with nested transactions. -/
inductive HostState where
  /-- A state in memory. -/
  | memory (store : LayeredStore)
  /-- A database table. -/
  | table (store : SnapshotStore)

namespace HostState

/-- The empty state in memory. -/
def emptyMemory : HostState := memory (.ofMap .empty)

/-- The empty table. -/
def emptyTable : HostState := table (.ofMap .empty)

/-- The value at a key. -/
def get? (state : HostState) (key : ByteString) : Option ByteString :=
  match state with
  | memory store => store.get? key
  | table store => store.get? key

/-- Set a value at a key, or delete what is there. -/
def write (state : HostState) (key : ByteString) (value : Option ByteString) : HostState :=
  match state with
  | memory store => memory (store.write key value)
  | table store => table (store.write key value)

/-- Set the value at a key. -/
def put (state : HostState) (key value : ByteString) : HostState := state.write key (some value)

/-- Delete what is at a key. -/
def delete (state : HostState) (key : ByteString) : HostState := state.write key none

/-- Whether there is a value at a key. -/
def contains (state : HostState) (key : ByteString) : Bool := (state.get? key).isSome

/-- The entries whose keys start with a given byte string, in ascending order. A table compares the
prefix with a substring of the key, which for an empty key is nothing at all. -/
def scan (state : HostState) (start : ByteString) : List (ByteString × ByteString) :=
  match state with
  | memory store => store.scan start
  | table store => (store.scan start).filter fun entry => entry.1 ≠ []

/-- Open a transaction. -/
def enter : HostState → HostState
  | memory store => memory store.enter
  | table store => table store.enter

/-- End the innermost transaction and keep its writes. -/
def commit : HostState → HostState
  | memory store => memory store.commit
  | table store => table store.commit

/-- End the innermost transaction and undo its writes. -/
def rollback : HostState → HostState
  | memory store => memory store.rollback
  | table store => table store.rollback

/-- Run a step inside a transaction, which is kept if the step succeeds and undone if it fails. -/
def atomically {ε α : Type} (state : HostState)
    (step : HostState → Except ε α × HostState) : Except ε α × HostState :=
  match step state.enter with
  | (.ok value, after) => (.ok value, after.commit)
  | (.error error, after) => (.error error, after.rollback)

end HostState
end CoinLedger

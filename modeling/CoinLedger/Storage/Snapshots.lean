import CoinLedger.Storage.SortedMap

/-! # Nested transactions as saved copies

One map holds everything. Opening a transaction saves a copy of the map; a transaction that ends
normally discards the copy, and one that fails puts it back.
-/

namespace CoinLedger

/-- A key-value state with one saved copy for each open transaction. -/
@[ext] structure SnapshotStore where
  /-- The current entries. -/
  rows : SortedMap ByteString
  /-- The entries as they were when the open transactions began, innermost first. -/
  saved : List (SortedMap ByteString)

namespace SnapshotStore

/-- The state that holds the given entries and has no open transaction. -/
def ofMap (rows : SortedMap ByteString) : SnapshotStore := ⟨rows, []⟩

/-- The value at a key. -/
def get? (store : SnapshotStore) (key : ByteString) : Option ByteString := store.rows.get? key

/-- Set a value at a key, or delete what is there. -/
def write (store : SnapshotStore) (key : ByteString) : Option ByteString → SnapshotStore
  | some value => { store with rows := store.rows.insert key value }
  | none => { store with rows := store.rows.erase key }

/-- The entries whose keys start with a given byte string, in ascending order. -/
def scan (store : SnapshotStore) (start : ByteString) : List (ByteString × ByteString) :=
  store.rows.withPrefix start

/-- Open a transaction. -/
def enter (store : SnapshotStore) : SnapshotStore :=
  { store with saved := store.rows :: store.saved }

/-- End the innermost transaction and keep its writes. -/
def commit (store : SnapshotStore) : SnapshotStore :=
  { store with saved := store.saved.tail }

/-- End the innermost transaction and restore what it found. -/
def rollback (store : SnapshotStore) : SnapshotStore :=
  match store.saved with
  | [] => store
  | before :: outer => ⟨before, outer⟩

/-- The number of open transactions. -/
def depth (store : SnapshotStore) : Nat := store.saved.length

end SnapshotStore
end CoinLedger

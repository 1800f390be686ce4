import CoinLedger.Storage.SortedMap

/-! # Nested transactions as layers of writes

A committed map lies under one layer of writes for each open transaction. Reads look through the
layers from the innermost one down; writes go to the innermost layer; a transaction that ends
normally hands its writes to what lies below, and one that fails drops them.
-/

namespace CoinLedger

/-- A key-value state with one layer of writes for each open transaction. -/
@[ext] structure LayeredStore where
  /-- What is stored outside every transaction. -/
  committed : SortedMap ByteString
  /-- The writes of the open transactions, innermost first; `none` marks a deletion. -/
  layers : List (SortedMap (Option ByteString))

namespace LayeredStore

/-- The state that holds the given entries and has no open transaction. -/
def ofMap (committed : SortedMap ByteString) : LayeredStore := ⟨committed, []⟩

/-- The value at a key. -/
def get? (store : LayeredStore) (key : ByteString) : Option ByteString :=
  match store.layers.findSome? fun layer => layer.get? key with
  | some written => written
  | none => store.committed.get? key

/-- Set a value at a key, or delete what is there. -/
def write (store : LayeredStore) (key : ByteString) (value : Option ByteString) : LayeredStore :=
  match store.layers with
  | layer :: outer => { store with layers := layer.insert key value :: outer }
  | [] =>
      match value with
      | some value => { store with committed := store.committed.insert key value }
      | none => { store with committed := store.committed.erase key }

/-- The writes of all layers over the committed entries. -/
def merged (store : LayeredStore) : SortedMap (Option ByteString) :=
  store.layers.foldr
    (fun layer below =>
      layer.entries.foldl (fun map entry => map.insert entry.1 entry.2) below)
    (store.committed.map some)

/-- The live entries whose keys start with a given byte string, in ascending order. -/
def scan (store : LayeredStore) (start : ByteString) : List (ByteString × ByteString) :=
  (store.merged.withPrefix start).filterMap fun entry =>
    entry.2.map fun value => (entry.1, value)

/-- Open a transaction. -/
def enter (store : LayeredStore) : LayeredStore :=
  { store with layers := .empty :: store.layers }

/-- End the innermost transaction and keep its writes. -/
def commit (store : LayeredStore) : LayeredStore :=
  match store.layers with
  | [] => store
  | layer :: outer =>
      layer.entries.foldl (fun below entry => below.write entry.1 entry.2)
        { store with layers := outer }

/-- End the innermost transaction and drop its writes. -/
def rollback (store : LayeredStore) : LayeredStore :=
  { store with layers := store.layers.tail }

/-- The number of open transactions. -/
def depth (store : LayeredStore) : Nat := store.layers.length

end LayeredStore
end CoinLedger

import CoinLedger.Proofs.Storage.SortedMap
import CoinLedger.Storage.HostState

/-! # What a host's state holds

Whether a host keeps layers of writes or saved copies, its state shows one map, the contents.
Reads are look-ups in the contents, a listing is the part of the contents with the given start
(`CoinLedger.HostState.scan_eq`), writes change the contents at one key, and opening or keeping a
transaction leaves them as they are.
-/

namespace CoinLedger

namespace SortedMap

variable {α : Type}

/-- The entries that are no marks of deletions. -/
def live (map : SortedMap (Option α)) : SortedMap α :=
  ⟨map.entries.filterMap fun entry => entry.2.map fun value => (entry.1, value), by
    refine map.ascending.filterMap _ ?_
    rintro ⟨left, leftValue⟩ ⟨right, rightValue⟩ less leftEntry leftLive rightEntry rightLive
    obtain ⟨_, _, rfl⟩ := Option.map_eq_some_iff.mp leftLive
    obtain ⟨_, _, rfl⟩ := Option.map_eq_some_iff.mp rightLive
    exact less⟩

/-- What is marked as deleted is not found among the live entries. -/
theorem get?_live (map : SortedMap (Option α)) (key : ByteString) :
    map.live.get? key = (map.get? key).join := by
  apply Option.ext
  intro value
  rw [← mem_entries_iff, Option.join_eq_some_iff, ← mem_entries_iff, live, List.mem_filterMap]
  constructor
  · rintro ⟨⟨other, stored⟩, member, shown⟩
    obtain ⟨kept, rfl, same⟩ := Option.map_eq_some_iff.mp shown
    cases same
    exact member
  · intro member
    exact ⟨(key, some value), member, rfl⟩

/-- A listing of the live entries leaves out what is marked as deleted. -/
theorem withPrefix_live (map : SortedMap (Option α)) (start : ByteString) :
    map.live.withPrefix start =
      (map.withPrefix start).filterMap fun entry => entry.2.map fun value => (entry.1, value) := by
  unfold withPrefix live
  rw [List.filter_filterMap, List.filterMap_filter]
  congr 1
  funext entry
  obtain ⟨key, stored⟩ := entry
  cases stored with
  | none => simp
  | some value =>
      simp only [Option.map_some, Option.filter_some]

end SortedMap

namespace LayeredStore

/-- What the writes of the open transactions leave of the committed entries and add to them. -/
def contents (store : LayeredStore) : SortedMap ByteString := store.merged.live

variable (committed : SortedMap ByteString) (layer : SortedMap (Option ByteString))
  (outer : List (SortedMap (Option ByteString)))

/-- What the innermost layer says of a key comes before what is below it. -/
theorem get?_of_layer (key : ByteString) :
    (⟨committed, layer :: outer⟩ : LayeredStore).get? key =
      (layer.get? key).getD ((⟨committed, outer⟩ : LayeredStore).get? key) := by
  unfold get?
  dsimp only
  rw [List.findSome?_cons]
  cases layer.get? key <;> rfl

/-- A write decides what its key finds and leaves the others alone. -/
theorem get?_write (store : LayeredStore) (key other : ByteString) (value : Option ByteString) :
    (store.write key value).get? other = if other = key then value else store.get? other := by
  obtain ⟨committed, layers⟩ := store
  cases layers with
  | nil =>
      cases value with
      | none => exact SortedMap.get?_erase committed key other
      | some value => exact SortedMap.get?_insert committed key other value
  | cons layer outer =>
      change (⟨committed, layer.insert key value :: outer⟩ : LayeredStore).get? other = _
      rw [get?_of_layer, get?_of_layer, SortedMap.get?_insert]
      split <;> rfl

/-- A new layer hides nothing. -/
theorem get?_enter (store : LayeredStore) (key : ByteString) :
    store.enter.get? key = store.get? key := by
  obtain ⟨committed, layers⟩ := store
  exact get?_of_layer committed .empty layers key

/-- What is kept of a transaction is what was seen in it. -/
theorem get?_commit (store : LayeredStore) (key : ByteString) :
    store.commit.get? key = store.get? key := by
  obtain ⟨committed, layers⟩ := store
  cases layers with
  | nil => rfl
  | cons layer outer =>
      rw [get?_of_layer]
      refine (SortedMap.get_foldl_write get?_write layer _ key).trans ?_
      rw [Option.map_id_fun', id]

/-- The layers merged into one map find what the store finds. -/
theorem get?_merged (store : LayeredStore) (key : ByteString) :
    (store.merged.get? key).join = store.get? key := by
  obtain ⟨committed, layers⟩ := store
  induction layers with
  | nil =>
      change ((SortedMap.map some committed).get? key).join = committed.get? key
      rw [SortedMap.get?_map]
      cases committed.get? key <;> rfl
  | cons layer outer inductive_step =>
      have written := SortedMap.get_foldl_write SortedMap.get?_insert layer
        (⟨committed, outer⟩ : LayeredStore).merged key
      change (SortedMap.get? (layer.entries.foldl (fun map entry => map.insert entry.1 entry.2)
        (⟨committed, outer⟩ : LayeredStore).merged) key).join = _
      rw [written, get?_of_layer, ← inductive_step]
      cases layer.get? key <;> rfl

/-- The contents hold what the store finds. -/
theorem get?_contents (store : LayeredStore) (key : ByteString) :
    store.contents.get? key = store.get? key := by
  rw [contents, SortedMap.get?_live, get?_merged]

/-- A listing is read off the contents. -/
theorem scan_eq (store : LayeredStore) (start : ByteString) :
    store.scan start = store.contents.withPrefix start :=
  (SortedMap.withPrefix_live store.merged start).symm

/-- A store inside a transaction that was opened over another store. -/
def InnerOf (store base : LayeredStore) : Prop :=
  ∃ layer, store = ⟨base.committed, layer :: base.layers⟩

/-- A store with a new layer is inside the store without it. -/
theorem innerOf_enter (store : LayeredStore) : store.enter.InnerOf store := ⟨.empty, rfl⟩

variable {store inner base : LayeredStore}

/-- A write stays inside. -/
theorem InnerOf.write (inside : store.InnerOf base) (key : ByteString) (value : Option ByteString) :
    (store.write key value).InnerOf base := by
  obtain ⟨layer, rfl⟩ := inside
  exact ⟨layer.insert key value, rfl⟩

/-- **Rolling back restores the store that was entered from.** -/
theorem InnerOf.rollback (inside : store.InnerOf base) : store.rollback = base := by
  obtain ⟨layer, rfl⟩ := inside
  rfl

/-- A transaction that is kept inside another one stays inside that one. -/
theorem InnerOf.commit (inside : inner.InnerOf store) (within : store.InnerOf base) :
    inner.commit.InnerOf base := by
  obtain ⟨layer, rfl⟩ := inside
  change InnerOf (layer.entries.foldl (fun below entry => below.write entry.1 entry.2) store) base
  generalize layer.entries = entries
  induction entries generalizing store with
  | nil => exact within
  | cons entry rest inductive_step => exact inductive_step (within.write entry.1 entry.2)

end LayeredStore

namespace SnapshotStore

theorem rows_write (store : SnapshotStore) (key : ByteString) (value : Option ByteString) :
    (store.write key value).rows = store.rows.write key value := by
  cases value <;> rfl

/-- A store inside a transaction that was opened over another store. -/
def InnerOf (store base : SnapshotStore) : Prop :=
  ∃ rows, store = ⟨rows, base.rows :: base.saved⟩

/-- A store that has taken a copy is inside the store before. -/
theorem innerOf_enter (store : SnapshotStore) : store.enter.InnerOf store := ⟨store.rows, rfl⟩

variable {store inner base : SnapshotStore}

/-- A write stays inside. -/
theorem InnerOf.write (inside : store.InnerOf base) (key : ByteString) (value : Option ByteString) :
    (store.write key value).InnerOf base := by
  obtain ⟨rows, rfl⟩ := inside
  cases value with
  | none => exact ⟨rows.erase key, rfl⟩
  | some value => exact ⟨rows.insert key value, rfl⟩

/-- **Rolling back restores the store that was entered from.** -/
theorem InnerOf.rollback (inside : store.InnerOf base) : store.rollback = base := by
  obtain ⟨rows, rfl⟩ := inside
  rfl

/-- A transaction that is kept inside another one stays inside that one. -/
theorem InnerOf.commit (inside : inner.InnerOf store) (within : store.InnerOf base) :
    inner.commit.InnerOf base := by
  obtain ⟨rows, rfl⟩ := inside
  obtain ⟨outer, rfl⟩ := within
  exact ⟨rows, rfl⟩

end SnapshotStore

namespace HostState

/-- The map that a state shows. -/
def contents : HostState → SortedMap ByteString
  | memory store => store.contents
  | table store => store.rows

/-- The contents hold what the state finds. -/
theorem get?_contents (state : HostState) (key : ByteString) :
    state.contents.get? key = state.get? key := by
  cases state with
  | memory store => exact store.get?_contents key
  | table store => rfl

/-- A write decides what its key finds and leaves the others alone. -/
theorem get?_write (state : HostState) (key other : ByteString) (value : Option ByteString) :
    (state.write key value).get? other = if other = key then value else state.get? other := by
  cases state with
  | memory store => exact store.get?_write key other value
  | table store =>
      change (store.write key value).rows.get? other = _
      rw [store.rows_write, SortedMap.get?_write]
      rfl

@[simp] theorem get?_put (state : HostState) (key other value : ByteString) :
    (state.put key value).get? other = if other = key then some value else state.get? other :=
  state.get?_write key other (some value)

@[simp] theorem get?_delete (state : HostState) (key other : ByteString) :
    (state.delete key).get? other = if other = key then none else state.get? other :=
  state.get?_write key other none

/-- Opening a transaction changes nothing that is found. -/
@[simp] theorem get?_enter (state : HostState) (key : ByteString) :
    state.enter.get? key = state.get? key := by
  cases state with
  | memory store => exact store.get?_enter key
  | table store => rfl

/-- Committing changes nothing that is found. -/
@[simp] theorem get?_commit (state : HostState) (key : ByteString) :
    state.commit.get? key = state.get? key := by
  cases state with
  | memory store => exact store.get?_commit key
  | table store => rfl

/-- The contents are determined by what the keys find. -/
theorem contents_eq {left right : HostState} (same : ∀ key, left.get? key = right.get? key) :
    left.contents = right.contents := by
  apply SortedMap.ext_get?
  intro key
  rw [get?_contents, get?_contents, same]

/-- A write does to the contents what it does to a map. -/
theorem contents_write (state : HostState) (key : ByteString) (value : Option ByteString) :
    (state.write key value).contents = state.contents.write key value := by
  apply SortedMap.ext_get?
  intro other
  rw [get?_contents, get?_write, SortedMap.get?_write, get?_contents]

@[simp] theorem contents_enter (state : HostState) : state.enter.contents = state.contents :=
  contents_eq state.get?_enter

@[simp] theorem contents_commit (state : HostState) : state.commit.contents = state.contents :=
  contents_eq state.get?_commit

/-- A listing is the part of the contents with the given start. -/
theorem scan_eq (state : HostState) {start : ByteString} (nonempty : start ≠ []) :
    state.scan start = state.contents.withPrefix start := by
  cases state with
  | memory store => exact store.scan_eq start
  | table store =>
      -- A table does not list an entry with an empty key, but that key does not have the start.
      refine List.filter_eq_self.mpr ?_
      intro entry member
      obtain ⟨begins, _⟩ := SortedMap.mem_withPrefix_iff.mp member
      rw [decide_eq_true_eq]
      intro empty
      rw [empty] at begins
      exact nonempty (List.prefix_nil.mp begins)

/-- A state inside a transaction that was opened over another state. -/
def InnerOf : HostState → HostState → Prop
  | memory store, memory base => store.InnerOf base
  | table store, table base => store.InnerOf base
  | _, _ => False

/-- A state with a new transaction is inside the state before. -/
theorem innerOf_enter (state : HostState) : state.enter.InnerOf state := by
  cases state with
  | memory store => exact store.innerOf_enter
  | table store => exact store.innerOf_enter

variable {state inner base : HostState}

/-- A write stays inside. -/
theorem InnerOf.write (inside : state.InnerOf base) (key : ByteString) (value : Option ByteString) :
    (state.write key value).InnerOf base := by
  cases state with
  | memory store =>
      cases base with
      | memory outer => exact LayeredStore.InnerOf.write inside key value
      | table outer => exact inside.elim
  | table store =>
      cases base with
      | memory outer => exact inside.elim
      | table outer => exact SnapshotStore.InnerOf.write inside key value

theorem InnerOf.put (inside : state.InnerOf base) (key value : ByteString) :
    (state.put key value).InnerOf base := inside.write key (some value)

theorem InnerOf.delete (inside : state.InnerOf base) (key : ByteString) :
    (state.delete key).InnerOf base := inside.write key none

/-- Undoing a transaction gives back the state that it was opened over. -/
theorem InnerOf.rollback (inside : state.InnerOf base) : state.rollback = base := by
  cases state with
  | memory store =>
      cases base with
      | memory outer => exact congrArg memory (LayeredStore.InnerOf.rollback inside)
      | table outer => exact inside.elim
  | table store =>
      cases base with
      | memory outer => exact inside.elim
      | table outer => exact congrArg table (SnapshotStore.InnerOf.rollback inside)

/-- A transaction that is kept inside another one stays inside that one. -/
theorem InnerOf.commit (inside : inner.InnerOf state) (within : state.InnerOf base) :
    inner.commit.InnerOf base := by
  cases state with
  | memory store =>
      cases base with
      | table outer => exact within.elim
      | memory outer =>
          cases inner with
          | table store => exact inside.elim
          | memory store => exact LayeredStore.InnerOf.commit inside within
  | table store =>
      cases base with
      | memory outer => exact within.elim
      | table outer =>
          cases inner with
          | memory store => exact inside.elim
          | table store => exact SnapshotStore.InnerOf.commit inside within

variable {ε α : Type} {step : HostState → Except ε α × HostState}

/-- The step leaves alone what lies outside the innermost transaction. -/
def Confined (step : HostState → Except ε α × HostState) : Prop :=
  ∀ {state base : HostState}, state.InnerOf base → (step state).2.InnerOf base

/-- A confined step that fails in a transaction changes nothing. -/
theorem atomically_error (confined : Confined step) {error : ε} {after : HostState}
    (run : state.atomically step = (.error error, after)) :
    after = state ∧ ∃ inner, step state.enter = (.error error, inner) := by
  unfold atomically at run
  split at run
  · cases run
  · rename_i inner failed
    cases run
    have inside := confined state.innerOf_enter
    rw [failed] at inside
    exact ⟨inside.rollback, inner, failed⟩

/-- A step that succeeds in a transaction is kept. -/
theorem atomically_ok {value : α} {after : HostState}
    (run : state.atomically step = (.ok value, after)) :
    ∃ inner, step state.enter = (.ok value, inner) ∧ after = inner.commit := by
  unfold atomically at run
  split at run
  · rename_i inner succeeded
    cases run
    exact ⟨_, succeeded, rfl⟩
  · cases run

/-- A confined step in a transaction of its own is confined. -/
theorem Confined.atomically (confined : Confined step) :
    Confined fun state => state.atomically step := by
  intro state base within
  have inside := confined state.innerOf_enter
  rcases run : step state.enter with ⟨error | value, inner⟩
  · rw [run] at inside
    simp only [HostState.atomically, run]
    exact inside.rollback ▸ within
  · rw [run] at inside
    simp only [HostState.atomically, run]
    exact inside.commit within

end HostState
end CoinLedger

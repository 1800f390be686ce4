import CoinLedger.Proofs.Storage.Program

/-! # Layers of writes stand for saved copies

A store that keeps layers of writes can be seen as one that keeps saved copies: its rows are what it
shows, and for each open transaction there is a copy of what was shown when the transaction was
opened (`CoinLedger.LayeredStore.toSnapshots`). Every operation respects this view, although a
deletion is a mark in a layer and a removal in the committed entries. So no program can tell the two
apart, and what is committed changes only where no transaction is open
(`CoinLedger.LayeredStore.layers_refine_saved_copies`).
-/

namespace CoinLedger

mutual

/-- Whatever is done, each transaction that was open before is open afterwards. -/
theorem SnapshotStore.saved_perform (store : SnapshotStore) (access : Access) :
    (NestedState.perform store access).2.saved = store.saved := by
  cases access with
  | block body fails =>
      have inside : (NestedState.performAll (NestedState.enter store) body).2.saved =
          store.rows :: store.saved := store.enter.saved_performAll body
      cases fails with
      | false => exact congrArg List.tail inside
      | true =>
          change (SnapshotStore.rollback _).saved = _
          rw [SnapshotStore.rollback, inside]
  | _ => rfl

/-- A program on a store with saved copies leaves the copies that were there. -/
theorem SnapshotStore.saved_performAll (store : SnapshotStore) (program : List Access) :
    (NestedState.performAll store program).2.saved = store.saved := by
  cases program with
  | nil => rfl
  | cons access program =>
      have first := store.saved_perform access
      exact ((NestedState.perform store access).2.saved_performAll program).trans first

end

namespace LayeredStore

open NestedState

/-- What was shown when each of the open transactions was opened, innermost first. -/
def found (committed : SortedMap ByteString) :
    List (SortedMap (Option ByteString)) → List (SortedMap ByteString)
  | [] => []
  | _ :: outer => contents ⟨committed, outer⟩ :: found committed outer

/-- The store with saved copies in place of layers. -/
def toSnapshots (store : LayeredStore) : SnapshotStore :=
  ⟨store.contents, found store.committed store.layers⟩

/-- Stores that show the same under every key have the same contents. -/
theorem contents_eq {left right : LayeredStore} (same : ∀ key, left.get? key = right.get? key) :
    left.contents = right.contents := by
  apply SortedMap.ext_get?
  intro key
  rw [get?_contents, get?_contents, same]

/-- Writing to a store writes to its contents. -/
theorem contents_write (store : LayeredStore) (key : ByteString) (value : Option ByteString) :
    (store.write key value).contents = store.contents.write key value := by
  apply SortedMap.ext_get?
  intro other
  rw [get?_contents, get?_write, SortedMap.get?_write, get?_contents]

/-- A store over committed entries shows them. -/
theorem contents_ofMap (committed : SortedMap ByteString) :
    (ofMap committed).contents = committed := by
  apply SortedMap.ext_get?
  intro key
  rw [get?_contents]
  rfl

/-- Writes go to the innermost layer, which nothing was found in. -/
theorem found_write (store : LayeredStore) (key : ByteString) (value : Option ByteString) :
    found (store.write key value).committed (store.write key value).layers =
      found store.committed store.layers := by
  obtain ⟨committed, layers⟩ := store
  cases layers with
  | nil => cases value <;> rfl
  | cons layer outer => rfl

/-- Writing entries one after another leaves what was found when transactions were opened. -/
theorem found_foldl_write (entries : List (ByteString × Option ByteString))
    (store : LayeredStore) :
    let after := entries.foldl (fun below entry => below.write entry.1 entry.2) store
    found after.committed after.layers = found store.committed store.layers := by
  induction entries generalizing store with
  | nil => rfl
  | cons entry rest inductive_step =>
      exact (inductive_step (store.write entry.1 entry.2)).trans (found_write store _ _)

/-- Keeping the innermost layer leaves what was found when the outer transactions were opened. -/
theorem found_commit (store : LayeredStore) :
    found store.commit.committed store.commit.layers =
      (found store.committed store.layers).tail := by
  obtain ⟨committed, layers⟩ := store
  cases layers with
  | nil => rfl
  | cons layer outer => exact found_foldl_write layer.entries ⟨committed, outer⟩

/-- There is a find for each layer. -/
theorem length_found (committed : SortedMap ByteString)
    (layers : List (SortedMap (Option ByteString))) :
    (found committed layers).length = layers.length := by
  induction layers with
  | nil => rfl
  | cons layer outer inductive_step => simp [found, inductive_step]

theorem depth_toSnapshots (store : LayeredStore) : store.toSnapshots.depth = store.depth :=
  length_found store.committed store.layers

/-- **Layers of writes behave as saved copies.** -/
theorem simulates_toSnapshots : Simulates toSnapshots where
  get? store key := store.get?_contents key
  write store key value := by
    apply SnapshotStore.ext
    · exact (SnapshotStore.rows_write _ _ _).trans (contents_write store key value).symm
    · refine Eq.trans ?_ (found_write store key value).symm
      cases value <;> rfl
  scan store start := (store.scan_eq start).symm
  enter store := by
    have same : store.enter.contents = store.contents := contents_eq store.get?_enter
    exact SnapshotStore.ext same.symm rfl
  commit store := by
    have same : store.commit.contents = store.contents := contents_eq store.get?_commit
    exact SnapshotStore.ext same.symm (found_commit store).symm
  rollback store := by
    obtain ⟨committed, layers⟩ := store
    cases layers <;> rfl

theorem toSnapshots_ofMap (committed : SortedMap ByteString) :
    (ofMap committed).toSnapshots = .ofMap committed :=
  SnapshotStore.ext (contents_ofMap committed) rfl

/-- Inside a transaction the committed entries are those outside it. -/
theorem InnerOf.committed_eq {store base : LayeredStore} (inside : store.InnerOf base) :
    store.committed = base.committed := by
  obtain ⟨layer, rfl⟩ := inside
  rfl

/-- Inside a transaction at least one is open. -/
theorem InnerOf.depth_pos {store base : LayeredStore} (inside : store.InnerOf base) :
    0 < store.depth := by
  obtain ⟨layer, rfl⟩ := inside
  exact Nat.succ_pos _

mutual

/-- In a transaction, something done leaves alone what lies outside it. -/
theorem InnerOf.perform {store base : LayeredStore} (inside : store.InnerOf base)
    (access : Access) :
    (NestedState.perform store access).2.InnerOf base := by
  cases access with
  | put key value => exact inside.write key (some value)
  | delete key => exact inside.write key none
  | get key => exact inside
  | contains key => exact inside
  | scan start => exact inside
  | block body fails =>
      have within : (NestedState.performAll (NestedState.enter store) body).2.InnerOf store :=
        (innerOf_enter store).performAll body
      cases fails with
      | false => exact within.commit inside
      | true =>
          change InnerOf (LayeredStore.rollback _) base
          rw [within.rollback]
          exact inside

/-- A program stays inside the transaction in which it began. -/
theorem InnerOf.performAll {store base : LayeredStore} (inside : store.InnerOf base)
    (program : List Access) :
    (NestedState.performAll store program).2.InnerOf base := by
  cases program with
  | nil => exact inside
  | cons access program => exact (inside.perform access).performAll program

end

mutual

/-- In a transaction, what is committed stays at every point. -/
theorem InnerOf.committed_perform {store base : LayeredStore} (inside : store.InnerOf base)
    (access : Access) :
    ∀ point ∈ (NestedState.perform store access).1,
      0 < point.state.depth ∧ point.state.committed = base.committed := by
  have final := inside.perform access
  cases access with
  | block body fails =>
      -- The points of a transaction inside lie over the store that it was opened over.
      have opened := innerOf_enter store
      intro point member
      rcases List.mem_cons.mp member with rfl | member
      · exact ⟨opened.depth_pos, opened.committed_eq.trans inside.committed_eq⟩
      rcases List.mem_append.mp member with within | closed
      · obtain ⟨deep, same⟩ := opened.committed_performAll body point within
        exact ⟨deep, same.trans inside.committed_eq⟩
      · rcases List.mem_singleton.mp closed with rfl
        exact ⟨final.depth_pos, final.committed_eq⟩
  | _ =>
      intro point member
      rcases List.mem_singleton.mp member with rfl
      exact ⟨final.depth_pos, final.committed_eq⟩

/-- A program inside a transaction leaves the committed entries alone at every point. -/
theorem InnerOf.committed_performAll {store base : LayeredStore} (inside : store.InnerOf base)
    (program : List Access) :
    ∀ point ∈ (NestedState.performAll store program).1,
      0 < point.state.depth ∧ point.state.committed = base.committed := by
  cases program with
  | nil => exact fun _ member => nomatch member
  | cons access program =>
      intro point member
      rcases List.mem_append.mp member with first | later
      · exact inside.committed_perform access point first
      · exact (inside.perform access).committed_performAll program point later

end

/-- Where no transaction is open, what is shown is what is committed. -/
theorem committed_of_depth_eq_zero {store : LayeredStore} (closed : store.depth = 0) :
    store.contents = store.committed := by
  obtain ⟨committed, layers⟩ := store
  have empty : layers = [] := List.length_eq_zero_iff.mp closed
  subst empty
  exact contents_ofMap committed

/-- **No program can tell layers of writes from saved copies.** A program is run on a state in
memory that starts with committed entries, and on the plain map with the same entries, of which
every transaction saves a copy, to be dropped or put back when the transaction ends. All answers are
the same. At every point, a listing has exactly the entries that look-ups find under keys with the
given start, in ascending order of keys. After the program no transaction is open, and what is
committed is the plain map; and if another transaction is then opened, that stays committed at every
point until the transaction ends. -/
theorem layers_refine_saved_copies (committed : SortedMap ByteString) (program : List Access) :
    let run := performAll (ofMap committed) program
    let reference := performAll (SnapshotStore.ofMap committed) program
    run.1.map Point.answer = reference.1.map Point.answer ∧
      (∀ store ∈ states (ofMap committed) program, ∀ start,
        (store.scan start).Pairwise (fun left right => left.1 < right.1) ∧
          ∀ key value, (key, value) ∈ store.scan start ↔
            start <+: key ∧ store.get? key = some value) ∧
      run.2.depth = 0 ∧ run.2.committed = reference.2.rows ∧
      ∀ body, ∀ store ∈ states run.2.enter body,
        0 < store.depth ∧ store.committed = run.2.committed := by
  intro run reference
  have viewed : reference = (run.1.map (Point.map toSnapshots), run.2.toSnapshots) := by
    have whole := simulates_toSnapshots.performAll (ofMap committed) program
    rwa [toSnapshots_ofMap] at whole
  have closed : run.2.depth = 0 := by
    have length : (reference.2.saved).length = 0 :=
      congrArg List.length (SnapshotStore.saved_performAll (.ofMap committed) program)
    rw [viewed] at length
    exact (depth_toSnapshots run.2).symm.trans length
  refine ⟨?_, ?_, closed, ?_, ?_⟩
  · rw [viewed, List.map_map]
    rfl
  · intro store _ start
    rw [store.scan_eq]
    refine ⟨store.contents.ascending.filter _, fun key value => ?_⟩
    rw [SortedMap.mem_withPrefix_iff, get?_contents]
  · rw [viewed]
    exact (committed_of_depth_eq_zero closed).symm
  · intro body store member
    have opened := innerOf_enter run.2
    rcases List.mem_cons.mp member with rfl | later
    · exact ⟨opened.depth_pos, opened.committed_eq⟩
    · obtain ⟨point, inside, rfl⟩ := List.mem_map.mp later
      exact opened.committed_performAll body point inside

/-- A deletion two layers up, of an entry that a failed transaction has put anew, is committed with
the outermost transaction and not before. -/
theorem deletion_is_committed_last :
    let stored := SortedMap.ofList [([1], [10]), ([2], [20])]
    let inner : List Access := [.block [.put [1] [11], .delete [2]] true, .delete [1], .scan []]
    let program : List Access := [.block [.block inner false] false, .scan []]
    let run := performAll (ofMap stored) program
    let reopened := run.2.enter.write [2] none
    run.1.map Point.answer =
        (performAll (SnapshotStore.ofMap stored) program).1.map Point.answer ∧
      ([1], [10]) ∈ (ofMap stored).enter.scan [1] ∧
      run.2.depth = 0 ∧ run.2.committed.entries = [([2], [20])] ∧
      reopened.committed = run.2.committed ∧ ([2], [20]) ∉ reopened.scan [] := by
  intro stored inner program run reopened
  obtain ⟨answers, listed, closed, shown, frozen⟩ := layers_refine_saved_copies stored program
  have first : (ofMap stored).enter ∈ states (ofMap stored) program := .tail _ (.head _)
  have last : reopened ∈ states run.2.enter [.delete [2]] := .tail _ (.head _)
  refine ⟨answers, ((listed _ first [1]).2 [1] [10]).mpr ?_, closed, ?_,
    (frozen _ reopened last).2, by decide +kernel⟩
  · exact ⟨List.prefix_rfl, rfl⟩
  · rw [shown]
    decide +kernel

end LayeredStore
end CoinLedger

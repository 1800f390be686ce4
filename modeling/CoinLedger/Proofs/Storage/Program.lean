import CoinLedger.Proofs.Storage.Contents

/-! # Programs on states with nested transactions

A program puts, deletes, looks up and lists, in transactions that are nested to any depth, each of
which ends normally or fails. A run shows every point on the way, with the last answer and the state
at that time. A view of one kind of state as another that respects each operation respects whole
runs: all answers are the same, and the points are the views of the points
(`CoinLedger.NestedState.Simulates.performAll`).
-/

namespace CoinLedger

/-- A key-value state with nested transactions. -/
class NestedState (σ : Type) where
  get? : σ → ByteString → Option ByteString
  /-- Set a value at a key, or delete what is there. -/
  write : σ → ByteString → Option ByteString → σ
  /-- The entries whose keys have a given start. -/
  scan : σ → ByteString → List (ByteString × ByteString)
  enter : σ → σ
  commit : σ → σ
  rollback : σ → σ

instance : NestedState LayeredStore where
  get? := LayeredStore.get?
  write := LayeredStore.write
  scan := LayeredStore.scan
  enter := LayeredStore.enter
  commit := LayeredStore.commit
  rollback := LayeredStore.rollback

instance : NestedState SnapshotStore where
  get? := SnapshotStore.get?
  write := SnapshotStore.write
  scan := SnapshotStore.scan
  enter := SnapshotStore.enter
  commit := SnapshotStore.commit
  rollback := SnapshotStore.rollback

/-- One thing that a program does. -/
inductive Access where
  | put (key value : ByteString)
  | delete (key : ByteString)
  | get (key : ByteString)
  | contains (key : ByteString)
  | scan (start : ByteString)
  /-- A transaction around a program. It fails if something is raised at the end of the program;
  what is raised and not caught outside makes the transactions around this one fail at this point,
  too. -/
  | block (body : List Access) (fails : Bool)

/-- What a program is answered. -/
inductive Answer where
  | nothing
  | value (found : Option ByteString)
  | flag (holds : Bool)
  | entries (listed : List (ByteString × ByteString))
  deriving DecidableEq

/-- A point of a run. -/
structure Point (σ : Type) where
  /-- The answer that was given last. -/
  answer : Answer
  /-- The state at that time. -/
  state : σ

/-- The same point in the view of another kind of state. -/
def Point.map {σ τ : Type} (view : σ → τ) (point : Point σ) : Point τ :=
  ⟨point.answer, view point.state⟩

namespace NestedState

variable {σ τ : Type} [NestedState σ] [NestedState τ]

mutual

/-- Do one thing. The results are the points on the way and the state at the end. -/
def perform (state : σ) : Access → List (Point σ) × σ
  | .put key value =>
      let after := write state key (some value)
      ([⟨.nothing, after⟩], after)
  | .delete key =>
      let after := write state key none
      ([⟨.nothing, after⟩], after)
  | .get key => ([⟨.value (get? state key), state⟩], state)
  | .contains key => ([⟨.flag (get? state key).isSome, state⟩], state)
  | .scan start => ([⟨.entries (scan state start), state⟩], state)
  | .block body fails =>
      let (points, last) := performAll (enter state) body
      let closed := if fails then rollback last else commit last
      (⟨.nothing, enter state⟩ :: (points ++ [⟨.nothing, closed⟩]), closed)

/-- Do one thing after another. -/
def performAll (state : σ) : List Access → List (Point σ) × σ
  | [] => ([], state)
  | access :: program =>
      let (points, after) := perform state access
      let (later, final) := performAll after program
      (points ++ later, final)

end

/-- The states of a run, from the one that it starts in. -/
def states (state : σ) (program : List Access) : List σ :=
  state :: (performAll state program).1.map Point.state

/-- A view of one kind of state as another that respects each operation. -/
structure Simulates (view : σ → τ) : Prop where
  get? : ∀ state key, get? (view state) key = get? state key
  write : ∀ state key value, write (view state) key value = view (write state key value)
  scan : ∀ state start, scan (view state) start = scan state start
  enter : ∀ state, enter (view state) = view (enter state)
  commit : ∀ state, commit (view state) = view (commit state)
  rollback : ∀ state, rollback (view state) = view (rollback state)

namespace Simulates

variable {view : σ → τ}

theorem close (simulates : Simulates view) (fails : Bool) (state : σ) :
    (if fails then NestedState.rollback (view state) else NestedState.commit (view state)) =
      view (if fails then NestedState.rollback state else NestedState.commit state) := by
  cases fails with
  | false => exact simulates.commit state
  | true => exact simulates.rollback state

mutual

/-- A simulation takes each access to what it is on the other store. -/
theorem perform (simulates : Simulates view) (state : σ) (access : Access) :
    NestedState.perform (view state) access =
      ((NestedState.perform state access).1.map (Point.map view),
        view (NestedState.perform state access).2) := by
  cases access with
  | put key value => simp [NestedState.perform, simulates.write, Point.map]
  | delete key => simp [NestedState.perform, simulates.write, Point.map]
  | get key => simp [NestedState.perform, simulates.get?, Point.map]
  | contains key => simp [NestedState.perform, simulates.get?, Point.map]
  | scan start => simp [NestedState.perform, simulates.scan, Point.map]
  | block body fails =>
      have inside := simulates.performAll (NestedState.enter state) body
      simp only [NestedState.perform, simulates.enter, inside, simulates.close, List.map_cons,
        List.map_append, List.map_nil, Point.map]

/-- **A view that respects each operation respects whole runs.** -/
theorem performAll (simulates : Simulates view) (state : σ) (program : List Access) :
    NestedState.performAll (view state) program =
      ((NestedState.performAll state program).1.map (Point.map view),
        view (NestedState.performAll state program).2) := by
  cases program with
  | nil => rfl
  | cons access program =>
      have first := simulates.perform state access
      have later := simulates.performAll (NestedState.perform state access).2 program
      simp only [NestedState.performAll, first, later, List.map_append]

end

end Simulates
end NestedState
end CoinLedger

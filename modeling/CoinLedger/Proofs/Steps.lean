import Mathlib.Data.List.Forall2

/-! # Steps that may fail

What a sequence of steps comes to, one step at a time: of steps that have nothing but a result, and
of steps that keep what has been done when they fail.
-/

namespace CoinLedger

variable {ε σ α β : Type}

/-- Two steps succeed one after the other exactly when the first does and the second does from
there. -/
theorem bind_eq_ok_iff {first : Except ε α} {next : α → Except ε β} {value : β} :
    (first >>= next) = .ok value ↔ ∃ middle, first = .ok middle ∧ next middle = .ok value := by
  cases first with
  | ok middle =>
      constructor
      · exact fun same => ⟨middle, rfl, same⟩
      · rintro ⟨_, same, last⟩
        cases same
        exact last
  | error reason => exact ⟨(fun same => nomatch same), (fun ⟨_, same, _⟩ => nomatch same)⟩

/-- A step with a mapped value succeeds exactly when it does without. -/
theorem map_eq_ok_iff {outcome : Except ε α} {f : α → β} {value : β} :
    outcome.map f = .ok value ↔ ∃ result, outcome = .ok result ∧ f result = value := by
  cases outcome with
  | ok result =>
      constructor
      · exact fun same => ⟨result, rfl, Except.ok.inj same⟩
      · rintro ⟨_, same, rfl⟩
        cases same
        rfl
  | error reason => exact ⟨(fun same => nomatch same), (fun ⟨_, same, _⟩ => nomatch same)⟩

/-- A step that is taken for each item of a list succeeds when it does for each, one result for
each item. -/
theorem mapM_eq_ok_iff {read : α → Except ε β} {items : List α} {values : List β} :
    items.mapM read = .ok values ↔
      List.Forall₂ (fun item value => read item = .ok value) items values := by
  induction items generalizing values with
  | nil =>
      rw [List.mapM_nil, List.forall₂_nil_left_iff]
      exact ⟨fun same => (Except.ok.inj same).symm, fun same => congrArg Except.ok same.symm⟩
  | cons item items inductive_step =>
      simp only [List.mapM_cons, bind_eq_ok_iff, inductive_step, List.forall₂_cons_left_iff]
      constructor
      · rintro ⟨value, here, rest, later, same⟩
        exact ⟨value, rest, here, later, (Except.ok.inj same).symm⟩
      · rintro ⟨value, rest, here, later, rfl⟩
        exact ⟨value, here, rest, later, rfl⟩

/-- The values read from items are what the items are read as. -/
theorem mem_of_mapM_eq_ok {read : α → Except ε β} {items : List α} {values : List β}
    (reads : items.mapM read = .ok values) {value : β} :
    value ∈ values ↔ ∃ item ∈ items, read item = .ok value := by
  induction mapM_eq_ok_iff.mp reads with
  | nil => simp only [List.not_mem_nil, false_and, exists_false]
  | cons here later inductive_step =>
      rw [List.mem_cons, inductive_step (mapM_eq_ok_iff.mpr later), List.exists_mem_cons_iff, here,
        Except.ok.injEq, eq_comm]

/-- A step that may fail, and changes a state whether it does or not. -/
abbrev Stepwise (ε σ α : Type) := ExceptT ε (StateM σ) α

namespace Stepwise

theorem run_bind (first : Stepwise ε σ α) (next : α → Stepwise ε σ β) (state : σ) :
    (first >>= next).run state =
      match first.run state with
      | (.ok value, after) => (next value).run after
      | (.error error, after) => (.error error, after) := by
  change (match first.run state with | (outcome, after) => ExceptT.bindCont next outcome after) = _
  rcases first.run state with ⟨error | value, after⟩ <;> rfl

theorem run_bind_ok {first : Stepwise ε σ α} {state after : σ} {value : α}
    (run : first.run state = (.ok value, after)) (next : α → Stepwise ε σ β) :
    (first >>= next).run state = (next value).run after := by
  rw [run_bind, run]

theorem run_pure (value : α) (state : σ) :
    (pure value : Stepwise ε σ α).run state = (.ok value, state) := rfl

theorem run_get (state : σ) : (get : Stepwise ε σ σ).run state = (.ok state, state) := rfl

theorem run_set (next state : σ) : (set next : Stepwise ε σ Unit).run state = (.ok (), next) := rfl

theorem run_modify (change : σ → σ) (state : σ) :
    (modify change : Stepwise ε σ Unit).run state = (.ok (), change state) := rfl

end Stepwise
end CoinLedger

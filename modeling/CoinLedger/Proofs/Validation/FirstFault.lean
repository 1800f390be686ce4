import CoinLedger.Proofs.Validation

/-! # The first fault of a list

Each rule of validation goes through a list and stops at the first item that is faulty, where an
item may be faulty because of what stands before it. Such an item is determined by the list
(`CoinLedger.FirstFault.unique`), and each check of validation reports it.
-/

namespace CoinLedger

/-- The item at a position is faulty, given the items before it, and no earlier one is. -/
structure FirstFault {α : Type} (Faulty : List α → α → Prop) (items : List α) (index : Nat)
    (item : α) : Prop where
  /-- The item is at the position. -/
  at_index : items[index]? = some item
  /-- It is faulty. -/
  faulty : Faulty (items.take index) item
  /-- No earlier item is. -/
  first : ∀ earlier < index, ∀ other, items[earlier]? = some other →
    ¬ Faulty (items.take earlier) other

namespace FirstFault

variable {α : Type} {Faulty : List α → α → Prop} {items : List α} {index : Nat} {item : α}

theorem mem (fault : FirstFault Faulty items index item) : item ∈ items :=
  List.mem_of_getElem? fault.at_index

/-- **A list has one first fault at most.** -/
theorem unique (fault : FirstFault Faulty items index item) {otherIndex : Nat} {other : α}
    (otherFault : FirstFault Faulty items otherIndex other) :
    index = otherIndex ∧ item = other := by
  have same : index = otherIndex := by
    rcases Nat.lt_trichotomy index otherIndex with earlier | same | later
    · exact absurd fault.faulty (otherFault.first index earlier item fault.at_index)
    · exact same
    · exact absurd otherFault.faulty (fault.first otherIndex later other otherFault.at_index)
  subst same
  exact ⟨rfl, Option.some.inj (fault.at_index.symm.trans otherFault.at_index)⟩

/-- The first fault has one position. -/
theorem index_unique {otherIndex : Nat} (first : ∃ item, FirstFault Faulty items index item)
    (second : ∃ item, FirstFault Faulty items otherIndex item) : index = otherIndex := by
  obtain ⟨_, fault⟩ := first
  obtain ⟨_, otherFault⟩ := second
  exact (fault.unique otherFault).1

/-- The first fault has one name. -/
theorem name_unique {β : Type} {name : α → β} {left right : β}
    (first : ∃ index item, left = name item ∧ FirstFault Faulty items index item)
    (second : ∃ index item, right = name item ∧ FirstFault Faulty items index item) :
    left = right := by
  obtain ⟨_, _, rfl, fault⟩ := first
  obtain ⟨_, _, rfl, otherFault⟩ := second
  rw [(fault.unique otherFault).2]

/-- A faulty item at the head is the first fault. -/
theorem head (faulty : Faulty [] item) (rest : List α) :
    FirstFault Faulty (item :: rest) 0 item where
  at_index := rfl
  faulty := faulty
  first _ earlier := absurd earlier (Nat.not_lt_zero _)

/-- Behind an item that is not faulty, the first fault is that of the rest. -/
theorem tail {first : α} {rest : List α} (good : ¬ Faulty [] first)
    (fault : FirstFault (fun earlier => Faulty (first :: earlier)) rest index item) :
    FirstFault Faulty (first :: rest) (index + 1) item where
  at_index := fault.at_index
  faulty := fault.faulty
  first earlier before other there := by
    cases earlier with
    | zero =>
        cases there
        exact good
    | succ earlier => exact fault.first earlier (Nat.lt_of_succ_lt_succ before) other there

/-- If the same items are faulty for two reasons, the first fault is the same. -/
theorem congr {Other : List α → α → Prop}
    (same : ∀ earlier, ∀ item ∈ items, Faulty earlier item ↔ Other earlier item)
    (fault : FirstFault Faulty items index item) : FirstFault Other items index item where
  at_index := fault.at_index
  faulty := (same _ _ fault.mem).mp fault.faulty
  first earlier before other there faulty :=
    fault.first earlier before other there
      ((same _ _ (List.mem_of_getElem? there)).mpr faulty)

/-- The first fault of a mapped list is the image of the first item whose image is faulty. -/
theorem map {β : Type} {f : α → β} {Faulty : List β → β → Prop}
    (fault : FirstFault (fun earlier item => Faulty (earlier.map f) (f item)) items index item) :
    FirstFault Faulty (items.map f) index (f item) where
  at_index := by rw [List.getElem?_map, fault.at_index, Option.map_some]
  faulty := by
    rw [← List.map_take]
    exact fault.faulty
  first earlier before other there := by
    rw [List.getElem?_map] at there
    obtain ⟨source, at_source, rfl⟩ := Option.map_eq_some_iff.mp there
    rw [← List.map_take]
    exact fault.first earlier before source at_source

end FirstFault

/-- The repeat that is found is the first item that was there before. -/
theorem firstRepeat?_eq_some {α : Type} [DecidableEq α] {seen items : List α}
    {position index : Nat} {item : α}
    (found : firstRepeat? seen position items = some (index, item)) :
    ∃ offset, index = position + offset ∧
      FirstFault (fun earlier item => item ∈ seen ∨ item ∈ earlier) items offset item := by
  induction items generalizing seen position with
  | nil => cases found
  | cons first rest inductive_step =>
      rw [firstRepeat?] at found
      by_cases repeated : first ∈ seen
      · rw [if_pos repeated] at found
        cases found
        exact ⟨0, rfl, .head (.inl repeated) rest⟩
      · rw [if_neg repeated] at found
        obtain ⟨offset, rfl, fault⟩ := inductive_step found
        refine ⟨offset + 1, by omega, .tail ?_ (fault.congr ?_)⟩
        · simpa using repeated
        · intro earlier item _
          simp only [List.mem_cons]
          tauto

/-- The position that is found is that of the first item with the property. -/
theorem findIdx?_eq_some {α : Type} {faulty : α → Bool} {items : List α} {index : Nat}
    (found : items.findIdx? faulty = some index) :
    ∃ item, FirstFault (fun _ item => faulty item = true) items index item := by
  obtain ⟨inside, holds, before⟩ := List.findIdx?_eq_some_iff_getElem.mp found
  refine ⟨items[index], List.getElem?_eq_getElem inside, holds, ?_⟩
  intro earlier less other there
  obtain ⟨within, rfl⟩ := List.getElem?_eq_some_iff.mp there
  exact before earlier less

/-- Resolving inputs fails with the first outpoint that has no coin. -/
theorem resolve_eq_error {coins : Outpoint → Option Output} {inputs : List Input}
    {error : LedgerError} (failed : resolve (.ofMap coins) inputs = .error error) :
    ∃ index outpoint, error = .rejected (.missingInput outpoint.bytes) ∧
      FirstFault (fun _ outpoint => coins outpoint = none) (inputs.map Input.outpoint) index
        outpoint := by
  induction inputs generalizing error with
  | nil => cases failed
  | cons input inputs inductive_step =>
      rw [resolve, CoinView.ofMap] at failed
      cases there : coins input.outpoint with
      | none =>
          rw [there] at failed
          cases failed
          exact ⟨0, input.outpoint, rfl, .head there _⟩
      | some coin =>
          rw [there] at failed
          dsimp only at failed
          split at failed
          · rename_i later
            cases failed
            obtain ⟨index, outpoint, rfl, fault⟩ := inductive_step later
            refine ⟨index + 1, outpoint, rfl, .tail ?_ fault⟩
            simp [there]
          · cases failed

/-- The check of the signatures fails with the first that is not by the owner of its coin. -/
theorem checkSignatures_eq_error {verify : Verifier} {image : ByteString} {position : Nat}
    {pairs : List (Input × Output)} {reason : Rejection}
    (failed : checkSignatures verify image position pairs = .error reason) :
    ∃ offset pair, reason = .invalidSignature (position + offset) ∧
      FirstFault (fun _ pair => ¬ verify pair.1.signature image pair.2.owner = true) pairs offset
        pair := by
  induction pairs generalizing position with
  | nil => cases failed
  | cons first rest inductive_step =>
      rw [checkSignatures] at failed
      split at failed
      · rename_i signed
        obtain ⟨offset, pair, rfl, fault⟩ := inductive_step failed
        refine ⟨offset + 1, pair, ?_, .tail (not_not_intro signed) fault⟩
        rw [Nat.add_right_comm, Nat.add_assoc]
      · rename_i unsigned
        cases failed
        exact ⟨0, first, rfl, .head unsigned rest⟩

/-- A checked sum fails at the first amount that no longer fits, and tells what did fit. -/
theorem checkedSumFrom_eq_error {total : Nat} {amounts : List Nat} {reason : Rejection}
    (failed : checkedSumFrom total (amounts.map Int.ofNat) = .error reason) :
    ∃ index amount,
      FirstFault (fun earlier amount => amountBound ≤ total + earlier.sum + amount) amounts index
        amount ∧
      reason = .overflow s!"u128 overflow: {total + (amounts.take index).sum} + {amount}" := by
  induction amounts generalizing total with
  | nil => cases failed
  | cons first rest inductive_step =>
      rw [List.map_cons, checkedSumFrom, checkedAdd] at failed
      by_cases fits : total + first < amountBound
      · have inside : (total : Int) + Int.ofNat first < amountBound := by simp; omega
        rw [if_pos inside] at failed
        obtain ⟨index, amount, fault, rfl⟩ := @inductive_step (total + first) failed
        refine ⟨index + 1, amount, .tail ?_ (fault.congr ?_), ?_⟩
        · simpa using fits
        · intro earlier item _
          rw [List.sum_cons, Nat.add_assoc total]
        · rw [List.take_succ_cons, List.sum_cons, Nat.add_assoc]
      · have outside : ¬ (total : Int) + Int.ofNat first < amountBound := by simp; omega
        rw [if_neg outside] at failed
        cases failed
        exact ⟨0, first, .head (by simpa using fits) rest, rfl⟩

/-- The check of keys fails with the first under which there is a coin. -/
theorem checkKeys_eq_error {coins : Outpoint → Option Output} {keys : List Outpoint}
    {error : LedgerError} (failed : checkKeys (.ofMap coins) keys = .error error) :
    ∃ index key, error = .rejected (.outputAlreadyExists key.bytes) ∧
      FirstFault (fun _ key => coins key ≠ none) keys index key := by
  induction keys with
  | nil => cases failed
  | cons first rest inductive_step =>
      rw [checkKeys, CoinView.ofMap] at failed
      cases there : coins first with
      | some coin =>
          rw [there] at failed
          cases failed
          exact ⟨0, first, rfl, .head (by simp [there]) rest⟩
      | none =>
          rw [there] at failed
          obtain ⟨index, key, rfl, fault⟩ := inductive_step failed
          exact ⟨index + 1, key, rfl, .tail (by simp [there]) fault⟩

end CoinLedger

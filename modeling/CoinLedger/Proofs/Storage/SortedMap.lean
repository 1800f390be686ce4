import CoinLedger.Storage.SortedMap
import Mathlib.Algebra.GroupWithZero.Nat
import Mathlib.Algebra.Order.BigOperators.Group.List
import Mathlib.Algebra.Order.Group.Nat
import Mathlib.Data.List.Nodup
import Mathlib.Data.List.Perm.Subperm

/-! # Maps, seen through their look-ups

A map is determined by its look-ups (`CoinLedger.SortedMap.ext_get?`), and its entries are what the
look-ups find. Sums over the entries follow single writes: what is stored at the key is exchanged
(`CoinLedger.SortedMap.sum_write`).
-/

namespace CoinLedger.SortedMap

variable {α β : Type}

/-- The keys of a map are distinct. -/
theorem nodup_keys (map : SortedMap α) : (map.entries.map Prod.fst).Nodup := by
  refine List.Pairwise.map Prod.fst ?_ map.ascending
  intro left right less same
  rw [same] at less
  exact List.lt_irrefl _ less

/-- Nothing is found under a key without an entry. -/
theorem lookup_of_not_mem {key : ByteString} {entries : List (ByteString × α)}
    (absent : key ∉ entries.map Prod.fst) : entries.lookup key = none := by
  rw [List.lookup_eq_none_iff]
  intro entry member
  rw [bne_iff_ne]
  rintro rfl
  exact absent (List.mem_map_of_mem member)

/-- Where keys are distinct, the entries are what is found under their keys. -/
theorem mem_iff_lookup {key : ByteString} {value : α} {entries : List (ByteString × α)}
    (distinct : (entries.map Prod.fst).Nodup) :
    (key, value) ∈ entries ↔ entries.lookup key = some value := by
  induction entries with
  | nil => simp
  | cons head rest inductive_step =>
      obtain ⟨first, kept⟩ := head
      rw [List.map_cons] at distinct
      obtain ⟨fresh, distinct⟩ := List.nodup_cons.mp distinct
      rw [List.mem_cons, lookup_entry_cons, inductive_step distinct]
      by_cases same : key = first
      · subst same
        rw [if_pos rfl, lookup_of_not_mem fresh]
        constructor
        · rintro (head | later)
          · cases head
            rfl
          · cases later
        · intro found
          cases found
          exact .inl rfl
      · rw [if_neg same]
        constructor
        · rintro (head | later)
          · cases head
            exact absurd rfl same
          · exact later
        · exact .inr

/-- The entries are what the look-ups find. -/
theorem mem_entries_iff {map : SortedMap α} {key : ByteString} {value : α} :
    (key, value) ∈ map.entries ↔ map.get? key = some value :=
  mem_iff_lookup map.nodup_keys

/-- The look-ups determine a map. -/
theorem ext_get? {left right : SortedMap α} (same : ∀ key, left.get? key = right.get? key) :
    left = right := by
  have nodup (map : SortedMap α) : map.entries.Nodup := map.nodup_keys.of_map _
  have permuted : left.entries.Perm right.entries := by
    rw [List.perm_ext_iff_of_nodup (nodup left) (nodup right)]
    rintro ⟨key, value⟩
    rw [mem_entries_iff, mem_entries_iff, same]
  -- Both lists are in order, and there is one order for the same entries.
  apply SortedMap.ext
  refine permuted.eq_of_pairwise ?_ left.ascending right.ascending
  intro first second _ _ less greater
  exact absurd greater (List.lt_asymm less)

/-- The entries under a prefix are those whose keys begin with it. -/
theorem mem_withPrefix_iff {map : SortedMap α} {start key : ByteString} {value : α} :
    (key, value) ∈ map.withPrefix start ↔ start <+: key ∧ map.get? key = some value := by
  rw [withPrefix, List.mem_filter, mem_entries_iff, List.isPrefixOf_iff_prefix]
  exact And.comm

/-- Among mapped entries the image of a value is found. -/
theorem lookup_map (f : α → β) (key : ByteString) (entries : List (ByteString × α)) :
    (entries.map fun entry => (entry.1, f entry.2)).lookup key = (entries.lookup key).map f := by
  induction entries with
  | nil => rfl
  | cons head rest inductive_step =>
      obtain ⟨first, kept⟩ := head
      rw [List.map_cons, lookup_entry_cons, lookup_entry_cons, inductive_step]
      split <;> rfl

@[simp] theorem get?_map (f : α → β) (map : SortedMap α) (key : ByteString) :
    (SortedMap.map f map).get? key = (map.get? key).map f :=
  lookup_map f key map.entries

/-- The map with a value at a key set, or with what is there erased. -/
def write (map : SortedMap α) (key : ByteString) : Option α → SortedMap α
  | some value => map.insert key value
  | none => map.erase key

/-- Writing to a map changes what is under the key, and nothing else. -/
@[simp] theorem get?_write (map : SortedMap α) (key other : ByteString) (value : Option α) :
    (map.write key value).get? other = if other = key then value else map.get? other := by
  cases value with
  | none => exact get?_erase map key other
  | some value => exact get?_insert map key other value

section

variable {σ γ : Type} {get : σ → ByteString → γ} {write : σ → ByteString → α → σ} {shown : α → γ}

/-- Writing entries with distinct keys one after another shows each of them, and otherwise what was
there. -/
theorem foldl_write_of_nodup
    (get_write : ∀ store key other value,
      get (write store key value) other = if other = key then shown value else get store other)
    {entries : List (ByteString × α)} (distinct : (entries.map Prod.fst).Nodup) (store : σ)
    (key : ByteString) :
    get (entries.foldl (fun store entry => write store entry.1 entry.2) store) key =
      ((entries.lookup key).map shown).getD (get store key) := by
  induction entries generalizing store with
  | nil => rfl
  | cons head rest inductive_step =>
      obtain ⟨first, kept⟩ := head
      rw [List.map_cons] at distinct
      obtain ⟨fresh, distinct⟩ := List.nodup_cons.mp distinct
      rw [List.foldl_cons, inductive_step distinct, lookup_entry_cons, get_write]
      -- No later write is to the key of this one, so this one shows.
      by_cases same : key = first
      · subst same
        rw [lookup_of_not_mem fresh, if_pos rfl, if_pos rfl]
        rfl
      · rw [if_neg same, if_neg same]

/-- Writing the entries of a map into a store, one after another, shows them over what the store
holds. -/
theorem get_foldl_write
    (get_write : ∀ store key other value,
      get (write store key value) other = if other = key then shown value else get store other)
    (map : SortedMap α) (store : σ) (key : ByteString) :
    get (map.entries.foldl (fun store entry => write store entry.1 entry.2) store) key =
      ((map.get? key).map shown).getD (get store key) :=
  foldl_write_of_nodup get_write map.nodup_keys store key

end

/-- A map is the one that its entries make. -/
theorem ofList_entries (map : SortedMap α) : ofList map.entries = map := by
  apply ext_get?
  intro key
  rw [ofList, get_foldl_write get?_insert]
  cases map.get? key <;> rfl

/-- The sum of the weights of all entries. -/
def sum (weight : ByteString → α → Nat) (map : SortedMap α) : Nat :=
  (map.entries.map fun entry => weight entry.1 entry.2).sum

/-- The weight of what may be stored at a key. -/
def weightAt (weight : ByteString → α → Nat) (key : ByteString) : Option α → Nat
  | some value => weight key value
  | none => 0

/-- An entry takes the place of the one under its key in a sum. -/
theorem sum_insertEntry (weight : ByteString → α → Nat) (key : ByteString) (value : α)
    {entries : List (ByteString × α)}
    (ascending : entries.Pairwise fun left right => left.1 < right.1) :
    ((insertEntry key value entries).map fun entry => weight entry.1 entry.2).sum +
        weightAt weight key (entries.lookup key) =
      (entries.map fun entry => weight entry.1 entry.2).sum + weight key value := by
  induction entries with
  | nil => simp [insertEntry, weightAt]
  | cons head rest inductive_step =>
      obtain ⟨first, kept⟩ := head
      obtain ⟨below, ordered⟩ := List.pairwise_cons.mp ascending
      have step := inductive_step ordered
      rw [insertEntry, lookup_entry_cons]
      split
      · rename_i less
        have different : key ≠ first := fun same => List.lt_irrefl _ (same ▸ less)
        have absent : key ∉ rest.map Prod.fst := by
          intro member
          obtain ⟨entry, inside, rfl⟩ := List.mem_map.mp member
          exact List.lt_asymm less (below entry inside)
        rw [if_neg different, lookup_of_not_mem absent]
        simp only [List.map_cons, List.sum_cons, weightAt]
        omega
      · split
        · rename_i same
          rw [if_pos same.symm, same]
          simp only [List.map_cons, List.sum_cons, weightAt]
          omega
        · rename_i different
          rw [if_neg (Ne.symm different)]
          simp only [List.map_cons, List.sum_cons]
          omega

/-- Without the entry under a key, a sum is less by its weight. -/
theorem sum_filter_ne (weight : ByteString → α → Nat) (key : ByteString)
    {entries : List (ByteString × α)} (distinct : (entries.map Prod.fst).Nodup) :
    ((entries.filter fun entry => entry.1 ≠ key).map fun entry => weight entry.1 entry.2).sum +
        weightAt weight key (entries.lookup key) =
      (entries.map fun entry => weight entry.1 entry.2).sum := by
  induction entries with
  | nil => rfl
  | cons head rest inductive_step =>
      obtain ⟨first, kept⟩ := head
      rw [List.map_cons] at distinct
      obtain ⟨fresh, distinct⟩ := List.nodup_cons.mp distinct
      have step := inductive_step distinct
      rw [List.filter_cons, lookup_entry_cons]
      by_cases same : key = first
      · subst same
        rw [lookup_of_not_mem fresh] at step
        rw [if_neg (by simp), if_pos rfl]
        simp only [List.map_cons, List.sum_cons, weightAt] at step ⊢
        omega
      · rw [if_pos (by simp [Ne.symm same]), if_neg same]
        simp only [List.map_cons, List.sum_cons]
        omega

/-- A write exchanges what is stored at its key. -/
theorem sum_write (weight : ByteString → α → Nat) (map : SortedMap α) (key : ByteString)
    (value : Option α) :
    (map.write key value).sum weight + weightAt weight key (map.get? key) =
      map.sum weight + weightAt weight key value := by
  cases value with
  | none => exact sum_filter_ne weight key map.nodup_keys
  | some value => exact sum_insertEntry weight key value map.ascending

/-- The sum over chosen items is the sum in which all others count for nothing. -/
theorem sum_map_filter (chosen : α → Prop) [DecidablePred chosen] (weight : α → Nat)
    (items : List α) :
    ((items.filter fun item => chosen item).map weight).sum =
      (items.map fun item => if chosen item then weight item else 0).sum := by
  rw [List.sum_map_ite, List.sum_map_zero, Nat.add_zero]

/-- The sum over a map is at most that over another one that has all its entries with a weight. -/
theorem sum_le_sum {weight : ByteString → α → Nat} {left right : SortedMap α}
    (kept : ∀ key value, left.get? key = some value → weight key value ≠ 0 →
      right.get? key = some value) :
    left.sum weight ≤ right.sum weight := by
  -- Entries without a weight may be missing in the other map, so they are left out first.
  have nodup : (left.entries.filter fun entry => weight entry.1 entry.2 ≠ 0).Nodup :=
    (left.nodup_keys.of_map _).filter _
  have inside : (left.entries.filter fun entry => weight entry.1 entry.2 ≠ 0) ⊆ right.entries := by
    rintro ⟨key, value⟩ member
    obtain ⟨stored, matters⟩ := List.mem_filter.mp member
    rw [decide_eq_true_eq] at matters
    exact mem_entries_iff.mpr (kept key value (mem_entries_iff.mp stored) matters)
  obtain ⟨chosen, permuted, sublist⟩ := List.subperm_of_subset nodup inside
  calc left.sum weight
      = ((left.entries.filter fun entry => weight entry.1 entry.2 ≠ 0).map
          fun entry => weight entry.1 entry.2).sum := by
        rw [sum_map_filter]
        refine congrArg List.sum (List.map_congr_left fun entry _ => ?_)
        split
        · rfl
        · rename_i nothing
          exact Decidable.not_not.mp nothing
    _ = (chosen.map fun entry => weight entry.1 entry.2).sum :=
        (permuted.map fun entry => weight entry.1 entry.2).sum_eq.symm
    _ ≤ right.sum weight := (sublist.map _).sum_le_sum fun _ _ => Nat.zero_le _

/-- Weights that depend on the start of the key alone are summed over a listing. -/
theorem sum_withPrefix (weight : α → Nat) (map : SortedMap α) (start : ByteString) :
    ((map.withPrefix start).map fun entry => weight entry.2).sum =
      map.sum fun key value => if start <+: key then weight value else 0 := by
  rw [sum, ← sum_map_filter, withPrefix]
  congr 3
  funext entry
  rw [Bool.eq_iff_iff, List.isPrefixOf_iff_prefix, decide_eq_true_eq]

end CoinLedger.SortedMap

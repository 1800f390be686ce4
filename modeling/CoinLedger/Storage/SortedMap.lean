import CoinLedger.Bytes

/-! # Maps with byte-string keys, in key order

A map is the list of its entries in strictly ascending order of keys, so that two maps with the same
entries are equal and listing a map needs no sorting.
-/

namespace CoinLedger

/-- A finite map from byte strings. -/
@[ext] structure SortedMap (α : Type) where
  /-- The entries. -/
  entries : List (ByteString × α)
  /-- Their keys ascend. -/
  ascending : entries.Pairwise fun left right => left.1 < right.1

namespace SortedMap

variable {α : Type}

/-- The keys that are equal or ordered one way are not ordered the other way. -/
theorem key_lt_of_not_lt {left right : ByteString} (not_less : ¬ left < right)
    (different : right ≠ left) : right < left :=
  Decidable.byContradiction fun not_greater =>
    different (List.le_antisymm (List.not_lt.mp not_less) (List.not_lt.mp not_greater))

/-- Put an entry into ascending entries, in place of one with the same key. -/
def insertEntry (key : ByteString) (value : α) : List (ByteString × α) → List (ByteString × α)
  | [] => [(key, value)]
  | (other, kept) :: rest =>
      if key < other then (key, value) :: (other, kept) :: rest
      else if other = key then (key, value) :: rest
      else (other, kept) :: insertEntry key value rest

/-- What is among the entries after one was put in is that entry or was there. -/
theorem mem_insertEntry {key : ByteString} {value : α} {entries : List (ByteString × α)}
    {entry : ByteString × α} (member : entry ∈ insertEntry key value entries) :
    entry = (key, value) ∨ entry ∈ entries := by
  induction entries with
  | nil => exact .inl (List.mem_singleton.mp member)
  | cons head rest inductive_step =>
      obtain ⟨other, kept⟩ := head
      simp only [insertEntry] at member
      split at member
      · exact List.mem_cons.mp member
      · split at member
        · exact (List.mem_cons.mp member).imp id (List.mem_cons_of_mem _)
        · rcases List.mem_cons.mp member with same | inside
          · exact .inr (same ▸ List.mem_cons_self)
          · exact (inductive_step inside).imp id (List.mem_cons_of_mem _)

/-- Putting an entry in keeps the keys ascending. -/
theorem ascending_insertEntry (key : ByteString) (value : α) {entries : List (ByteString × α)}
    (ascending : entries.Pairwise fun left right => left.1 < right.1) :
    (insertEntry key value entries).Pairwise fun left right => left.1 < right.1 := by
  induction entries with
  | nil => exact List.pairwise_singleton _ _
  | cons head rest inductive_step =>
      obtain ⟨other, kept⟩ := head
      obtain ⟨below, ordered⟩ := List.pairwise_cons.mp ascending
      simp only [insertEntry]
      split
      · rename_i less
        refine List.pairwise_cons.mpr ⟨fun entry member => ?_, ascending⟩
        rcases List.mem_cons.mp member with same | inside
        · exact same ▸ less
        · exact List.lt_trans less (below entry inside)
      · rename_i not_less
        split
        · rename_i same
          exact List.pairwise_cons.mpr ⟨fun entry inside => same ▸ below entry inside, ordered⟩
        · rename_i different
          refine List.pairwise_cons.mpr ⟨fun entry member => ?_, inductive_step ordered⟩
          rcases mem_insertEntry member with same | inside
          · exact same ▸ key_lt_of_not_lt not_less different
          · exact below entry inside

/-- The map without entries. -/
def empty : SortedMap α := ⟨[], List.Pairwise.nil⟩

instance : Inhabited (SortedMap α) := ⟨empty⟩

/-- The value at a key. -/
def get? (map : SortedMap α) (key : ByteString) : Option α := map.entries.lookup key

/-- The map with the value at a key set. -/
def insert (map : SortedMap α) (key : ByteString) (value : α) : SortedMap α :=
  ⟨insertEntry key value map.entries, ascending_insertEntry key value map.ascending⟩

/-- The map without an entry at a key. -/
def erase (map : SortedMap α) (key : ByteString) : SortedMap α :=
  ⟨map.entries.filter fun entry => entry.1 ≠ key, map.ascending.filter _⟩

/-- The map with each value replaced. -/
def map {β : Type} (f : α → β) (source : SortedMap α) : SortedMap β :=
  ⟨source.entries.map fun entry => (entry.1, f entry.2),
    List.pairwise_map.mpr source.ascending⟩

/-- The map with the given entries, a later one taking the place of an earlier one. -/
def ofList (entries : List (ByteString × α)) : SortedMap α :=
  entries.foldl (fun map entry => map.insert entry.1 entry.2) empty

/-- The entries whose keys start with a given byte string, in ascending order. -/
def withPrefix (map : SortedMap α) (start : ByteString) : List (ByteString × α) :=
  map.entries.filter fun entry => start.isPrefixOf entry.1

/-- Looking up the first entry or a later one. -/
theorem lookup_entry_cons (other first : ByteString) (kept : α)
    (rest : List (ByteString × α)) :
    ((first, kept) :: rest).lookup other =
      if other = first then some kept else rest.lookup other := by
  rw [List.lookup_cons]
  by_cases same : other = first
  · simp [same]
  · simp [beq_eq_false_iff_ne.mpr same, same]

/-- Under its key the entry that was put in is found, and elsewhere what was there. -/
theorem lookup_insertEntry (key other : ByteString) (value : α)
    (entries : List (ByteString × α)) :
    (insertEntry key value entries).lookup other =
      if other = key then some value else entries.lookup other := by
  induction entries with
  | nil => rw [insertEntry, lookup_entry_cons]
  | cons head rest inductive_step =>
      obtain ⟨first, kept⟩ := head
      rw [insertEntry]
      split
      · rw [lookup_entry_cons]
      · split
        · rename_i same
          subst same
          rw [lookup_entry_cons, lookup_entry_cons]
          split <;> rfl
        · rename_i different
          rw [lookup_entry_cons, lookup_entry_cons, inductive_step]
          by_cases same : other = first
          · simp [same, different]
          · simp [same]

/-- Without the entries under a key, nothing is found under it, and elsewhere what was there. -/
theorem lookup_filter_ne (key other : ByteString) (entries : List (ByteString × α)) :
    (entries.filter fun entry => entry.1 ≠ key).lookup other =
      if other = key then none else entries.lookup other := by
  induction entries with
  | nil => simp
  | cons head rest inductive_step =>
      obtain ⟨first, kept⟩ := head
      rw [List.filter_cons, lookup_entry_cons]
      by_cases dropped : first = key
      · rw [if_neg (by simp [dropped]), inductive_step]
        by_cases same : other = key
        · simp [same]
        · simp [same, dropped]
      · rw [if_pos (by simp [dropped]), lookup_entry_cons, inductive_step]
        by_cases same : other = first
        · simp [same, dropped]
        · simp [same]

@[simp] theorem get?_empty (key : ByteString) : (empty : SortedMap α).get? key = none := rfl

@[simp] theorem get?_insert (map : SortedMap α) (key other : ByteString) (value : α) :
    (map.insert key value).get? other = if other = key then some value else map.get? other :=
  lookup_insertEntry key other value map.entries

@[simp] theorem get?_erase (map : SortedMap α) (key other : ByteString) :
    (map.erase key).get? other = if other = key then none else map.get? other :=
  lookup_filter_ne key other map.entries

end SortedMap
end CoinLedger

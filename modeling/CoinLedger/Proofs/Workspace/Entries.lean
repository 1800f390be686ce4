import CoinLedger.Workspace

/-! # What stays in a workspace

A write changes what stands at one place. Directories that are made stand where there was nothing,
and who asks for them again changes nothing (`CoinLedger.Workspace.makeParts_again`). A look-up that
finds something finds it again as long as directories stay and nothing is taken away
(`CoinLedger.Workspace.Retains.find`).
-/

namespace CoinLedger.Workspace

variable {workspace before middle after : Workspace} {place other : Place} {entry : FileEntry}

/-- Below the roots an entry is what the list of entries has for the place. -/
theorem entry?_of_names_ne_nil (named : place.names ≠ []) :
    workspace.entry? place = workspace.entries.lookup place := by
  unfold entry?
  split
  · contradiction
  · rfl

/-- A place that is not a directory is below a root. -/
theorem names_ne_nil_of_ne_directory (there : workspace.entry? place ≠ some .directory) :
    place.names ≠ [] := by
  intro bare
  apply there
  unfold entry?
  rw [bare]

/-- Without the entries of a place, all other places have what they had. -/
theorem lookup_filter_ne (entries : List (Place × FileEntry)) :
    (entries.filter fun other => other.1 ≠ place).lookup other =
      if other = place then none else entries.lookup other := by
  induction entries with
  | nil => split <;> rfl
  | cons first rest inductive_step =>
      obtain ⟨key, entry⟩ := first
      rw [List.filter_cons]
      by_cases found : other = key
      · subst found
        by_cases same : other = place
        · simpa [same] using inductive_step
        · simp [same]
      · have unlike : (other == key) = false := beq_false_of_ne found
        rw [List.lookup_cons, unlike, ← inductive_step]
        split
        · rw [List.lookup_cons, unlike]
        · rfl

theorem ne_of_names (bare : other.names = []) (named : place.names ≠ []) : other ≠ place :=
  fun same => named (same ▸ bare)

/-- Putting an entry changes the place it is put at and no other. -/
theorem entry?_put (named : place.names ≠ []) :
    Workspace.entry? (workspace.put place entry) other =
      if other = place then some entry else workspace.entry? other := by
  by_cases bare : other.names = []
  · rw [if_neg (ne_of_names bare named), entry?, entry?, bare]
  · rw [entry?_of_names_ne_nil bare, entry?_of_names_ne_nil bare, put, List.lookup_cons,
      lookup_filter_ne]
    by_cases same : other = place
    · simp [same]
    · rw [beq_false_of_ne same, if_neg same, if_neg same]

/-- Removing an entry empties its place and changes no other. -/
theorem entry?_remove (named : place.names ≠ []) :
    Workspace.entry? (workspace.remove place) other =
      if other = place then none else workspace.entry? other := by
  by_cases bare : other.names = []
  · rw [if_neg (ne_of_names bare named), entry?, entry?, bare]
  · rw [entry?_of_names_ne_nil bare, entry?_of_names_ne_nil bare, remove, lookup_filter_ne]

theorem child_names_ne_nil (place : Place) (name : FileName) : (child place name).names ≠ [] :=
  List.append_ne_nil_of_right_ne_nil _ (List.cons_ne_nil _ _)

/-- Directories stay, and nothing is taken away. -/
structure Retains (before after : Workspace) : Prop where
  directory : ∀ place, before.entry? place = some .directory →
    after.entry? place = some .directory
  present : ∀ place, before.entry? place ≠ none → after.entry? place ≠ none

/-- Everything that there was is still the same. -/
def Extends (before after : Workspace) : Prop :=
  ∀ place entry, before.entry? place = some entry → after.entry? place = some entry

theorem Extends.refl (workspace : Workspace) : Extends workspace workspace :=
  fun _ _ there => there

/-- What is the same after two changes was the same after the first. -/
theorem Extends.trans (first : Extends before middle) (second : Extends middle after) :
    Extends before after := fun place entry there => second place entry (first place entry there)

/-- If everything is the same, directories stay and nothing is taken away. -/
theorem Extends.retains (extended : Extends before after) : Retains before after where
  directory place there := extended place _ there
  present place there := by
    obtain ⟨entry, found⟩ := Option.ne_none_iff_exists'.mp there
    rw [extended place entry found]
    exact Option.some_ne_none entry

theorem Retains.trans (first : Retains before middle) (second : Retains middle after) :
    Retains before after where
  directory place there := second.directory place (first.directory place there)
  present place there := second.present place (first.present place there)

/-- A part of a path that could be followed still leads to the same place. -/
theorem Retains.follow (retains : Retains before after) {part : FileName} {next : Place}
    (followed : before.follow place part = some next) : after.follow place part = some next := by
  unfold Workspace.follow at followed ⊢
  split at followed
  · rename_i there
    rw [retains.directory place there]
    dsimp only
    split at followed
    · rename_i idle
      rw [if_pos idle]
      exact followed
    · rename_i active
      rw [if_neg active]
      split at followed
      · rename_i upwards
        rw [if_pos upwards]
        exact followed
      · rename_i downwards
        rw [if_neg downwards]
        split at followed
        · rename_i found
          obtain ⟨entry, stays⟩ := Option.ne_none_iff_exists'.mp
            (retains.present (child place part) (found ▸ Option.some_ne_none _))
          rw [stays]
          exact followed
        · cases followed
  · cases followed

/-- A path that could be followed still leads to the same place. -/
theorem Retains.foldlM_follow (retains : Retains before after) {parts : List FileName}
    {last : Place} (followed : parts.foldlM before.follow place = some last) :
    parts.foldlM after.follow place = some last := by
  induction parts generalizing place with
  | nil => exact followed
  | cons part parts inductive_step =>
      obtain ⟨next, first, rest⟩ := Option.bind_eq_some_iff.mp followed
      exact Option.bind_eq_some_iff.mpr ⟨next, retains.follow first, inductive_step rest⟩

/-- **What a look-up finds it finds again in a workspace that has grown.** -/
theorem Retains.find (retains : Retains before after) {path : FileName}
    (found : before.find path = some place) : after.find path = some place := by
  unfold Workspace.find at found ⊢
  split at found
  · cases found
  · rename_i nonempty
    rw [if_neg nonempty]
    exact retains.foldlM_follow found

/-- A file that is read is found. -/
theorem exists_find_of_readText {path : FileName} {text : String}
    (read : workspace.readText path = .ok text) : ∃ place, workspace.find path = some place := by
  cases found : workspace.find path with
  | some place => exact ⟨place, rfl⟩
  | none =>
      rw [readText, lookup, found] at read
      cases read

/-- A file that stays as it is reads the same. -/
theorem Retains.readText (retains : Retains before after) {path : FileName}
    (found : before.find path = some place) (same : after.entry? place = before.entry? place) :
    after.readText path = before.readText path := by
  have again : after.lookup path = before.lookup path := by
    rw [lookup, lookup, found, retains.find found, Option.bind_some, Option.bind_some, same]
  rw [Workspace.readText, Workspace.readText, again]

/-- Putting something at a place that had nothing leaves everything else the same. -/
theorem extends_put (vacant : workspace.entry? place = none) :
    Extends workspace (workspace.put place entry) := by
  have named : place.names ≠ [] :=
    names_ne_nil_of_ne_directory (vacant ▸ (Option.some_ne_none _).symm)
  intro other found there
  rw [entry?_put named, if_neg]
  · exact there
  · rintro rfl
    rw [vacant] at there
    cases there

/-- What making the directories on a path comes to at its first part: it ends, or it goes on from
the directory above, from one that is there, or from one that is made. -/
theorem makeParts_cons {part : PathPart} {parts : List PathPart} {outcome : Except Obstacle Place}
    (made : makeParts place (part :: parts) before = (outcome, after)) :
    (∃ obstacle, outcome = .error obstacle ∧ after = before) ∨
    before.entry? place = some .directory ∧
      (part.fileName = parentName ∧ makeParts (parent place) parts before = (outcome, after) ∨
        part.fileName ≠ parentName ∧ part.fileName.length ≤ maxPartSize ∧
          ( before.entry? (child place part.fileName) = some .directory ∧
              makeParts (child place part.fileName) parts before = (outcome, after) ∨
            before.entry? (child place part.fileName) = none ∧
              makeParts (child place part.fileName) parts
                (before.put (child place part.fileName) .directory) = (outcome, after))) := by
  unfold makeParts at made
  dsimp only at made
  split at made
  · rename_i here
    split at made
    · rename_i upwards
      exact .inr ⟨here, .inl ⟨upwards, made⟩⟩
    · rename_i downwards
      split at made
      · cases made
        exact .inl ⟨_, rfl, rfl⟩
      · rename_i bounded
        split at made
        · rename_i vacant
          exact .inr ⟨here, .inr ⟨downwards, Nat.le_of_not_lt bounded, .inr ⟨vacant, made⟩⟩⟩
        · rename_i there
          exact .inr ⟨here, .inr ⟨downwards, Nat.le_of_not_lt bounded, .inl ⟨there, made⟩⟩⟩
        · cases made
          exact .inl ⟨_, rfl, rfl⟩
  · cases made
    exact .inl ⟨_, rfl, rfl⟩

/-- Making directories leaves everything that there was. -/
theorem extends_makeParts {parts : List PathPart} {outcome : Except Obstacle Place}
    (made : makeParts place parts before = (outcome, after)) :
    Extends before after ∧ after.workingPathSize = before.workingPathSize := by
  induction parts generalizing place before with
  | nil =>
      cases made
      exact ⟨.refl _, rfl⟩
  | cons part parts inductive_step =>
      rcases makeParts_cons made with
        ⟨_, _, rfl⟩ | ⟨_, ⟨_, later⟩ | ⟨_, _, ⟨_, later⟩ | ⟨vacant, later⟩⟩⟩
      · exact ⟨.refl _, rfl⟩
      · exact inductive_step later
      · exact inductive_step later
      · obtain ⟨extended, size⟩ := inductive_step later
        exact ⟨(extends_put vacant).trans extended, size⟩

/-- **Directories that have been made are there.** Where they are asked for again, nothing
changes. -/
theorem makeParts_again {parts : List PathPart} {last : Place} {later : Workspace}
    (made : makeParts place parts before = (.ok last, after))
    (directories : ∀ place, after.entry? place = some .directory →
      later.entry? place = some .directory) :
    makeParts place parts later = (.ok last, later) := by
  -- The workspace before is free in the induction: each part may have been made on the way. What is
  -- known of the one after is that everything on the way is still there in it.
  induction parts generalizing place before with
  | nil =>
      cases made
      rfl
  | cons part parts inductive_step =>
      have stays : ∀ place, before.entry? place = some .directory →
          later.entry? place = some .directory := fun place there =>
        directories place ((extends_makeParts made).1 place _ there)
      rcases makeParts_cons made with ⟨_, failed, _⟩ | ⟨here, ways⟩
      · cases failed
      rw [makeParts, stays place here]
      dsimp only
      rcases ways with ⟨upwards, rest⟩ | ⟨downwards, bounded, next⟩
      · rw [if_pos upwards]
        exact inductive_step rest
      · rw [if_neg downwards, if_neg (Nat.not_lt.mpr bounded)]
        rcases next with ⟨there, rest⟩ | ⟨_, rest⟩
        · rw [stays _ there]
          exact inductive_step rest
        · have there : after.entry? (child place part.fileName) = some .directory := by
            apply (extends_makeParts rest).1
            rw [entry?_put (child_names_ne_nil place part.fileName), if_pos rfl]
          rw [directories _ there]
          exact inductive_step rest

end CoinLedger.Workspace

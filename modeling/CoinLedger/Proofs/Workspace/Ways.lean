import CoinLedger.Proofs.Workspace.Entries
import CoinLedger.Proofs.Workspace.Names
import CoinLedger.Workspace.OpenTable

/-! # Ways through directories

The way to something in a directory that is there, or has been made, leads through directories only
(`CoinLedger.Workspace.through_of_directoryAt`), and it leads to the same place as long as these
stay (`CoinLedger.Workspace.Through.stays`). So a directory that has been opened can be opened
again, and a table in it keeps its place (`CoinLedger.Workspace.tablePlace?_again`).
-/

namespace CoinLedger

namespace Workspace

variable {workspace before after : Workspace} {place last : Place}

/-- What is passed over does not change where a way leads. -/
theorem foldlM_approach_filter (workspace : Workspace) (place : Place) (pieces : List FileName) :
    pieces.foldlM workspace.approach place =
      (pieces.filter fun piece => !isIdle piece).foldlM workspace.approach place := by
  induction pieces generalizing place with
  | nil => rfl
  | cons piece pieces inductive_step =>
      rw [List.foldlM_cons, List.filter_cons]
      cases idle : isIdle piece with
      | true =>
          rw [approach, if_pos idle]
          exact inductive_step place
      | false =>
          rw [Bool.not_false, if_pos rfl, List.foldlM_cons]
          exact congrArg _ (funext inductive_step)

/-- A way that can be followed can be followed without what is passed over. -/
theorem foldlM_follow_filter {pieces : List FileName}
    (followed : pieces.foldlM workspace.follow place = some last) :
    (pieces.filter fun piece => !isIdle piece).foldlM workspace.follow place = some last := by
  induction pieces generalizing place with
  | nil => exact followed
  | cons piece pieces inductive_step =>
      obtain ⟨next, first, rest⟩ := Option.bind_eq_some_iff.mp followed
      rw [List.filter_cons]
      cases idle : isIdle piece with
      | true =>
          unfold follow at first
          split at first
          · rw [if_pos idle] at first
            cases first
            exact inductive_step rest
          · cases first
      | false =>
          rw [Bool.not_false, if_pos rfl]
          exact Option.bind_eq_some_iff.mpr ⟨next, first, inductive_step rest⟩

/-- The way by the given parts leads through directories. -/
def Through (workspace : Workspace) : Place → List FileName → Prop
  | _, [] => True
  | place, part :: parts =>
      workspace.entry? place = some .directory ∧
        ∀ next, workspace.approach place part = some next → workspace.Through next parts

/-- From a directory that stays, a part leads to where it led. -/
theorem approach_eq (here : before.entry? place = some .directory)
    (still : after.entry? place = some .directory) (part : FileName) :
    after.approach place part = before.approach place part := by
  unfold approach
  rw [here, still]

/-- **A way through directories leads to the same place as long as these stay.** -/
theorem Through.stays {parts : List FileName} (through : before.Through place parts)
    (directories : ∀ place, before.entry? place = some .directory →
      after.entry? place = some .directory) :
    after.Through place parts ∧
      parts.foldlM after.approach place = parts.foldlM before.approach place := by
  -- Where the next step starts depends on the one before, so the place is free in the induction.
  induction parts generalizing place with
  | nil => exact ⟨trivial, rfl⟩
  | cons part parts inductive_step =>
      obtain ⟨here, onwards⟩ := through
      have same := approach_eq here (directories place here) part
      refine ⟨⟨directories place here, fun next step => ?_⟩, ?_⟩
      · exact (inductive_step (onwards next (same ▸ step))).1
      · rw [List.foldlM_cons, List.foldlM_cons, same]
        cases step : before.approach place part with
        | none => rfl
        | some next => exact (inductive_step (onwards next step)).2

/-- A step that finds something leads where an approach leads, unless the part is too long. -/
theorem approach_of_follow {part : FileName} {next other : Place}
    (followed : workspace.follow place part = some next)
    (approached : workspace.approach place part = some other) : other = next := by
  unfold follow at followed
  unfold approach at approached
  split at followed
  · rename_i here
    rw [here] at approached
    dsimp only at approached
    split at followed
    · rename_i idle
      rw [if_pos idle] at approached
      exact Option.some.inj (approached.symm.trans followed)
    · rename_i active
      rw [if_neg active] at approached
      split at followed
      · rename_i upwards
        rw [if_pos upwards] at approached
        exact Option.some.inj (approached.symm.trans followed)
      · rename_i downwards
        rw [if_neg downwards] at approached
        split at followed
        · split at approached
          · cases approached
          · exact Option.some.inj (approached.symm.trans followed)
        · cases followed
  · cases followed

/-- The way to a directory that was found, and to something in it, leads through directories. -/
theorem through_of_follow {parts : List FileName}
    (followed : parts.foldlM workspace.follow place = some last)
    (there : workspace.entry? last = some .directory) (name : FileName) :
    workspace.Through place (parts ++ [name]) := by
  induction parts generalizing place with
  | nil =>
      cases followed
      exact ⟨there, fun _ _ => trivial⟩
  | cons part parts inductive_step =>
      obtain ⟨next, first, rest⟩ := Option.bind_eq_some_iff.mp followed
      refine ⟨?_, fun other approached => ?_⟩
      · unfold follow at first
        split at first
        · assumption
        · cases first
      · rw [approach_of_follow first approached]
        exact inductive_step rest

/-- Parts that are made can be followed to the directory that was made last. -/
theorem follow_of_makeParts {parts : List PathPart}
    (spelled : ∀ part ∈ parts, FileName.ofPoints? part.name = some part.fileName)
    (made : makeParts place parts before = (.ok last, after)) :
    (parts.map PathPart.fileName).foldlM after.follow place = some last := by
  induction parts generalizing place before with
  | nil =>
      cases made
      rfl
  | cons part parts inductive_step =>
      obtain ⟨spelledHere, spelledOthers⟩ := List.forall_mem_cons.mp spelled
      have active : ¬ isIdle part.fileName = true :=
        Bool.eq_false_iff.mp (PathPart.isIdle_eq_false spelledHere)
      rcases makeParts_cons made with ⟨_, failed, _⟩ | ⟨here, ways⟩
      · cases failed
      have stays := (extends_makeParts made).1 place _ here
      refine Option.bind_eq_some_iff.mpr ?_
      rw [follow, stays]
      dsimp only
      rw [if_neg active]
      rcases ways with ⟨upwards, rest⟩ | ⟨downwards, _, ways⟩
      · rw [if_pos upwards]
        exact ⟨_, rfl, inductive_step spelledOthers rest⟩
      · rw [if_neg downwards]
        rcases ways with ⟨there, rest⟩ | ⟨_, rest⟩
        · rw [(extends_makeParts rest).1 _ _ there]
          exact ⟨_, rfl, inductive_step spelledOthers rest⟩
        · have there := (extends_makeParts rest).1 (child place part.fileName) .directory
            ((entry?_put (child_names_ne_nil place part.fileName)).trans (if_pos rfl))
          rw [there]
          exact ⟨_, rfl, inductive_step spelledOthers rest⟩

variable {directory : PathName}

/-- A path without obstacle has bytes. -/
theorem exists_bytes_of_obstacle? (clear : directory.obstacle? = none) :
    ∃ bytes, directory.bytes? = some bytes := by
  unfold PathName.obstacle? FileName.ofPoints at clear
  unfold PathName.bytes?
  cases spelled : FileName.ofPoints? directory.points with
  | some bytes => exact ⟨bytes, rfl⟩
  | none =>
      rw [spelled] at clear
      cases clear

/-- A directory at a path was found, or it was made. -/
theorem directoryAt_cases (opened : before.directoryAt directory = (.ok last, after)) :
    directory.obstacle? = none ∧
      ((directory.bytes?.bind before.find = some last ∧ after = before) ∨
        makeParts (originOf (directory.start ≠ .here)) directory.parts before =
          (.ok last, after)) := by
  unfold directoryAt at opened
  split at opened
  · rename_i clear found
    cases opened
    exact ⟨clear, .inl ⟨found, rfl⟩⟩
  · unfold makeDirectory at opened
    split at opened
    · cases opened
    · rename_i clear
      exact ⟨clear, .inr opened⟩

/-- Finding or making a directory leaves everything else the same. -/
theorem extends_directoryAt (opened : before.directoryAt directory = (.ok last, after)) :
    Extends before after ∧ after.workingPathSize = before.workingPathSize := by
  obtain ⟨_, ⟨_, rfl⟩ | made⟩ := directoryAt_cases opened
  · exact ⟨.refl _, rfl⟩
  · exact extends_makeParts made

/-- A directory that has been opened is found by its parts. -/
theorem follow_of_directoryAt (opened : before.directoryAt directory = (.ok last, after)) :
    (directory.parts.map PathPart.fileName).foldlM after.follow
      (originOf (directory.start ≠ .here)) = some last := by
  obtain ⟨clear, ways⟩ := directoryAt_cases opened
  obtain ⟨bytes, spelled⟩ := exists_bytes_of_obstacle? clear
  obtain ⟨named, pieces, absolute⟩ := PathName.pieces_bytes spelled
  rcases ways with ⟨found, rfl⟩ | made
  · rw [spelled, Option.bind_some, find] at found
    split at found
    · cases found
    · rw [← pieces, ← absolute]
      exact foldlM_follow_filter found
  · exact follow_of_makeParts named made

/-- **A directory that has been opened can be opened again, and nothing changes.** -/
theorem directoryAt_again (opened : before.directoryAt directory = (.ok last, after))
    {later : Workspace} (retains : Retains after later) :
    later.directoryAt directory = (.ok last, later) := by
  obtain ⟨clear, ways⟩ := directoryAt_cases opened
  obtain ⟨bytes, spelled⟩ := exists_bytes_of_obstacle? clear
  obtain ⟨_, pieces, absolute⟩ := PathName.pieces_bytes spelled
  have followed := retains.foldlM_follow (follow_of_directoryAt opened)
  unfold directoryAt
  rw [clear, spelled, Option.bind_some]
  -- Whether it is found by its text or made from its parts, these lead to the same directory.
  cases found : later.find bytes with
  | some place =>
      unfold find at found
      split at found
      · cases found
      · have again := foldlM_follow_filter found
        rw [pieces, absolute, followed, Option.some.injEq] at again
        rw [again]
  | none =>
      rcases ways with ⟨before, rfl⟩ | made
      · rw [spelled, Option.bind_some] at before
        rw [retains.find before] at found
        cases found
      · unfold makeDirectory
        rw [clear]
        exact makeParts_again made retains.directory

/-- **The way to something in a directory that has been opened leads through directories.** -/
theorem through_of_directoryAt (opened : before.directoryAt directory = (.ok last, after))
    (there : after.entry? last = some .directory) (name : FileName) :
    after.Through (originOf (directory.start ≠ .here))
      (directory.parts.map PathPart.fileName ++ [name]) :=
  through_of_follow (follow_of_directoryAt opened) there name

/-- The bytes of a path lead to a table by its parts, unless the path is too long. -/
theorem tablePlace?_eq {path : PathName} {bytes : FileName} (spelled : path.bytes? = some bytes) :
    workspace.tablePlace? bytes =
      ((path.parts.map PathPart.fileName).foldlM workspace.approach
        (originOf (path.start ≠ .here))).bind fun place =>
          if maxTablePathSize < workspace.pathSize place then none else some place := by
  obtain ⟨_, pieces, absolute⟩ := PathName.pieces_bytes spelled
  rw [tablePlace?, foldlM_approach_filter, pieces, absolute]
  rfl

/-- **The place of a table in a directory that has been opened stays the same.** -/
theorem tablePlace?_again (opened : before.directoryAt directory = (.ok last, after))
    (there : after.entry? last = some .directory) {later : Workspace}
    (retains : Retains after later) (size : later.workingPathSize = after.workingPathSize)
    {name : String} {part : PathPart}
    (named : PathPart.ofName? (Text.CodePoint.ofText name) = some part) {bytes : FileName}
    (spelled : (directory.file name).bytes? = some bytes) :
    later.tablePlace? bytes = after.tablePlace? bytes := by
  have same := ((through_of_directoryAt opened there part.fileName).stays retains.directory).2
  rw [tablePlace?_eq spelled, tablePlace?_eq spelled, directory.map_fileName_file named]
  unfold pathSize
  rw [size]
  exact congrArg (Option.bind · _) same

end Workspace
end CoinLedger

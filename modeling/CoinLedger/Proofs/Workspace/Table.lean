import CoinLedger.Proofs.Steps
import CoinLedger.Proofs.Workspace.Ways

/-! # The life of a table in a file

A table whose file is not there, or was left by someone who has closed it, is opened with what is in
it and may be written to (`CoinLedger.Workspace.openPlace_resting`). While it is open its changes
gather in a log beside the file. Who closes it leaves the file with the last state that was kept and
nothing beside it (`CoinLedger.Workspace.InUse.close`). Nothing else in the workspace changes
(`CoinLedger.Workspace.Elsewhere`).
-/

namespace CoinLedger

theorem Companion.ending_ne_empty (companion : Companion) :
    FileName.ofText companion.ending ≠ [] := by
  cases companion <;> decide +kernel

theorem Companion.ending_injective {first second : Companion}
    (same : FileName.ofText first.ending = FileName.ofText second.ending) : first = second := by
  revert same
  cases first <;> cases second <;> decide +kernel

namespace Workspace

variable {workspace before after : Workspace} {place other : Place} {entry : FileEntry}
  {companion another : Companion}

theorem companionPlace_names_ne_nil (place : Place) (companion : Companion) :
    (companionPlace place companion).names ≠ [] :=
  List.append_ne_nil_of_right_ne_nil _ (List.cons_ne_nil _ _)

/-- The name of a companion is that of the table with an ending. -/
theorem getLast?_companionPlace (place : Place) (companion : Companion) :
    (companionPlace place companion).names.getLast? =
      some (place.names.getLast?.getD [] ++ FileName.ofText companion.ending) :=
  List.getLast?_concat

/-- A table is not its own companion. -/
theorem ne_companionPlace (named : place.names ≠ []) (companion : Companion) :
    place ≠ companionPlace place companion := by
  intro same
  have last := getLast?_companionPlace place companion
  rw [← same, List.getLast?_eq_some_getLast named, Option.getD_some, Option.some.injEq] at last
  exact companion.ending_ne_empty (List.self_eq_append_right.mp last)

/-- The companions of a table are in different places. -/
theorem companionPlace_inj (place : Place) :
    companionPlace place companion = companionPlace place another ↔ companion = another := by
  refine ⟨fun same => ?_, fun same => same ▸ rfl⟩
  have last := getLast?_companionPlace place companion
  rw [same, getLast?_companionPlace, Option.some.injEq] at last
  exact (Companion.ending_injective (List.append_cancel_left last)).symm

section

variable (named : place.names ≠ [])

include named

/-- An entry that is put in the place of a table leaves its companions alone. -/
theorem companion?_put :
    (workspace.put place entry).companion? place companion =
      workspace.companion? place companion := by
  rw [companion?, entry?_put named, if_neg (ne_companionPlace named companion).symm]
  rfl

/-- A companion that is put beside a table leaves the table alone. -/
theorem entry?_putCompanion :
    Workspace.entry? (workspace.putCompanion place companion entry) place =
      workspace.entry? place := by
  rw [putCompanion, entry?_put (companionPlace_names_ne_nil place companion),
    if_neg (ne_companionPlace named companion)]

/-- A companion that is removed leaves the table alone. -/
theorem entry?_removeCompanion :
    Workspace.entry? (workspace.removeCompanion place companion) place =
      workspace.entry? place := by
  rw [removeCompanion, entry?_remove (companionPlace_names_ne_nil place companion),
    if_neg (ne_companionPlace named companion)]

omit named in
/-- A companion that is put beside a table is there, and the others are as they were. -/
theorem companion?_putCompanion :
    (workspace.putCompanion place companion entry).companion? place another =
      if another = companion then some entry else workspace.companion? place another := by
  rw [companion?, putCompanion, entry?_put (companionPlace_names_ne_nil place companion)]
  simp only [companionPlace_inj]
  rfl

omit named in
/-- A companion that is removed is gone, and the others are as they were. -/
theorem companion?_removeCompanion :
    (workspace.removeCompanion place companion).companion? place another =
      if another = companion then none else workspace.companion? place another := by
  rw [companion?, removeCompanion, entry?_remove (companionPlace_names_ne_nil place companion)]
  simp only [companionPlace_inj]
  rfl

end

/-- A place is that of a table or of one of its companions. -/
def Beside (place other : Place) : Prop :=
  other = place ∨ ∃ companion, other = companionPlace place companion

/-- Only a table and its companions may have changed. -/
structure Elsewhere (place : Place) (before after : Workspace) : Prop where
  size : after.workingPathSize = before.workingPathSize
  same : ∀ other, ¬ Beside place other → after.entry? other = before.entry? other

theorem Elsewhere.refl (place : Place) (workspace : Workspace) :
    Elsewhere place workspace workspace := ⟨rfl, fun _ _ => rfl⟩

/-- A further change of the table changes nothing elsewhere. -/
theorem Elsewhere.put (earlier : Elsewhere place before after) (named : place.names ≠ [])
    (entry : FileEntry) : Elsewhere place before (after.put place entry) where
  size := earlier.size
  same other apart := by
    rw [entry?_put named, if_neg fun same => apart (.inl same)]
    exact earlier.same other apart

/-- A companion that is put beside the table changes nothing elsewhere. -/
theorem Elsewhere.putCompanion (earlier : Elsewhere place before after) (companion : Companion)
    (entry : FileEntry) : Elsewhere place before (after.putCompanion place companion entry) where
  size := earlier.size
  same other apart := by
    rw [Workspace.putCompanion, entry?_put (companionPlace_names_ne_nil place companion),
      if_neg fun same => apart (.inr ⟨companion, same⟩)]
    exact earlier.same other apart

/-- A companion that is removed changes nothing elsewhere. -/
theorem Elsewhere.removeCompanion (earlier : Elsewhere place before after)
    (companion : Companion) : Elsewhere place before (after.removeCompanion place companion) where
  size := earlier.size
  same other apart := by
    rw [Workspace.removeCompanion, entry?_remove (companionPlace_names_ne_nil place companion),
      if_neg fun same => apart (.inr ⟨companion, same⟩)]
    exact earlier.same other apart

/-- A table that was kept and closed. -/
def kept (store : SnapshotStore) : StoredTable := ⟨store, .writeAhead, true⟩

/-- Nothing stands beside a table, and its file is the one that was left with a given state, or
there is none yet and it can be made. -/
structure Resting (workspace : Workspace) (place : Place) (store : SnapshotStore) : Prop where
  alone : ∀ companion, workspace.companion? place companion = none
  content : workspace.entry? place = some (.table (kept store)) ∨
    workspace.entry? place = none ∧ workspace.entry? (parent place) = some .directory ∧
      store = .ofMap .empty

/-- A table is open with a log beside it, and a given state is the last that was kept. The file has
no rows yet only if there are changes in the log. -/
structure InUse (workspace : Workspace) (place : Place) (store : SnapshotStore) : Prop where
  others : ∀ companion, companion ≠ .log → companion ≠ .index →
    workspace.companion? place companion = none
  content : ∃ filled, workspace.entry? place = some (.table ⟨store, .writeAhead, filled⟩) ∧
    (filled = false → workspace.companion? place .log = some .binary)

/-- An entry that is not the table of a resting chain is neither in its place nor beside it. -/
theorem Resting.not_beside {store : SnapshotStore} (resting : workspace.Resting place store)
    (there : workspace.entry? other = some entry) (unlike : entry ≠ .table (kept store)) :
    ¬ Beside place other := by
  rintro (rfl | ⟨companion, rfl⟩)
  · rcases resting.content with same | ⟨vacant, _⟩
    · exact unlike (Option.some.inj (there.symm.trans same))
    · exact nomatch there.symm.trans vacant
  · exact nomatch there.symm.trans (resting.alone companion)

/-- Whether a table is at rest depends on the entries of the workspace. -/
theorem Resting.congr {store : SnapshotStore} (resting : workspace.Resting place store)
    (same : after.entry? = workspace.entry?) : after.Resting place store where
  alone companion := (congrFun same _).trans (resting.alone companion)
  content := by
    rw [same]
    exact resting.content

/-- A place is one at which a file may stand, with the names of its companions. -/
structure Tabular (place : Place) : Prop where
  named : place.names ≠ []
  short : ((companionPlace place .journal).names.getLast?.getD []).length ≤ maxPartSize

/-- The table at a place in use. -/
def openTableAt (place : Place) (store : SnapshotStore) : OpenTable :=
  { place? := some place, store, writable := true, session := .logged }

end Workspace

namespace TableOpening

open Workspace Stepwise

variable {workspace : Workspace} {place : Place} {table : StoredTable}

/-- A table is brought into use with an empty log and an index beside it. -/
theorem run_useLog (log : workspace.companion? place .log = none)
    (index : workspace.companion? place .index = none) :
    (useLog place .plain).run workspace =
      (.ok .logged,
        (workspace.putCompanion place .log (.text "")).putCompanion place .index .binary) := by
  simp [-bind_pure_comp, useLog, run_bind, run_get, run_set, run_modify, run_pure, log, index,
    TableOptions.plain, TableOptions.sharesIndex]

/-- There is nothing to settle without a journal. -/
theorem run_settleJournal (journal : workspace.companion? place .journal = none) :
    (settleJournal place .plain).run workspace = (.ok (), workspace) := by
  simp [-bind_pure_comp, settleJournal, run_bind, run_get, run_pure, journal, TableOptions.plain,
    TableOptions.playsBack]

/-- There is nothing to settle without a log. -/
theorem run_settleLog (log : workspace.companion? place .log = none) :
    (settleLog place .plain).run workspace = (.ok false, workspace) := by
  simp [-bind_pure_comp, settleLog, run_bind, run_get, run_pure, log]

/-- A plain use of a table asks for no lock. -/
theorem run_needUnlocked : (needUnlocked place .plain).run workspace = (.ok (), workspace) := by
  simp [-bind_pure_comp, needUnlocked, run_bind, run_get, run_pure, TableOptions.plain]

/-- What is written through a journal leaves no journal. -/
theorem run_throughJournal (journal : workspace.companion? place .journal = none)
    (short : ((companionPlace place .journal).names.getLast?.getD []).length ≤ maxPartSize) :
    (throughJournal place).run workspace =
      (.ok (), workspace.removeCompanion place .journal) := by
  simp [-bind_pure_comp, throughJournal, run_bind, run_get, run_set, journal, Nat.not_lt.mpr short]

/-- A table that is there is read. -/
theorem run_readTable (there : workspace.entry? place = some (.table table)) :
    (readTable place).run workspace = (.ok table, workspace) := by
  simp [-bind_pure_comp, readTable, run_bind, run_get, run_pure, there]

/-- An empty file is read as a blank table. -/
theorem run_readTable_empty (there : workspace.entry? place = some (.text "")) :
    (readTable place).run workspace = (.ok .blank, workspace) := by
  simp [-bind_pure_comp, readTable, run_bind, run_get, run_pure, there, FileEntry.isBlank,
    yieldsToTable]

/-- A table that is there is found and left alone. -/
theorem run_findFile (there : workspace.entry? place = some (.table table)) :
    (findFile place .plain).run workspace = (.ok (), workspace) := by
  simp [-bind_pure_comp, findFile, run_bind, run_get, run_pure, there, TableOptions.plain]

/-- Where nothing is, an empty file is made, if there is a directory for it. -/
theorem run_findFile_vacant (vacant : workspace.entry? place = none)
    (above : workspace.entry? (parent place) = some .directory) :
    (findFile place .plain).run workspace = (.ok (), workspace.put place (.text "")) := by
  simp [-bind_pure_comp, findFile, run_bind, run_get, run_set, vacant, above,
    TableOptions.plain]

/-- A kept table that rests alone is settled by bringing it into use. -/
theorem run_settle (alone : ∀ companion, workspace.companion? place companion = none)
    {store : SnapshotStore} (there : workspace.entry? place = some (.table (kept store))) :
    (settle place .plain).run workspace =
      (.ok .logged,
        (workspace.putCompanion place .log (.text "")).putCompanion place .index .binary) := by
  rw [settle, run_bind_ok run_needUnlocked, run_bind_ok (run_settleJournal (alone .journal)),
    run_bind_ok (run_settleLog (alone .log)), if_neg Bool.false_ne_true,
    run_bind_ok (run_readTable there), beginSession]
  exact run_useLog (alone .log) (alone .index)

/-- A table without rows is made to gather its changes in a log. -/
theorem run_beginSession_blank (tabular : Tabular place)
    (alone : ∀ companion, workspace.companion? place companion = none) :
    (beginSession place .plain .blank).run workspace =
      (.ok .logged,
        (((workspace.removeCompanion place .journal).put place
          (.table ⟨.ofMap .empty, .writeAhead, false⟩)).putCompanion place .log
            (.text "")).putCompanion place .index .binary) := by
  have still : ∀ companion, ((workspace.removeCompanion place .journal).put place
      (.table ⟨.ofMap .empty, .writeAhead, false⟩)).companion? place companion = none := by
    intro companion
    rw [companion?_put tabular.named, companion?_removeCompanion, alone]
    exact ite_self none
  rw [← run_useLog (still .log) (still .index)]
  simp [-bind_pure_comp, beginSession, StoredTable.blank, run_bind,
    run_throughJournal (alone .journal) tabular.short, run_modify, TableOptions.plain,
    TableOptions.mayLog, TableLayer.locksRanges]

/-- A file that has just been made becomes a table that gathers its changes in a log. -/
theorem run_settle_empty (tabular : Tabular place)
    (alone : ∀ companion, workspace.companion? place companion = none)
    (there : workspace.entry? place = some (.text "")) :
    (settle place .plain).run workspace =
      (.ok .logged,
        (((workspace.removeCompanion place .journal).put place
          (.table ⟨.ofMap .empty, .writeAhead, false⟩)).putCompanion place .log
            (.text "")).putCompanion place .index .binary) := by
  rw [settle, run_bind_ok run_needUnlocked, run_bind_ok (run_settleJournal (alone .journal)),
    run_bind_ok (run_settleLog (alone .log)), if_neg Bool.false_ne_true,
    run_bind_ok (run_readTable_empty there)]
  exact run_beginSession_blank tabular alone

/-- **A kept table is entered as it is.** -/
theorem run_enter {store : SnapshotStore}
    (there : workspace.entry? place = some (.table (kept store))) :
    (enter place .plain .logged).run workspace = (.ok (openTableAt place store), workspace) := by
  simp [-bind_pure_comp, enter, beginRows, run_bind, run_pure, run_readTable there, kept,
    TableOptions.plain, openTableAt]

/-- A table that was not written yet is entered, and its log is begun. -/
theorem run_enter_blank (named : place.names ≠ []) {store : SnapshotStore}
    (there : workspace.entry? place = some (.table ⟨store, .writeAhead, false⟩)) :
    (enter place .plain .logged).run workspace =
      (.ok (openTableAt place store), workspace.putCompanion place .log .binary) := by
  have still : Workspace.entry? (workspace.putCompanion place .log .binary) place =
      some (.table ⟨store, .writeAhead, false⟩) := by
    rw [entry?_putCompanion named, there]
  simp [-bind_pure_comp, enter, beginRows, run_bind, run_pure, run_modify, run_readTable there,
    run_readTable still, TableSession.hasLog, TableOptions.plain, openTableAt]

end TableOpening

namespace Workspace

open TableOpening

variable {workspace : Workspace} {place : Place} {store : SnapshotStore}

theorem changing_plain : ¬ TableOptions.plain.unchanging = true := Bool.false_ne_true

/-- **A table at rest is opened with what is in it.** -/
theorem openPlace_resting (tabular : Tabular place) (resting : workspace.Resting place store) :
    ∃ after, workspace.openPlace place .plain = (.ok (openTableAt place store), after) ∧
      after.InUse place store ∧ Elsewhere place workspace after := by
  have named := tabular.named
  obtain ⟨alone, there | ⟨vacant, above, rfl⟩⟩ := resting
  -- The file is there: a log and its index are put beside it, and it stays as it is.
  · have entered : Workspace.entry? ((workspace.putCompanion place .log (.text "")).putCompanion
        place .index .binary) place = some (.table (kept store)) := by
      rw [entry?_putCompanion named, entry?_putCompanion named, there]
    refine ⟨_, ?_, ⟨fun companion unlogged unindexed => ?_, true, entered, ?_⟩,
      ((Elsewhere.refl place workspace).putCompanion .log _).putCompanion .index _⟩
    · rw [openPlace, run_findFile there]
      dsimp only
      rw [if_neg changing_plain, run_settle alone there]
      dsimp only
      rw [run_enter entered]
    · rw [companion?_putCompanion, if_neg unindexed, companion?_putCompanion, if_neg unlogged,
        alone]
    · exact fun absurd => nomatch absurd
  -- There is no file: one is made that has no rows yet, and the rows of the empty table go into the
  -- log, which is why it counts as changed from the start.
  · have found : ∀ companion, (workspace.put place (.text "")).companion? place companion = none :=
      fun companion => (companion?_put named).trans (alone companion)
    have blank : Workspace.entry? (workspace.put place (.text "")) place = some (.text "") := by
      rw [entry?_put named, if_pos rfl]
    refine ⟨(((((workspace.put place (.text "")).removeCompanion place .journal).put place
        (.table ⟨.ofMap .empty, .writeAhead, false⟩)).putCompanion place .log
          (.text "")).putCompanion place .index .binary).putCompanion place .log .binary,
      ?_, ⟨fun companion unlogged unindexed => ?_, false, ?_, fun _ => ?_⟩, ?_⟩
    · rw [openPlace, run_findFile_vacant vacant above]
      dsimp only
      rw [if_neg changing_plain, run_settle_empty tabular found blank]
      dsimp only
      rw [run_enter_blank named]
      rw [entry?_putCompanion named, entry?_putCompanion named, entry?_put named, if_pos rfl]
    · rw [companion?_putCompanion, if_neg unlogged, companion?_putCompanion, if_neg unindexed,
        companion?_putCompanion, if_neg unlogged, companion?_put named, companion?_removeCompanion,
        found, ite_self]
    · rw [entry?_putCompanion named, entry?_putCompanion named, entry?_putCompanion named,
        entry?_put named, if_pos rfl]
    · rw [companion?_putCompanion, if_pos rfl]
    · exact ((((((Elsewhere.refl place workspace).put named _).removeCompanion .journal).put named
        _).putCompanion .log _).putCompanion .index _).putCompanion .log _

/-- Whether a table is in use depends on the entries beside it. -/
theorem InUse.congr (inUse : workspace.InUse place store) {after : Workspace}
    (same : ∀ other, Beside place other → after.entry? other = workspace.entry? other) :
    after.InUse place store := by
  have beside (companion : Companion) :
      after.companion? place companion = workspace.companion? place companion :=
    same _ (.inr ⟨companion, rfl⟩)
  obtain ⟨others, filled, there, logged⟩ := inUse
  refine ⟨fun companion unlogged unindexed => ?_, filled, ?_, fun rowless => ?_⟩
  · rw [beside, others companion unlogged unindexed]
  · rw [same place (.inl rfl), there]
  · rw [beside, logged rowless]

/-- **A table in use keeps what it is given.** -/
theorem InUse.keep (named : place.names ≠ []) (inUse : workspace.InUse place store)
    (first next : SnapshotStore) :
    ((openTableAt place first).keep next workspace).InUse place next ∧
      Elsewhere place workspace ((openTableAt place first).keep next workspace) := by
  obtain ⟨others, filled, there, _⟩ := inUse
  have same : (openTableAt place first).keep next workspace =
      (workspace.put place (.table ⟨next, .writeAhead, filled⟩)).putCompanion place .log
        .binary := by
    unfold OpenTable.keep
    rw [openTableAt]
    dsimp only
    rw [there]
    rfl
  rw [same]
  refine ⟨⟨fun companion unlogged unindexed => ?_, filled, ?_, fun _ => ?_⟩,
    ((Elsewhere.refl place workspace).put named _).putCompanion .log _⟩
  · rw [companion?_putCompanion, if_neg unlogged, companion?_put named]
    exact others companion unlogged unindexed
  · rw [entry?_putCompanion named, entry?_put named, if_pos rfl]
  · rw [companion?_putCompanion, if_pos rfl]

/-- **A table that is closed is at rest, with the last state that was kept.** -/
theorem InUse.close (named : place.names ≠ []) (inUse : workspace.InUse place store)
    (first : SnapshotStore) :
    Workspace.entry? ((openTableAt place first).close workspace) place =
        some (.table (kept store)) ∧
      ((openTableAt place first).close workspace).Resting place store ∧
      Elsewhere place workspace ((openTableAt place first).close workspace) := by
  obtain ⟨others, filled, there, logged⟩ := inUse
  obtain ⟨settled, same, rows, beside, elsewhere⟩ : ∃ settled : Workspace,
      (openTableAt place first).close workspace =
        (settled.removeCompanion place .log).removeCompanion place .index ∧
      settled.entry? place = some (.table (kept store)) ∧
      (∀ companion, settled.companion? place companion = workspace.companion? place companion) ∧
      Elsewhere place workspace settled := by
    unfold OpenTable.close openTableAt endSession
    dsimp only
    rw [there, if_pos rfl, if_neg (by decide)]
    by_cases changed : workspace.companion? place .log = some .binary
    · rw [changed]
      refine ⟨_, rfl, ?_, fun companion => companion?_put named,
        (Elsewhere.refl place workspace).put named _⟩
      rw [entry?_put named, if_pos rfl]
      rfl
    -- Nothing is brought into the file, so it has to have its rows already.
    · have rows : filled = true := by
        cases filled with
        | true => rfl
        | false => exact absurd (logged rfl) changed
      refine ⟨workspace, ?_, ?_, fun _ => rfl, .refl place workspace⟩
      · split
        · rename_i log
          exact absurd log changed
        · rfl
      · rw [there, rows]
        rfl
  have closed : Workspace.entry? ((openTableAt place first).close workspace) place =
      some (.table (kept store)) := by
    rw [same, entry?_removeCompanion named, entry?_removeCompanion named, rows]
  refine ⟨closed, ⟨fun companion => ?_, .inl closed⟩, ?_⟩
  · rw [same, companion?_removeCompanion, companion?_removeCompanion, beside]
    by_cases indexed : companion = .index
    · rw [if_pos indexed]
    · rw [if_neg indexed]
      by_cases log : companion = .log
      · rw [if_pos log]
      · rw [if_neg log, others companion log indexed]
  · rw [same]
    exact (elsewhere.removeCompanion .log).removeCompanion .index

/-- A directory is there or can be made, and then a table in it is at rest. The path of the table's
file is its address. -/
structure Houses (workspace : Workspace) (directory : PathName) (name : String) (path : FileName)
    (place : Place) (store : SnapshotStore) : Prop where
  found : ∃ found, (workspace.directoryAt directory).1 = .ok found ∧
    Workspace.entry? (workspace.directoryAt directory).2 found = some .directory
  spelled : (directory.file name).bytes? = some path
  plain : TableAddress.ofBytes path = .ok (.file path .plain)
  reached : (workspace.directoryAt directory).2.tablePlace? path = some place
  resting : (workspace.directoryAt directory).2.Resting place store

variable {directory : PathName} {name : String} {path : FileName}

/-- A part that is neither idle nor the parent leads to the child of its name. -/
theorem approach_eq_child {part : FileName} {next : Place} (active : isIdle part = false)
    (downwards : part ≠ parentName) (approached : workspace.approach place part = some next) :
    next = child place part := by
  rw [approach, if_neg (Bool.eq_false_iff.mp active), if_neg downwards] at approached
  split at approached
  · cases approached
  · split at approached
    · cases approached
      rfl
    · cases approached
      rfl
    · cases approached

/-- A table has the name by which it is looked up. -/
theorem Houses.getLast? (houses : workspace.Houses directory name path place store)
    {part : PathPart} (named : PathPart.ofName? (Text.CodePoint.ofText name) = some part)
    (active : isIdle part.fileName = false) (downwards : part.fileName ≠ parentName) :
    place.names.getLast? = some part.fileName := by
  have reached := houses.reached
  rw [tablePlace?_eq houses.spelled, directory.map_fileName_file named,
    List.foldlM_append] at reached
  obtain ⟨last, walked, bounded⟩ := Option.bind_eq_some_iff.mp reached
  obtain ⟨above, _, step⟩ := Option.bind_eq_some_iff.mp walked
  obtain ⟨next, approached, final⟩ := Option.bind_eq_some_iff.mp step
  split at bounded
  · cases bounded
  · cases bounded
    cases final
    rw [approach_eq_child active downwards approached]
    exact List.getLast?_concat

/-- **A table at rest in a directory is opened with what is in it.** -/
theorem Houses.openTable (tabular : Tabular place)
    (houses : workspace.Houses directory name path place store) :
    ∃ after, workspace.openTable directory name = (.ok (openTableAt place store), after) ∧
      after.InUse place store ∧ Elsewhere place (workspace.directoryAt directory).2 after := by
  obtain ⟨after, opened, inUse, elsewhere⟩ := openPlace_resting tabular houses.resting
  obtain ⟨found, made, _⟩ := houses.found
  refine ⟨after, ?_, inUse, elsewhere⟩
  have begun : workspace.directoryAt directory = (.ok found, (workspace.directoryAt directory).2) :=
    Prod.ext made rfl
  unfold Workspace.openTable
  rw [begun, houses.spelled, Option.map_some, houses.plain]
  dsimp only
  rw [openAddress, houses.reached]
  exact opened

/-- **A directory houses a table as long as directories stay and nothing is taken away.** -/
theorem Houses.later (houses : workspace.Houses directory name path place store)
    {part : PathPart} (named : PathPart.ofName? (Text.CodePoint.ofText name) = some part)
    {later : Workspace} (retains : Retains (workspace.directoryAt directory).2 later)
    (size : later.workingPathSize = (workspace.directoryAt directory).2.workingPathSize)
    {next : SnapshotStore} (resting : later.Resting place next) :
    later.Houses directory name path place next := by
  obtain ⟨found, made, there⟩ := houses.found
  have opened :
      workspace.directoryAt directory = (.ok found, (workspace.directoryAt directory).2) :=
    Prod.ext made rfl
  have again := directoryAt_again opened retains
  have same := tablePlace?_again opened there retains size named houses.spelled
  refine ⟨⟨found, ?_, ?_⟩, houses.spelled, houses.plain, ?_, ?_⟩
  · rw [again]
  · rw [again]
    exact retains.directory found there
  · rw [again]
    exact same.trans houses.reached
  · rw [again]
    exact resting

end Workspace
end CoinLedger

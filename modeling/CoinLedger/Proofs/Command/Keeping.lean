import CoinLedger.Proofs.Chain.Replay
import CoinLedger.Proofs.Command.Work

/-! # A replay over a table

While a replay is under way over a table, only the table, its companions and the file of the log
change (`CoinLedger.Command.Amid`). What comes of the replay and what it prints is told by the
chain, and the last state of the chain is the one that is kept
(`CoinLedger.Command.run_replayOver`).
-/

namespace CoinLedger.Command

open Workspace Stepwise

/-- Nothing but a table, its companions and the file of a log has changed, and the file is there. -/
structure Since (log? : Option Place) (place : Place) (base workspace : Workspace) : Prop where
  size : workspace.workingPathSize = base.workingPathSize
  same : ∀ other, ¬ Beside place other → log? ≠ some other →
    workspace.entry? other = base.entry? other
  fits : ∀ other, log? = some other →
    ∃ entry, workspace.entry? other = some entry ∧ isFile entry

/-- A table is in use, and since it was opened nothing but the table, its companions and the file of
the log has changed. -/
structure Amid (log : LogTarget) (place : Place) (base workspace : Workspace)
    (store : SnapshotStore) : Prop extends Since log.file? place base workspace where
  inUse : workspace.InUse place store

/-- The state of a chain that is kept in a table in use. -/
def keptAt (place : Place) (store : SnapshotStore) : KeptState :=
  { host := .table store, table? := some (openTableAt place store) }

/-- Whether a change has been made that is written to the table. -/
def Changed (before after : HostState) : Prop :=
  after.genesisDone ≠ before.genesisDone ∨ after.blockNumber ≠ before.blockNumber

section

variable {log : LogTarget} {place : Place} {base workspace after : Workspace}
  {store next : SnapshotStore} {progress : Progress}

/-- The file of a log is neither the table nor one of its companions. -/
def Apart (log : LogTarget) (place : Place) : Prop :=
  ∀ other, log.file? = some other → ¬ Beside place other

/-- A table stays in use while lines are logged. -/
theorem Amid.logs (apart : Apart log place) (amid : Amid log place base workspace store)
    (logs : log.Logs workspace after) : Amid log place base after store where
  inUse := amid.inUse.congr fun other beside =>
    logs.same other fun named => apart other named beside
  size := logs.size.trans amid.size
  same other unlike unnamed := (logs.same other unnamed).trans (amid.same other unlike unnamed)
  fits := logs.fits

/-- A table is still in use when only it and its companions have changed. -/
theorem Amid.elsewhere (apart : Apart log place) (amid : Amid log place base workspace store)
    (inUse : after.InUse place next) (elsewhere : Elsewhere place workspace after) :
    Amid log place base after next where
  inUse := inUse
  size := elsewhere.size.trans amid.size
  same other unlike unnamed := (elsewhere.same other unlike).trans (amid.same other unlike unnamed)
  fits other named := by
    rw [elsewhere.same other (apart other named)]
    exact amid.fits other named

/-- **A table that is closed has the last state that was kept.** -/
theorem Amid.close (apart : Apart log place) (named : place.names ≠ [])
    (amid : Amid log place base workspace store) (first : SnapshotStore) :
    let closed := (openTableAt place first).close workspace
    closed.entry? place = some (.table (kept store)) ∧ closed.Resting place store ∧
      Since log.file? place base closed := by
  obtain ⟨there, resting, elsewhere⟩ := amid.inUse.close named first
  refine ⟨there, resting, elsewhere.size.trans amid.size, fun other unlike unnamed => ?_,
    fun other file => ?_⟩
  · exact (elsewhere.same other unlike).trans (amid.same other unlike unnamed)
  · rw [elsewhere.same other (apart other file)]
    exact amid.fits other file

/-- What only a table and a log have changed has lost nothing since the table was at rest. -/
theorem Since.retains {log? : Option Place} {first : SnapshotStore}
    (since : Since log? place base after) (resting : base.Resting place first)
    (fits : ∀ other, log? = some other → ∃ entry, base.entry? other = some entry ∧ isFile entry)
    (there : after.entry? place ≠ none) : Retains base after := by
  constructor
  · intro other directory
    have unlike : ¬ Beside place other := resting.not_beside directory fun same => nomatch same
    rw [since.same other unlike, directory]
    intro log
    obtain ⟨entry, found, file⟩ := fits other log
    rw [directory] at found
    cases found
    cases file
  · intro other present
    by_cases log : log? = some other
    · obtain ⟨entry, found, _⟩ := since.fits other log
      exact found ▸ Option.some_ne_none entry
    · by_cases beside : Beside place other
      · rcases beside with rfl | ⟨companion, rfl⟩
        · exact there
        · exact absurd (resting.alone companion) present
      · rw [since.same other beside log]
        exact present

theorem run_write (apart : Apart log place) (amid : Amid log place base progress.workspace store)
    (lines : List LogLine) :
    ∃ after, (log.write lines).run progress = (.ok (), after) ∧
      after.printed = progress.printed ∧ Amid log place base after.workspace store := by
  obtain ⟨after, run, printed, logs⟩ := LogTarget.run_write amid.fits lines
  exact ⟨after, run, printed, amid.logs apart logs⟩

theorem run_writeNaming (apart : Apart log place)
    (amid : Amid log place base progress.workspace store) (level : LogLevel) (source : LogSource)
    (text : String) (name : Text.Raw) :
    ∃ after, (log.writeNaming level source text name).run progress = (.ok (), after) ∧
      after.printed = progress.printed ∧ Amid log place base after.workspace store := by
  obtain ⟨after, run, printed, logs⟩ := LogTarget.run_writeNaming amid.fits level source text name
  exact ⟨after, run, printed, amid.logs apart logs⟩

/-- A state is kept in the table, also where nothing is written because nothing has changed. -/
theorem run_save (apart : Apart log place) (named : place.names ≠ [])
    (amid : Amid log place base progress.workspace store) (first : SnapshotStore)
    {before : HostState} (quiet : ¬ Changed before (.table next) → next = store) :
    ∃ after, ((keptAt place first).save before (.table next)).run progress = (.ok (), after) ∧
      after.printed = progress.printed ∧ Amid log place base after.workspace next := by
  unfold KeptState.save keptAt
  dsimp only
  by_cases changed : Changed before (.table next)
  · obtain ⟨inUse, elsewhere⟩ := amid.inUse.keep named first next
    refine ⟨{ progress with workspace := (openTableAt place first).keep next progress.workspace },
      ?_, rfl, amid.elsewhere apart inUse elsewhere⟩
    rw [if_pos (by simpa [Changed] using changed)]
    rfl
  · refine ⟨progress, ?_, rfl, quiet changed ▸ amid⟩
    rw [if_neg (by simpa [Changed] using changed)]
    rfl

variable [CoinHash]

/-- What blocks say is printed, one block after another. -/
theorem run_reportBlocks (apart : Apart log place)
    (amid : Amid log place base progress.workspace store) (blocks : List ReplayedBlock) :
    ∃ after, (reportBlocks log blocks).run progress = (.ok (), after) ∧
      after.printed = progress.printed ++
        (blocks.map ReplayedBlock.receipt).flatMap Receipt.lines ∧
      Amid log place base after.workspace store := by
  induction blocks generalizing progress with
  | nil => exact ⟨progress, rfl, (List.append_nil _).symm, amid⟩
  | cons block blocks inductive_step =>
      obtain ⟨written, write, silent, amidWritten⟩ := run_write apart amid block.journal
      obtain ⟨shown, print, still, printed⟩ := Work.run_print block.receipt.lines written
      obtain ⟨after, rest, told, amidAfter⟩ := inductive_step (still ▸ amidWritten)
      refine ⟨after, ?_, ?_, amidAfter⟩
      · have here : (reportBlock log block).run progress = (.ok (), shown) := by
          rw [reportBlock, run_bind_ok write]
          exact print
        rw [reportBlocks, run_bind_ok here]
        exact rest
      · rw [told, printed, silent, List.append_assoc]
        rfl

/-- What a replay comes to, and what it prints last. -/
def ending (replay : Replay) (statistics : Json) : Except CommandError Unit × List String :=
  match replay.error? with
  | some error => (.error (replayError error), [])
  | none => (.ok (), statistics.indentedLines 0)

/-- The states of a replay over a table: that of the chain which is started over it, and that of the
chain which the replay leaves. Where a state is not written, it is the one before it. -/
structure Stages (started : Chain) (replay : Replay) (store first last : SnapshotStore) :
    Prop where
  begun : started.host = .table first
  ended : replay.chain.host = .table last
  quietStart : ¬ Changed (.table store) (.table first) → first = store
  quietEnd : ¬ Changed (.table first) (.table last) → last = first

/-- **A replay over a table in use is the replay of the chain.** It prints what the blocks say and
then the statistics, and the state of the chain that it leaves is kept. -/
theorem run_replayOver (scheme : SignatureScheme) {config : Config} {path : FileName}
    {documents : List Json} {started : Chain} {first last : SnapshotStore} {statistics : Json}
    (apart : Apart log place) (named : place.names ≠ [])
    (amid : Amid log place base progress.workspace store)
    (run : Chain.start config.chainSettings (.table store) scheme.verify = (.ok (), started))
    (stages : Stages started (started.replay documents) store first last)
    (loads : ∀ progress store, Amid log place base progress.workspace store →
      (loadBlocks path).run progress = (.ok documents, progress))
    (counted : (started.replay documents).error? = none →
      (started.replay documents).chain.statistics = .ok statistics) :
    ∃ after, (replayOver scheme log config path (keptAt place store)).run progress =
        ((ending (started.replay documents) statistics).1, after) ∧
      after.printed = progress.printed ++
        (started.replay documents).receipts.flatMap Receipt.lines ++
        (ending (started.replay documents) statistics).2 ∧
      Amid log place base after.workspace last := by
  have writable : (keptAt place store).writable = true := rfl
  -- Every stage leaves the table in use, and the next one goes on from there.
  obtain ⟨saved, save, silentSave, amidSaved⟩ := run_save apart named amid store stages.quietStart
  obtain ⟨said, say, silentSay, amidSaid⟩ := run_write apart amidSaved
    (Journal.starting config.chainSettings (.table store))
  obtain ⟨told, tell, silentTell, amidTold⟩ := run_writeNaming apart amidSaid .debug .cli
    s!"Replaying {documents.length} blocks from " (FileName.toRaw path)
  obtain ⟨shown, report, printed, amidShown⟩ := run_reportBlocks apart amidTold
    (started.replay documents).blocks
  obtain ⟨stored, keep, silentKeep, amidStored⟩ :=
    run_save apart named amidShown store stages.quietEnd
  have lines : stored.printed = progress.printed ++
      (started.replay documents).receipts.flatMap Receipt.lines := by
    rw [silentKeep, printed, silentTell, silentSay, silentSave, Replay.receipts]
  unfold replayOver
  rw [if_pos writable, show (keptAt place store).host = .table store from rfl, run]
  dsimp only
  rw [stages.begun, run_bind_ok save, run_bind_ok (Work.run_lift_ok rfl), run_bind_ok say,
    run_bind_ok (loads said first amidSaid), run_bind_ok tell, if_pos writable,
    run_bind_ok report, stages.ended, run_bind_ok keep]
  unfold ending
  cases stopped : (started.replay documents).error? with
  | some error => exact ⟨stored, rfl, lines.trans (List.append_nil _).symm, amidStored⟩
  | none =>
      obtain ⟨after, print, still, shownLast⟩ :=
        Work.run_print (statistics.indentedLines 0) stored
      dsimp only
      rw [run_bind_ok (Work.run_lift_ok (counted stopped))]
      exact ⟨after, print, shownLast.trans (congrArg (· ++ _) lines), still ▸ amidStored⟩

end
end CoinLedger.Command

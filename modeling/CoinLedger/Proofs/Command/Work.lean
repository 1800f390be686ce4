import CoinLedger.Command.Perform
import CoinLedger.Proofs.Steps
import CoinLedger.Proofs.Workspace.Table

/-! # What commands print and log

Log lines go to the output of a command and to a file, which is made when the log is opened. They
are no printed lines, and they change nothing but the file (`CoinLedger.LogTarget.run_write`).
-/

namespace CoinLedger

open Workspace Stepwise

/-- A line that is printed, unless it is logged. -/
def OutputLine.printed? : OutputLine → Option String
  | printed text => some text
  | logged _ => none

/-- The lines that have been printed. -/
def Progress.printed (progress : Progress) : List String :=
  progress.output.filterMap OutputLine.printed?

theorem filterMap_printed? (lines : List String) :
    (lines.map OutputLine.printed).filterMap OutputLine.printed? = lines := by
  rw [List.filterMap_map]
  exact List.filterMap_some

theorem filterMap_logged (lines : List LogLine) :
    (lines.map OutputLine.logged).filterMap OutputLine.printed? = [] := by
  rw [List.filterMap_map, List.filterMap_eq_nil_iff]
  exact fun _ _ => rfl

namespace Work

variable {α : Type} {progress : Progress}

/-- Printing changes nothing but what has been printed. -/
theorem run_print (lines : List String) (progress : Progress) :
    ∃ after, (print lines).run progress = (.ok (), after) ∧
      after.workspace = progress.workspace ∧ after.printed = progress.printed ++ lines := by
  refine ⟨_, rfl, rfl, ?_⟩
  rw [Progress.printed, List.filterMap_append, filterMap_printed?]
  rfl

/-- An outcome that succeeded is the value of the work, and nothing is done. -/
theorem run_lift_ok {ε : Type} {wrap : ε → CommandError} {outcome : Except ε α} {value : α}
    (succeeded : outcome = .ok value) :
    (lift wrap outcome).run progress = (.ok value, progress) := by
  rw [succeeded]
  rfl

theorem run_workspace : workspace.run progress = (.ok progress.workspace, progress) := rfl

/-- An action that succeeds in the workspace succeeds as work. -/
theorem run_inWorkspace {action : Workspace → Except Obstacle α × Workspace} {value : α}
    {after : Workspace} (acted : action progress.workspace = (.ok value, after)) :
    (inWorkspace action).run progress = (.ok value, { progress with workspace := after }) := by
  rw [inWorkspace, run_bind_ok run_workspace, acted]
  rfl

/-- What is ensured afterwards is done to the workspace whatever came of the work. -/
theorem run_ensuring {work : Work α} {afterwards : Workspace → Workspace}
    {outcome : Except CommandError α} {after : Progress}
    (run : work.run progress = (outcome, after)) :
    (ensuring work afterwards).run progress =
      (outcome, { after with workspace := afterwards after.workspace }) := by
  rw [ensuring, run_bind_ok (run_get progress), run]
  dsimp only
  rw [run_bind_ok (run_set _ _)]
  cases outcome <;> rfl

end Work

namespace LogTarget

/-- The file of a log, if it has one, stands in a workspace. -/
def Fits (log : LogTarget) (workspace : Workspace) : Prop :=
  ∀ place, log.file? = some place → ∃ entry, workspace.entry? place = some entry ∧ isFile entry

/-- Only the file of a log may have changed. -/
structure Logs (log : LogTarget) (before after : Workspace) : Prop where
  size : after.workingPathSize = before.workingPathSize
  same : ∀ place, log.file? ≠ some place → after.entry? place = before.entry? place
  fits : log.Fits after

variable {log : LogTarget} {workspace after : Workspace} {progress : Progress}

theorem Fits.logs (fits : log.Fits workspace) : log.Logs workspace workspace :=
  ⟨rfl, fun _ _ => rfl, fits⟩

end LogTarget

namespace Workspace

variable {workspace after : Workspace} {place other : Place} {text : String}

/-- Text can be added to a file. -/
theorem exists_appendText {entry : FileEntry} (there : workspace.entry? place = some entry)
    (file : isFile entry) (text : String) :
    ∃ after, workspace.appendText place text = .ok after := by
  unfold appendText
  rw [there]
  cases entry with
  | directory => cases file
  | text content => exact ⟨_, rfl⟩
  | binary => exact ⟨_, rfl⟩
  | table content => exact ⟨_, rfl⟩

/-- Where text has been added there is a file, and nothing else has changed. -/
theorem appendText_ok (added : workspace.appendText place text = .ok after) :
    after.workingPathSize = workspace.workingPathSize ∧
      (∀ other, other ≠ place → after.entry? other = workspace.entry? other) ∧
      ∃ entry, after.entry? place = some entry ∧ isFile entry := by
  have put (content : String) (free : workspace.entry? place ≠ some .directory) :
      let changed := workspace.put place (.text content)
      changed.workingPathSize = workspace.workingPathSize ∧
        (∀ other, other ≠ place → changed.entry? other = workspace.entry? other) ∧
        ∃ entry, changed.entry? place = some entry ∧ isFile entry := by
    have named := names_ne_nil_of_ne_directory free
    refine ⟨rfl, fun other unlike => ?_, .text content, ?_, rfl⟩
    · rw [entry?_put named, if_neg unlike]
    · rw [entry?_put named, if_pos rfl]
  unfold appendText at added
  split at added
  · rename_i vacant
    cases added
    exact put text fun there => nomatch vacant.symm.trans there
  · rename_i content found
    cases added
    exact put (content ++ text) fun there => nomatch found.symm.trans there
  · cases added
  · rename_i there
    cases added
    exact ⟨rfl, fun _ _ => rfl, _, there, rfl⟩
  · rename_i there
    cases added
    exact ⟨rfl, fun _ _ => rfl, _, there, rfl⟩

end Workspace

namespace LogTarget

variable {log : LogTarget} {progress : Progress}

/-- **Log lines are not printed, and they change nothing but the file of the log.** -/
theorem run_write (fits : log.Fits progress.workspace) (lines : List LogLine) :
    ∃ after, (log.write lines).run progress = (.ok (), after) ∧
      after.printed = progress.printed ∧ log.Logs progress.workspace after.workspace := by
  rw [write, run_bind_ok (run_modify _ _)]
  have silent : progress.printed =
      (progress.output ++ (log.selected lines).map OutputLine.logged).filterMap
        OutputLine.printed? := by
    rw [List.filterMap_append, filterMap_logged, List.append_nil]
    rfl
  cases named : log.file? with
  | none => exact ⟨_, rfl, silent.symm, fits.logs⟩
  | some place =>
      obtain ⟨entry, there, file⟩ := fits place named
      obtain ⟨after, added⟩ := exists_appendText there file
        (String.join ((log.selected lines).map fun line => line.plain log.time))
      obtain ⟨size, same, written⟩ := appendText_ok added
      refine ⟨{ workspace := after, output := progress.output ++
        (log.selected lines).map OutputLine.logged }, ?_, silent.symm, size, ?_, ?_⟩
      · dsimp only
        rw [run_bind_ok Work.run_workspace, run_bind_ok (Work.run_lift_ok added)]
        rfl
      · exact fun other unlike => same other fun equal => unlike (equal ▸ named)
      · intro other also
        cases named.symm.trans also
        exact written

/-- Logging a text with a name succeeds, prints nothing and changes the file of the log at most. -/
theorem run_writeNaming (fits : log.Fits progress.workspace) (level : LogLevel) (source : LogSource)
    (text : String) (name : Text.Raw) :
    ∃ after, (log.writeNaming level source text name).run progress = (.ok (), after) ∧
      after.printed = progress.printed ∧ log.Logs progress.workspace after.workspace := by
  unfold writeNaming
  split
  · exact run_write fits _
  · exact ⟨progress, rfl, rfl, fits.logs⟩

end LogTarget

namespace Workspace

/-- Adding text to a file takes nothing away. -/
theorem retains_appendText {workspace after : Workspace} {place : Place} {text : String}
    (added : workspace.appendText place text = .ok after) : Retains workspace after := by
  obtain ⟨_, same, entry, there, _⟩ := appendText_ok added
  constructor
  · intro other directory
    by_cases equal : other = place
    · subst equal
      rw [appendText, directory] at added
      cases added
    · rw [same other equal, directory]
  · intro other present
    by_cases equal : other = place
    · rw [equal, there]
      exact Option.some_ne_none entry
    · rw [same other equal]
      exact present

/-- Adding nothing to a file changes nothing. -/
theorem appendText_empty {workspace : Workspace} {place : Place} {entry : FileEntry}
    (there : workspace.entry? place = some entry) (file : isFile entry) :
    ∃ after, workspace.appendText place "" = .ok after ∧ after.entry? = workspace.entry? ∧
      after.workingPathSize = workspace.workingPathSize := by
  have named : place.names ≠ [] := by
    apply names_ne_nil_of_ne_directory
    rw [there]
    rintro same
    cases same
    cases file
  unfold appendText
  rw [there]
  cases entry with
  | directory => cases file
  | binary => exact ⟨_, rfl, rfl, rfl⟩
  | table content => exact ⟨_, rfl, rfl, rfl⟩
  | text content =>
      refine ⟨_, rfl, funext fun other => ?_, rfl⟩
      rw [String.append_empty, entry?_put named]
      split
      · rename_i same
        rw [same, there]
      · rfl

end Workspace

namespace Command

/-- The name of the file of a log. -/
def logName : FileName := FileName.ofText "utxo_ledger.log"

/-- The place of the file of the log that a command opens, if it has one. -/
def openedLog (debug : Bool) (config : Config) (workspace : Workspace) :
    Except Obstacle (Option Place) × Workspace :=
  match debug, config.logDirectory with
  | false, some directory =>
      match workspace.makeDirectory directory with
      | (.error obstacle, after) => (.error obstacle, after)
      | (.ok place, made) =>
          match made.appendText (child place logName) "" with
          | .error obstacle => (.error obstacle, made)
          | .ok after => (.ok (some (child place logName)), after)
  | _, _ => (.ok none, workspace)

/-- The log of a command. -/
def startLog (time : String) (debug : Bool) (config : Config) : Work LogTarget :=
  if debug then pure { least := .debug, file? := none, time } else openLog time config

variable {debug : Bool} {config : Config} {before after : Workspace} {file? : Option Place}

/-- Without a directory for it, or when debugging, no log is opened. -/
theorem openedLog_nowhere (nowhere : debug = true ∨ config.logDirectory = none)
    (workspace : Workspace) : openedLog debug config workspace = (.ok none, workspace) := by
  unfold openedLog
  rcases nowhere with rfl | unnamed
  · rfl
  · rw [unnamed]
    cases debug <;> rfl

/-- The log that is opened has no file, or one in a directory that was there or has been made. -/
theorem openedLog_cases (opened : openedLog debug config before = (.ok file?, after)) :
    (debug = true ∨ config.logDirectory = none) ∧ file? = none ∧ after = before ∨
      ∃ directory place made, debug = false ∧ config.logDirectory = some directory ∧
        before.makeDirectory directory = (.ok place, made) ∧
        made.appendText (child place logName) "" = .ok after ∧
        file? = some (child place logName) := by
  cases debug with
  | true =>
      cases opened
      exact .inl ⟨.inl rfl, rfl, rfl⟩
  | false =>
      unfold openedLog at opened
      cases named : config.logDirectory with
      | none =>
          rw [named] at opened
          cases opened
          exact .inl ⟨.inr rfl, rfl, rfl⟩
      | some directory =>
          rw [named] at opened
          dsimp only at opened
          split at opened
          · cases opened
          · rename_i place made run
            split at opened
            · cases opened
            · rename_i added
              cases opened
              exact .inr ⟨directory, place, made, rfl, rfl, run, added, rfl⟩

/-- Starting the log of a command does to the workspace what opening its file does. -/
theorem run_startLog {progress : Progress} (time : String)
    (opened : openedLog debug config progress.workspace = (.ok file?, after)) :
    ∃ least, (startLog time debug config).run progress =
      (.ok { least, file?, time }, { progress with workspace := after }) := by
  rcases openedLog_cases opened with
    ⟨nowhere, rfl, rfl⟩ | ⟨directory, place, made, rfl, named, run, added, rfl⟩
  · rcases nowhere with rfl | unnamed
    · exact ⟨.debug, rfl⟩
    · cases debug with
      | true => exact ⟨.debug, rfl⟩
      | false =>
          refine ⟨config.logLevel, ?_⟩
          change (openLog time config).run progress = _
          rw [openLog, unnamed]
          rfl
  · refine ⟨config.logLevel, ?_⟩
    change (openLog time config).run progress = _
    rw [openLog, named]
    dsimp only
    rw [run_bind_ok (Work.run_inWorkspace run), run_bind_ok Work.run_workspace]
    change (Work.lift .obstacle (made.appendText (child place logName) "") >>= _).run _ = _
    rw [run_bind_ok (Work.run_lift_ok added)]
    rfl

/-- A directory that is made has no obstacle in its path and is made part by part. -/
theorem makeParts_of_makeDirectory {directory : PathName} {place : Place}
    (made : before.makeDirectory directory = (.ok place, after)) :
    directory.obstacle? = none ∧
      makeParts (originOf (directory.start ≠ .here)) directory.parts before =
        (.ok place, after) := by
  unfold makeDirectory at made
  split at made
  · cases made
  · exact ⟨by assumption, made⟩

/-- Opening a log takes nothing away, and changes nothing but the file of the log. -/
theorem retains_openedLog (opened : openedLog debug config before = (.ok file?, after)) :
    Retains before after ∧ after.workingPathSize = before.workingPathSize ∧
      (∀ place entry, file? ≠ some place → before.entry? place = some entry →
        after.entry? place = some entry) ∧
      ∀ place, file? = some place → place.names.getLast? = some logName ∧
        ∃ entry, after.entry? place = some entry ∧ isFile entry := by
  rcases openedLog_cases opened with ⟨_, rfl, rfl⟩ | ⟨directory, place, made, _, _, run, added, rfl⟩
  · exact ⟨(Extends.refl _).retains, rfl, fun _ _ _ there => there, fun _ named => nomatch named⟩
  · obtain ⟨extended, size⟩ := extends_makeParts (makeParts_of_makeDirectory run).2
    obtain ⟨sameSize, same, file⟩ := appendText_ok added
    refine ⟨extended.retains.trans (retains_appendText added), sameSize.trans size,
      fun other entry unlike there => ?_, fun other named => ?_⟩
    · rw [same other fun equal => unlike (congrArg some equal.symm)]
      exact extended other entry there
    · cases named
      exact ⟨List.getLast?_concat, file⟩

/-- **A log that has been opened can be opened again, and nothing changes.** -/
theorem openedLog_again (opened : openedLog debug config before = (.ok file?, after))
    {later : Workspace} (directories : ∀ place, after.entry? place = some .directory →
      later.entry? place = some .directory)
    (fits : ∀ place, file? = some place → ∃ entry, later.entry? place = some entry ∧ isFile entry) :
    ∃ again, openedLog debug config later = (.ok file?, again) ∧ again.entry? = later.entry? ∧
      again.workingPathSize = later.workingPathSize := by
  rcases openedLog_cases opened with
    ⟨nowhere, rfl, _⟩ | ⟨directory, place, made, rfl, named, run, added, rfl⟩
  · exact ⟨later, openedLog_nowhere nowhere later, rfl, rfl⟩
  · obtain ⟨clear, parts⟩ := makeParts_of_makeDirectory run
    have remade : later.makeDirectory directory = (.ok place, later) := by
      rw [makeDirectory, clear]
      exact makeParts_again parts fun other there =>
        directories other ((retains_appendText added).directory other there)
    -- The file is opened again by adding nothing to it.
    obtain ⟨entry, there, file⟩ := fits _ rfl
    obtain ⟨again, readded, same, size⟩ := appendText_empty there file
    refine ⟨again, ?_, same, size⟩
    unfold openedLog
    rw [named]
    dsimp only
    rw [remade]
    dsimp only
    rw [readded]

end Command
end CoinLedger

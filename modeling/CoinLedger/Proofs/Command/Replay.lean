import CoinLedger.Proofs.Command.Keeping
import CoinLedger.Proofs.Config

/-! # Replays that are kept

A call of the replay command over a directory reads its files, opens the table that the directory
houses, replays the blocks on the chain that is started over it, and closes the table again
(`CoinLedger.Command.ReplayCall.run_eq`). After the call the directory houses a table once more
(`CoinLedger.Command.Desk.later`), and files that could be read before can be read as they were
(`CoinLedger.Command.ReplayCall.Asks.later`).
-/

namespace CoinLedger.Command

open Workspace Stepwise

/-- The name of the table as a part of a path. -/
def tablePart : PathPart where
  name := Text.CodePoint.ofText tableName
  name_ne_nil := by decide +kernel
  name_ne_dot := by decide +kernel
  slash_not_mem := by decide +kernel

theorem ofName?_tableName :
    PathPart.ofName? (Text.CodePoint.ofText tableName) = some tablePart :=
  PathPart.ofName?_name tablePart

theorem fileName_tablePart : tablePart.fileName = FileName.ofText tableName := by decide +kernel

section

variable {workspace : Workspace} {directory : PathName} {path : FileName} {place : Place}
  {store : SnapshotStore}

/-- The place of a housed table ends in the name of the table. -/
theorem getLast?_of_houses (houses : workspace.Houses directory tableName path place store) :
    place.names.getLast? = some (FileName.ofText tableName) := by
  rw [houses.getLast? ofName?_tableName (by decide +kernel) (by decide +kernel),
    fileName_tablePart]

/-- The place of a housed table is one for a table. -/
theorem tabular_of_houses (houses : workspace.Houses directory tableName path place store) :
    Tabular place where
  named := by
    have last := getLast?_of_houses houses
    intro bare
    rw [bare] at last
    cases last
  short := by
    rw [getLast?_companionPlace, getLast?_of_houses houses]
    decide +kernel

/-- The file of a log is neither the table nor one of its companions. -/
theorem not_beside_of_logName (houses : workspace.Houses directory tableName path place store)
    {other : Place} (log : other.names.getLast? = some logName) : ¬ Beside place other := by
  rintro (rfl | ⟨companion, rfl⟩)
  · rw [getLast?_of_houses houses] at log
    revert log
    decide +kernel
  · rw [getLast?_companionPlace, getLast?_of_houses houses] at log
    revert log
    cases companion <;> decide +kernel

end

/-- A call of the replay command. -/
structure ReplayCall where
  surroundings : Surroundings
  configPath : FileName
  blocksPath : FileName
  dataDirectory : Option PathName

/-- What comes of a call in a workspace. -/
def ReplayCall.run [CoinHash] (call : ReplayCall) (scheme : SignatureScheme) (debug : Bool)
    (workspace : Workspace) : Except CommandError Unit × Progress :=
  (perform scheme call.surroundings debug
    (.replay call.configPath call.blocksPath call.dataDirectory)).run { workspace, output := [] }

/-- A call asks that given blocks be replayed under a given configuration, with the state kept in a
given directory. The files that it reads are not the file of the log. -/
structure ReplayCall.Asks (call : ReplayCall) (workspace : Workspace) (log? : Option Place)
    (config : Config) (directory : PathName) (documents : List Json) : Prop where
  configured : ∃ text, workspace.readText call.configPath = .ok text ∧
    Config.load (some text) call.surroundings.environment call.surroundings.environmentFile =
      .ok config
  submitted : ∃ text document, workspace.readText call.blocksPath = .ok text ∧
    Json.parse text = .ok document ∧ Document.items document = .ok documents
  kept : ∃ path, (call.dataDirectory <|> config.dataDirectory) = some path ∧
    expandHome call.surroundings path = .ok directory
  configApart : workspace.find call.configPath ≠ log?
  blocksApart : workspace.find call.blocksPath ≠ log?

/-- The log of a command can be opened, and then a directory houses a table at rest. -/
structure Desk (debug : Bool) (config : Config) (directory : PathName) (path : FileName)
    (log? : Option Place) (place : Place) (workspace : Workspace) (store : SnapshotStore) :
    Prop where
  logs : (openedLog debug config workspace).1 = .ok log?
  houses : (openedLog debug config workspace).2.Houses directory tableName path place store

section

variable {debug : Bool} {config : Config} {directory : PathName} {path : FileName}
  {log? : Option Place} {place : Place} {workspace after : Workspace} {store : SnapshotStore}

/-- The workspace in which the table is opened. -/
def desk (debug : Bool) (config : Config) (directory : PathName) (workspace : Workspace) :
    Workspace := ((openedLog debug config workspace).2.directoryAt directory).2

/-- A file that can be read, and is not the file of the log, stays as it is until a table at rest is
opened. -/
theorem Desk.stays (ready : Desk debug config directory path log? place workspace store) :
    Retains workspace (desk debug config directory workspace) ∧
      (desk debug config directory workspace).workingPathSize = workspace.workingPathSize ∧
      (∀ other entry, log? ≠ some other → workspace.entry? other = some entry →
        Workspace.entry? (desk debug config directory workspace) other = some entry) ∧
      ∀ other, log? = some other → ¬ Beside place other ∧
        ∃ entry, Workspace.entry? (desk debug config directory workspace) other = some entry ∧
          isFile entry := by
  obtain ⟨retains, size, same, file⟩ := retains_openedLog (Prod.ext ready.logs rfl)
  obtain ⟨found, made, _⟩ := ready.houses.found
  obtain ⟨extended, sameSize⟩ := extends_directoryAt (Prod.ext made rfl)
  refine ⟨retains.trans extended.retains, sameSize.trans size, fun other entry unlike there =>
    extended other entry (same other entry unlike there), fun other named => ?_⟩
  obtain ⟨last, entry, there, isFile⟩ := file other named
  exact ⟨not_beside_of_logName ready.houses last, entry, extended other entry there, isFile⟩

/-- A file that can be read, and is not the file of the log, reads the same later. -/
theorem Desk.reads (ready : Desk debug config directory path log? place workspace store)
    (retains : Retains (desk debug config directory workspace) after)
    (since : Since log? place (desk debug config directory workspace) after) {file : FileName}
    {text : String} (read : workspace.readText file = .ok text)
    (apart : workspace.find file ≠ log?) :
    after.readText file = .ok text ∧ after.find file ≠ log? := by
  obtain ⟨retainsFirst, _, same, _⟩ := ready.stays
  obtain ⟨other, found⟩ := exists_find_of_readText read
  have unnamed : log? ≠ some other := fun named => apart (found.trans named.symm)
  obtain ⟨entry, there, unlike⟩ : ∃ entry, workspace.entry? other = some entry ∧
      entry ≠ .table (kept store) := by
    cases there : workspace.entry? other with
    | none =>
        rw [readText, lookup, found, Option.bind_some, there] at read
        cases read
    | some entry =>
        refine ⟨entry, rfl, ?_⟩
        rintro rfl
        rw [readText, lookup, found, Option.bind_some, there] at read
        cases read
  have stays := same other entry unnamed there
  have unchanged := since.same other (ready.houses.resting.not_beside stays unlike) unnamed
  have whole := retainsFirst.trans retains
  refine ⟨?_, fun named => unnamed (named.symm.trans (whole.find found))⟩
  rw [whole.readText found (unchanged.trans (stays.trans there.symm)), read]

/-- What a call asks before the table is opened it asks afterwards as well. -/
theorem ReplayCall.Asks.later {call : ReplayCall} {documents : List Json}
    (ready : Desk debug config directory path log? place workspace store)
    (retains : Retains (desk debug config directory workspace) after)
    (since : Since log? place (desk debug config directory workspace) after)
    (asks : call.Asks workspace log? config directory documents) :
    call.Asks after log? config directory documents := by
  obtain ⟨⟨text, read, loaded⟩, ⟨blocks, document, readBlocks, parsed⟩, kept, apart, apartBlocks⟩ :=
    asks
  obtain ⟨reread, stillApart⟩ := ready.reads retains since read apart
  obtain ⟨rereadBlocks, stillApartBlocks⟩ := ready.reads retains since readBlocks apartBlocks
  exact ⟨⟨text, reread, loaded⟩, ⟨blocks, document, rereadBlocks, parsed⟩, kept, stillApart,
    stillApartBlocks⟩

/-- **A directory that has housed a table houses it again, with the state that was kept.** -/
theorem Desk.later {next : SnapshotStore}
    (ready : Desk debug config directory path log? place workspace store)
    (retains : Retains (desk debug config directory workspace) after)
    (since : Since log? place (desk debug config directory workspace) after)
    (resting : after.Resting place next) :
    Desk debug config directory path log? place after next := by
  obtain ⟨found, made, _⟩ := ready.houses.found
  have extended := (extends_directoryAt (Prod.ext made rfl)).1
  obtain ⟨again, reopened, same, size⟩ := openedLog_again (Prod.ext ready.logs rfl)
    (fun other there => retains.directory other (extended other _ there)) since.fits
  have retainsAgain : Retains (desk debug config directory workspace) again := by
    constructor
    · rw [same]
      exact retains.directory
    · rw [same]
      exact retains.present
  refine ⟨by rw [reopened], ?_⟩
  rw [reopened]
  exact ready.houses.later ofName?_tableName retainsAgain (size.trans since.size)
    (resting.congr same)

variable [CoinHash]

/-- A replay loads the configuration, starts the log and works over the state that it opens. -/
theorem performReplay_eq (scheme : SignatureScheme) (surroundings : Surroundings) (debug : Bool)
    (configPath blocksPath : FileName) (dataDirectory : Option PathName) :
    performReplay scheme surroundings debug configPath blocksPath dataDirectory =
      (loadConfig surroundings configPath >>= fun config =>
        startLog surroundings.time debug config >>= fun log =>
          withState surroundings log (dataDirectory <|> config.dataDirectory)
            (replayOver scheme log config blocksPath)) := by
  unfold performReplay startLog
  congr 1
  funext config
  cases debug <;> rfl

omit [CoinHash] in
/-- A configuration that can be read and is accepted is loaded. -/
theorem run_loadConfig {surroundings : Surroundings} {progress : Progress} {file : FileName}
    {text : String} (read : progress.workspace.readText file = .ok text)
    (loaded : Config.load (some text) surroundings.environment surroundings.environmentFile =
      .ok config) :
    (loadConfig surroundings file).run progress = (.ok config, progress) := by
  rw [loadConfig, run_bind_ok Work.run_workspace, run_bind_ok (Work.run_lift_ok read)]
  exact Work.run_lift_ok loaded

omit [CoinHash] in
/-- Blocks that can be read and are listed are loaded. -/
theorem run_loadBlocks {progress : Progress} {file : FileName} {text : String} {document : Json}
    {documents : List Json} (read : progress.workspace.readText file = .ok text)
    (parsed : Json.parse text = .ok document) (listed : Document.items document = .ok documents) :
    (loadBlocks file).run progress = (.ok documents, progress) := by
  rw [loadBlocks, run_bind_ok Work.run_workspace, run_bind_ok (Work.run_lift_ok read),
    run_bind_ok (Work.run_lift_ok parsed)]
  exact Work.run_lift_ok listed

/-- **A call is the replay of the chain over the table, which then holds the chain's state.** -/
theorem ReplayCall.run_eq (call : ReplayCall) (scheme : SignatureScheme) {documents : List Json}
    {started : Chain} {first last : SnapshotStore} {statistics : Json}
    (ready : Desk debug config directory path log? place workspace store)
    (asks : call.Asks workspace log? config directory documents)
    (run : Chain.start config.chainSettings (.table store) scheme.verify = (.ok (), started))
    (stages : Stages started (started.replay documents) store first last)
    (counted : (started.replay documents).error? = none →
      (started.replay documents).chain.statistics = .ok statistics) :
    ∃ after, call.run scheme debug workspace =
        ((ending (started.replay documents) statistics).1, after) ∧
      after.printed =
        (started.replay documents).receipts.flatMap Receipt.lines ++
          (ending (started.replay documents) statistics).2 ∧
      after.workspace.entry? place = some (.table (kept last)) ∧
      Desk debug config directory path log? place after.workspace last ∧
      ∀ (other : ReplayCall) (more : List Json), other.Asks workspace log? config directory more →
        other.Asks after.workspace log? config directory more := by
  obtain ⟨⟨text, read, loaded⟩, ⟨blocks, document, readBlocks, parsed, listed⟩,
    ⟨given, chosen, expanded⟩, apartConfig, apartBlocks⟩ := asks
  obtain ⟨retainsFirst, size, same, file⟩ := ready.stays
  obtain ⟨least, begin⟩ : ∃ least, (startLog call.surroundings.time debug config).run
      { workspace, output := [] } = (.ok { least, file? := log?, time := call.surroundings.time },
        { workspace := (openedLog debug config workspace).2, output := [] }) :=
    run_startLog call.surroundings.time (Prod.ext ready.logs rfl)
  let log : LogTarget := { least, file? := log?, time := call.surroundings.time }
  have tabular := tabular_of_houses ready.houses
  have apart : Apart log place := fun other named => (file other named).1
  obtain ⟨opened, openRun, inUse, elsewhere⟩ := ready.houses.openTable tabular
  have amid : Amid log place (desk debug config directory workspace) opened store := by
    refine ⟨⟨elsewhere.size, fun other unlike _ => elsewhere.same other unlike,
      fun other named => ?_⟩, inUse⟩
    obtain ⟨unlike, there⟩ := file other named
    rw [elsewhere.same other unlike]
    exact there
  have fits : ∀ other, log? = some other → ∃ entry,
      Workspace.entry? (desk debug config directory workspace) other = some entry ∧ isFile entry :=
    fun other named => (file other named).2
  -- Whatever the run has logged and kept, the file with the blocks still reads as it did.
  have loads : ∀ progress store,
      Amid log place (desk debug config directory workspace) progress.workspace store →
        (loadBlocks call.blocksPath).run progress = (.ok documents, progress) := by
    intro progress store amid
    obtain ⟨filled, there, _⟩ := amid.inUse.content
    have retains := amid.retains ready.houses.resting fits (there ▸ Option.some_ne_none _)
    obtain ⟨reread, _⟩ := ready.reads retains amid.toSince readBlocks apartBlocks
    exact run_loadBlocks reread parsed listed
  have amidOpened : Amid log place (desk debug config directory workspace)
      ({ workspace := opened, output := [] } : Progress).workspace store := amid
  obtain ⟨named, name, silent, amidNamed⟩ := run_writeNaming apart amidOpened .info .storage
    "SQLiteState opened at " (directory.file tableName).text
  obtain ⟨left, replayed, printed, amidLeft⟩ := run_replayOver scheme apart tabular.named amidNamed
    run stages loads counted
  obtain ⟨there, resting, since⟩ := amidLeft.close apart tabular.named store
  have retains := since.retains ready.houses.resting fits (there ▸ Option.some_ne_none _)
  refine ⟨{ left with workspace := (openTableAt place store).close left.workspace }, ?_, ?_, there,
    ready.later retains since resting, fun other more asked => asked.later ready retains since⟩
  · change (performReplay scheme call.surroundings debug call.configPath call.blocksPath
      call.dataDirectory).run { workspace, output := [] } = _
    rw [performReplay_eq, run_bind_ok (run_loadConfig read loaded), run_bind_ok begin, chosen,
      withState, run_bind_ok (Work.run_lift_ok expanded),
      run_bind_ok (Work.run_inWorkspace openRun)]
    refine Work.run_ensuring ?_
    rw [run_bind_ok name]
    exact replayed
  · change left.printed = _
    rw [printed, silent]
    rfl

end
end CoinLedger.Command

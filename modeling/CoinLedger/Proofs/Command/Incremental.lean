import CoinLedger.Crypto.Blake2b
import CoinLedger.Crypto.Schnorr
import CoinLedger.Proofs.Command.Replay
import Mathlib

/-! # Kept replays add up

A replay that keeps its state in a table ends where the chain would be that had never been stopped,
and the next one goes on from there (`CoinLedger.Command.ReplayCall.run_stands`). So two replays
come to what one replay of all blocks comes to (`CoinLedger.Command.ReplayCall.run_twice`). A block
that cannot be decoded makes a replay fail after the blocks before it, whose state is kept
(`CoinLedger.Command.ReplayCall.run_stopped`). Over a directory without a state the chain is the one
that is founded there (`CoinLedger.Command.replays_add_up`).
-/

namespace CoinLedger.Command

open Workspace

section

variable [CoinHash]

/-- A chain that is started over a table is akin to a chain that has gone on without a restart.
Where that chain has another state than the table, starting changes the state. -/
structure Stands (scheme : SignatureScheme) (config : Config) (store : SnapshotStore)
    (chain : Chain) : Prop where
  durable : chain.Durable
  started : chain.StartedWith config.chainSettings scheme.verify
  taken : ∃ taken, Chain.start config.chainSettings (.table store) scheme.verify =
    (.ok (), taken) ∧ taken.Akin chain
  quiet : ∀ first, chain.host = .table first →
    ¬ Changed (.table store) (.table first) → first = store

variable {scheme : SignatureScheme} {config : Config} {store : SnapshotStore} {chain : Chain}

/-- A chain that has gone on from a table is taken up from the state that it has left there. -/
theorem stands_of_host (durable : chain.Durable)
    (started : chain.StartedWith config.chainSettings scheme.verify)
    (kept : chain.host = .table store) : Stands scheme config store chain where
  durable := durable
  started := started
  taken := by
    rw [← kept]
    exact durable.taken_up started
  quiet first also _ := by
    rw [kept] at also
    cases also
    rfl

/-- A chain that is founded over an empty table. -/
theorem exists_stands_empty (positive : ∀ coin ∈ config.genesis, coin.value.toNat ≠ 0)
    (distinct : (config.genesis.map Output.genesisKey).Nodup) :
    ∃ founded, Chain.start config.chainSettings .emptyTable scheme.verify = (.ok (), founded) ∧
      Stands scheme config (.ofMap .empty) founded ∧ founded.host.blockNumber = 0 := by
  have named : config.chainSettings.genesis? = some config.genesis := rfl
  obtain ⟨founded, run, durable, started, zero⟩ :=
    Chain.exists_founded named positive distinct scheme.verify
  refine ⟨founded, run, ⟨durable, started, ⟨founded, run, .refl founded⟩, ?_⟩, zero⟩
  -- The state says that the chain is founded, which the empty table does not, also without coins.
  intro first kept quiet
  have done := durable.founded
  rw [kept] at done
  refine absurd (.inl ?_) quiet
  rw [done]
  exact Bool.noConfusion

section

variable {debug : Bool} {directory : PathName} {path : FileName} {log? : Option Place}
  {place : Place} {workspace : Workspace}

/-- A call has printed what receipts say and then, if it has succeeded, statistics. -/
def Reports (outcome : Except CommandError Unit × Progress) (receipts : List Receipt)
    (tally : Chain.Tally) : Prop :=
  ∃ session, outcome.2.printed = receipts.flatMap Receipt.lines ++
    match outcome.1 with
    | .ok () => (tally.toDocument session).indentedLines 0
    | .error _ => []

/-- How a call ends after a replay. -/
def verdict : Option ReplayError → Except CommandError Unit
  | none => .ok ()
  | some error => .error (replayError error)

omit [CoinHash] in
theorem ending_eq (replay : Replay) (statistics : Json) :
    ending replay statistics = (verdict replay.error?,
      match verdict replay.error? with
      | .ok () => statistics.indentedLines 0
      | .error _ => []) := by
  unfold ending
  cases replay.error? <;> rfl

/-- The file at a place is a table that was kept with a state and closed. -/
def Keeps (workspace : Workspace) (place : Place) (state : HostState) : Prop :=
  ∃ store, state = .table store ∧ workspace.entry? place = some (.table (kept store))

/-- **A call does what the chain would do that has gone on without a restart.** It prints the
receipts of that chain's replay and, at the end, statistics which differ in nothing but what a
restart forgets, and it leaves that chain's state in the table. -/
theorem ReplayCall.run_stands (call : ReplayCall) {documents : List Json} {tally : Chain.Tally}
    (stands : Stands scheme config store chain)
    (ready : Desk debug config directory path log? place workspace store)
    (asks : call.Asks workspace log? config directory documents)
    (advances : Chain.Advances chain (chain.replay documents))
    (tallied : (chain.replay documents).chain.Tallied tally) :
    let outcome := call.run scheme debug workspace
    outcome.1 = verdict (chain.replay documents).error? ∧
      Reports outcome (chain.replay documents).receipts tally ∧
      Keeps outcome.2.workspace place (chain.replay documents).chain.host ∧
      ∃ last, Stands scheme config last (chain.replay documents).chain ∧
        Desk debug config directory path log? place outcome.2.workspace last ∧
        ∀ (other : ReplayCall) (more : List Json), other.Asks workspace log? config directory more →
          other.Asks outcome.2.workspace log? config directory more := by
  intro outcome
  obtain ⟨taken, run, akin⟩ := stands.taken
  obtain ⟨receipts, errors, akinAfter⟩ := Chain.receipts_of_akin documents akin
  obtain ⟨first, begun⟩ := stands.durable.exists_store
  obtain ⟨last, ended⟩ := advances.durable.exists_store
  obtain ⟨session, statistics⟩ := Chain.statistics_of_akin akinAfter tallied
  have stages : Stages taken (taken.replay documents) store first last := by
    refine ⟨akin.host.trans begun, akinAfter.host.trans ended, stands.quiet first begun,
      fun quiet => ?_⟩
    -- Without a change of the number no block was executed.
    have idle : (chain.replay documents).blocks = [] := by
      have latest := advances.latest
      rw [begun, ended] at latest
      have same : (HostState.table last).blockNumber = (HostState.table first).blockNumber :=
        not_not.mp fun unlike => quiet (.inr unlike)
      exact List.length_eq_zero_iff.mp (by omega)
    have same := congrArg Chain.host (advances.idle idle)
    rw [begun, ended] at same
    cases same
    rfl
  obtain ⟨after, ran, printed, there, readyAfter, asksAfter⟩ :=
    call.run_eq scheme ready asks run stages fun _ => statistics
  rw [ending_eq, errors] at ran printed
  rw [receipts] at printed
  have left : outcome = (verdict (chain.replay documents).error?, after) := ran
  rw [left]
  exact ⟨rfl, ⟨session, printed⟩, ⟨last, ended, there⟩, last,
    stands_of_host advances.durable (advances.onward.startedWith stands.started) ended, readyAfter,
    asksAfter⟩

/-- The replay of blocks on the chain that is started over an empty table. -/
def replayed (scheme : SignatureScheme) (config : Config) (documents : List Json) : Replay :=
  (Chain.start config.chainSettings .emptyTable scheme.verify).2.replay documents

omit [CoinHash] in
theorem Keeps.entry?_eq {left right : Workspace} {state : HostState} (here : Keeps left place state)
    (there : Keeps right place state) : left.entry? place = right.entry? place := by
  obtain ⟨store, rfl, entry⟩ := here
  obtain ⟨_, same, entryThere⟩ := there
  cases same
  exact entry.trans entryThere.symm

/-- **A call that comes to a block which cannot be decoded fails, and keeps what the blocks before
it have left.** -/
theorem ReplayCall.run_stopped (call : ReplayCall) {before rest : List Json} {bad : Json}
    {reason : DocumentError} (stands : Stands scheme config store chain)
    (ready : Desk debug config directory path log? place workspace store)
    (asks : call.Asks workspace log? config directory (before ++ bad :: rest))
    (decode : ∀ document ∈ before, document.IsBlock)
    (undecodable : blockOfDocument bad = .error reason) :
    let failed := call.run scheme debug workspace
    (∃ error, failed.1 = .error error) ∧
      Keeps failed.2.workspace place (chain.replay before).chain.host ∧
      (chain.host.blockNumber + before.length < 2 ^ 64 →
        failed.1 = .error (.document reason) ∧
        (chain.replay before).chain.host.blockNumber =
          chain.host.blockNumber + before.length) := by
  intro failed
  have stopped := stands.durable.replay_stopped decode undecodable rest
  have advances := stands.durable.replay decode
  have advancesStopped : Chain.Advances chain (chain.replay (before ++ bad :: rest)) := by
    rw [stopped]
    exact ⟨advances.durable, advances.onward, advances.numbers, advances.latest, advances.idle⟩
  obtain ⟨tally, tallied⟩ := Chain.exists_tallied advancesStopped.durable.sound
  obtain ⟨outcome, _, keeps, _⟩ := call.run_stands stands ready asks advancesStopped tallied
  rw [stopped] at outcome keeps
  refine ⟨?_, keeps, fun room => ?_⟩
  · obtain ⟨error, ended⟩ : ∃ error,
        (chain.replay before).error?.or (some (.document reason)) = some error := by
      cases (chain.replay before).error? with
      | some error => exact ⟨error, rfl⟩
      | none => exact ⟨_, rfl⟩
    dsimp only at outcome
    rw [ended] at outcome
    exact ⟨_, outcome⟩
  · dsimp only at outcome
    rw [(stands.durable.replay_complete decode room).1] at outcome
    exact ⟨outcome, stands.durable.replay_latest decode room⟩

/-- After blocks that can be decoded, the chain that has executed them stands over what a call has
left. -/
theorem ReplayCall.stands_after (call : ReplayCall) {documents : List Json}
    (stands : Stands scheme config store chain)
    (ready : Desk debug config directory path log? place workspace store)
    (asks : call.Asks workspace log? config directory documents)
    (decode : ∀ document ∈ documents, document.IsBlock) :
    let after := (call.run scheme debug workspace).2.workspace
    ∃ last, Stands scheme config last (chain.replay documents).chain ∧
      Desk debug config directory path log? place after last ∧
      ∀ (other : ReplayCall) (more : List Json), other.Asks workspace log? config directory more →
        other.Asks after log? config directory more := by
  have advances := stands.durable.replay decode
  obtain ⟨tally, tallied⟩ := Chain.exists_tallied advances.durable.sound
  exact (call.run_stands stands ready asks advances tallied).2.2.2

/-- **Two calls come to what one call with all blocks comes to.** -/
theorem ReplayCall.run_twice {first second whole : ReplayCall} {earlier later : List Json}
    (stands : Stands scheme config store chain)
    (ready : Desk debug config directory path log? place workspace store)
    (asksFirst : first.Asks workspace log? config directory earlier)
    (asksSecond : second.Asks workspace log? config directory later)
    (asksWhole : whole.Asks workspace log? config directory (earlier ++ later))
    (decodeEarlier : ∀ document ∈ earlier, document.IsBlock)
    (decodeLater : ∀ document ∈ later, document.IsBlock) :
    let one := first.run scheme debug workspace
    let two := second.run scheme debug one.2.workspace
    let once := whole.run scheme debug workspace
    let begun := chain.replay earlier
    let resumed := begun.chain.replay later
    let full := chain.replay (earlier ++ later)
    Keeps one.2.workspace place begun.chain.host ∧ Keeps two.2.workspace place full.chain.host ∧
    Keeps once.2.workspace place full.chain.host ∧
    full.receipts = begun.receipts ++ resumed.receipts ∧
    (∃ start tally, begun.chain.Tallied start ∧ full.chain.Tallied tally ∧
      Reports one begun.receipts start ∧ Reports two resumed.receipts tally ∧
      Reports once full.receipts tally) ∧
    full.receipts.map Receipt.number =
      List.range' (chain.host.blockNumber + 1) full.receipts.length ∧
    (chain.host.blockNumber + (earlier.length + later.length) < 2 ^ 64 →
      one.1 = .ok () ∧ two.1 = .ok () ∧ once.1 = .ok () ∧
      begun.receipts.length = earlier.length ∧ resumed.receipts.length = later.length) := by
  intro one two once begun resumed full
  have advances := stands.durable.replay decodeEarlier
  have advancesLater := advances.durable.replay decodeLater
  have advancesWhole :=
    stands.durable.replay (List.forall_mem_append.mpr ⟨decodeEarlier, decodeLater⟩)
  obtain ⟨start, talliedStart⟩ := Chain.exists_tallied advances.durable.sound
  obtain ⟨tally, talliedWhole⟩ := Chain.exists_tallied advancesWhole.durable.sound
  obtain ⟨outcomeOnce, reportsOnce, keepsOnce, _⟩ :=
    whole.run_stands stands ready asksWhole advancesWhole talliedWhole
  obtain ⟨outcomeOne, reportsOne, keepsOne, middle, standsOne, readyOne, asksOne⟩ :=
    first.run_stands stands ready asksFirst advances talliedStart
  -- The second call goes on from what the first has left.
  have append : full =
      { blocks := begun.blocks ++ resumed.blocks, error? := begun.error?.or resumed.error?
        chain := resumed.chain } := stands.durable.replay_append decodeEarlier later
  have ends : full.chain = resumed.chain := by rw [append]
  obtain ⟨outcomeTwo, reportsTwo, keepsTwo, _⟩ :=
    second.run_stands standsOne readyOne (asksOne second later asksSecond) advancesLater
      (ends ▸ talliedWhole)
  have receipts : full.receipts = begun.receipts ++ resumed.receipts := by
    rw [append]
    exact List.map_append
  refine ⟨keepsOne, ends ▸ keepsTwo, keepsOnce, receipts, ⟨start, tally, talliedStart, talliedWhole,
    reportsOne, reportsTwo, reportsOnce⟩, advancesWhole.numbers, fun room => ?_⟩
  obtain ⟨complete, counted⟩ := stands.durable.replay_complete decodeEarlier (by omega)
  have latest := stands.durable.replay_latest decodeEarlier (by omega)
  obtain ⟨completeLater, countedLater⟩ := advances.durable.replay_complete decodeLater (by omega)
  have completeWhole : full.error? = none := by
    rw [append]
    exact Option.or_eq_none_iff.mpr ⟨complete, completeLater⟩
  rw [complete] at outcomeOne
  rw [completeLater] at outcomeTwo
  rw [completeWhole] at outcomeOnce
  exact ⟨outcomeOne, outcomeTwo, outcomeOnce, (List.length_map _).trans counted,
    (List.length_map _).trans countedLater⟩

/-- **Kept replays add up.** Under an accepted configuration whose genesis coins have distinct
digests, some blocks are replayed over a directory without a state, and then more blocks over what
that has left; or all of them are replayed at once. Either way the same state is in the table in the
end, that of the chain which has executed all blocks, and after the first of the two calls it is
that of the chain which has executed the first blocks. The two calls print the receipts that the one
call prints, in the same order, numbered from one on. The number, the authorities, the coins, their
value and the pool in the statistics of the second call are those in the statistics of the one call.

With a block among the others that cannot be decoded, a call fails, whether the directory has no
state or that of the first call, and the state of the blocks before is kept. As long as there are
numbers for the blocks, it is just that block for which it fails, and all others succeed. -/
theorem replays_add_up (scheme : SignatureScheme) {first second whole : ReplayCall}
    {earlier later : List Json}
    (fresh : Desk debug config directory path log? place workspace (.ofMap .empty))
    (distinct : (config.genesis.map Output.genesisKey).Nodup)
    (asksFirst : first.Asks workspace log? config directory earlier)
    (asksSecond : second.Asks workspace log? config directory later)
    (asksWhole : whole.Asks workspace log? config directory (earlier ++ later))
    (decodeEarlier : ∀ document ∈ earlier, document.IsBlock)
    (decodeLater : ∀ document ∈ later, document.IsBlock) :
    let one := first.run scheme debug workspace
    let two := second.run scheme debug one.2.workspace
    let once := whole.run scheme debug workspace
    let begun := replayed scheme config earlier
    let resumed := begun.chain.replay later
    let full := replayed scheme config (earlier ++ later)
    Workspace.entry? two.2.workspace place = Workspace.entry? once.2.workspace place ∧
    Keeps one.2.workspace place begun.chain.host ∧ Keeps two.2.workspace place full.chain.host ∧
    full.receipts = begun.receipts ++ resumed.receipts ∧
    (∃ start tally, begun.chain.Tallied start ∧ full.chain.Tallied tally ∧
      Reports one begun.receipts start ∧ Reports two resumed.receipts tally ∧
      Reports once full.receipts tally) ∧
    full.receipts.map Receipt.number = List.range' 1 full.receipts.length ∧
    (earlier.length + later.length < 2 ^ 64 →
      one.1 = .ok () ∧ two.1 = .ok () ∧ once.1 = .ok () ∧
      begun.receipts.length = earlier.length ∧ resumed.receipts.length = later.length) ∧
    ∀ (call : ReplayCall) (before : List Json) (bad : Json) (rest : List Json)
      (reason : DocumentError), (∀ document ∈ before, document.IsBlock) →
      blockOfDocument bad = .error reason →
      call.Asks workspace log? config directory (before ++ bad :: rest) →
      let failed := call.run scheme debug workspace
      let failedLater := call.run scheme debug one.2.workspace
      let kept := replayed scheme config before
      let keptLater := replayed scheme config (earlier ++ before)
      (∃ error, failed.1 = .error error) ∧ (∃ error, failedLater.1 = .error error) ∧
      Keeps failed.2.workspace place kept.chain.host ∧
      Keeps failedLater.2.workspace place keptLater.chain.host ∧
      (earlier.length + before.length < 2 ^ 64 →
        failed.1 = .error (.document reason) ∧ failedLater.1 = .error (.document reason) ∧
        kept.chain.host.blockNumber = before.length ∧
        keptLater.chain.host.blockNumber = earlier.length + before.length) := by
  intro one two once
  obtain ⟨_, _, loaded⟩ := asksFirst.configured
  obtain ⟨founded, begins, stands, zero⟩ :=
    @exists_stands_empty _ scheme config (Config.positive_of_load loaded) distinct
  have founds : ∀ documents, replayed scheme config documents = founded.replay documents :=
    fun documents => by rw [replayed, begins]
  simp only [founds]
  have twice := ReplayCall.run_twice stands fresh asksFirst asksSecond asksWhole decodeEarlier
    decodeLater
  rw [zero, Nat.zero_add, Nat.zero_add] at twice
  obtain ⟨keepsOne, keepsTwo, keepsOnce, receipts, reports, numbers, complete⟩ := twice
  refine ⟨keepsTwo.entry?_eq keepsOnce, keepsOne, keepsTwo, receipts, reports, numbers, complete,
    ?_⟩
  intro call before bad rest reason decodeBefore undecodable asksBad
  obtain ⟨middle, standsOne, readyOne, asksOne⟩ :=
    first.stands_after stands fresh asksFirst decodeEarlier
  obtain ⟨fails, keepsFailed, within⟩ :=
    call.run_stopped stands fresh asksBad decodeBefore undecodable
  obtain ⟨failsLater, keepsLater, withinLater⟩ :=
    call.run_stopped standsOne readyOne (asksOne call _ asksBad) decodeBefore undecodable
  rw [stands.durable.replay_append decodeEarlier before]
  refine ⟨fails, failsLater, keepsFailed, keepsLater, fun room => ?_⟩
  have latest := stands.durable.replay_latest decodeEarlier (by omega)
  obtain ⟨outcome, number⟩ := within (by omega)
  obtain ⟨outcomeLater, numberLater⟩ := withinLater (by omega)
  exact ⟨outcome, outcomeLater, by omega, by dsimp only; omega⟩

end
end

/-- One block with an empty transaction is replayed twice, and as often as that in one call. Of a
file with such a block and a transaction that is cut short, the block is kept. -/
theorem replays_of_one_block_twice :
    let config : Config :=
      { genesis := [⟨⟨5, by decide⟩, FixedBytes.zero 32⟩], authorities := []
        longevity := maxLongevity, logLevel := .info, logDirectory := none, dataDirectory := none }
    let settings := "\x7b\"genesis\": [\x7b\"value\": 5, \"pubkey\": \"" ++
      String.ofList (List.replicate 64 '0') ++ "\"\x7d]\x7d"
    let one := "[[\"0000\"]]"
    let two := "[[\"0000\"], [\"0000\"]]"
    let bad := "[[\"0000\"], [\"0000\", \"00\"], []]"
    let named : String → Place := fun name => child workingPlace (FileName.ofText name)
    let workspace : Workspace :=
      { entries := [(named "config", .text settings), (named "one", .text one),
          (named "two", .text two), (named "bad", .text bad)]
        workingPathSize := 1 }
    let call : String → ReplayCall := fun name =>
      { surroundings := ⟨FixedBytes.zero 32, "", [], [], "", fun _ => FixedBytes.zero 32⟩
        configPath := FileName.ofText "config", blocksPath := FileName.ofText name
        dataDirectory := some (.ofText "data") }
    let table := child (named "data") (FileName.ofText "ledger.db")
    let block : Json := .array [.string "0000"]
    let first := (call "one").run sr25519 true workspace
    let second := (call "one").run sr25519 true first.2.workspace
    let failed := (call "bad").run sr25519 true first.2.workspace
    first.1 = .ok () ∧ second.1 = .ok () ∧
      Workspace.entry? second.2.workspace table =
        Workspace.entry? ((call "two").run sr25519 true workspace).2.workspace table ∧
      failed.1 = .error (.document (.malformedBytes (.endOfInput 1 1 0))) ∧
      Keeps failed.2.workspace table (replayed sr25519 config [block, block]).chain.host ∧
      (replayed sr25519 config [block, block]).chain.host.blockNumber = 2 := by
  intro config settings one two bad named workspace call table block first second failed
  let malformed : Json := .array [.string "0000", .string "00"]
  have read : workspace.readText (FileName.ofText "config") = .ok settings := by decide +kernel
  have loaded : Config.load (some settings) [] "" = .ok config := by decide +kernel
  have asks : ∀ name text documents, workspace.readText (FileName.ofText name) = .ok text →
      workspace.find (FileName.ofText name) ≠ none → Json.parse text = .ok (.array documents) →
      (call name).Asks workspace none config (.ofText "data") documents :=
    fun name text documents readBlocks found parsed =>
      { configured := ⟨settings, read, loaded⟩
        submitted := ⟨text, .array documents, readBlocks, parsed, rfl⟩
        kept := ⟨.ofText "data", rfl, rfl⟩
        configApart := show workspace.find (FileName.ofText "config") ≠ none by decide +kernel
        blocksApart := found }
  have asksOne := asks "one" one [block] (by decide +kernel) (by decide +kernel) (by cbv)
  have asksTwo := asks "two" two [block, block] (by decide +kernel) (by decide +kernel) (by cbv)
  have asksBad :=
    asks "bad" bad [block, malformed, .array []] (by decide +kernel) (by decide +kernel) (by cbv)
  have decodes : ∀ document ∈ [block], document.IsBlock :=
    List.forall_mem_singleton.mpr ⟨[⟨[], []⟩], by decide +kernel, by decide +kernel⟩
  have directory : Workspace.entry? (desk true config (.ofText "data") workspace) (parent table) =
      some .directory := by cbv
  have vacant : Workspace.entry? (desk true config (.ofText "data") workspace) table = none := by
    cbv
  have alone : ∀ companion,
      ((desk true config (.ofText "data") workspace).companion? table companion).isNone := by
    intro companion
    cases companion <;> decide +kernel
  have fresh : Desk true config (.ofText "data") (FileName.ofText "data/ledger.db") none table
      workspace (.ofMap .empty) :=
    { logs := rfl
      houses :=
        { found := ⟨parent table, by decide +kernel, directory⟩
          spelled := by decide +kernel
          plain := by decide +kernel
          reached := by decide +kernel
          resting :=
            { alone := fun companion => Option.isNone_iff_eq_none.mp (alone companion)
              content := .inr ⟨vacant, directory, rfl⟩ } } }
  obtain ⟨same, _, _, _, _, _, complete, fails⟩ :=
    replays_add_up sr25519 fresh (List.nodup_singleton _) asksOne asksOne asksTwo decodes decodes
  obtain ⟨done, again, _⟩ := complete (by decide)
  obtain ⟨_, _, _, keeps, within⟩ := fails (call "bad") [block] malformed [.array []]
    (.malformedBytes (.endOfInput 1 1 0)) decodes (by decide +kernel) asksBad
  obtain ⟨_, stopped, _, number⟩ := within (by decide)
  exact ⟨done, again, same, stopped, keeps, number⟩

end CoinLedger.Command

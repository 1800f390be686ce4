import CoinLedger.Proofs.Backend.Chain
import CoinLedger.Proofs.Chain.Receipts
import CoinLedger.Proofs.Chain.Restart
import CoinLedger.Replay

/-! # Replays in parts

A chain that has been founded over a table and has a sound state stays so with every block of a
replay (`CoinLedger.Chain.Durable.replay`). A replay of some blocks and more is the replay of the
blocks and then, unless that has stopped, the replay of the others on the chain that it left
(`CoinLedger.Chain.Durable.replay_append`). A block that cannot be decoded ends a replay and leaves
the chain that the blocks before it have left (`CoinLedger.Chain.Durable.replay_stopped`). Akin
chains have the same receipts (`CoinLedger.Chain.receipts_of_akin`), and their statistics differ in
nothing but what a restart forgets (`CoinLedger.Chain.statistics_of_akin`).
-/

namespace CoinLedger

open HostState

/-- A document is decoded to the transactions of a block, whose outputs can be numbered. -/
def Json.IsBlock (document : Json) : Prop :=
  ∃ txs, blockOfDocument document = .ok txs ∧ ∀ tx ∈ txs, tx.outputs.length < 2 ^ 64

/-- The receipts of the blocks that a replay has executed. -/
def Replay.receipts (replay : Replay) : List Receipt := replay.blocks.map ReplayedBlock.receipt

/-- The line about a rejected transaction names it and tells why it was rejected. -/
def Outcome.RejectedBy (outcome : Outcome) (line : String) : Prop :=
  ∃ reason, outcome.verdict = .error reason ∧
    line = s!"  ✗ {Hex.abbreviate outcome.id.bytes 18} {reason.kind.name}: {reason.message}"

/-- There is one line for each outcome that is a rejection, and none for the others. -/
theorem forall₂_rejectionLines (outcomes : List Outcome) :
    List.Forall₂ Outcome.RejectedBy (outcomes.filter fun outcome => !outcome.applied)
      (outcomes.filterMap Outcome.rejectionLine?) := by
  induction outcomes with
  | nil => exact .nil
  | cons outcome outcomes inductive_step =>
      obtain ⟨id, reason | fee⟩ := outcome
      · rw [List.filter_cons_of_pos rfl]
        exact .cons ⟨reason, rfl, rfl⟩ inductive_step
      · rw [List.filter_cons_of_neg Bool.false_ne_true, List.filterMap_cons_none rfl]
        exact inductive_step

/-- **The lines about a block tell of everything in its receipt.** The first has the number of the
block and counts the transactions that were applied and those that were rejected, which are all of
them. Then there is one line for each rejected transaction and one for each event, in order. -/
theorem Receipt.lines_tell [CoinHash] (receipt : Receipt) :
    ∃ rejections events : List String,
      receipt.lines =
        s!"Block {receipt.number}: {receipt.applied} applied, {receipt.rejected} rejected" ::
          (rejections ++ events) ∧
      receipt.applied + receipt.rejected = receipt.outcomes.length ∧
      List.Forall₂ Outcome.RejectedBy (receipt.outcomes.filter fun outcome => !outcome.applied)
        rejections ∧
      rejections.length = receipt.rejected ∧
      events = receipt.events.map fun event => "  " ++ event.toDocument.compactText := by
  have each := forall₂_rejectionLines receipt.outcomes
  refine ⟨_, _, rfl, receipt.applied_add_rejected, each, ?_, rfl⟩
  rw [← each.length_eq, rejected, List.countP_eq_length_filter]

theorem Replay.receipts_cons (block : ReplayedBlock) (replay : Replay) :
    { replay with blocks := block :: replay.blocks }.receipts =
      block.receipt :: replay.receipts := rfl

namespace Chain

/-- A chain has gone on with the same settings, and was founded before if it is founded now. -/
structure Onward (before after : Chain) : Prop where
  settings : after = before.withLedger after.ledger
  founded : after.host.genesisDone = before.host.genesisDone

/-- A chain that can be taken up from its table: it is founded, and its state is sound. -/
structure Durable (chain : Chain) : Prop where
  sound : chain.host.Sound
  founded : chain.host.genesisDone = true
  onTable : chain.onTable = chain

theorem Onward.refl (chain : Chain) : Onward chain chain := ⟨rfl, rfl⟩

/-- A chain that has gone on twice has gone on. -/
theorem Onward.trans {before middle after : Chain} (first : Onward before middle)
    (second : Onward middle after) : Onward before after where
  settings := by
    rw [second.settings, first.settings]
    rfl
  founded := second.founded.trans first.founded

/-- A chain that can be taken up from its table has one. -/
theorem Durable.exists_store {chain : Chain} (durable : chain.Durable) :
    ∃ store, chain.host = .table store := by
  have same : chain.host.onTable = chain.host := congrArg host durable.onTable
  cases stored : chain.host with
  | table store => exact ⟨store, rfl⟩
  | memory store =>
      rw [stored] at same
      cases same

section

variable [CoinHash] {chain after : Chain}

/-- Applying a transaction keeps the settings and the mark of genesis. -/
theorem onward_apply {tx : Transaction} {outcome : Except LedgerError Outcome}
    (run : chain.apply tx = (outcome, after)) : Onward chain after := by
  unfold Chain.apply at run
  rcases spent : chain.spend tx with ⟨error | fee, middle⟩
  · rw [spent, spend_error spent] at run
    cases error <;> (cases run; exact .refl _)
  · rw [spent] at run
    cases run
    obtain ⟨_, _, _, moves⟩ := spend_ok spent
    obtain ⟨ledger, _, rfl⟩ := spend_eq spent
    exact ⟨rfl, moves.genesisDone_eq⟩

/-- Applying transactions keeps the settings and the mark of genesis. -/
theorem onward_applyAll {txs : List Transaction} {outcomes : Except LedgerError (List Outcome)}
    (run : applyAll txs chain = (outcomes, after)) : Onward chain after := by
  induction txs generalizing chain outcomes with
  | nil =>
      cases run
      exact .refl _
  | cons tx txs inductive_step =>
      rw [applyAll] at run
      rcases applied : chain.apply tx with ⟨error | outcome, middle⟩
      · rw [applied] at run
        cases run
        exact onward_apply applied
      · rw [applied] at run
        dsimp only at run
        rcases later : applyAll txs middle with ⟨error | outcomes, final⟩ <;>
          (rw [later] at run; cases run; exact (onward_apply applied).trans (inductive_step later))

/-- Ending a block keeps the settings and the mark of genesis. -/
theorem onward_finalize {block : Int} {outcome : Except LedgerError Settlement}
    (run : chain.finalize block = (outcome, after)) : Onward chain after := by
  obtain ⟨_, _, _, _, _, moves, _⟩ := finalize_recorded run
  obtain ⟨ledger, _, rfl⟩ := finalize_eq run
  exact ⟨rfl, moves.genesisDone_eq⟩

/-- Executing a block keeps the settings and the mark of genesis. -/
theorem onward_executeBlock {txs : List Transaction} {outcome : Except LedgerError Receipt}
    (run : chain.executeBlock txs = (outcome, after)) : Onward chain after := by
  cases fits : u64OfInt ((chain.host.blockNumber + 1 : Nat) : Int) with
  | error reason =>
      unfold executeBlock at run
      dsimp only at run
      rw [fits] at run
      cases run
      exact .refl chain
  | ok position =>
      have numbered : Onward chain (chain.numbered position) :=
        ⟨rfl, chain.host.genesisDone_setBlockNumber position⟩
      rw [executeBlock_eq (Int.natCast_inj.mp (u64OfInt_eq_ok_iff.mp fits))] at run
      rcases ran : applyAll txs (chain.numbered position) with ⟨error | outcomes, applied⟩
      · rw [ran] at run
        cases run
        exact numbered.trans (onward_applyAll ran)
      · rw [ran] at run
        dsimp only at run
        have attempts := numbered.trans (onward_applyAll ran)
        rcases ended : applied.finalize position.toNat with ⟨error | settlement, final⟩ <;>
          (rw [ended] at run; cases run; exact attempts.trans (onward_finalize ended))

/-- A chain can be taken up from its table after a block as before it. -/
theorem Durable.executeBlock (durable : chain.Durable) {txs : List Transaction}
    {outcome : Except LedgerError Receipt} (run : chain.executeBlock txs = (outcome, after)) :
    after.Durable where
  sound := by
    have sound : (chain.executeBlock txs).2.host.Sound := sound_perform durable.sound (.block txs)
    rw [run] at sound
    exact sound
  founded := (onward_executeBlock run).founded.trans durable.founded
  onTable := by
    have same := chain.executeBlock_onTable txs
    rw [durable.onTable, run] at same
    exact (congrArg Prod.snd same).symm

/-- Settings that name coins seed them, unless a state has been founded. -/
theorem start_eq_genesis {settings : ChainSettings} {coins : List Output} {host : HostState}
    (named : settings.genesis? = some coins) (unfounded : host.genesisDone = false)
    (verify : Verifier) :
    let opened := ofHost host settings.authorities verify settings.longevity
    start settings host verify =
      ((opened.genesis (coins.map .ok)).1.map fun _ => (), (opened.genesis (coins.map .ok)).2) := by
  intro opened
  have fresh : ¬ opened.host.genesisDone := Bool.eq_false_iff.mp unfounded
  rw [start, named]
  dsimp only
  rw [if_neg fresh]
  rcases opened.genesis (coins.map .ok) with ⟨error | keys, after⟩ <;> rfl

/-- A chain over a state that has been founded leaves it as it is. -/
theorem start_of_founded {host : HostState} (founded : host.genesisDone = true)
    (settings : ChainSettings) (verify : Verifier) :
    start settings host verify =
      (.ok (), ofHost host settings.authorities verify settings.longevity) := by
  unfold start
  split
  · rfl
  · exact if_pos founded

/-- A chain has the settings that it was started with. -/
structure StartedWith (settings : ChainSettings) (verify : Verifier) (chain : Chain) : Prop where
  authorities : chain.authorities = settings.authorities
  verify : chain.verify = verify
  longevity : chain.longevity = settings.longevity

omit [CoinHash] in
/-- A chain that has gone on has the settings that it was started with. -/
theorem Onward.startedWith {settings : ChainSettings} {verify : Verifier}
    (onward : Onward chain after) (started : chain.StartedWith settings verify) :
    after.StartedWith settings verify := by
  rw [onward.settings]
  exact ⟨started.authorities, started.verify, started.longevity⟩

/-- **Over an empty table, coins of some value and distinct digests are seeded.** -/
theorem exists_founded {settings : ChainSettings} {coins : List Output}
    (named : settings.genesis? = some coins) (positive : ∀ coin ∈ coins, coin.value.toNat ≠ 0)
    (distinct : (coins.map Output.genesisKey).Nodup) (verify : Verifier) :
    ∃ founded, start settings .emptyTable verify = (.ok (), founded) ∧ founded.Durable ∧
      founded.StartedWith settings verify ∧ founded.host.blockNumber = 0 := by
  let opened := ofHost .emptyTable settings.authorities verify settings.longevity
  have empty : ∀ cell, opened.host.get? cell = none := fun _ => rfl
  have unfounded : ¬ opened.host.genesisDone := Bool.false_ne_true
  obtain ⟨keys, host, run⟩ := exists_genesis unfounded positive distinct
    fun _ _ => Bool.false_ne_true
  have begun : start settings .emptyTable verify =
      (.ok (), opened.withLedger { opened.ledger with host }) := by
    rw [start_eq_genesis named rfl, run]
    rfl
  obtain ⟨_, _, _, _, _, _, done, zero⟩ := genesis_ok run
  refine ⟨_, begun, ⟨?_, done, ?_⟩, ⟨rfl, rfl, rfl⟩, zero⟩
  · have sound := sound_perform (sound_of_empty empty) (.genesis (coins.map .ok))
    rw [perform, run] at sound
    exact sound
  · have same := start_onTable settings .emptyTable verify
    rw [begun] at same
    exact (congrArg Prod.snd (begun.symm.trans same)).symm

/-- **A chain that is started over the table of another is akin to it.** -/
theorem Durable.taken_up (durable : chain.Durable) {settings : ChainSettings} {verify : Verifier}
    (started : chain.StartedWith settings verify) :
    ∃ taken, start settings chain.host verify = (.ok (), taken) ∧ taken.Akin chain :=
  ⟨_, start_of_founded durable.founded settings verify,
    rfl, started.authorities.symm, started.verify.symm, started.longevity.symm⟩

/-- A replay has gone on from a chain: it has numbered its blocks one after another from the number
of the chain, and without a block it has left the chain as it was. -/
structure Advances (chain : Chain) (replay : Replay) : Prop where
  durable : replay.chain.Durable
  onward : Onward chain replay.chain
  numbers : replay.receipts.map Receipt.number =
    List.range' (chain.host.blockNumber + 1) replay.receipts.length
  latest : replay.chain.host.blockNumber = chain.host.blockNumber + replay.blocks.length
  idle : replay.blocks = [] → replay.chain = chain

omit [CoinHash] in
/-- A replay that stops before its first block has gone on by nothing. -/
theorem Durable.halted (durable : chain.Durable) (error? : Option ReplayError) :
    Advances chain { blocks := [], error?, chain } where
  durable := durable
  onward := .refl chain
  numbers := rfl
  latest := rfl
  idle _ := rfl

/-- A block that can be decoded is executed, unless there is no number for it. -/
theorem Durable.executeDocument_cases (durable : chain.Durable) {document : Json}
    (decodes : document.IsBlock) :
    (∃ block after, chain.executeDocument document = (.ok block, after) ∧ after.Durable ∧
      Onward chain after ∧ block.receipt.number = chain.host.blockNumber + 1 ∧
      after.host.blockNumber = chain.host.blockNumber + 1) ∨
    (∃ error, chain.executeDocument document = (.error error, chain)) ∧
      chain.host.blockNumber = 2 ^ 64 - 1 := by
  obtain ⟨txs, decoded, few⟩ := decodes
  have bound := durable.sound.blockNumber_lt
  unfold executeDocument
  rw [decoded]
  dsimp only
  by_cases last : chain.host.blockNumber = 2 ^ 64 - 1
  · obtain ⟨error, failed⟩ := executeBlock_of_last last txs
    rw [failed]
    exact .inr ⟨⟨_, rfl⟩, last⟩
  · have next : chain.host.blockNumber + 1 < 2 ^ 64 := by omega
    obtain ⟨receipt, after, run⟩ := exists_receipt durable.sound.toWellFormed few next
    obtain ⟨number, latest, _⟩ := executeBlock_ok next run
    rw [run]
    exact .inl ⟨_, after, rfl, durable.executeBlock run, onward_executeBlock run, number,
      latest.trans number⟩

/-- **A replay leaves a chain that can be taken up again.** It has numbered its blocks one after
another. -/
theorem Durable.replay (durable : chain.Durable) {documents : List Json}
    (decode : ∀ document ∈ documents, document.IsBlock) :
    Advances chain (chain.replay documents) := by
  -- A block leaves a chain that can be taken up again, so the induction goes on from that chain.
  induction documents generalizing chain with
  | nil => exact durable.halted none
  | cons document documents inductive_step =>
      obtain ⟨here, others⟩ := List.forall_mem_cons.mp decode
      rw [Chain.replay]
      rcases durable.executeDocument_cases here with
        ⟨block, after, run, durableAfter, onward, number, latest⟩ | ⟨⟨error, run⟩, _⟩
      · have later := inductive_step durableAfter others
        rw [run]
        refine ⟨later.durable, onward.trans later.onward, ?_, ?_, fun empty => nomatch empty⟩
        · rw [Replay.receipts_cons, List.map_cons, later.numbers, number, latest, List.length_cons,
            List.range'_succ]
        · dsimp only
          rw [later.latest, latest, List.length_cons]
          omega
      · rw [run]
        exact durable.halted _

/-- **A replay of blocks that can be decoded stops only for want of a number.** -/
theorem Durable.replay_complete (durable : chain.Durable) {documents : List Json}
    (decode : ∀ document ∈ documents, document.IsBlock)
    (room : chain.host.blockNumber + documents.length < 2 ^ 64) :
    (chain.replay documents).error? = none ∧
      (chain.replay documents).blocks.length = documents.length := by
  induction documents generalizing chain with
  | nil => exact ⟨rfl, rfl⟩
  | cons document documents inductive_step =>
      obtain ⟨here, others⟩ := List.forall_mem_cons.mp decode
      rw [List.length_cons] at room
      rw [Chain.replay]
      rcases durable.executeDocument_cases here with
        ⟨block, after, run, durableAfter, _, _, latest⟩ | ⟨_, last⟩
      · obtain ⟨complete, counted⟩ := inductive_step durableAfter others (by omega)
        rw [run]
        exact ⟨complete, congrArg (· + 1) counted⟩
      · omega

/-- With room for their numbers, all blocks count. -/
theorem Durable.replay_latest (durable : chain.Durable) {documents : List Json}
    (decode : ∀ document ∈ documents, document.IsBlock)
    (room : chain.host.blockNumber + documents.length < 2 ^ 64) :
    (chain.replay documents).chain.host.blockNumber =
      chain.host.blockNumber + documents.length := by
  rw [(durable.replay decode).latest, (durable.replay_complete decode room).2]

/-- A replay on a chain that has the last number executes nothing. -/
theorem replay_of_last (last : chain.host.blockNumber = 2 ^ 64 - 1) (documents : List Json) :
    (chain.replay documents).blocks = [] ∧ (chain.replay documents).chain = chain := by
  cases documents with
  | nil => exact ⟨rfl, rfl⟩
  | cons document documents =>
      rw [Chain.replay, executeDocument]
      cases blockOfDocument document with
      | error reason => exact ⟨rfl, rfl⟩
      | ok txs =>
          obtain ⟨error, failed⟩ := executeBlock_of_last last txs
          dsimp only
          rw [failed]
          exact ⟨rfl, rfl⟩

/-- **A replay in two parts is one replay.** Where the first part stops for want of a number, the
second executes nothing. -/
theorem Durable.replay_append (durable : chain.Durable) {earlier : List Json}
    (decode : ∀ document ∈ earlier, document.IsBlock) (later : List Json) :
    let first := chain.replay earlier
    let second := first.chain.replay later
    chain.replay (earlier ++ later) =
      { blocks := first.blocks ++ second.blocks, error? := first.error?.or second.error?
        chain := second.chain } := by
  induction earlier generalizing chain with
  | nil => rfl
  | cons document documents inductive_step =>
      obtain ⟨here, others⟩ := List.forall_mem_cons.mp decode
      rw [List.cons_append, Chain.replay, Chain.replay]
      rcases durable.executeDocument_cases here with
        ⟨block, after, run, durableAfter, _⟩ | ⟨⟨error, run⟩, last⟩
      · rw [run]
        dsimp only
        rw [inductive_step durableAfter others]
        rfl
      -- The first part has stopped at the last number, which leaves none for the second part.
      · obtain ⟨none_executed, same⟩ := replay_of_last last later
        rw [run]
        dsimp only
        rw [none_executed, same]
        rfl

/-- **A block that cannot be decoded ends a replay and leaves no trace.** -/
theorem Durable.replay_stopped (durable : chain.Durable) {earlier : List Json}
    (decode : ∀ document ∈ earlier, document.IsBlock) {document : Json} {reason : DocumentError}
    (undecodable : blockOfDocument document = .error reason) (later : List Json) :
    chain.replay (earlier ++ document :: later) =
      { blocks := (chain.replay earlier).blocks
        error? := (chain.replay earlier).error?.or (some (.document reason))
        chain := (chain.replay earlier).chain } := by
  have stopped : (chain.replay earlier).chain.replay (document :: later) =
      { blocks := [], error? := some (.document reason)
        chain := (chain.replay earlier).chain } := by
    rw [Chain.replay, executeDocument, undecodable]
  rw [durable.replay_append decode, stopped]
  dsimp only
  rw [List.append_nil]

/-- **Replays on akin chains have the same receipts and errors, and the chains stay akin.** -/
theorem receipts_of_akin (documents : List Json) {left right : Chain} (akin : Akin left right) :
    (left.replay documents).receipts = (right.replay documents).receipts ∧
      (left.replay documents).error? = (right.replay documents).error? ∧
      Akin (left.replay documents).chain (right.replay documents).chain := by
  induction documents generalizing left right with
  | nil => exact ⟨rfl, rfl, akin⟩
  | cons document documents inductive_step =>
      rw [Chain.replay, Chain.replay, executeDocument, executeDocument]
      cases blockOfDocument document with
      | error reason => exact ⟨rfl, rfl, akin⟩
      | ok txs =>
          rcases run : left.executeBlock txs with ⟨error | receipt, leftAfter⟩
          · obtain ⟨rightAfter, same, alike⟩ := blind_executeBlock txs akin run
            dsimp only at same ⊢
            rw [run, same]
            exact ⟨rfl, rfl, alike.akin⟩
          · obtain ⟨rightAfter, same, alike⟩ := blind_executeBlock txs akin run
            dsimp only at same ⊢
            rw [run, same]
            obtain ⟨receipts, errors, last⟩ := inductive_step alike.akin
            exact ⟨congrArg (receipt :: ·) receipts, errors, last⟩

end

/-- What the statistics of a chain say that a restart does not forget. -/
structure Tally where
  number : Nat
  authorities : Nat
  coins : Nat
  value : Nat
  pool : Nat
  deriving DecidableEq

/-- What the statistics of a chain say that a restart forgets. -/
structure SessionTally where
  events : Nat
  phase : PoolPhase
  collected : Nat
  paid : Nat
  wasted : Nat
  deriving DecidableEq

/-- The document of statistics. -/
def Tally.toDocument (tally : Tally) (session : SessionTally) : Json :=
  .object [("block_number", .natural tally.number), ("authorities", .natural tally.authorities),
    ("events", .natural session.events),
    ("ledger", .object [("utxo_count", .natural tally.coins), ("total_value", .natural tally.value),
      ("reward_total", .natural tally.pool), ("pool_state", .string session.phase.name),
      ("total_fees_collected", .natural session.collected),
      ("total_rewards_paid", .natural session.paid),
      ("total_rewards_wasted", .natural session.wasted)])]

/-- A tally is what a chain's state says. -/
def Tallied (chain : Chain) (tally : Tally) : Prop :=
  ∃ value, chain.host.totalValue = .ok value ∧
    tally = { number := chain.host.blockNumber, authorities := chain.authorities.length
              coins := chain.host.coinCount, value, pool := chain.host.pool }

theorem exists_tallied {chain : Chain} (sound : chain.host.Sound) : ∃ tally, chain.Tallied tally :=
  ⟨_, _, sound.toWellFormed.totalValue_eq, rfl⟩

/-- **The statistics of akin chains differ in nothing but what a restart forgets.** -/
theorem statistics_of_akin {left right : Chain} {tally : Tally} (akin : Akin left right)
    (tallied : right.Tallied tally) :
    ∃ session, left.statistics = .ok (tally.toDocument session) := by
  obtain ⟨value, read, rfl⟩ := tallied
  rw [← akin.host] at read ⊢
  rw [← akin.authorities, statistics, Ledger.statistics, ← host, read]
  exact ⟨⟨left.ledger.events.length, left.ledger.phase, left.ledger.feesCollected,
    left.ledger.rewardsPaid, left.ledger.rewardsWasted⟩, rfl⟩

end Chain
end CoinLedger

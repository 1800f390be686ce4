import CoinLedger.Crypto.Blake2b
import CoinLedger.Proofs.Chain.Sound

/-! # Receipts tell what became of the coins

An event tells what became of the coins, if the number of its block is known
(`CoinLedger.Event.replay`). Whoever starts from the genesis coins and follows the receipts of all
blocks in their order has the coins that the chain has
(`CoinLedger.Chain.receipts_replay_to_the_coins`), whatever transactions were rejected, shares
forfeited and logs lost in a restart.
-/

namespace CoinLedger

open HostState

/-- The events of the transactions that outcomes say were applied. -/
def appliedEvents (txs : List Transaction) (outcomes : List Outcome) : List Event :=
  ((txs.zip outcomes).filter fun attempt => attempt.2.applied).map fun attempt =>
    .transactionApplied attempt.1

/-- The event of a first transaction comes before those of the others. -/
theorem appliedEvents_cons (tx : Transaction) (txs : List Transaction) (outcome : Outcome)
    (outcomes : List Outcome) :
    appliedEvents (tx :: txs) (outcome :: outcomes) =
      appliedEvents [tx] [outcome] ++ appliedEvents txs outcomes := by
  rw [appliedEvents, List.zip_cons_cons, ← List.singleton_append, List.filter_append,
    List.map_append]
  rfl

/-- Every outcome of a receipt is counted once. -/
theorem Receipt.applied_add_rejected (receipt : Receipt) :
    receipt.applied + receipt.rejected = receipt.outcomes.length := by
  rw [applied, rejected, List.length_eq_countP_add_countP Outcome.applied]
  simp

section

variable [CoinHash]

/-- A receipt is about transactions: it reports each of them in order, and its events are those of
the transactions that were applied, in order, and after these nothing but rewards. -/
structure Receipt.Covers (receipt : Receipt) (txs : List Transaction) : Prop where
  /-- There is an outcome for each transaction. -/
  reported : receipt.outcomes.map Outcome.id = txs.map Transaction.id
  /-- Rewards come after the transactions that were applied. -/
  recorded : ∃ rewards : List Event, (∀ event ∈ rewards, event.IsReward) ∧
    receipt.events = appliedEvents txs receipt.outcomes ++ rewards
  /-- Every transaction was applied or rejected. -/
  counted : receipt.applied + receipt.rejected = txs.length

/-- What an event of a block with a given number makes of a map of coins. -/
def Event.replay (number : UInt64) (coins : Outpoint → Option Output) :
    Event → Outpoint → Option Output
  | .transactionApplied tx =>
      storeCoins (tx.derivedKeys.zip tx.outputs) (dropCoins tx.outpoints coins)
  | .rewardPaid owner value => storeCoins [Output.asReward number { value, owner }] coins
  | .rewardWasted _ => coins

/-- What the events of a receipt make of a map of coins. -/
def Receipt.replay (coins : Outpoint → Option Output) (receipt : Receipt) :
    Outpoint → Option Output :=
  receipt.events.foldl (Event.replay (UInt64.ofNat receipt.number)) coins

/-- Events of rewards store the rewards under their keys. -/
theorem foldl_replay_rewards (number : UInt64) {events : List Event}
    (rewards : ∀ event ∈ events, event.IsReward) (coins : Outpoint → Option Output) :
    events.foldl (Event.replay number) coins =
      storeCoins ((rewardsOf events).map (Output.asReward number)) coins := by
  induction events generalizing coins with
  | nil => rfl
  | cons event events inductive_step =>
      obtain ⟨reward, others⟩ := List.forall_mem_cons.mp rewards
      cases event with
      | transactionApplied tx => cases reward
      | rewardPaid owner value => exact inductive_step others _
      | rewardWasted owner => exact inductive_step others coins

end

namespace Chain

section

variable [CoinHash] {chain after : Chain} {tx : Transaction}

/-- The log of a chain has grown by events of a block, and what these make of the coins is what the
chain has made of them. -/
structure Recorded (number : UInt64) (before after : Chain) (events : List Event) : Prop where
  /-- The events are deposited after the earlier ones. -/
  logged : after.ledger.events = before.ledger.events ++ events
  /-- Following the events leads to the coins. -/
  replayed : ∀ coins, before.host.Shows coins →
    after.host.Shows (events.foldl (Event.replay number) coins)
  /-- It is the same block. -/
  number : after.host.blockNumber = before.host.blockNumber

theorem Recorded.refl (number : UInt64) (chain : Chain) : Recorded number chain chain [] where
  logged := (List.append_nil _).symm
  replayed _ shows := shows
  number := rfl

/-- Events that follow events record what has happened in between. -/
theorem Recorded.trans {number : UInt64} {before middle after : Chain} {earlier later : List Event}
    (first : Recorded number before middle earlier) (second : Recorded number middle after later) :
    Recorded number before after (earlier ++ later) where
  logged := by rw [second.logged, first.logged, List.append_assoc]
  replayed coins shows := by
    rw [List.foldl_append]
    exact second.replayed _ (first.replayed coins shows)
  number := second.number.trans first.number

/-- Spending is recorded as the transaction. -/
theorem recorded_spend (number : UInt64) {fee : Nat} (run : chain.spend tx = (.ok fee, after)) :
    Recorded number chain after [.transactionApplied tx] := by
  obtain ⟨coins, keys, admissible, moves⟩ := spend_ok run
  refine ⟨?_, fun shown shows => ?_, moves.blockNumber_eq⟩
  · obtain ⟨ledger, applied, rfl⟩ := spend_eq run
    obtain ⟨host, _, deposited⟩ := Ledger.spend_eq_ok applied
    exact congrArg Ledger.events deposited
  · have moved := moves.shows shows
    rw [admissible.map_fst_spent, Transaction.eq_derivedKeys admissible.derived] at moved
    exact moved

/-- Applying a transaction reports it, and is recorded as the transaction if it was applied. -/
theorem recorded_apply (number : UInt64) {outcome : Outcome}
    (run : chain.apply tx = (.ok outcome, after)) :
    outcome.id = tx.id ∧ Recorded number chain after (appliedEvents [tx] [outcome]) := by
  unfold apply at run
  split at run
  · rename_i spent
    cases run
    exact ⟨rfl, recorded_spend number spent⟩
  · rename_i refused
    cases run
    rw [spend_error refused]
    exact ⟨rfl, .refl number chain⟩
  · cases run

/-- Applying transactions reports each, and is recorded as those that were applied. -/
theorem recorded_applyAll (number : UInt64) {txs : List Transaction} {outcomes : List Outcome}
    (run : applyAll txs chain = (.ok outcomes, after)) :
    outcomes.map Outcome.id = txs.map Transaction.id ∧
      Recorded number chain after (appliedEvents txs outcomes) := by
  induction txs generalizing chain outcomes with
  | nil =>
      cases run
      exact ⟨rfl, .refl number _⟩
  | cons tx txs inductive_step =>
      rw [applyAll] at run
      split at run
      · cases run
      · rename_i outcome middle applied
        split at run
        · cases run
        · rename_i outcomes final later
          cases run
          obtain ⟨named, first⟩ := recorded_apply number applied
          obtain ⟨reported, rest⟩ := inductive_step later
          rw [appliedEvents_cons, List.map_cons, List.map_cons, named, reported]
          exact ⟨rfl, first.trans rest⟩

/-- Ending a block is recorded as rewards. -/
theorem recorded_finalize {number : UInt64} {outcome : Except LedgerError Settlement}
    (run : chain.finalize number.toNat = (outcome, after)) :
    ∃ rewards, (∀ event ∈ rewards, event.IsReward) ∧ Recorded number chain after rewards := by
  obtain ⟨block, rewards, numbered, pay, _, moves, _, logged⟩ := finalize_recorded run
  refine ⟨rewards, pay, logged, fun coins shows => ?_, moves.blockNumber_eq⟩
  have same : rewards.foldl (Event.replay number) coins =
      storeCoins ((rewardsOf rewards).map (Output.asReward block)) coins := by
    rcases numbered with rfl | numbered
    · rfl
    · rw [← UInt64.toNat_inj.mp (Int.natCast_inj.mp numbered)]
      exact foldl_replay_rewards number pay coins
  rw [same]
  exact moves.shows shows

/-- **The receipt of a block has its number, reports its transactions, and leads to its coins.** -/
theorem executeBlock_ok {txs : List Transaction} {receipt : Receipt}
    (next : chain.host.blockNumber + 1 < 2 ^ 64)
    (run : chain.executeBlock txs = (.ok receipt, after)) :
    receipt.number = chain.host.blockNumber + 1 ∧ after.host.blockNumber = receipt.number ∧
      receipt.Covers txs ∧
      ∀ coins, chain.host.Shows coins → after.host.Shows (receipt.replay coins) := by
  obtain ⟨position, _, number⟩ := exists_u64OfInt_eq_ok next
  rw [executeBlock_eq number.symm] at run
  split at run
  · cases run
  · rename_i outcomes applied ran
    split at run
    · cases run
    · rename_i settlement final settled
      cases run
      obtain ⟨reported, attempts⟩ := recorded_applyAll position ran
      obtain ⟨rewards, pay, settles⟩ := recorded_finalize settled
      have whole := attempts.trans settles
      have started : (chain.numbered position).host = chain.host.setBlockNumber position := rfl
      have logged : after.ledger.events.drop chain.ledger.events.length =
          appliedEvents txs outcomes ++ rewards := by
        rw [whole.logged]
        exact List.drop_left
      refine ⟨number, ?_, ⟨reported, ⟨rewards, pay, logged⟩, ?_⟩, fun coins shows => ?_⟩
      · rw [whole.number, started, blockNumber_setBlockNumber]
      · rw [Receipt.applied_add_rejected, ← List.length_map Outcome.id, reported,
          List.length_map]
      · rw [Receipt.replay, logged, UInt64.ofNat_toNat]
        apply whole.replayed
        rw [Shows, started, coin?_setBlockNumber]
        exact shows

/-- What goes on with a chain once it is founded: blocks of transactions whose outputs can be
numbered, new authorities and restarts. -/
def Operation.Ongoing : Operation → Prop
  | .block txs => ∀ tx ∈ txs, tx.outputs.length < 2 ^ 64
  | .setAuthorities _ | .restart _ _ _ => True
  | .genesis _ | .apply _ => False

instance (operation : Operation) : Decidable operation.Ongoing :=
  match operation with
  | .block txs => inferInstanceAs (Decidable (∀ tx ∈ txs, tx.outputs.length < 2 ^ 64))
  | .setAuthorities _ | .restart _ _ _ => .isTrue trivial
  | .genesis _ | .apply _ => .isFalse id

/-- The transactions of the block that an operation asks for, if it asks for one. -/
def Operation.block? : Operation → Option (List Transaction)
  | .block txs => some txs
  | _ => none

/-- The blocks that operations ask for. -/
def submitted (operations : List Operation) : List (List Transaction) :=
  operations.filterMap Operation.block?

/-- What comes of the blocks that operations ask for, one after another. -/
def reports (chain : Chain) : List Operation → List (Except LedgerError Receipt)
  | [] => []
  | operation :: operations =>
      (operation.block?.map fun txs => (chain.executeBlock txs).1).toList ++
        (chain.perform operation).reports operations

/-- Receipts account for all that happened to the coins from one state to a later one, in the course
of blocks. -/
structure Audited (before after : HostState) (blocks : List (List Transaction))
    (receipts : List Receipt) : Prop where
  /-- The receipts are numbered one after another. -/
  numbers : receipts.map Receipt.number = List.range' (before.blockNumber + 1) blocks.length
  /-- Each receipt is about the transactions of its block. -/
  covers : List.Forall₂ Receipt.Covers receipts blocks
  /-- Following the receipts leads to the coins. -/
  replayed : ∀ coins, before.Shows coins → after.Shows (receipts.foldl Receipt.replay coins)

/-- A block in front of audited blocks is audited with them. -/
theorem Audited.block {txs : List Transaction} {receipt : Receipt} {final : HostState}
    {blocks : List (List Transaction)} {receipts : List Receipt}
    (next : chain.host.blockNumber + 1 < 2 ^ 64)
    (run : chain.executeBlock txs = (.ok receipt, after))
    (later : Audited after.host final blocks receipts) :
    Audited chain.host final (txs :: blocks) (receipt :: receipts) := by
  obtain ⟨number, latest, covers, replayed⟩ := executeBlock_ok next run
  refine ⟨?_, .cons covers later.covers, fun coins shows => ?_⟩
  · rw [List.map_cons, later.numbers, latest, number, List.length_cons, List.range'_succ]
  · exact later.replayed _ (replayed coins shows)

/-- **As long as there are numbers for them, all blocks have receipts, and these account for the
coins.** -/
theorem exists_audited (sound : chain.host.Sound) {operations : List Operation}
    (ongoing : ∀ operation ∈ operations, operation.Ongoing)
    (room : chain.host.blockNumber + (submitted operations).length < 2 ^ 64) :
    ∃ receipts : List Receipt, chain.reports operations = receipts.map .ok ∧
      Audited chain.host (chain.performAll operations).host (submitted operations) receipts := by
  induction operations generalizing chain with
  | nil => exact ⟨[], rfl, rfl, .nil, fun coins shows => shows⟩
  | cons operation operations inductive_step =>
      obtain ⟨here, others⟩ := List.forall_mem_cons.mp ongoing
      have later := @inductive_step (chain.perform operation) (sound_perform sound operation) others
      cases operation with
      | genesis outputs => cases here
      | apply tx => cases here
      | setAuthorities authorities => exact later room
      | restart authorities verify longevity => exact later room
      | block txs =>
          change chain.host.blockNumber + ((submitted operations).length + 1) < 2 ^ 64 at room
          have next : chain.host.blockNumber + 1 < 2 ^ 64 := by omega
          obtain ⟨receipt, executed⟩ := executeBlock_total sound here next
          have run : chain.executeBlock txs = (.ok receipt, chain.perform (.block txs)) :=
            Prod.ext executed rfl
          obtain ⟨number, latest, _⟩ := executeBlock_ok next run
          obtain ⟨receipts, reported, audited⟩ := later (by omega)
          refine ⟨receipt :: receipts, ?_, .block next run audited⟩
          rw [reports, reported, List.map_cons, ← executed]
          rfl

/-- A chain that is founded over an empty state has the genesis coins, each under its digest. -/
theorem genesis_shows {outputs : List (Except InvalidValue Output)} {keys : List Outpoint}
    (run : chain.genesis outputs = (.ok keys, after))
    (empty : ∀ cell, chain.host.get? cell = none) :
    after.host.Shows (storeCoins ((builtOutputs outputs).map Output.atGenesis) fun _ => none) ∧
      after.host.blockNumber = 0 := by
  obtain ⟨_, coins, seeded, rfl, moves, shown, _, zero⟩ := genesis_ok run
  rw [builtOutputs_map_ok, Shows, shown]
  exact ⟨moves.shows (shows_of_empty empty), zero⟩

/-- **The receipts are a complete record of the coins.** A chain over an empty state is founded with
any genesis that succeeds, and then executes fewer than `2 ^ 64` blocks of transactions whose
outputs can be numbered, is given authorities and is opened anew in between. Then every block has a
receipt, and the receipts are numbered from one on without a gap. Each receipt reports the
transactions of its block in order, all of which were applied or rejected, and its events are those
of the transactions that were applied, in order, and after these nothing but rewards. Whoever starts
from the genesis coins and follows the events of all receipts in order has exactly the coins that
the state has and lists. -/
theorem receipts_replay_to_the_coins {host : HostState} (empty : ∀ cell, host.get? cell = none)
    (authorities : List Loose) (verify : Verifier) (longevity : Int)
    {outputs : List (Except InvalidValue Output)} {keys : List Outpoint}
    (seeded : ((ofHost host authorities verify longevity).genesis outputs).1 = .ok keys)
    {operations : List Operation} (ongoing : ∀ operation ∈ operations, operation.Ongoing)
    (few : (submitted operations).length < 2 ^ 64) :
    let founded := ((ofHost host authorities verify longevity).genesis outputs).2
    let state := (founded.performAll operations).host
    ∃ receipts : List Receipt, founded.reports operations = receipts.map .ok ∧
      receipts.map Receipt.number = List.range' 1 (submitted operations).length ∧
      List.Forall₂ Receipt.Covers receipts (submitted operations) ∧
      let coins := receipts.foldl Receipt.replay
        (storeCoins ((builtOutputs outputs).map Output.atGenesis) fun _ => none)
      (∀ key, state.coin? key = .ok (coins key)) ∧
        ∃ listed, state.coins = .ok listed ∧ ∀ name coin, (name, coin) ∈ listed ↔
          ∃ key : Outpoint, key.bytes = name ∧ coins key = some coin := by
  intro founded state
  have run : (ofHost host authorities verify longevity).genesis outputs = (.ok keys, founded) :=
    Prod.ext seeded rfl
  obtain ⟨shows, zero⟩ := genesis_shows run empty
  have begun : founded.host.Sound := by
    have start : (ofHost host authorities verify longevity).host.Sound := sound_of_empty empty
    exact sound_perform start (.genesis outputs)
  rw [← Nat.zero_add (submitted operations).length, ← zero] at few
  obtain ⟨receipts, reported, audited⟩ := exists_audited begun ongoing few
  have shown := audited.replayed _ shows
  have numbers := audited.numbers
  rw [zero] at numbers
  refine ⟨receipts, reported, numbers, audited.covers, shown.coin?_eq, ?_⟩
  have valid := (sound_performAll begun operations).toWellFormed
  obtain ⟨listed, read, _⟩ := valid.coins_eq_ok
  refine ⟨listed, read, fun name coin => ?_⟩
  rw [valid.mem_coins_iff read]
  refine exists_congr fun key => and_congr_right fun _ => ?_
  rw [shown.coin?_eq, Except.ok.injEq]

end

/-- A transaction is submitted twice in the first block, whose authority is paid the fee, and after
a restart there is a block of nothing. The receipts tell of the reward. -/
theorem receipts_tell_of_reward_after_restart :
    let owner : PublicKey := FixedBytes.zero 32
    let other : PublicKey := FixedBytes.truncate 32 [1]
    let coin : Output := ⟨⟨5, by decide⟩, owner⟩
    let tx : Transaction := ⟨[⟨coin.genesisKey, emptySignature⟩], [⟨⟨3, by decide⟩, owner⟩]⟩
    let reward : Output := ⟨⟨2, by decide⟩, other⟩
    let accept : Verifier := fun _ _ _ => true
    let founded := ((ofHost .emptyMemory [] accept 3).genesis [.ok coin]).2
    let operations : List Operation :=
      [.setAuthorities [.bytes other.bytes], .block [tx, tx], .restart [] accept 3, .block []]
    ∃ receipts : List Receipt, founded.reports operations = receipts.map .ok ∧
      receipts.map Receipt.number = [1, 2] ∧
      receipts.foldl Receipt.replay (storeCoins [coin.atGenesis] fun _ => none)
        (reward.rewardKey 1) = some reward := by
  intro owner other coin tx reward accept founded operations
  have seeded : ((ofHost .emptyMemory [] accept 3).genesis [.ok coin]).1 =
      .ok [coin.genesisKey] := by decide +kernel
  have paid : (founded.performAll operations).host.coin? (reward.rewardKey 1) =
      .ok (some reward) := by decide +kernel
  have ongoing : ∀ operation ∈ operations, operation.Ongoing := by decide +kernel
  obtain ⟨receipts, reported, numbers, _, shown, _⟩ := @receipts_replay_to_the_coins _ .emptyMemory
    (fun _ => rfl) [] accept 3 _ _ seeded operations ongoing (by decide)
  refine ⟨receipts, reported, numbers, ?_⟩
  have followed := shown (reward.rewardKey 1)
  rw [paid] at followed
  exact (Except.ok.inj followed).symm

end Chain
end CoinLedger

import CoinLedger.Chain.Block
import CoinLedger.Proofs.Ledger.Finalize
import CoinLedger.Proofs.Ledger.Genesis

/-! # A chain's own cells

The cells with the number of the latest block and with the mark of genesis are neither coins' nor
the pool's, so moves of coins leave them alone. Genesis stores the genesis coins, sets the mark
and sets the number to zero, or leaves the chain as it is (`CoinLedger.Chain.genesis_ok`,
`CoinLedger.Chain.genesis_error`).
-/

namespace CoinLedger

theorem not_coinMark_prefix_blockNumberKey : ¬ coinMark <+: blockNumberKey := by decide +kernel

theorem not_coinMark_prefix_genesisDoneKey : ¬ coinMark <+: genesisDoneKey := by decide +kernel

theorem blockNumberKey_ne_poolKey : blockNumberKey ≠ poolKey := by decide +kernel

theorem genesisDoneKey_ne_poolKey : genesisDoneKey ≠ poolKey := by decide +kernel

theorem genesisDoneKey_ne_blockNumberKey : genesisDoneKey ≠ blockNumberKey := by decide +kernel

namespace HostState

variable (state : HostState) (number : UInt64)

@[simp] theorem coin?_setBlockNumber : (state.setBlockNumber number).coin? = state.coin? :=
  state.coin?_put_of_ne not_coinMark_prefix_blockNumberKey _

@[simp] theorem pool_setBlockNumber : (state.setBlockNumber number).pool = state.pool := by
  apply pool_eq_of_get?_eq
  rw [setBlockNumber, get?_put, if_neg (Ne.symm blockNumberKey_ne_poolKey)]

@[simp] theorem genesisDone_setBlockNumber :
    (state.setBlockNumber number).genesisDone = state.genesisDone := by
  rw [genesisDone, genesisDone, contains, contains, setBlockNumber, get?_put,
    if_neg genesisDoneKey_ne_blockNumberKey]

@[simp] theorem blockNumber_setBlockNumber :
    (state.setBlockNumber number).blockNumber = number.toNat := by
  rw [blockNumber, setBlockNumber, get?_put, if_pos rfl]
  exact ofLittleEndian_u64Bytes number

namespace Moves

variable {before after : HostState} {spent minted : List (Outpoint × Output)}

/-- A move of coins leaves the number of the latest block. -/
theorem blockNumber_eq (moves : Moves before after spent minted) :
    after.blockNumber = before.blockNumber := by
  rw [blockNumber, blockNumber,
    moves.frame not_coinMark_prefix_blockNumberKey blockNumberKey_ne_poolKey]

/-- A move of coins leaves the mark of genesis. -/
theorem genesisDone_eq (moves : Moves before after spent minted) :
    after.genesisDone = before.genesisDone := by
  rw [genesisDone, genesisDone, contains, contains,
    moves.frame not_coinMark_prefix_genesisDoneKey genesisDoneKey_ne_poolKey]

end Moves
end HostState

namespace Chain

open HostState

variable [CoinHash] {chain after : Chain}

/-- What a chain's spend does is what its ledger's does. -/
theorem spend_eq {tx : Transaction} {outcome : Except LedgerError Nat}
    (run : chain.spend tx = (outcome, after)) :
    ∃ ledger, chain.ledger.spend chain.verify tx = (outcome, ledger) ∧
      after = chain.withLedger ledger := by
  unfold spend at run
  cases run
  exact ⟨_, rfl, rfl⟩

/-- A spend that fails leaves the chain as it is. -/
theorem spend_error {tx : Transaction} {error : LedgerError}
    (run : chain.spend tx = (.error error, after)) : after = chain := by
  obtain ⟨ledger, refused, rfl⟩ := spend_eq run
  rw [Ledger.spend_error refused]
  rfl

/-- A spend that succeeds moves the coins of an admissible transaction. -/
theorem spend_ok {tx : Transaction} {fee : Nat} (run : chain.spend tx = (.ok fee, after)) :
    ∃ coins keys, Admissible chain.verify chain.host.coin? tx coins keys fee ∧
      Moves chain.host after.host (tx.outpoints.zip coins) (keys.zip tx.outputs) := by
  obtain ⟨ledger, applied, rfl⟩ := spend_eq run
  obtain ⟨coins, keys, admissible, moves, _⟩ := Ledger.spend_ok applied
  exact ⟨coins, keys, admissible, moves⟩

/-- What a chain does with the pool is what its ledger does. -/
theorem finalize_eq {block : Int} {outcome : Except LedgerError Settlement}
    (run : chain.finalize block = (outcome, after)) :
    ∃ ledger, chain.ledger.finalize chain.authorities block = (outcome, ledger) ∧
      after = chain.withLedger ledger := by
  unfold finalize at run
  cases run
  exact ⟨_, rfl, rfl⟩

/-- Dealing with the pool stores the rewards that its events name or leaves the coins as they are.
An empty pool stays empty and pays nothing. -/
theorem finalize_cases {block : Int} {outcome : Except LedgerError Settlement}
    (run : chain.finalize block = (outcome, after)) :
    (∃ (share : Nat) (events : List Event) (carry : Nat) (number : UInt64),
      outcome = .ok (.dispersed share events carry) ∧ block = number.toNat ∧
        chain.host.pool ≠ 0 ∧
        Moves chain.host after.host [] ((rewardsOf events).map (Output.asReward number))) ∨
      (after.host = chain.host ∧
        ∀ share events carry, outcome ≠ .ok (.dispersed share events carry)) := by
  obtain ⟨ledger, settled, rfl⟩ := finalize_eq run
  rcases Ledger.finalize_cases settled with ⟨share, events, carry, rfl⟩ | ⟨same, _, others⟩
  · obtain ⟨number, numbered, divided, enough, moves, _⟩ := Ledger.finalize_dispersed settled
    refine .inl ⟨share, events, carry, number, rfl, numbered, ?_, moves⟩
    intro empty
    rw [← host, empty, Nat.zero_div] at divided
    exact enough divided
  · exact .inr ⟨same, others⟩

/-- Whatever comes of dealing with the pool, the coins that are stored are the rewards of the events
that are deposited, all of some value and with keys of their own. -/
theorem finalize_recorded {block : Int} {outcome : Except LedgerError Settlement}
    (run : chain.finalize block = (outcome, after)) :
    ∃ (number : UInt64) (rewards : List Event),
      (rewards = [] ∨ block = number.toNat) ∧ (∀ event ∈ rewards, event.IsReward) ∧
      (∀ coin ∈ rewardsOf rewards, coin.value.toNat ≠ 0) ∧
      Moves chain.host after.host [] ((rewardsOf rewards).map (Output.asReward number)) ∧
      ((rewardsOf rewards).map fun coin => coin.rewardKey number).Nodup ∧
      after.ledger.events = chain.ledger.events ++ rewards := by
  obtain ⟨ledger, settled, rfl⟩ := finalize_eq run
  exact Ledger.finalize_recorded settled

/-- What a chain's genesis does to its state, in a transaction of its own. -/
def foundOn (outputs : List (Except InvalidValue Output)) (state : HostState) :
    Except LedgerError (List Outpoint) × HostState :=
  match state.atomically (seedFrom 0 outputs) with
  | (.error error, after) => (.error error, after)
  | (.ok keys, after) => (.ok keys, (after.put genesisDoneKey [1]).setBlockNumber 0)

/-- Genesis leaves alone what lies outside the innermost transaction. -/
theorem foundOn_confined (outputs : List (Except InvalidValue Output)) :
    Confined (foundOn outputs) := by
  intro state base inside
  have seededInside : (state.atomically (seedFrom 0 outputs)).2.InnerOf base :=
    Confined.atomically (seedFrom_confined 0 outputs) inside
  unfold foundOn
  rcases seeded : state.atomically (seedFrom 0 outputs) with ⟨error | keys, after⟩
  · exact congrArg Prod.snd seeded ▸ seededInside
  · rw [seeded] at seededInside
    exact (seededInside.put _ _).put _ _

section

variable {outputs : List (Except InvalidValue Output)}

/-- Genesis is refused after it was done; otherwise the coins, the mark and the number are stored
together. -/
theorem genesis_eq :
    chain.genesis outputs =
      if chain.host.genesisDone then (.error .genesisDone, chain)
      else
        let (outcome, host) := chain.host.atomically (foundOn outputs)
        (outcome, chain.withLedger { chain.ledger with host }) := rfl

/-- Genesis succeeds, once, if the coins have some value and their digests are free and distinct. -/
theorem exists_genesis {coins : List Output} (unfounded : ¬ chain.host.genesisDone)
    (positive : ∀ coin ∈ coins, coin.value.toNat ≠ 0)
    (distinct : (coins.map Output.genesisKey).Nodup)
    (free : ∀ coin ∈ coins, ¬ chain.host.hasCoin coin.genesisKey) :
    ∃ keys host, chain.genesis (coins.map .ok) =
      (.ok keys, chain.withLedger { chain.ledger with host }) := by
  have freeWithin : ∀ coin ∈ coins, ¬ chain.host.enter.enter.hasCoin coin.genesisKey := by
    simpa only [hasCoin, contains, get?_enter] using free
  obtain ⟨keys, seeded, run⟩ := exists_seeded positive distinct freeWithin 0
  rw [genesis_eq, if_neg unfounded]
  refine ⟨keys, ((seeded.commit.put genesisDoneKey [1]).setBlockNumber 0).commit, ?_⟩
  simp only [atomically, foundOn, run]

/-- A chain's genesis that fails leaves the chain as it is. -/
theorem genesis_error {error : LedgerError}
    (run : chain.genesis outputs = (.error error, after)) : after = chain := by
  rw [genesis_eq] at run
  split at run
  · cases run
    rfl
  · rcases founded : chain.host.atomically (foundOn outputs) with ⟨outcome, host⟩
    rw [founded] at run
    cases run
    obtain ⟨rfl, _⟩ := atomically_error (foundOn_confined outputs) founded
    rfl

/-- A chain's genesis that succeeds has seeded coins of some value, and then written the mark and
the number. -/
theorem genesis_founded {keys : List Outpoint} (run : chain.genesis outputs = (.ok keys, after)) :
    chain.host.genesisDone = false ∧ ∃ (coins : List Output) (seeded : HostState),
      outputs = coins.map .ok ∧ (∀ coin ∈ coins, coin.value.toNat ≠ 0) ∧
        Moves chain.host seeded [] (coins.map Output.atGenesis) ∧
        ∀ cell, after.host.get? cell =
          ((seeded.put genesisDoneKey [1]).setBlockNumber 0).get? cell := by
  rw [genesis_eq] at run
  split at run
  · cases run
  · rename_i unfounded
    rcases founded : chain.host.atomically (foundOn outputs) with ⟨outcome, host⟩
    rw [founded] at run
    cases run
    obtain ⟨inner, done, rfl⟩ := atomically_ok founded
    unfold foundOn at done
    split at done
    · cases done
    · rename_i seeded stored
      cases done
      obtain ⟨coins, rfl, _, positive, _, moves, _⟩ := atomically_seedFrom_ok stored
      refine ⟨Bool.eq_false_iff.mpr unfounded, coins, seeded.commit, rfl, positive,
        moves.atomically, fun cell => ?_⟩
      change (HostState.commit _).get? cell = _
      rw [get?_commit]
      simp only [setBlockNumber, get?_put, get?_commit]

/-- **Genesis stores the genesis coins under their digests, once, and starts at block zero.** -/
theorem genesis_ok {keys : List Outpoint} (run : chain.genesis outputs = (.ok keys, after)) :
    chain.host.genesisDone = false ∧ ∃ (coins : List Output) (seeded : HostState),
      outputs = coins.map .ok ∧ Moves chain.host seeded [] (coins.map Output.atGenesis) ∧
        after.host.coin? = seeded.coin? ∧ after.host.genesisDone = true ∧
        after.host.blockNumber = 0 := by
  obtain ⟨fresh, coins, seeded, spelled, _, moves, cells⟩ := genesis_founded run
  refine ⟨fresh, coins, seeded, spelled, moves, ?_, ?_, ?_⟩
  · funext key
    rw [coin?_eq_coinIn, cells, ← coin?_eq_coinIn, coin?_setBlockNumber,
      coin?_put_of_ne _ not_coinMark_prefix_genesisDoneKey]
  · rw [genesisDone, contains, cells, setBlockNumber, get?_put,
      if_neg genesisDoneKey_ne_blockNumberKey, get?_put, if_pos rfl]
    rfl
  · rw [blockNumber, cells, setBlockNumber, get?_put, if_pos rfl]
    exact ofLittleEndian_u64Bytes 0

end

end Chain
end CoinLedger

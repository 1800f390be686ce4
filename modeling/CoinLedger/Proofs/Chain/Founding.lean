import CoinLedger.Proofs.Chain.Replay
import CoinLedger.Proofs.Validation.FirstFault

/-! # Founding a chain

Coins are seeded exactly when the state admits them (`CoinLedger.Ledger.exists_seed_iff`): then they
are stored and nothing else changes (`CoinLedger.Ledger.seed_seeded`), and otherwise the first coin
at fault is named (`CoinLedger.Ledger.seed_fault`). Seeding looks at the cells of the state alone
(`CoinLedger.seedFrom_congr`), so that it comes to the same within a chain's genesis, which sets two
cells more and can be done once (`CoinLedger.Chain.genesis_adds_mark_and_number`).
-/

namespace CoinLedger

section

variable [CoinHash]

/-- A coin cannot be seeded after others. -/
def Unseedable (taken : Outpoint → Bool) (earlier : List Output) (coin : Output) : Prop :=
  coin.value.toNat = 0 ∨ taken coin.genesisKey = true ∨
    coin.genesisKey ∈ earlier.map Output.genesisKey

/-- How the coin at a position is refused. Want of value comes before the key. -/
def Output.seedingFault (coin : Output) (index : Nat) : LedgerError :=
  .invalid (if coin.value.toNat = 0 then .zeroGenesisOutput index
    else .duplicateGenesisKey index (Hex.encode coin.genesisKey.bytes))

namespace HostState

/-- A state admits genesis coins. -/
structure Admits (state : HostState) (coins : List Output) : Prop where
  /-- Each coin has some value. -/
  valued : ∀ coin ∈ coins, 1 ≤ coin.value.toNat
  /-- Their keys are distinct. -/
  distinct : (coins.map Output.genesisKey).Nodup
  /-- There is nothing under their keys. -/
  free : ∀ coin ∈ coins, state.hasCoin coin.genesisKey = false

/-- Genesis coins have come into a state, and nothing else has changed. -/
structure Seeded (before after : HostState) (coins : List Output) : Prop where
  /-- Each coin is found under its key. -/
  stored : ∀ coin ∈ coins, after.coin? coin.genesisKey = .ok (some coin)
  /-- Every cell that is not one of theirs is as it was. -/
  frame : ∀ cell, (∀ coin ∈ coins, coinCell coin.genesisKey ≠ cell) →
    after.get? cell = before.get? cell
  /-- Their amounts come on top of the total. -/
  total : ∃ total, before.totalValue = .ok total ∧
    after.totalValue = .ok (total + (coins.map fun coin => coin.value.toNat).sum)

end HostState

open HostState

omit [CoinHash] in
theorem map_ok_injective {ε α : Type} :
    Function.Injective (List.map (Except.ok : α → Except ε α)) :=
  List.map_injective_iff.mpr fun _ _ => Except.ok.inj

omit [CoinHash] in
theorem hasCoin_congr {left right : HostState} (same : ∀ cell, left.get? cell = right.get? cell) :
    left.hasCoin = right.hasCoin := by
  funext key
  rw [hasCoin, hasCoin, contains, contains, same]

/-- Seeding looks at the cells of a state, not at how they came about. -/
theorem seedFrom_congr {left right : HostState} (same : ∀ cell, left.get? cell = right.get? cell)
    (index : Nat) (outputs : List (Except InvalidValue Output)) :
    (seedFrom index outputs left).1 = (seedFrom index outputs right).1 ∧
      ∀ cell, (seedFrom index outputs left).2.get? cell =
        (seedFrom index outputs right).2.get? cell := by
  induction outputs generalizing left right index with
  | nil => exact ⟨rfl, same⟩
  | cons output outputs inductive_step =>
      cases output with
      | error reason => exact ⟨rfl, same⟩
      | ok coin =>
          have stored : ∀ cell, (left.addCoin coin.genesisKey coin).get? cell =
              (right.addCoin coin.genesisKey coin).get? cell := by
            intro cell
            rw [addCoin, addCoin, get?_put, get?_put, same]
          obtain ⟨outcomes, cells⟩ := inductive_step stored (index + 1)
          rw [seedFrom, seedFrom, hasCoin_congr same]
          split
          · exact ⟨rfl, same⟩
          · dsimp only
            split
            · exact ⟨rfl, same⟩
            · rcases first : seedFrom (index + 1) outputs (left.addCoin coin.genesisKey coin) with
                ⟨outcome, one⟩
              rcases second : seedFrom (index + 1) outputs (right.addCoin coin.genesisKey coin) with
                ⟨_, other⟩
              rw [first, second] at outcomes cells
              cases outcomes
              cases outcome <;> exact ⟨rfl, cells⟩

/-- Seeding that fails names the first coin that cannot be seeded. -/
theorem seedFrom_eq_error {coins : List Output} {state after : HostState} {index : Nat}
    {error : LedgerError} (failed : seedFrom index (coins.map .ok) state = (.error error, after)) :
    ∃ offset coin, error = coin.seedingFault (index + offset) ∧
      FirstFault (Unseedable state.hasCoin) coins offset coin := by
  induction coins generalizing state index with
  | nil => cases failed
  | cons coin coins inductive_step =>
      rw [List.map_cons, seedFrom] at failed
      by_cases worthless : coin.value.toNat = 0
      · rw [if_pos worthless] at failed
        cases failed
        refine ⟨0, coin, ?_, .head (.inl worthless) coins⟩
        rw [Output.seedingFault, if_pos worthless, Nat.add_zero]
      · rw [if_neg worthless] at failed
        dsimp only at failed
        by_cases taken : state.hasCoin coin.genesisKey = true
        · rw [if_pos taken] at failed
          cases failed
          refine ⟨0, coin, ?_, .head (.inr (.inl taken)) coins⟩
          rw [Output.seedingFault, if_neg worthless, Nat.add_zero]
        · rw [if_neg taken] at failed
          split at failed
          · cases failed
          · rename_i later
            cases failed
            obtain ⟨offset, other, rfl, fault⟩ := inductive_step later
            refine ⟨offset + 1, other, by rw [Nat.add_right_comm, Nat.add_assoc],
              .tail ?_ (fault.congr fun earlier item _ => ?_)⟩
            · simp [Unseedable, worthless, taken]
            -- The key of a coin that has just been stored is the key of an earlier coin.
            · simp only [Unseedable, hasCoin_addCoin_iff, List.map_cons, List.mem_cons]
              tauto

namespace Ledger

variable {ledger after : Ledger} {coins : List Output}

/-- Seeding answers what storing the coins one after another answers. -/
theorem seed_fst (ledger : Ledger) (outputs : List (Except InvalidValue Output)) :
    (ledger.seed outputs).1 = (seedFrom 0 outputs ledger.host).1 := by
  rw [← (seedFrom_congr ledger.host.get?_enter 0 outputs).1]
  unfold seed atomically
  rcases seedFrom 0 outputs ledger.host.enter with ⟨error | keys, inner⟩ <;> rfl

/-- **Coins are seeded exactly when the state admits them.** -/
theorem exists_seed_iff :
    (∃ keys, (ledger.seed (coins.map .ok)).1 = .ok keys) ↔ ledger.host.Admits coins := by
  rw [seed_fst]
  constructor
  · rintro ⟨keys, seeded⟩
    obtain ⟨others, same, rfl, valued, distinct, free, _⟩ := seedFrom_ok (Prod.ext seeded rfl)
    obtain rfl : coins = others := map_ok_injective same
    refine ⟨fun coin member => Nat.pos_of_ne_zero (valued coin member), distinct, ?_⟩
    exact fun coin member =>
      (ledger.host.hasCoin_eq_false_iff _).mpr (free _ (List.mem_map_of_mem member))
  · intro admits
    obtain ⟨keys, inner, seeded⟩ :=
      exists_seeded (fun coin member => Nat.ne_of_gt (admits.valued coin member)) admits.distinct
        (fun coin member => Bool.eq_false_iff.mp (admits.free coin member)) 0
    exact ⟨keys, congrArg Prod.fst seeded⟩

/-- The cells after coins were seeded are those after storing them. -/
theorem get?_seed {keys : List Outpoint} (run : ledger.seed (coins.map .ok) = (.ok keys, after))
    (cell : ByteString) :
    after.host.get? cell =
      (addCoins (coins.map Output.atGenesis) ledger.host).get? cell := by
  unfold seed at run
  rcases seeded : ledger.host.atomically (seedFrom 0 (coins.map .ok)) with ⟨outcome, host⟩
  rw [seeded] at run
  cases run
  obtain ⟨inner, stored, rfl⟩ := atomically_ok seeded
  obtain ⟨others, same, _, _, _, _, rfl⟩ := seedFrom_ok stored
  obtain rfl : coins = others := map_ok_injective same
  exact (get?_commit _ cell).trans (get?_addCoins_congr (ledger.host.get?_enter cell) _)

/-- **Coins that are seeded come into the set, and nothing else changes.** -/
theorem seed_seeded (valid : ledger.host.WellFormed) {keys : List Outpoint}
    (run : ledger.seed (coins.map .ok) = (.ok keys, after)) :
    keys = coins.map Output.genesisKey ∧ ledger.host.Seeded after.host coins ∧
      after = { ledger with host := after.host } := by
  obtain ⟨others, same, rfl, distinct, moves, _, rest⟩ := seed_ok run
  obtain rfl : coins = others := map_ok_injective same
  have names : (coins.map Output.atGenesis).map Prod.fst = coins.map Output.genesisKey :=
    List.map_map
  rw [← names] at distinct
  refine ⟨rfl, ⟨fun coin member => ?_, fun cell other => ?_, _, valid.totalValue_eq, ?_⟩, rest⟩
  · exact moves.found distinct (List.mem_map_of_mem member)
  · rw [get?_seed run, get?_addCoins_of_ne]
    rw [names]
    exact List.forall_mem_map.mpr other
  · have grown := moves.worth_eq (fun coin => coin.value.toNat) distinct
    rw [List.map_map] at grown
    rw [(moves.wellFormed valid).totalValue_eq]
    exact congrArg Except.ok grown

/-- **Seeding that fails changes nothing and names the first coin at fault.** -/
theorem seed_fault {error : LedgerError}
    (run : ledger.seed (coins.map .ok) = (.error error, after)) :
    after = ledger ∧ ∃ index coin, error = coin.seedingFault index ∧
      FirstFault (Unseedable ledger.host.hasCoin) coins index coin := by
  have failed := (ledger.seed_fst (coins.map .ok)).symm.trans (congrArg Prod.fst run)
  obtain ⟨index, coin, rfl, fault⟩ := seedFrom_eq_error (Prod.ext failed rfl)
  rw [Nat.zero_add]
  exact ⟨seed_error run, index, coin, rfl, fault⟩

end Ledger

namespace Chain

variable {chain : Chain}

/-- Genesis changes nothing but the state. -/
theorem genesis_withLedger (chain : Chain) (outputs : List (Except InvalidValue Output)) :
    (chain.genesis outputs).2 =
      chain.withLedger { chain.ledger with host := (chain.genesis outputs).2.host } := by
  rw [genesis_eq]
  split <;> rfl

/-- **Genesis comes to what seeding comes to, and writes the mark and the number besides.** -/
theorem genesis_adds_mark_and_number (unfounded : chain.host.genesisDone = false)
    (outputs : List (Except InvalidValue Output)) :
    (chain.genesis outputs).1 = (chain.ledger.seed outputs).1 ∧
      ∀ keys, (chain.ledger.seed outputs).1 = .ok keys → ∀ cell,
        (chain.genesis outputs).2.host.get? cell =
          if cell = blockNumberKey then some (u64Bytes 0)
          else if cell = genesisDoneKey then some [1]
          else (chain.ledger.seed outputs).2.host.get? cell := by
  have alike := seedFrom_congr chain.host.enter.get?_enter 0 outputs
  unfold Ledger.seed
  rw [genesis_eq, unfounded, ← host]
  unfold atomically foundOn atomically
  rcases nested : seedFrom 0 outputs chain.host.enter.enter with ⟨outcome, inner⟩
  rcases flat : seedFrom 0 outputs chain.host.enter with ⟨_, outer⟩
  rw [nested, flat] at alike
  obtain ⟨rfl, cells⟩ := alike
  cases outcome with
  | error error =>
      refine ⟨rfl, fun keys seeded => ?_⟩
      cases seeded
  | ok keys =>
      refine ⟨rfl, fun _ _ cell => (get?_commit _ cell).trans ?_⟩
      rw [setBlockNumber, get?_put, get?_put, get?_commit, cells, get?_commit]

/-- A chain that is founded stays founded, whatever is done with it. -/
theorem founded_perform (founded : chain.host.genesisDone = true) (operation : Operation) :
    (chain.perform operation).host.genesisDone = true := by
  cases operation with
  | genesis outputs =>
      rw [perform, genesis_eq, founded]
      exact founded
  | block txs => exact (onward_executeBlock rfl).founded.trans founded
  | apply tx => exact (onward_apply rfl).founded.trans founded
  | setAuthorities authorities => exact founded
  | restart authorities verify longevity => exact founded

/-- A chain that is founded stays so. -/
theorem founded_performAll (founded : chain.host.genesisDone = true)
    (operations : List Operation) : (chain.performAll operations).host.genesisDone = true := by
  induction operations generalizing chain with
  | nil => exact founded
  | cons operation operations inductive_step =>
      exact inductive_step (founded_perform founded operation)

/-- **What genesis does, exactly.** Over a state whose cells can be read, coins are seeded if and
only if each has some value, their keys are distinct and none of the keys is taken. Then their keys
are returned in order, the coins are in the set under them, every other cell is as it was, also the
pool's, the total has grown by the amounts, and neither events nor counters have changed. Otherwise
the first coin at fault is named, one without value for that and any other for its key, and nothing
has changed. The genesis of a chain that has had none comes to the same. It writes the mark and the
number zero besides, into the same state, and from then on every genesis fails and changes nothing,
whatever has been done with the chain in between. -/
theorem genesis_stores_all_or_names_a_fault (valid : chain.host.WellFormed) (coins : List Output) :
    let state := chain.host
    let seeding := chain.ledger.seed (coins.map .ok)
    let founding := chain.genesis (coins.map .ok)
    ((∃ keys, seeding.1 = .ok keys) ↔ state.Admits coins) ∧
    (∀ keys, seeding.1 = .ok keys →
      keys = coins.map Output.genesisKey ∧ state.Seeded seeding.2.host coins ∧
        seeding.2 = { chain.ledger with host := seeding.2.host }) ∧
    (∀ error, seeding.1 = .error error →
      seeding.2 = chain.ledger ∧ ∃ index coin, error = coin.seedingFault index ∧
        FirstFault (Unseedable state.hasCoin) coins index coin) ∧
    (state.genesisDone = true → founding = (.error .genesisDone, chain)) ∧
    (state.genesisDone = false →
      founding.1 = seeding.1 ∧ (∀ error, founding.1 = .error error → founding.2 = chain) ∧
      ∀ keys, founding.1 = .ok keys →
        founding.2 = chain.withLedger { chain.ledger with host := founding.2.host } ∧
        (∀ cell, founding.2.host.get? cell =
          if cell = blockNumberKey then some (u64Bytes 0)
          else if cell = genesisDoneKey then some [1]
          else seeding.2.host.get? cell) ∧
        founding.2.host.genesisDone = true ∧ founding.2.host.blockNumber = 0 ∧
        ∀ operations outputs, let later := founding.2.performAll operations
          later.genesis outputs = (.error .genesisDone, later)) := by
  intro state seeding founding
  refine ⟨Ledger.exists_seed_iff, fun keys seeded => ?_, fun error failed => ?_, fun founded => ?_,
    fun unfounded => ?_⟩
  · exact Ledger.seed_seeded valid (Prod.ext seeded rfl)
  · exact Ledger.seed_fault (Prod.ext failed rfl)
  · exact (genesis_eq ..).trans (if_pos founded)
  · obtain ⟨same, cells⟩ := genesis_adds_mark_and_number unfounded (coins.map .ok)
    refine ⟨same, fun error failed => genesis_error (Prod.ext failed rfl), fun keys run => ?_⟩
    obtain ⟨_, _, _, _, _, _, done, zero⟩ := genesis_ok (Prod.ext run rfl)
    refine ⟨chain.genesis_withLedger _, cells keys (same.symm.trans run), done, zero, ?_⟩
    exact fun operations outputs =>
      (genesis_eq ..).trans (if_pos (founded_performAll done operations))

end Chain

end

/-- Two coins are seeded into an empty state, and a block and a restart later there is no second
genesis. -/
theorem Chain.genesis_of_two_coins_is_the_last :
    let coin : Output := ⟨⟨5, by decide⟩, FixedBytes.zero 32⟩
    let other : Output := ⟨⟨7, by decide⟩, FixedBytes.zero 32⟩
    let accept : Verifier := fun _ _ _ => true
    let start := ofHost .emptyMemory [] accept 3
    let founding := start.genesis [.ok coin, .ok other]
    let later := founding.2.performAll [.block [], .restart [] accept 5]
    start.host.WellFormed ∧ founding.1 = .ok [coin.genesisKey, other.genesisKey] ∧
      later.genesis [.ok coin] = (.error .genesisDone, later) := by
  intro coin other accept start founding later
  have valid : start.host.WellFormed := HostState.wellFormed_of_empty fun _ => rfl
  have run : founding.1 = .ok [coin.genesisKey, other.genesisKey] := by decide +kernel
  obtain ⟨_, _, _, _, unfounded⟩ :=
    @genesis_stores_all_or_names_a_fault _ start valid [coin, other]
  obtain ⟨_, _, founded⟩ := unfounded rfl
  obtain ⟨_, _, _, _, closed⟩ := founded _ run
  exact ⟨valid, run, closed _ _⟩

end CoinLedger

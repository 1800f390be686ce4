import CoinLedger.Ledger.Genesis
import CoinLedger.Proofs.CoinSet.Cells

/-! # What seeding does

Seeding stores every genesis coin under its own digest, all of which were free and are distinct
(`CoinLedger.Ledger.seed_ok`), or leaves the ledger as it is (`CoinLedger.Ledger.seed_error`).
-/

namespace CoinLedger

variable [CoinHash]

open HostState

/-- A genesis coin with its key. -/
def Output.atGenesis (coin : Output) : Outpoint × Output := (coin.genesisKey, coin)

theorem seedFrom_confined (index : Nat) (outputs : List (Except InvalidValue Output)) :
    Confined (seedFrom index outputs) := by
  intro state base inside
  induction outputs generalizing index state with
  | nil => exact inside
  | cons output outputs inductive_step =>
      cases output with
      | error reason => exact inside
      | ok coin =>
          rw [seedFrom]
          split
          · exact inside
          · dsimp only
            split
            · exact inside
            · have later := inductive_step (index + 1)
                (inside.put (coinCell coin.genesisKey) coin.encode)
              rcases seeded : seedFrom (index + 1) outputs (state.addCoin coin.genesisKey coin) with
                ⟨error | keys, after⟩
              · exact congrArg Prod.snd seeded ▸ later
              · exact congrArg Prod.snd seeded ▸ later

/-- Seeding that ends well has stored every coin under its digest, all of them free and distinct,
and none of them without value. -/
theorem seedFrom_ok {index : Nat} {outputs : List (Except InvalidValue Output)}
    {state after : HostState} {keys : List Outpoint}
    (seeded : seedFrom index outputs state = (.ok keys, after)) :
    ∃ coins : List Output, outputs = coins.map .ok ∧ keys = coins.map Output.genesisKey ∧
      (∀ coin ∈ coins, coin.value.toNat ≠ 0) ∧ keys.Nodup ∧
      (∀ key ∈ keys, state.coin? key = .ok none) ∧
      after = addCoins (coins.map Output.atGenesis) state := by
  induction outputs generalizing index state keys with
  | nil =>
      cases seeded
      exact ⟨[], rfl, rfl, (fun _ member => by cases member), List.nodup_nil,
        (fun _ member => by cases member), rfl⟩
  | cons output outputs inductive_step =>
      cases output with
      | error reason => cases seeded
      | ok coin =>
          rw [seedFrom] at seeded
          split at seeded
          · cases seeded
          · rename_i valued
            dsimp only at seeded
            split at seeded
            · cases seeded
            · rename_i free
              split at seeded
              · rename_i later seededLater
                cases seeded
                obtain ⟨coins, rfl, rfl, positive, distinct, absent, rfl⟩ :=
                  inductive_step seededLater
                refine ⟨coin :: coins, rfl, rfl, List.forall_mem_cons.mpr ⟨valued, positive⟩,
                  List.nodup_cons.mpr ⟨?_, distinct⟩, ?_, rfl⟩
                · intro member
                  exact ((state.coin?_addCoin_eq_none_iff).mp (absent _ member)).1 rfl
                · intro key member
                  rcases List.mem_cons.mp member with rfl | member
                  · exact (state.hasCoin_eq_false_iff _).mp (Bool.eq_false_iff.mpr free)
                  · exact ((state.coin?_addCoin_eq_none_iff).mp (absent key member)).2
              · cases seeded

/-- Coins of some value are seeded if their digests are free and distinct. -/
theorem exists_seeded {coins : List Output} (positive : ∀ coin ∈ coins, coin.value.toNat ≠ 0)
    (distinct : (coins.map Output.genesisKey).Nodup) {state : HostState}
    (free : ∀ coin ∈ coins, ¬ state.hasCoin coin.genesisKey) (index : Nat) :
    ∃ keys after, seedFrom index (coins.map .ok) state = (.ok keys, after) := by
  induction coins generalizing state index with
  | nil => exact ⟨[], state, rfl⟩
  | cons coin coins inductive_step =>
      obtain ⟨valued, others⟩ := List.forall_mem_cons.mp positive
      obtain ⟨freeHere, freeLater⟩ := List.forall_mem_cons.mp free
      obtain ⟨unlike, distinctLater⟩ := List.nodup_cons.mp distinct
      have stillFree : ∀ other ∈ coins,
          ¬ (state.addCoin coin.genesisKey coin).hasCoin other.genesisKey := by
        intro other member taken
        rcases state.hasCoin_addCoin_iff.mp taken with same | before
        · exact unlike (same ▸ List.mem_map_of_mem member)
        · exact freeLater other member before
      obtain ⟨keys, after, later⟩ := inductive_step others distinctLater stillFree (index + 1)
      refine ⟨coin.genesisKey :: keys, after, ?_⟩
      rw [List.map_cons, seedFrom, if_neg valued]
      dsimp only
      rw [if_neg freeHere, later]

/-- Seeding in a transaction that is kept moves the genesis coins into the set. -/
theorem atomically_seedFrom_ok {outputs : List (Except InvalidValue Output)}
    {state after : HostState} {keys : List Outpoint}
    (seeded : state.atomically (seedFrom 0 outputs) = (.ok keys, after)) :
    ∃ coins : List Output, outputs = coins.map .ok ∧ keys = coins.map Output.genesisKey ∧
      (∀ coin ∈ coins, coin.value.toNat ≠ 0) ∧ keys.Nodup ∧
      Moves state after [] (coins.map Output.atGenesis) ∧ after.pool = state.pool := by
  obtain ⟨inner, stored, rfl⟩ := atomically_ok seeded
  obtain ⟨coins, rfl, rfl, positive, distinct, absent, rfl⟩ := seedFrom_ok stored
  refine ⟨coins, rfl, rfl, positive, distinct, ?_, ?_⟩
  · apply Moves.atomically
    apply Moves.store
    intro entry member
    obtain ⟨coin, inside, rfl⟩ := List.mem_map.mp member
    exact absent _ (List.mem_map_of_mem inside)
  · rw [pool_commit, pool_addCoins, pool_enter]

namespace Ledger

variable {ledger after : Ledger} {outputs : List (Except InvalidValue Output)}

/-- Seeding that fails leaves the ledger as it is. -/
theorem seed_error {error : LedgerError} (run : ledger.seed outputs = (.error error, after)) :
    after = ledger := by
  unfold seed at run
  rcases seeded : ledger.host.atomically (seedFrom 0 outputs) with ⟨outcome, host⟩
  rw [seeded] at run
  cases run
  obtain ⟨rfl, _⟩ := atomically_error (seedFrom_confined 0 outputs) seeded
  rfl

/-- **Seeding that succeeds stores the genesis coins under their digests.** -/
theorem seed_ok {keys : List Outpoint} (run : ledger.seed outputs = (.ok keys, after)) :
    ∃ coins : List Output, outputs = coins.map .ok ∧ keys = coins.map Output.genesisKey ∧
      keys.Nodup ∧ Moves ledger.host after.host [] (coins.map Output.atGenesis) ∧
      after.host.pool = ledger.host.pool ∧ after = { ledger with host := after.host } := by
  unfold seed at run
  rcases seeded : ledger.host.atomically (seedFrom 0 outputs) with ⟨outcome, host⟩
  rw [seeded] at run
  cases run
  obtain ⟨coins, spelled, named, _, distinct, moves, pool⟩ := atomically_seedFrom_ok seeded
  exact ⟨coins, spelled, named, distinct, moves, pool, rfl⟩

end Ledger
end CoinLedger

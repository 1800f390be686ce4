import CoinLedger.Crypto.Blake2b
import CoinLedger.Proofs.Ledger.Conservation
import CoinLedger.Proofs.Ledger.Progress

/-! # Honest supply

The coins of a ledger and its pool are together worth at most what was seeded, over every run and
across restarts (`CoinLedger.Ledger.supply_live_le`). Distinct coins that a transaction spends are
part of this, and so are the pool and the fee. If what was seeded fits in 128 bits, then no sum
leaves these except that of a transaction's own outputs
(`CoinLedger.Ledger.honest_supply_never_overflows`). Nothing is assumed of the hash function.
-/

namespace CoinLedger

open HostState

namespace HostState

/-- The worth of all coins and of the pool. -/
def supply (state : HostState) : Nat := state.worth (fun coin => coin.value.toNat) + state.pool

variable {state : HostState} {coins : Outpoint → Option Output} {tx : Transaction}

theorem Shows.worthOf_eq (shows : state.Shows coins) (key : Outpoint) :
    worthOf (fun coin => coin.value.toNat) (state.coin? key) = amountOf (coins key) := by
  rw [shows.coin?_eq]
  cases coins key <;> rfl

/-- Coins that are spent once each are not worth more than all coins. -/
theorem Shows.sum_spentAmounts_le (shows : state.Shows coins) (once : tx.outpoints.Nodup) :
    (tx.spentAmounts coins).sum ≤ state.worth fun coin => coin.value.toNat := by
  have taken := @worth_removeCoins_add state (fun coin => coin.value.toNat) tx.outpoints once
  have same : (tx.outpoints.map fun key =>
      worthOf (fun coin => coin.value.toNat) (state.coin? key)) = tx.spentAmounts coins := by
    rw [Transaction.outpoints, List.map_map]
    exact List.map_congr_left fun input _ => shows.worthOf_eq input.outpoint
  rw [same] at taken
  omega

end HostState

namespace Ledger

section

variable [CoinHash]

/-- The value of the outputs that a step seeds. -/
def seededBy (ledger : Ledger) : Step → Nat
  | .call operation => seededValue (operation, (ledger.perform operation).1)
  | .restart _ => 0

/-- The value of all outputs that are seeded in the course of steps. -/
def seededOver (ledger : Ledger) : List Step → Nat
  | [] => 0
  | step :: steps => ledger.seededBy step + (ledger.advance step).2.seededOver steps

omit [CoinHash] in
/-- Coins and pool are part of the holdings. -/
theorem supply_le_holdings (ledger : Ledger) : ledger.host.supply ≤ ledger.holdings :=
  Nat.le_add_right _ _

/-- A step adds at most what it seeds to the holdings. -/
theorem holdings_advance_le (ledger : Ledger) (step : Step) :
    (ledger.advance step).2.holdings ≤ ledger.holdings + ledger.seededBy step := by
  cases step with
  | call operation => exact (ledger.holdings_perform operation).1
  | restart events => exact ledger.supply_le_holdings

/-- **Steps add at most what they seed to the holdings.** -/
theorem holdings_live_le (ledger : Ledger) (steps : List Step) :
    (ledger.live steps).holdings ≤ ledger.holdings + ledger.seededOver steps := by
  induction steps generalizing ledger with
  | nil => exact Nat.le_refl _
  | cons step steps inductive_step =>
      have first := ledger.holdings_advance_le step
      have later := inductive_step (ledger.advance step).2
      rw [live_cons, seededOver]
      omega

/-- **The supply never exceeds what was seeded.** -/
theorem supply_live_le {host : HostState} (empty : ∀ cell, host.get? cell = none)
    (events : List Event) (steps : List Step) :
    ((ofHost host events).live steps).host.supply ≤ (ofHost host events).seededOver steps := by
  have held := (ofHost host events).holdings_live_le steps
  rw [holdings_ofHost empty, Nat.zero_add] at held
  exact Nat.le_trans (supply_le_holdings _) held

section

variable {ledger : Ledger} {verify : Verifier} {tx : Transaction} {coins : Outpoint → Option Output}
  (shows : ledger.host.Shows coins)

include shows

/-- A fee is part of the coins that are spent. -/
theorem pool_add_fee_le_supply {fee : Nat}
    (accepted : validate verify ledger.host.coin? tx = .ok fee) :
    ledger.host.pool + fee ≤ ledger.host.supply := by
  obtain ⟨found, keys, admissible⟩ := validate_eq_ok_iff.mp accepted
  rw [shows] at admissible
  have present : Present coins tx.inputs found := admissible.present
  have spent := shows.sum_spentAmounts_le admissible.outpoints
  have balanced := admissible.balanced
  rw [present.amounts_eq] at balanced
  rw [Transaction.spentAmounts] at spent
  rw [HostState.supply]
  omega

variable (bounded : ledger.host.supply < amountBound)

include bounded

omit [CoinHash] in
/-- What distinct coins are worth together fits in 128 bits. -/
theorem sum_spentAmounts_lt (once : tx.outpoints.Nodup) :
    (tx.spentAmounts coins).sum < amountBound :=
  Nat.lt_of_le_of_lt (shows.sum_spentAmounts_le once)
    (Nat.lt_of_le_of_lt (Nat.le_add_right _ _) bounded)

/-- The fee of an accepted transaction fits into the pool. -/
theorem pool_add_fee_lt {fee : Nat} (accepted : validate verify ledger.host.coin? tx = .ok fee) :
    ledger.host.pool + fee < amountBound :=
  Nat.lt_of_le_of_lt (pool_add_fee_le_supply shows accepted) bounded

/-- Where the supply fits, a spend overflows exactly when the sum of its own outputs does. -/
theorem spend_overflows_iff :
    (∃ detail, (ledger.spend verify tx).1 = .error (.rejected (.overflow detail))) ↔
      KeptBelow verify coins tx 7 ∧ amountBound ≤ tx.totalOutput := by
  have invalid_iff := @validate_eq_overflow_iff _ verify coins tx
  constructor
  · rintro ⟨detail, failed⟩
    rcases spend_error_cases failed with invalid | ⟨fee, accepted, ⟨full, _⟩ | ⟨_, same⟩⟩
    · rw [shows] at invalid
      obtain ⟨kept, large⟩ := invalid_iff.mp ⟨detail, invalid⟩
      refine ⟨kept, Nat.le_of_not_lt fun fits => large ⟨?_, fits⟩⟩
      exact sum_spentAmounts_lt shows bounded (kept .duplicateInput (by decide))
    · exact absurd full (Nat.not_le_of_lt (pool_add_fee_lt shows bounded accepted))
    · cases same
  · rintro ⟨kept, large⟩
    obtain ⟨detail, invalid⟩ := invalid_iff.mpr ⟨kept, fun fits => Nat.not_lt_of_le large fits.2⟩
    rw [← shows] at invalid
    exact ⟨detail, congrArg Prod.fst (spend_of_invalid invalid)⟩

end

/-- **Honest supply never overflows.** A ledger is opened over an empty state and seeds, spends,
pays out and is opened anew, in any order and as often as one likes, and the outputs that it seeds
are together worth no more than an amount can be. Then all coins can be read, and whatever
transaction comes next, under whatever check on signatures: if it spends distinct coins that are all
there, then these have a sum that fits in 128 bits; if it is valid, then the pool and its fee fit,
so that crediting the fee succeeds; and it is rejected for an overflow exactly when it keeps the
first six rules and the sum of its own outputs does not fit. -/
theorem honest_supply_never_overflows {host : HostState}
    (empty : ∀ cell, host.get? cell = none) (events : List Event) (steps : List Step)
    (honest : (ofHost host events).seededOver steps < amountBound) (verify : Verifier)
    (tx : Transaction) :
    let ledger := (ofHost host events).live steps
    ledger.host.Shows ledger.host.coinMap ∧
    (∀ coins, tx.outpoints.Nodup → resolve ledger.host.coin? tx.inputs = .ok coins →
      (coins.map fun coin => coin.value.toNat).sum < amountBound) ∧
    (∀ fee, validate verify ledger.host.coin? tx = .ok fee →
      ledger.host.pool + fee < amountBound ∧
        ∃ credited, creditPool fee ledger.host.enter = .ok credited) ∧
    ((∃ detail, (ledger.spend verify tx).1 = .error (.rejected (.overflow detail))) ↔
      KeptBelow verify ledger.host.coinMap tx 7 ∧ amountBound ≤ tx.totalOutput) := by
  intro ledger
  have valid : ledger.host.WellFormed := wellFormed_live (wellFormed_of_empty empty) steps
  have shows := valid.shows
  have bounded : ledger.host.supply < amountBound :=
    Nat.lt_of_le_of_lt (supply_live_le empty events steps) honest
  refine ⟨shows, fun coins once resolved => ?_, fun fee accepted => ?_,
    spend_overflows_iff shows bounded⟩
  · rw [shows] at resolved
    have present : Present ledger.host.coinMap tx.inputs coins := resolve_eq_ok_iff.mp resolved
    rw [present.amounts_eq]
    exact sum_spentAmounts_lt shows bounded once
  · have fits := pool_add_fee_lt shows bounded accepted
    refine ⟨fits, exists_creditPool_eq_ok ?_⟩
    rwa [pool_enter]

end

/-- The largest coin is seeded and the ledger opened anew. A transaction that makes the same coin
and one of one unit out of it is rejected for an overflow, so it keeps all rules before. -/
theorem outputs_overflow_over_the_largest_coin :
    let owner : PublicKey := FixedBytes.zero 32
    let largest : Output := ⟨⟨2 ^ 128 - 1, by decide⟩, owner⟩
    let unit : Output := ⟨⟨1, by decide⟩, owner⟩
    let tx : Transaction := ⟨[⟨largest.genesisKey, emptySignature⟩], [largest, unit]⟩
    let accept : Verifier := fun _ _ _ => true
    let opened := ofHost .emptyMemory []
    let steps : List Step := [.call (.seed [.ok largest]), .restart []]
    opened.seededOver steps < amountBound ∧
      KeptBelow accept (opened.live steps).host.coinMap tx 7 ∧ amountBound ≤ tx.totalOutput := by
  intro owner largest unit tx accept opened steps
  have honest : opened.seededOver steps < amountBound := by decide +kernel
  have overflows : ((opened.live steps).spend accept tx).1 = .error (.rejected (.overflow
      "u128 overflow: 340282366920938463463374607431768211455 + 1")) := by decide +kernel
  obtain ⟨_, _, _, overflows_iff⟩ :=
    @honest_supply_never_overflows _ .emptyMemory (fun _ => rfl) [] steps honest accept tx
  exact ⟨honest, overflows_iff.mp ⟨_, overflows⟩⟩

end Ledger
end CoinLedger

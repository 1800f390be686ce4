import CoinLedger.Crypto.Blake2b
import CoinLedger.Proofs.Ledger.Run

/-! # Conservation of value

What a ledger holds is what its coins are worth, what is in the pool, and what its authorities
have forfeited. Nothing that it is asked makes this more than what was seeded, and it is exactly
that as long as no two outputs of one accepted transaction share a key
(`CoinLedger.Ledger.conservation`). Outputs that share a key replace one another, and the value of
the earlier ones is lost.
-/

namespace CoinLedger.Ledger

open HostState

/-- The coins, the pool and the forfeited shares of a ledger, by value. -/
def holdings (ledger : Ledger) : Nat :=
  ledger.host.worth (fun coin => coin.value.toNat) + ledger.host.pool + ledger.rewardsWasted

/-- The value of an output that could be built. -/
def valueOf : Except InvalidValue Output → Nat
  | .ok coin => coin.value.toNat
  | .error _ => 0

/-- The value of the outputs that were seeded when something was asked. -/
def seededValue : Operation × Except LedgerError Reply → Nat
  | (.seed outputs, .ok _) => (outputs.map valueOf).sum
  | _ => 0

/-- If a transaction was accepted when something was asked, no two of its outputs share a key. -/
def KeysApart [CoinHash] : Operation × Except LedgerError Reply → Prop
  | (.spend _ tx, .ok _) => ∀ keys, tx.outputKeys = .ok keys → keys.Nodup
  | _ => True

theorem valueOf_map_ok (coins : List Output) :
    ((coins.map Except.ok).map valueOf).sum = (coins.map fun coin => coin.value.toNat).sum := by
  rw [List.map_map]
  rfl

/-- A ledger over a state without cells holds nothing. -/
theorem holdings_ofHost {host : HostState} (empty : ∀ cell, host.get? cell = none)
    (events : List Event) : (ofHost host events).holdings = 0 := by
  have worthless : host.worth (fun coin => coin.value.toNat) ≤
      emptyTable.worth fun coin => coin.value.toNat := by
    apply worth_le_worth
    intro cell bytes coin _ stored
    rw [empty] at stored
    cases stored
  have poor : host.pool = 0 := by rw [HostState.pool, empty]
  rw [holdings]
  change host.worth _ + host.pool + 0 = 0
  rw [poor]
  exact Nat.le_zero.mp worthless

section

variable [CoinHash]

/-- Seeding adds what is seeded to the holdings. -/
theorem holdings_seed (ledger : Ledger) (outputs : List (Except InvalidValue Output)) :
    (ledger.perform (.seed outputs)).2.holdings =
      ledger.holdings + seededValue (.seed outputs, (ledger.perform (.seed outputs)).1) := by
  rcases seeded : ledger.seed outputs with ⟨error | keys, after⟩
  · rw [perform, seeded, seed_error seeded]
    rfl
  · obtain ⟨coins, rfl, rfl, distinct, moves, pool, same⟩ := seed_ok seeded
    have apart : ((coins.map Output.atGenesis).map Prod.fst).Nodup := by
      rw [List.map_map]
      exact distinct
    have added := moves.worth_eq (fun coin => coin.value.toNat) apart
    have wasted : after.rewardsWasted = ledger.rewardsWasted := by rw [same]
    rw [perform, seeded]
    change after.holdings = ledger.holdings + ((coins.map Except.ok).map valueOf).sum
    rw [holdings, holdings, pool, wasted, valueOf_map_ok]
    rw [List.map_map] at added
    change _ + 0 = _ + (coins.map fun coin => coin.value.toNat).sum at added
    omega

/-- Spending adds nothing to the holdings, and takes nothing if the keys of the outputs are
distinct. -/
theorem holdings_spend (ledger : Ledger) (verify : Verifier) (tx : Transaction) :
    (ledger.perform (.spend verify tx)).2.holdings ≤ ledger.holdings ∧
      (KeysApart (.spend verify tx, (ledger.perform (.spend verify tx)).1) →
        (ledger.perform (.spend verify tx)).2.holdings = ledger.holdings) := by
  rcases applied : ledger.spend verify tx with ⟨error | fee, after⟩
  · rw [perform, applied, spend_error applied]
    exact ⟨Nat.le_refl _, fun _ => rfl⟩
  · obtain ⟨coins, keys, admissible, moves, pool, wasted⟩ := spend_ok applied
    have spentValue := admissible.map_spent fun coin => coin.value.toNat
    have mintedValue := admissible.map_minted fun coin => coin.value.toNat
    have balanced := admissible.balanced
    rw [perform, applied]
    change after.holdings ≤ ledger.holdings ∧ (_ → after.holdings = ledger.holdings)
    constructor
    · have atMost := moves.worth_le fun coin => coin.value.toNat
      rw [spentValue, mintedValue, ← Transaction.totalOutput] at atMost
      rw [holdings, holdings, pool, wasted]
      omega
    · intro distinct
      have apart : ((keys.zip tx.outputs).map Prod.fst).Nodup := by
        rw [admissible.map_fst_minted]
        exact distinct keys admissible.derived
      have exactly := moves.worth_eq (fun coin => coin.value.toNat) apart
      rw [spentValue, mintedValue, ← Transaction.totalOutput] at exactly
      rw [holdings, holdings, pool, wasted]
      omega

/-- Dealing with the pool leaves the holdings. -/
theorem holdings_finalize (ledger : Ledger) (authorities : List Loose) (source : Option Int) :
    (ledger.perform (.finalize authorities source)).2.holdings = ledger.holdings := by
  cases source with
  | none => rfl
  | some block =>
      change (ledger.finalize authorities block).2.holdings = ledger.holdings
      rcases settled : ledger.finalize authorities block with ⟨outcome, after⟩
      change after.holdings = ledger.holdings
      rcases finalize_cases settled with ⟨share, events, carry, rfl⟩ | ⟨sameHost, sameWasted, _⟩
      · obtain ⟨number, _, _, _, moves, distinct, pool, wasted⟩ := finalize_dispersed settled
        rw [← map_fst_asReward] at distinct
        have added := moves.worth_eq (fun coin => coin.value.toNat) distinct
        rw [List.map_map] at added
        change _ + 0 = _ + ((rewardsOf events).map fun coin => coin.value.toNat).sum at added
        rw [← paidBy_eq] at added
        rw [holdings, holdings, wasted]
        omega
      · rw [holdings, holdings, sameHost, sameWasted]

/-- The keys of an asked transaction are apart if they are distinct. -/
theorem keysApart_spend (verify : Verifier) {tx : Transaction}
    (distinct : ∀ keys, tx.outputKeys = .ok keys → keys.Nodup)
    (outcome : Except LedgerError Reply) : KeysApart (.spend verify tx, outcome) := by
  cases outcome with
  | error error => trivial
  | ok reply => exact distinct

/-- **Nothing that a ledger is asked creates value, and value is lost only to outputs that share a
key.** -/
theorem holdings_perform (ledger : Ledger) (operation : Operation) :
    let report := (operation, (ledger.perform operation).1)
    (ledger.perform operation).2.holdings ≤ ledger.holdings + seededValue report ∧
      (KeysApart report →
        (ledger.perform operation).2.holdings = ledger.holdings + seededValue report) := by
  cases operation with
  | seed outputs =>
      have same := ledger.holdings_seed outputs
      exact ⟨Nat.le_of_eq same, fun _ => same⟩
  | spend verify tx => exact ledger.holdings_spend verify tx
  | finalize authorities source =>
      have same := ledger.holdings_finalize authorities source
      exact ⟨Nat.le_of_eq same, fun _ => same⟩

/-- What a ledger holds after a run is what it held before and what was seeded. -/
theorem holdings_run (ledger : Ledger) (operations : List Operation) :
    (ledger.run operations).2.holdings ≤
        ledger.holdings + ((ledger.run operations).1.map seededValue).sum ∧
      ((∀ report ∈ (ledger.run operations).1, KeysApart report) →
        (ledger.run operations).2.holdings =
          ledger.holdings + ((ledger.run operations).1.map seededValue).sum) := by
  induction operations generalizing ledger with
  | nil => exact ⟨Nat.le_refl _, fun _ => rfl⟩
  | cons operation operations inductive_step =>
      have first := ledger.holdings_perform operation
      have later := inductive_step (ledger.perform operation).2
      simp only [run, List.map_cons, List.sum_cons, List.forall_mem_cons]
      constructor
      · omega
      · rintro ⟨apart, others⟩
        have firstExact := first.2 apart
        have laterExact := later.2 others
        omega

/-- **Value is conserved over every run.** A ledger that is opened over an empty state is asked to
seed, spend and pay out, in any order and as often as one likes. After that, and so after each step
of a longer run, its coins have a total, and the total, the pool and the forfeited shares are
together at most the value of all outputs that were seeded. They are exactly that if in each
accepted transaction no two outputs share a key. -/
theorem conservation {host : HostState} (empty : ∀ cell, host.get? cell = none)
    (events : List Event) (operations : List Operation) :
    let (reports, after) := (ofHost host events).run operations
    ∃ total, after.host.totalValue = .ok total ∧
      total + after.host.pool + after.rewardsWasted ≤ (reports.map seededValue).sum ∧
      ((∀ report ∈ reports, KeysApart report) →
        total + after.host.pool + after.rewardsWasted = (reports.map seededValue).sum) := by
  have valid : (ofHost host events).host.WellFormed := wellFormed_of_empty empty
  obtain ⟨atMost, exactly⟩ := (ofHost host events).holdings_run operations
  rw [holdings_ofHost empty, Nat.zero_add] at atMost exactly
  exact ⟨_, (wellFormed_run valid operations).totalValue_eq, atMost, exactly⟩

end

/-- A coin of five is seeded and spent with a fee of one, and the fee is paid out. -/
theorem conservation_of_one_payment :
    let owner : PublicKey := FixedBytes.zero 32
    let coin : Output := ⟨⟨5, by decide⟩, owner⟩
    let tx : Transaction :=
      ⟨[⟨coin.genesisKey, emptySignature⟩], [⟨⟨3, by decide⟩, owner⟩, ⟨⟨1, by decide⟩, owner⟩]⟩
    let accept : Verifier := fun _ _ _ => true
    let after := ((ofHost .emptyMemory []).run
      [.seed [.ok coin], .spend accept tx, .finalize [.bytes owner.bytes] (some 1)]).2
    ∃ total, after.host.totalValue = .ok total ∧
      total + after.host.pool + after.rewardsWasted = 5 := by
  intro owner coin tx accept after
  have once := @conservation _ .emptyMemory (fun _ => rfl) []
    [.seed [.ok coin], .spend accept tx, .finalize [.bytes owner.bytes] (some 1)]
  obtain ⟨total, read, _, exactly⟩ := once
  have derived : ∀ keys, tx.outputKeys = .ok keys → keys.Nodup := by
    intro keys derived
    obtain ⟨_, rfl⟩ := Transaction.outputKeys_eq_ok_iff.mp derived
    decide +kernel
  refine ⟨total, read, (exactly ?_).trans ?_⟩
  · intro report member
    rcases List.mem_cons.mp member with rfl | member
    · trivial
    rcases List.mem_cons.mp member with rfl | member
    · exact keysApart_spend accept derived _
    rcases List.mem_singleton.mp member with rfl
    trivial
  · decide +kernel

end CoinLedger.Ledger

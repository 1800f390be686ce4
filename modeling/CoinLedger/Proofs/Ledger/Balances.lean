import CoinLedger.Crypto.Blake2b
import CoinLedger.Proofs.CoinSet.Owners
import CoinLedger.Proofs.Ledger.Finalize
import CoinLedger.Proofs.Validation.Rules

/-! # Accounts of owners

Coins that are moved leave the balances of their owners and enter those of the owners that they are
made for (`CoinLedger.HostState.Moves.balanceOf_eq`). So a spend takes from each owner what it
spends of the owner's coins and gives what it pays to the owner, a payout gives what its events
tell, and whatever is in the coin set is in somebody's balance
(`CoinLedger.Ledger.owners_are_accounted_for`). An owner may be on both sides of a spend, and on
each more than once.
-/

namespace CoinLedger

open HostState

/-- The sum of the rewards that events pay to an owner. -/
def paidTo (owner : PublicKey) (events : List Event) : Nat :=
  (events.map fun
    | .rewardPaid other value => if other = owner then value.toNat else 0
    | _ => 0).sum

theorem paidTo_eq (owner : PublicKey) (events : List Event) :
    paidTo owner events = heldBy owner (rewardsOf events) := by
  rw [heldBy_eq]
  induction events with
  | nil => rfl
  | cons event events inductive_step =>
      cases event with
      | transactionApplied tx => exact (Nat.zero_add _).trans inductive_step
      | rewardPaid other value =>
          exact congrArg ((Output.mk value other).worthTo owner + ·) inductive_step
      | rewardWasted other => exact (Nat.zero_add _).trans inductive_step

namespace HostState

variable {before after : HostState} {spent minted : List (Outpoint × Output)}

/-- **Coins that are moved leave the balances of their owners**, who had them, and enter those of
the owners that new coins are made for. -/
theorem Moves.balanceOf_eq (moves : Moves before after spent minted) (valid : before.WellFormed)
    (distinct : (minted.map Prod.fst).Nodup) (owner : PublicKey) :
    heldBy owner (spent.map Prod.snd) ≤ before.worth (Output.worthTo owner) ∧
      after.balanceOf owner.bytes = .ok (before.worth (Output.worthTo owner) -
        heldBy owner (spent.map Prod.snd) + heldBy owner (minted.map Prod.snd)) := by
  have removed := worth_removeCoins (Output.worthTo owner) moves.present moves.once
  have exchanged := moves.worth_eq (Output.worthTo owner) distinct
  rw [(moves.wellFormed valid).balanceOf_eq_worth, heldBy_eq, heldBy_eq, List.map_map, List.map_map]
  simp only [Function.comp_def]
  refine ⟨by omega, congrArg Except.ok ?_⟩
  omega

end HostState

namespace Ledger

section

variable [CoinHash]

/-- **A spend takes from each owner what it spends of the owner's coins, and gives what it pays to
the owner.** -/
theorem balanceOf_spend {ledger after : Ledger} (valid : ledger.host.WellFormed) {verify : Verifier}
    {tx : Transaction} {fee : Nat} (run : ledger.spend verify tx = (.ok fee, after))
    (distinct : tx.derivedKeys.Nodup) :
    ∃ coins, List.Forall₂ (fun input coin => ledger.host.coin? input.outpoint = .ok (some coin))
        tx.inputs coins ∧
      ∀ owner, heldBy owner coins ≤ ledger.host.worth (Output.worthTo owner) ∧
        after.host.balanceOf owner.bytes = .ok (ledger.host.worth (Output.worthTo owner) -
          heldBy owner coins + heldBy owner tx.outputs) := by
  obtain ⟨coins, keys, admissible, moves, _⟩ := spend_ok run
  have apart : ((keys.zip tx.outputs).map Prod.fst).Nodup := by
    rw [admissible.map_fst_minted, Transaction.eq_derivedKeys admissible.derived]
    exact distinct
  refine ⟨coins, admissible.present, fun owner => ?_⟩
  have exchanged := moves.balanceOf_eq valid apart owner
  rwa [admissible.map_snd_spent, admissible.map_snd_minted] at exchanged

/-- **Dealing with the pool gives each owner what its events pay to the owner.** -/
theorem balanceOf_finalize {ledger after : Ledger} (valid : ledger.host.WellFormed)
    {authorities : List Loose} {block : Int} {outcome : Except LedgerError Settlement}
    (run : ledger.finalize authorities block = (outcome, after)) :
    ∃ events, after.events = ledger.events ++ events ∧
      ∀ owner, after.host.balanceOf owner.bytes =
        .ok (ledger.host.worth (Output.worthTo owner) + paidTo owner events) := by
  obtain ⟨number, events, _, _, _, moves, distinct, told⟩ := finalize_recorded run
  rw [← map_fst_asReward] at distinct
  refine ⟨events, told, fun owner => ?_⟩
  have given := (moves.balanceOf_eq valid distinct owner).2
  rwa [map_snd_asReward, ← paidTo_eq] at given

/-- **All value is in somebody's balance, and balances change by what is told.** In every
well-formed state a balance is the sum over the keys under which the owner's coins are found, each
of them once, and the balances of distinct owners who own all coins are the total. If a transaction
is accepted whose outputs have distinct keys, each owner loses the coins that it spends of theirs
and has the outputs that it makes for them. If the pool is dealt with, each owner gains the rewards
that the new events pay to them. -/
theorem owners_are_accounted_for {ledger : Ledger} (valid : ledger.host.WellFormed) :
    ∃ balance : PublicKey → Nat,
      (∀ owner, ledger.host.balanceOf owner.bytes = .ok (balance owner)) ∧
      (∀ owner, ∃ owned : List (Outpoint × Output), (owned.map Prod.fst).Nodup ∧
        (∀ key coin, (key, coin) ∈ owned ↔
          ledger.host.coin? key = .ok (some coin) ∧ coin.owner = owner) ∧
        balance owner = (owned.map fun entry => entry.2.value.toNat).sum) ∧
      (∀ owners : List PublicKey, owners.Nodup →
        (∀ key coin, ledger.host.coin? key = .ok (some coin) → coin.owner ∈ owners) →
        ledger.host.totalValue = .ok (owners.map balance).sum) ∧
      (∀ verify tx fee after, ledger.spend verify tx = (.ok fee, after) → tx.derivedKeys.Nodup →
        ∃ coins, List.Forall₂ (fun input coin => ledger.host.coin? input.outpoint = .ok (some coin))
            tx.inputs coins ∧
          ∀ owner, heldBy owner coins ≤ balance owner ∧
            after.host.balanceOf owner.bytes =
              .ok (balance owner - heldBy owner coins + heldBy owner tx.outputs)) ∧
      ∀ authorities source settlement after,
        ledger.finalizeFrom authorities source = (.ok settlement, after) →
        ∃ events, after.events = ledger.events ++ events ∧
          ∀ owner,
            after.host.balanceOf owner.bytes = .ok (balance owner + paidTo owner events) := by
  refine ⟨fun owner => ledger.host.worth (Output.worthTo owner), valid.balanceOf_eq_worth,
    valid.exists_owned, fun owners distinct covered => valid.totalValue_eq_sum distinct covered,
    fun verify tx fee after run distinct => balanceOf_spend valid run distinct, ?_⟩
  intro authorities source settlement after run
  cases source with
  | none => cases run
  | some block => exact balanceOf_finalize valid run

end

/-- A coin of five is spent with a fee of one. Three go to another owner and one comes back, so the
balances are one and three after it. -/
theorem balances_after_change :
    let payer : PublicKey := FixedBytes.zero 32
    let payee : PublicKey := ⟨List.replicate 32 1, rfl⟩
    let outpoint : Outpoint := FixedBytes.zero 32
    let tx : Transaction :=
      ⟨[⟨outpoint, emptySignature⟩], [⟨⟨3, by decide⟩, payee⟩, ⟨⟨1, by decide⟩, payer⟩]⟩
    let accept : Verifier := fun _ _ _ => true
    let ledger := ofHost (HostState.emptyMemory.addCoin outpoint ⟨⟨5, by decide⟩, payer⟩) []
    ∃ after, ledger.spend accept tx = (.ok 1, after) ∧
      after.host.balanceOf payer.bytes = .ok 1 ∧ after.host.balanceOf payee.bytes = .ok 3 := by
  intro payer payee outpoint tx accept ledger
  have empty : HostState.emptyMemory.WellFormed := wellFormed_of_empty fun _ => rfl
  have valid : ledger.host.WellFormed := empty.addCoin outpoint _
  have answer : (ledger.spend accept tx).1 = .ok 1 := by decide +kernel
  have distinct : tx.derivedKeys.Nodup := by decide +kernel
  obtain ⟨balance, had, _, _, spends, _⟩ := owners_are_accounted_for valid
  obtain ⟨coins, present, accounts⟩ := spends accept tx 1 _ (Prod.ext answer rfl) distinct
  obtain ⟨coin, rest, there, last, rfl⟩ := List.forall₂_cons_left_iff.mp present
  obtain rfl := List.forall₂_nil_left_iff.mp last
  have spent : ledger.host.coin? outpoint = .ok (some ⟨⟨5, by decide⟩, payer⟩) := by decide +kernel
  rw [spent] at there
  cases there
  have five : balance payer = 5 :=
    Except.ok.inj ((had payer).symm.trans (by decide +kernel))
  have nothing : balance payee = 0 :=
    Except.ok.inj ((had payee).symm.trans (by decide +kernel))
  refine ⟨_, Prod.ext answer rfl, ?_, ?_⟩
  · rw [(accounts payer).2, five]
    decide +kernel
  · rw [(accounts payee).2, nothing]
    decide +kernel

end Ledger
end CoinLedger

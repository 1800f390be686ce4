import CoinLedger.Crypto.Blake2b
import CoinLedger.Proofs.Ledger.Run

/-! # Books of fees

A ledger counts the fees that it collects and the rewards that it pays and forfeits, beside the
state that holds the pool. The two agree: what was in the pool when the ledger was opened and all
fees since then are what was paid, what was forfeited and what is in the pool now
(`CoinLedger.Ledger.booked_perform`, `CoinLedger.Ledger.fee_accounting_closes`). A payout deposits
one event for each authority, which tells what became of its share
(`CoinLedger.Ledger.finalize_told`). Nothing is assumed of the hash function: a share whose key is
taken is forfeited, and counted as such.
-/

namespace CoinLedger

open HostState

/-- An event tells what became of the share of an entry in a list of authorities: it was paid to the
public key that the entry is, or forfeited. -/
def Event.TellsOf (share : Nat) (authority : Loose) : Event → Prop
  | .transactionApplied _ => False
  | .rewardPaid owner value => authority.publicKey? = some owner ∧ value.toNat = share
  | .rewardWasted owner => authority.publicKey? = owner

theorem paidBy_append (first second : List Event) :
    paidBy (first ++ second) = paidBy first + paidBy second := by
  rw [paidBy, List.map_append, List.sum_append]
  rfl

theorem paidBy_transactionApplied (tx : Transaction) : paidBy [.transactionApplied tx] = 0 := rfl

/-- Shares are paid or forfeited one by one, and each event tells of one. -/
theorem payShares_told [CoinHash] {share : Nat} {block : UInt64} {authorities : List Loose}
    {state after : HostState} {events : List Event}
    (run : payShares share block authorities state = (.ok events, after)) :
    List.Forall₂ (Event.TellsOf share) authorities events := by
  induction authorities generalizing state events with
  | nil =>
      cases run
      exact .nil
  | cons authority authorities inductive_step =>
      rw [payShares] at run
      split at run
      · rename_i malformed
        obtain ⟨later, paid, same, rfl⟩ := withEvent_ok run
        exact .cons malformed (inductive_step (Prod.ext paid same))
      · rename_i owner named
        split at run
        · cases run
        · rename_i value fits
          have amount : value.toNat = share := by
            have same := Amount.ofInt_eq_ok_iff.mp fits
            omega
          dsimp only at run
          split at run
          · obtain ⟨later, paid, same, rfl⟩ := withEvent_ok run
            exact .cons named (inductive_step (Prod.ext paid same))
          · obtain ⟨later, paid, same, rfl⟩ := withEvent_ok run
            exact .cons ⟨named, amount⟩ (inductive_step (Prod.ext paid same))

namespace Ledger

/-- The fee of the transaction that was accepted when something was asked, if one was. -/
def chargedFee : Operation × Except LedgerError Reply → Nat
  | (.spend _ _, .ok (.spent fee)) => fee
  | _ => 0

/-- A ledger has collected fees of a given sum since it was another one. They are in its books and
in its pool, except for what was paid and forfeited, and each payment was told. -/
structure Booked (ledger after : Ledger) (fees : Nat) : Prop where
  collected : after.feesCollected = ledger.feesCollected + fees
  told : ∃ deposited, after.events = ledger.events ++ deposited ∧
    after.rewardsPaid = ledger.rewardsPaid + paidBy deposited
  balanced : ledger.host.pool + fees + ledger.rewardsPaid + ledger.rewardsWasted =
    after.rewardsPaid + after.rewardsWasted + after.host.pool

namespace Booked

variable {ledger middle after : Ledger}

/-- Nothing has to be booked where neither the pool nor the books have changed. -/
theorem quiet {host : HostState} {phase : PoolPhase} (pool : host.pool = ledger.host.pool) :
    Booked ledger { ledger with host, phase } 0 where
  collected := rfl
  told := ⟨[], (List.append_nil _).symm, rfl⟩
  balanced := by
    dsimp only
    omega

/-- Fees that are booked one after another are added. -/
theorem trans {earlier later : Nat} (first : Booked ledger middle earlier)
    (second : Booked middle after later) : Booked ledger after (earlier + later) where
  collected := by
    have collectedFirst := first.collected
    have collectedSecond := second.collected
    omega
  told := by
    obtain ⟨before, beforeLogged, beforePaid⟩ := first.told
    obtain ⟨since, sinceLogged, sincePaid⟩ := second.told
    refine ⟨before ++ since, ?_, ?_⟩
    · rw [sinceLogged, beforeLogged, List.append_assoc]
    · rw [sincePaid, beforePaid, paidBy_append, Nat.add_assoc]
  balanced := by
    have balancedFirst := first.balanced
    have balancedSecond := second.balanced
    omega

end Booked

section

variable [CoinHash] {ledger after : Ledger}

/-- **A payout deposits one event for each authority**, and what it pays and forfeits are equal
shares of the pool. -/
theorem finalize_told {authorities : List Loose} {block : Int} {share carry : Nat}
    {events : List Event}
    (run : ledger.finalize authorities block = (.ok (.dispersed share events carry), after)) :
    share = ledger.host.pool / authorities.length ∧
      after.events = ledger.events ++ events ∧
      List.Forall₂ (Event.TellsOf share) authorities events ∧
      paidBy events + share * wastedCount events = share * authorities.length ∧
      after.rewardsPaid = ledger.rewardsPaid + paidBy events ∧
      after.rewardsWasted = ledger.rewardsWasted + share * wastedCount events := by
  obtain ⟨number, host, _, divided, _, paid, rfl⟩ := finalize_eq_dispersed run
  obtain ⟨inner, dispersed, rfl⟩ := atomically_ok paid
  have shared := (disperse_ok dispersed).2.2.2.1
  refine ⟨divided, rfl, ?_, shared, rfl, rfl⟩
  unfold disperse at dispersed
  split at dispersed
  · cases dispersed
  · exact payShares_told dispersed

/-- Spending books the fee of an accepted transaction. -/
theorem booked_spend (ledger : Ledger) (verify : Verifier) (tx : Transaction) :
    Booked ledger (ledger.perform (.spend verify tx)).2
      (chargedFee (.spend verify tx, (ledger.perform (.spend verify tx)).1)) := by
  rcases applied : ledger.spend verify tx with ⟨error | fee, after⟩
  · rw [perform, applied, spend_error applied]
    exact .quiet rfl
  · obtain ⟨_, _, _, _, credited, _⟩ := spend_ok applied
    obtain ⟨host, _, rfl⟩ := spend_eq_ok applied
    rw [perform, applied]
    refine ⟨rfl, ⟨[.transactionApplied tx], rfl, ?_⟩, ?_⟩
    · rw [paidBy_transactionApplied, Nat.add_zero]
    · dsimp only [Except.map, chargedFee] at credited ⊢
      omega

/-- Dealing with the pool books no fee. -/
theorem booked_finalize (ledger : Ledger) (authorities : List Loose) (source : Option Int) :
    Booked ledger (ledger.perform (.finalize authorities source)).2 0 := by
  cases source with
  | none => exact .quiet rfl
  | some block =>
      change Booked ledger (ledger.finalize authorities block).2 0
      rcases settled : ledger.finalize authorities block with ⟨outcome, after⟩
      rcases finalize_undispersed settled with ⟨share, events, carry, rfl⟩ | ⟨same, _⟩
      · obtain ⟨_, _, _, _, _, _, drained, wasted⟩ := finalize_dispersed settled
        obtain ⟨_, logged, _, _, paid, _⟩ := finalize_told settled
        obtain ⟨_, _, _, _, _, _, kept⟩ := finalize_eq_dispersed settled
        have collected : after.feesCollected = ledger.feesCollected := by rw [kept]
        refine ⟨collected, ⟨events, logged, paid⟩, ?_⟩
        dsimp only
        omega
      · rw [same]
        exact .quiet rfl

/-- **Whatever a ledger is asked is booked.** -/
theorem booked_perform (ledger : Ledger) (operation : Operation) :
    Booked ledger (ledger.perform operation).2
      (chargedFee (operation, (ledger.perform operation).1)) := by
  cases operation with
  | seed outputs =>
      rcases seeded : ledger.seed outputs with ⟨error | keys, after⟩
      · rw [perform, seeded, seed_error seeded]
        exact .quiet rfl
      · obtain ⟨_, _, _, _, _, pool, same⟩ := seed_ok seeded
        rw [perform, seeded, same]
        exact .quiet pool
  | spend verify tx => exact ledger.booked_spend verify tx
  | finalize authorities source => exact ledger.booked_finalize authorities source

/-- A run is booked, with the fees of all transactions that were accepted. -/
theorem booked_run (ledger : Ledger) (operations : List Operation) :
    Booked ledger (ledger.run operations).2 ((ledger.run operations).1.map chargedFee).sum := by
  induction operations generalizing ledger with
  | nil => exact .quiet rfl
  | cons operation operations inductive_step =>
      exact (ledger.booked_perform operation).trans (inductive_step _)

/-- **Fee accounting closes.** A ledger is opened over any state and asked to seed, spend and pay
out, in any order and as often as one likes, to any authorities and under any numbers of blocks,
with whatever success. After that, and so after each step of a longer run, what was in the pool at
the start and the fees collected are what was paid, what was forfeited and what is in the pool. The
fees collected are those of the accepted transactions, and what was paid is the sum of the payments
that were deposited as events. When the pool is paid out next, there is one event for each authority
in the list, in order, which tells what became of its share, and what is paid and forfeited together
is the largest multiple of the number of authorities within the pool. -/
theorem fee_accounting_closes (host : HostState) (events : List Event)
    (operations : List Operation) :
    let (reports, ledger) := (ofHost host events).run operations
    host.pool + ledger.feesCollected =
        ledger.rewardsPaid + ledger.rewardsWasted + ledger.host.pool ∧
      ledger.feesCollected = (reports.map chargedFee).sum ∧
      (∃ deposited, ledger.events = events ++ deposited ∧ ledger.rewardsPaid = paidBy deposited) ∧
      ∀ authorities source share rewards carry after,
        ledger.finalizeFrom authorities source = (.ok (.dispersed share rewards carry), after) →
        after.events = ledger.events ++ rewards ∧ rewards.length = authorities.length ∧
          List.Forall₂ (Event.TellsOf share) authorities rewards ∧
          paidBy rewards + share * wastedCount rewards =
            ledger.host.pool / authorities.length * authorities.length ∧
          after.rewardsPaid = ledger.rewardsPaid + paidBy rewards ∧
          after.rewardsWasted = ledger.rewardsWasted + share * wastedCount rewards := by
  obtain ⟨collected, ⟨deposited, logged, paid⟩, balanced⟩ :=
    (ofHost host events).booked_run operations
  have nothingCollected : (ofHost host events).feesCollected = 0 := rfl
  have nothingPaid : (ofHost host events).rewardsPaid = 0 := rfl
  have nothingWasted : (ofHost host events).rewardsWasted = 0 := rfl
  have opened : (ofHost host events).host.pool = host.pool := rfl
  rw [nothingCollected, Nat.zero_add] at collected
  rw [nothingPaid, Nat.zero_add] at paid
  refine ⟨?_, collected, ⟨deposited, logged, paid⟩, ?_⟩
  · rw [collected]
    omega
  · intro authorities source share rewards carry after settled
    cases source with
    | none => cases settled
    | some block =>
        obtain ⟨divided, told, each, shared, paidAfter, wastedAfter⟩ := finalize_told settled
        rw [← divided]
        exact ⟨told, each.length_eq.symm, each, shared, paidAfter, wastedAfter⟩

end

/-- A pool of one and a fee of two are paid out to a public key and an entry that is none. -/
theorem shares_of_a_fee :
    let owner : PublicKey := FixedBytes.zero 32
    let outpoint : Outpoint := FixedBytes.zero 32
    let tx : Transaction := ⟨[⟨outpoint, emptySignature⟩], [⟨⟨3, by decide⟩, owner⟩]⟩
    let pool := HostState.emptyMemory.setPool ⟨1, by decide⟩
    let host := pool.addCoin outpoint ⟨⟨5, by decide⟩, owner⟩
    let ledger := ((ofHost host []).run [.spend (fun _ _ _ => true) tx]).2
    ∃ rewards after, ledger.finalizeFrom [.bytes owner.bytes, .nothing] (some 1) =
        (.ok (.dispersed 1 rewards 1), after) ∧
      rewards.length = 2 ∧ paidBy rewards + 1 * wastedCount rewards = 2 := by
  intro owner outpoint tx pool host ledger
  obtain ⟨_, _, _, payouts⟩ := fee_accounting_closes host [] [.spend (fun _ _ _ => true) tx]
  have divided :
      (ledger.host.pool, (ledger.finalizeFrom [.bytes owner.bytes, .nothing] (some 1)).1) =
        (3, .ok (.dispersed 1 [.rewardPaid owner ⟨1, by decide⟩, .rewardWasted none] 1)) := by
    decide +kernel
  obtain ⟨pool, settled⟩ := Prod.mk.inj divided
  obtain ⟨_, length, _, shared, _⟩ := payouts _ _ _ _ _ _ (Prod.ext settled rfl)
  refine ⟨_, _, Prod.ext settled rfl, length, shared.trans ?_⟩
  change ledger.host.pool / 2 * 2 = 2
  rw [pool]

end Ledger
end CoinLedger

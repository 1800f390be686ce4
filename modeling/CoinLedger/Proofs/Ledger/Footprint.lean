import CoinLedger.Proofs.Ledger.Independence
import Mathlib.Data.Set.Defs

/-! # The footprint of a transaction

A spend looks at the pool's cell and at the cells of the keys that its transaction touches, and it
writes to no others (`CoinLedger.Transaction.footprint`). So over two states that agree on these
cells, whatever else is in them, it comes to the same result and changes the same cells to the same
values (`CoinLedger.Ledger.spend_stays_in_its_footprint`).
-/

namespace CoinLedger

open HostState

/-- The cells that hold something else in a later state. -/
def HostState.changed (before after : HostState) : Set ByteString :=
  {cell | after.get? cell ≠ before.get? cell}

section

variable [CoinHash] {verify : Verifier} {tx : Transaction}

/-- The cells that a transaction may look at and write to. -/
def Transaction.footprint (tx : Transaction) : List ByteString :=
  poolKey :: tx.touched.map coinCell

omit [CoinHash] in
/-- Whether a fee is credited, and why it is not, depends on the pool alone. -/
theorem creditPool_congr {left right : HostState} (pool : left.pool = right.pool) (fee : Nat)
    {α : Type} (next : Except LedgerError α) :
    (creditPool fee left >>= fun _ => next) = (creditPool fee right >>= fun _ => next) := by
  unfold creditPool
  rw [pool]
  split
  · rfl
  · split
    · rfl
    · split <;> rfl

/-- Whether outputs are stored, and why they are not, does not depend on the state. -/
theorem storeOutputs_congr (encoded : ByteString) (index : Nat) (outputs : List Output)
    (left right : HostState) :
    (storeOutputs encoded index outputs left).1 = (storeOutputs encoded index outputs right).1 := by
  induction outputs generalizing index left right with
  | nil => rfl
  | cons output outputs inductive_step =>
      rw [storeOutputs, storeOutputs]
      split
      · rfl
      · split
        · rfl
        · exact inductive_step _ _ _

/-- What comes of a transaction: validation, the credit of its fee and the storing of its outputs
each may refuse it. -/
theorem applyTo_fst (state : HostState) :
    (applyTo verify tx state).1 =
      (do
        let fee ← validate verify state.coin? tx
        let _ ← creditPool fee state
        let _ ← (storeOutputs tx.encode 0 tx.outputs state).1
        pure fee) := by
  unfold applyTo
  cases validate verify state.coin? tx with
  | error error => rfl
  | ok fee =>
      cases credits : creditPool fee state with
      | error error => simp [credits, bind, Except.bind]
      | ok credited =>
          have stored := storeOutputs_congr tx.encode 0 tx.outputs state
            (removeInputs tx.inputs credited)
          simp only [credits, stored, bind, Except.bind]
          split
          · rename_i failed
            rw [failed]
          · rename_i done
            rw [done]
            rfl

/-- What comes of a transaction depends on the coins that it touches and on the pool. -/
theorem applyTo_congr {left right : HostState}
    (coins : ∀ key ∈ tx.touched, left.coin? key = right.coin? key)
    (pool : left.pool = right.pool) : (applyTo verify tx left).1 = (applyTo verify tx right).1 := by
  rw [applyTo_fst, applyTo_fst, validate_congr coins, storeOutputs_congr _ _ _ left right]
  exact bind_congr fun fee => creditPool_congr pool fee _

namespace Ledger

theorem spend_fst (ledger : Ledger) :
    (ledger.spend verify tx).1 = (applyTo verify tx ledger.host.enter).1 := by
  unfold spend atomically
  rcases applyTo verify tx ledger.host.enter with ⟨error | fee, after⟩ <;> rfl

/-- Spending answers alike on ledgers that agree on the footprint. -/
theorem spend_congr {left right : Ledger}
    (agree : ∀ cell ∈ tx.footprint, left.host.get? cell = right.host.get? cell) :
    (left.spend verify tx).1 = (right.spend verify tx).1 := by
  obtain ⟨pooled, touched⟩ := List.forall_mem_cons.mp agree
  rw [spend_fst, spend_fst]
  apply applyTo_congr
  · intro key member
    rw [coin?_enter, coin?_enter, coin?_eq_coinIn, coin?_eq_coinIn,
      touched _ (List.mem_map_of_mem member)]
  · rw [pool_enter, pool_enter, pool_eq_of_get?_eq pooled]

/-- A spend leaves what is outside the footprint of its transaction as it is. -/
theorem get?_spend_of_not_mem (ledger : Ledger) {cell : ByteString}
    (outside : cell ∉ tx.footprint) :
    (ledger.spend verify tx).2.host.get? cell = ledger.host.get? cell := by
  rw [Transaction.footprint, List.mem_cons, not_or] at outside
  obtain ⟨unpooled, untouched⟩ := outside
  rcases run : ledger.spend verify tx with ⟨error | fee, after⟩
  · rw [spend_error run]
  · refine (spend_appliedTogether run).untouched cell unpooled ?_
    exact List.forall_mem_singleton.mpr fun key member same =>
      untouched (same ▸ List.mem_map_of_mem member)

/-- What a spend leaves inside the footprint depends on what was there. -/
theorem get?_spend_congr {left right : Ledger}
    (agree : ∀ cell ∈ tx.footprint, left.host.get? cell = right.host.get? cell)
    {cell : ByteString} (inside : cell ∈ tx.footprint) :
    (left.spend verify tx).2.host.get? cell = (right.spend verify tx).2.host.get? cell := by
  have result := @spend_congr _ verify _ _ _ agree
  rcases leftRun : left.spend verify tx with ⟨leftOutcome, leftAfter⟩
  rcases rightRun : right.spend verify tx with ⟨rightOutcome, rightAfter⟩
  rw [leftRun, rightRun] at result
  obtain rfl : leftOutcome = rightOutcome := result
  cases leftOutcome with
  | error error =>
      rw [spend_error leftRun, spend_error rightRun]
      exact agree cell inside
  | ok fee =>
      have leftDone := spend_appliedTogether leftRun
      have rightDone := spend_appliedTogether rightRun
      rcases List.mem_cons.mp inside with rfl | member
      · have pooled := agree poolKey List.mem_cons_self
        rw [leftDone.poolCell, rightDone.poolCell, pooled, pool_eq_of_get?_eq pooled]
      · obtain ⟨key, touched, rfl⟩ := List.mem_map.mp member
        rw [leftDone.touched tx List.mem_cons_self key touched,
          rightDone.touched tx List.mem_cons_self key touched]

/-- A spend tells of its transaction if it succeeds, and else of nothing. -/
theorem events_spend (ledger : Ledger) :
    (ledger.spend verify tx).2.events = ledger.events ++
      match (ledger.spend verify tx).1 with
      | .ok _ => [.transactionApplied tx]
      | .error _ => [] := by
  rcases run : ledger.spend verify tx with ⟨error | fee, after⟩
  · rw [spend_error run]
    exact (List.append_nil _).symm
  · obtain ⟨host, _, rfl⟩ := spend_eq_ok run
    rfl

/-- **A spend stays in the footprint of its transaction.** Let two ledgers over any states, which
may hold cells that cannot be read and have transactions open, agree on the cells of the coins that
a transaction spends, on the cells of the keys of its outputs, and on the pool's cell. Then the
spend of the transaction comes to the same result over both, the same fee or the same error with all
that it names, and deposits the same events. The cells that it changes are the same over both and
have the same new values, and over either of them every cell outside the footprint keeps its
value. -/
theorem spend_stays_in_its_footprint (left right : Ledger) (verify : Verifier) {tx : Transaction}
    (agree : ∀ cell ∈ tx.footprint, left.host.get? cell = right.host.get? cell) :
    let leftAfter := (left.spend verify tx).2
    let rightAfter := (right.spend verify tx).2
    (left.spend verify tx).1 = (right.spend verify tx).1 ∧
      (∃ told, leftAfter.events = left.events ++ told ∧ rightAfter.events = right.events ++ told) ∧
      left.host.changed leftAfter.host = right.host.changed rightAfter.host ∧
      (∀ cell ∈ left.host.changed leftAfter.host,
        leftAfter.host.get? cell = rightAfter.host.get? cell) ∧
      ∀ cell, cell ∉ tx.footprint →
        leftAfter.host.get? cell = left.host.get? cell ∧
        rightAfter.host.get? cell = right.host.get? cell := by
  intro leftAfter rightAfter
  have result : (left.spend verify tx).1 = (right.spend verify tx).1 := spend_congr agree
  have inside : ∀ cell ∈ left.host.changed leftAfter.host, cell ∈ tx.footprint := by
    intro cell changes
    by_contra outside
    exact changes (left.get?_spend_of_not_mem outside)
  refine ⟨result, ?_, ?_, ?_, ?_⟩
  · exact ⟨_, left.events_spend, result ▸ right.events_spend⟩
  · ext cell
    by_cases member : cell ∈ tx.footprint
    · change leftAfter.host.get? cell ≠ left.host.get? cell ↔
        rightAfter.host.get? cell ≠ right.host.get? cell
      rw [agree cell member, get?_spend_congr agree member]
    · exact iff_of_false (fun changes => changes (left.get?_spend_of_not_mem member))
        (fun changes => changes (right.get?_spend_of_not_mem member))
  · exact fun cell changes => get?_spend_congr agree (inside cell changes)
  · exact fun cell outside =>
      ⟨left.get?_spend_of_not_mem outside, right.get?_spend_of_not_mem outside⟩

end Ledger

end

/-- A coin of five lies in memory, and again in a table with a transaction open and a cell beside it
that holds no coin. Spent from the second state as from the first, it leaves a fee of two, and the
cell beside it stays as it is. -/
theorem Ledger.spend_beside_a_malformed_cell :
    let owner : PublicKey := FixedBytes.zero 32
    let outpoint : Outpoint := FixedBytes.zero 32
    let beside : ByteString := coinCell ⟨List.replicate 32 1, rfl⟩
    let coin : Output := ⟨⟨5, by decide⟩, owner⟩
    let tx : Transaction := ⟨[⟨outpoint, emptySignature⟩], [⟨⟨3, by decide⟩, owner⟩]⟩
    let accept : Verifier := fun _ _ _ => true
    let plain := Ledger.ofHost (HostState.emptyMemory.addCoin outpoint coin) []
    let crowded := Ledger.ofHost ((HostState.emptyTable.enter.put beside [7]).addCoin outpoint coin)
      [.rewardWasted none]
    (∀ cell ∈ tx.footprint, plain.host.get? cell = crowded.host.get? cell) ∧
      (crowded.spend accept tx).1 = .ok 2 ∧
      (crowded.spend accept tx).2.events = [.rewardWasted none, .transactionApplied tx] ∧
      (crowded.spend accept tx).2.host.get? beside = some [7] := by
  intro owner outpoint beside coin tx accept plain crowded
  have agree : ∀ cell ∈ tx.footprint, plain.host.get? cell = crowded.host.get? cell := by
    decide +kernel
  obtain ⟨result, ⟨told, here, there⟩, _, _, untouched⟩ :=
    plain.spend_stays_in_its_footprint crowded accept agree
  have paid : (plain.spend accept tx).1 = .ok 2 := by decide +kernel
  have single : (plain.spend accept tx).2.events = [.transactionApplied tx] := by decide +kernel
  obtain rfl : told = [.transactionApplied tx] := here.symm.trans single
  refine ⟨agree, result ▸ paid, there, ?_⟩
  exact (untouched beside (by decide +kernel)).2.trans (by decide +kernel)

end CoinLedger

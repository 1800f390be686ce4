import CoinLedger.Crypto.Blake2b
import CoinLedger.Proofs.Chain.Receipts

/-! # Rejected transactions leave no trace in a block

A transaction of a block that is rejected gives back the chain that it found
(`CoinLedger.Chain.apply_cases`), so the transactions after it run as if it had not been submitted.
A block of those transactions alone that were applied ends with the very same chain, and its receipt
differs in nothing but the outcomes of the others (`CoinLedger.Chain.block_without_rejected`).
-/

namespace CoinLedger

/-- The transactions that outcomes say were applied. -/
def appliedAmong (txs : List Transaction) (outcomes : List Outcome) : List Transaction :=
  ((txs.zip outcomes).filter fun attempt => attempt.2.applied).map Prod.fst

theorem appliedAmong_cons (tx : Transaction) (txs : List Transaction) (outcome : Outcome)
    (outcomes : List Outcome) :
    appliedAmong (tx :: txs) (outcome :: outcomes) =
      if outcome.applied then tx :: appliedAmong txs outcomes else appliedAmong txs outcomes := by
  rw [appliedAmong, List.zip_cons_cons, List.filter_cons]
  split <;> rfl

namespace Chain

section

variable [CoinHash] {chain after : Chain} {tx : Transaction} {txs : List Transaction}

/-- A transaction is applied, or it is rejected and the chain is the one before. -/
theorem apply_cases {outcome : Outcome} (run : chain.apply tx = (.ok outcome, after)) :
    outcome.applied = true ∨ (outcome.applied = false ∧ after = chain) := by
  unfold apply at run
  split at run
  · cases run
    exact .inl rfl
  · rename_i refused
    cases run
    exact .inr ⟨rfl, spend_error refused⟩
  · cases run

/-- The transactions that were applied are all applied when they are submitted alone, and lead to
the same chain. -/
theorem applyAll_appliedAmong {outcomes : List Outcome}
    (run : applyAll txs chain = (.ok outcomes, after)) :
    applyAll (appliedAmong txs outcomes) chain =
      (.ok (outcomes.filter Outcome.applied), after) := by
  induction txs generalizing chain outcomes with
  | nil =>
      cases run
      rfl
  | cons tx txs inductive_step =>
      rw [applyAll] at run
      split at run
      · cases run
      · rename_i outcome middle attempted
        split at run
        · cases run
        · rename_i outcomes final later
          cases run
          have others := inductive_step later
          rcases apply_cases attempted with applied | ⟨rejected, rfl⟩
          · rw [appliedAmong_cons, if_pos applied, List.filter_cons_of_pos applied, applyAll,
              attempted]
            dsimp only
            rw [others]
          · have unapplied := Bool.eq_false_iff.mp rejected
            rw [appliedAmong_cons, if_neg unapplied, List.filter_cons_of_neg unapplied, others]

/-- A block of those that were applied is executed as the whole block was, with their outcomes. -/
theorem executeBlock_appliedAmong {receipt : Receipt} (next : chain.host.blockNumber + 1 < 2 ^ 64)
    (run : chain.executeBlock txs = (.ok receipt, after)) :
    chain.executeBlock (appliedAmong txs receipt.outcomes) =
      (.ok { receipt with outcomes := receipt.outcomes.filter Outcome.applied }, after) := by
  obtain ⟨position, _, number⟩ := exists_u64OfInt_eq_ok next
  rw [executeBlock_eq number.symm] at run ⊢
  split at run
  · cases run
  · rename_i outcomes applied ran
    split at run
    · cases run
    · rename_i settlement final settled
      cases run
      dsimp only
      rw [applyAll_appliedAmong ran]
      dsimp only
      rw [settled]

/-- **A block is what its applied transactions make of it.** Let the coins of a chain be readable,
its pool have its size, and a number for the next block be left, and submit any transactions whose
outputs can be numbered, under any check on signatures and to any authorities. The block has a
receipt with one outcome for each of them. A block of those alone that were applied, submitted to
the same chain, applies every one of them with the same fee. It ends with the very same chain: the
state, the events, the phase of the pool and the running totals. And its receipt has the same
number, events and pool. -/
theorem block_without_rejected (valid : chain.host.WellFormed)
    (next : chain.host.blockNumber < 2 ^ 64 - 1)
    (few : ∀ tx ∈ txs, tx.outputs.length < 2 ^ 64) :
    ∃ receipt after, chain.executeBlock txs = (.ok receipt, after) ∧
      receipt.outcomes.map Outcome.id = txs.map Transaction.id ∧
      chain.executeBlock (appliedAmong txs receipt.outcomes) =
        (.ok { receipt with outcomes := receipt.outcomes.filter Outcome.applied }, after) := by
  have room : chain.host.blockNumber + 1 < 2 ^ 64 := by omega
  obtain ⟨receipt, after, run⟩ := exists_receipt valid few room
  obtain ⟨_, _, covers, _⟩ := executeBlock_ok room run
  exact ⟨receipt, after, run, covers.reported, executeBlock_appliedAmong room run⟩

end

/-- A payment is submitted twice in one block, which pays its fee to an authority. The block is the
one that has it once. -/
theorem block_without_repeated_payment :
    let owner : PublicKey := FixedBytes.zero 32
    let outpoint : Outpoint := FixedBytes.zero 32
    let tx : Transaction := ⟨[⟨outpoint, emptySignature⟩], [⟨⟨3, by decide⟩, owner⟩]⟩
    let chain := ofHost (HostState.emptyMemory.addCoin outpoint ⟨⟨5, by decide⟩, owner⟩)
      [.bytes owner.bytes] (fun _ _ _ => true) 3
    ∃ receipt after, chain.executeBlock [tx, tx] = (.ok receipt, after) ∧
      chain.executeBlock [tx] =
        (.ok { receipt with outcomes := receipt.outcomes.filter Outcome.applied }, after) := by
  intro owner outpoint tx chain
  have valid : chain.host.WellFormed :=
    (@HostState.wellFormed_of_empty .emptyMemory fun _ => rfl).addCoin outpoint _
  have once : (chain.executeBlock [tx, tx]).1.map
      (fun receipt => appliedAmong [tx, tx] receipt.outcomes) = .ok [tx] := by decide +kernel
  obtain ⟨receipt, after, run, _, alone⟩ := @block_without_rejected _ chain [tx, tx] valid
    (by decide +kernel) (by decide)
  rw [run] at once
  have remaining : appliedAmong [tx, tx] receipt.outcomes = [tx] := Except.ok.inj once
  rw [remaining] at alone
  exact ⟨receipt, after, run, alone⟩

end Chain
end CoinLedger

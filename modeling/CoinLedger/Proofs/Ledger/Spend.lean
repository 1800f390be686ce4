import CoinLedger.Ledger.Spend
import CoinLedger.Proofs.CoinSet.Cells
import CoinLedger.Proofs.Validation

/-! # What spending does

A spend that succeeds moves the coins of an admissible transaction: those of its inputs are
removed, its outputs are stored under their keys, and the pool grows by the fee
(`CoinLedger.Ledger.spend_ok`). A spend that fails leaves the ledger as it is
(`CoinLedger.Ledger.spend_error`).
-/

namespace CoinLedger

open HostState

/-- A checked sum is the sum. -/
theorem checkedAdd_ok {left right sum : Int} (added : checkedAdd left right = .ok sum) :
    sum = left + right := by
  unfold checkedAdd at added
  split at added
  · cases added
    rfl
  · cases added

section

variable {fee : Nat} {state credited : HostState}

/-- A credited fee changes the pool's cell alone, and the pool grows by it. -/
theorem creditPool_ok (credits : creditPool fee state = .ok credited) :
    (credited = state ∧ fee = 0) ∨
      ∃ amount : Amount, credited = state.setPool amount ∧ amount.toNat = state.pool + fee := by
  unfold creditPool at credits
  split at credits
  · rename_i nothing
    cases credits
    exact .inl ⟨rfl, nothing⟩
  · split at credits
    · cases credits
    · rename_i total added
      split at credits
      · cases credits
      · rename_i amount fits
        cases credits
        refine .inr ⟨amount, rfl, ?_⟩
        have sum := checkedAdd_ok added
        have same := Amount.ofInt_eq_ok_iff.mp fits
        omega

/-- Crediting adds the fee to the pool. -/
theorem pool_creditPool (credits : creditPool fee state = .ok credited) :
    credited.pool = state.pool + fee := by
  rcases creditPool_ok credits with ⟨rfl, rfl⟩ | ⟨amount, rfl, same⟩
  · rfl
  · rw [pool_setPool, same]

/-- What a credited fee leaves in the pool's cell. -/
theorem get?_poolKey_creditPool (credits : creditPool fee state = .ok credited) :
    credited.get? poolKey =
      if fee = 0 then state.get? poolKey else some (littleEndian 16 (state.pool + fee)) := by
  split
  · rename_i nothing
    rw [creditPool, if_pos nothing] at credits
    cases credits
    rfl
  · rename_i some
    rcases creditPool_ok credits with ⟨_, nothing⟩ | ⟨amount, rfl, same⟩
    · exact absurd nothing some
    · rw [setPool, get?_put, if_pos rfl, Amount.encode, same]

/-- Crediting the pool changes no coin. -/
theorem coin?_creditPool (credits : creditPool fee state = .ok credited) :
    credited.coin? = state.coin? := by
  rcases creditPool_ok credits with ⟨rfl, _⟩ | ⟨amount, rfl, _⟩
  · rfl
  · exact state.coin?_setPool amount

/-- A move of coins after the pool was credited is one from before. -/
theorem HostState.Moves.of_creditPool {after : HostState} {spent minted : List (Outpoint × Output)}
    (credits : creditPool fee state = .ok credited) (moves : Moves credited after spent minted) :
    Moves state after spent minted := by
  rcases creditPool_ok credits with ⟨rfl, _⟩ | ⟨amount, rfl, _⟩
  · exact moves
  · exact moves.of_setPool

end

/-- Removing the inputs removes the coins under their outpoints. -/
theorem removeInputs_eq (inputs : List Input) (state : HostState) :
    removeInputs inputs state = removeCoins (inputs.map Input.outpoint) state :=
  List.foldl_map.symm

variable [CoinHash]

/-- Storing outputs leaves alone what lies outside the innermost transaction. -/
theorem storeOutputs_confined (encoded : ByteString) (index : Nat) (outputs : List Output) :
    Confined (storeOutputs encoded index outputs) := by
  intro state base inside
  induction outputs generalizing index state with
  | nil => exact inside
  | cons output outputs inductive_step =>
      rw [storeOutputs]
      split
      · exact inside
      · split
        · exact inside
        · exact inductive_step (index + 1) (inside.put _ _)

/-- Outputs that are all stored are stored under their keys. -/
theorem storeOutputs_ok {encoded : ByteString} {index : Nat} {outputs : List Output}
    {keys : List Outpoint} {state after : HostState}
    (derived : Transaction.outputKeysFrom encoded index outputs = .ok keys)
    (stored : storeOutputs encoded index outputs state = (.ok (), after)) :
    after = addCoins (keys.zip outputs) state := by
  induction outputs generalizing index state keys with
  | nil =>
      cases stored
      rw [List.zip_nil_right]
      rfl
  | cons output outputs inductive_step =>
      rw [storeOutputs] at stored
      rw [Transaction.outputKeysFrom] at derived
      cases fits : u64OfInt index with
      | error reason =>
          rw [fits] at stored
          cases stored
      | ok position =>
          rw [fits] at stored derived
          dsimp only at stored derived
          split at stored
          · cases stored
          · split at derived
            · cases derived
            · rename_i later derivedLater
              cases derived
              exact inductive_step derivedLater stored

section

variable {verify : Verifier} {tx : Transaction} {fee : Nat}

/-- Applying a transaction leaves alone what lies outside the innermost transaction of the state. -/
theorem applyTo_confined : Confined (applyTo verify tx) := by
  intro state base inside
  unfold applyTo
  split
  · exact inside
  · rename_i fee _
    split
    · exact inside
    · rename_i credited credits
      have innerCredited : credited.InnerOf base := by
        rcases creditPool_ok credits with ⟨rfl, _⟩ | ⟨amount, rfl, _⟩
        · exact inside
        · exact inside.put _ _
      have innerRemoved := innerCredited.removeCoins (tx.inputs.map Input.outpoint)
      rw [← removeInputs_eq] at innerRemoved
      have later := storeOutputs_confined tx.encode 0 tx.outputs innerRemoved
      split <;> (rename_i stored; exact congrArg Prod.snd stored ▸ later)

/-- A transaction that is carried out is admissible. Its fee is credited, its inputs are removed,
and then its outputs are stored under their keys. -/
theorem applyTo_eq_ok {state after : HostState}
    (applied : applyTo verify tx state = (.ok fee, after)) :
    ∃ coins keys credited, Admissible verify state.coin? tx coins keys fee ∧
      creditPool fee state = .ok credited ∧
      after = addCoins (keys.zip tx.outputs) (removeCoins tx.outpoints credited) := by
  unfold applyTo at applied
  split at applied
  · cases applied
  · rename_i charged accepted
    obtain ⟨coins, keys, admissible⟩ := validate_eq_ok_iff.mp accepted
    split at applied
    · cases applied
    · rename_i credited credits
      split at applied
      · cases applied
      · rename_i final stored
        cases applied
        refine ⟨coins, keys, credited, admissible, credits, ?_⟩
        rw [storeOutputs_ok admissible.derived stored, removeInputs_eq, Transaction.outpoints]

/-- A transaction that is carried out is admissible, its coins are moved, and the pool has its
fee. -/
theorem applyTo_ok {state after : HostState}
    (applied : applyTo verify tx state = (.ok fee, after)) :
    ∃ coins keys, Admissible verify state.coin? tx coins keys fee ∧
      Moves state after (tx.outpoints.zip coins) (keys.zip tx.outputs) ∧
      after.pool = state.pool + fee := by
  obtain ⟨coins, keys, credited, admissible, credits, rfl⟩ := applyTo_eq_ok applied
  -- The coins were looked up before the fee was credited, which moves none of them.
  have shown := coin?_creditPool credits
  have present : ∀ entry ∈ tx.outpoints.zip coins,
      credited.coin? entry.1 = .ok (some entry.2) := by
    intro entry member
    obtain ⟨_, _, _, present, _⟩ := admissible.input_of_mem_spent member
    rw [shown, present]
  have once : ((tx.outpoints.zip coins).map Prod.fst).Nodup := by
    rw [admissible.map_fst_spent]
    exact admissible.outpoints
  have free : ∀ entry ∈ keys.zip tx.outputs, credited.coin? entry.1 = .ok none := by
    intro entry member
    rw [shown]
    exact admissible.free entry.1 (List.of_mem_zip member).1
  have moves := Moves.exchange present once free
  rw [admissible.map_fst_spent] at moves
  refine ⟨coins, keys, admissible, moves.of_creditPool credits, ?_⟩
  rw [← pool_creditPool credits, pool_addCoins]
  exact pool_removeCoins tx.outpoints

end

namespace Ledger

variable {ledger after : Ledger} {verify : Verifier} {tx : Transaction}

/-- A spend that fails leaves the ledger as it is. -/
theorem spend_error {error : LedgerError} (run : ledger.spend verify tx = (.error error, after)) :
    after = ledger := by
  unfold spend at run
  split at run
  · rename_i failed
    cases run
    obtain ⟨rfl, _⟩ := atomically_error applyTo_confined failed
    rfl
  · cases run

/-- A transaction that is not valid is refused for the reason that validation gives. -/
theorem spend_of_invalid {error : LedgerError}
    (invalid : validate verify ledger.host.coin? tx = .error error) :
    ledger.spend verify tx = (.error error, ledger) := by
  have inner : applyTo verify tx ledger.host.enter = (.error error, ledger.host.enter) := by
    unfold applyTo
    rw [coin?_enter, invalid]
  have failed : ledger.host.atomically (applyTo verify tx) = (.error error, ledger.host) := by
    unfold atomically
    rw [inner]
    exact congrArg (Prod.mk (Except.error error)) ledger.host.innerOf_enter.rollback
  unfold spend
  rw [failed]

/-- A spend that succeeds has carried the transaction out, and the ledger has counted its fee and
deposited its event. -/
theorem spend_eq_ok {fee : Nat} (run : ledger.spend verify tx = (.ok fee, after)) :
    ∃ host, ledger.host.atomically (applyTo verify tx) = (.ok fee, host) ∧
      after = { ledger with
        host
        feesCollected := ledger.feesCollected + fee
        phase := if fee = 0 then ledger.phase else .accruing
        events := ledger.events ++ [.transactionApplied tx] } := by
  unfold spend at run
  split at run
  · cases run
  · rename_i host applied
    cases run
    exact ⟨host, applied, rfl⟩

/-- **A spend that succeeds moves the coins of an admissible transaction and credits its fee.** -/
theorem spend_ok {fee : Nat} (run : ledger.spend verify tx = (.ok fee, after)) :
    ∃ coins keys, Admissible verify ledger.host.coin? tx coins keys fee ∧
      Moves ledger.host after.host (tx.outpoints.zip coins) (keys.zip tx.outputs) ∧
      after.host.pool = ledger.host.pool + fee ∧ after.rewardsWasted = ledger.rewardsWasted := by
  obtain ⟨host, applied, rfl⟩ := spend_eq_ok run
  obtain ⟨inner, carried, rfl⟩ := atomically_ok applied
  obtain ⟨coins, keys, admissible, moves, credited⟩ := applyTo_ok carried
  rw [coin?_enter] at admissible
  refine ⟨coins, keys, admissible, moves.atomically, ?_, rfl⟩
  rw [pool_commit, credited, pool_enter]

end Ledger
end CoinLedger

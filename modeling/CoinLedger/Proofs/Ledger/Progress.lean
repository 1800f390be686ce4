import CoinLedger.Proofs.CoinSet.Map
import CoinLedger.Proofs.Ledger.Finalize
import CoinLedger.Proofs.Validation.Verdict

/-! # What can fail

A spend fails because the transaction is not valid, because its fee does not fit in the pool, or
because its outputs are too many to be numbered (`CoinLedger.Ledger.spend_error_cases`). Where all
coins can be read each of these is a rejection of the transaction
(`CoinLedger.Ledger.spend_error_rejected`). Dealing with the pool does not fail at all as long as
the pool holds an amount (`CoinLedger.Ledger.finalize_total`).
-/

namespace CoinLedger

open HostState

/-- A number of 128 bits is taken as an amount. -/
theorem Amount.exists_ofInt_eq_ok (name : String) {value : Nat} (fits : value < amountBound) :
    ∃ amount, Amount.ofInt name value = .ok amount :=
  ⟨⟨value, fits⟩, Amount.ofInt_eq_ok_iff.mpr rfl⟩

theorem exists_u64OfInt_eq_ok {value : Nat} (fits : value < 2 ^ 64) :
    ∃ number : UInt64, u64OfInt value = .ok number ∧ number.toNat = value := by
  refine ⟨UInt64.ofNat value, u64OfInt_eq_ok_iff.mpr ?_, UInt64.toNat_ofNat_of_lt' fits⟩
  rw [UInt64.toNat_ofNat_of_lt' fits]

/-- Crediting the pool is refused only for an overflow. -/
theorem creditPool_error {fee : Nat} {state : HostState} {error : LedgerError}
    (refused : creditPool fee state = .error error) :
    amountBound ≤ state.pool + fee ∧ ∃ detail, error = .rejected (.overflow detail) := by
  unfold creditPool at refused
  by_cases nothing : fee = 0
  · rw [if_pos nothing] at refused
    cases refused
  rw [if_neg nothing, checkedAdd] at refused
  by_cases fits : state.pool + fee < amountBound
  · obtain ⟨amount, held⟩ := Amount.exists_ofInt_eq_ok "reward total" fits
    have inside : (state.pool : Int) + fee < amountBound := by omega
    rw [if_pos inside] at refused
    dsimp only at refused
    rw [← Int.natCast_add, held] at refused
    cases refused
  · have outside : ¬ (state.pool : Int) + fee < amountBound := by omega
    rw [if_neg outside] at refused
    cases refused
    exact ⟨Nat.le_of_not_lt fits, _, rfl⟩

/-- Crediting the pool succeeds if the sum fits. -/
theorem exists_creditPool_eq_ok {fee : Nat} {state : HostState}
    (fits : state.pool + fee < amountBound) : ∃ credited, creditPool fee state = .ok credited := by
  cases credits : creditPool fee state with
  | ok credited => exact ⟨credited, rfl⟩
  | error error => exact absurd (creditPool_error credits).1 (Nat.not_le_of_lt fits)

variable [CoinHash]

/-- Storing outputs fails only when there are more than have positions. -/
theorem storeOutputs_error {encoded : ByteString} {index : Nat} {outputs : List Output}
    {state after : HostState} {error : LedgerError} (inside : index < 2 ^ 64)
    (failed : storeOutputs encoded index outputs state = (.error error, after)) :
    2 ^ 64 ≤ index + outputs.length ∧
      error = .rejected (.indexOverflow "output index overflow") := by
  induction outputs generalizing index state with
  | nil => cases failed
  | cons output outputs inductive_step =>
      obtain ⟨position, fits, _⟩ := exists_u64OfInt_eq_ok inside
      rw [storeOutputs, fits] at failed
      dsimp only at failed
      rw [List.length_cons]
      split at failed
      · cases failed
        exact ⟨by omega, rfl⟩
      · have later := inductive_step (by omega) failed
        exact ⟨by omega, later.2⟩

namespace Ledger

variable {ledger : Ledger} {verify : Verifier} {tx : Transaction}

/-- A spend fails where validation does, or where the fee does not fit in the pool, or where there
are too many outputs. -/
theorem spend_error_cases {error : LedgerError}
    (failed : (ledger.spend verify tx).1 = .error error) :
    validate verify ledger.host.coin? tx = .error error ∨
      ∃ fee, validate verify ledger.host.coin? tx = .ok fee ∧
        ((amountBound ≤ ledger.host.pool + fee ∧ ∃ detail, error = .rejected (.overflow detail)) ∨
          (2 ^ 64 ≤ tx.outputs.length ∧
            error = .rejected (.indexOverflow "output index overflow"))) := by
  unfold spend at failed
  split at failed
  · rename_i host applied
    cases failed
    obtain ⟨_, inner, carried⟩ := atomically_error applyTo_confined applied
    unfold applyTo at carried
    rw [coin?_enter] at carried
    split at carried
    · rename_i invalid
      cases carried
      exact .inl invalid
    · rename_i fee accepted
      refine .inr ⟨fee, accepted, ?_⟩
      split at carried
      · rename_i refused
        cases carried
        have full := creditPool_error refused
        rw [pool_enter] at full
        exact .inl full
      · split at carried
        · rename_i stopped
          cases carried
          have many := storeOutputs_error (by decide) stopped
          rw [Nat.zero_add] at many
          exact .inr many
        · cases carried
  · cases failed

/-- Where all coins can be read, a transaction whose outputs can be numbered is applied or
rejected. -/
theorem spend_error_rejected {coins : Outpoint → Option Output} (shows : ledger.host.Shows coins)
    (few : tx.outputs.length < 2 ^ 64) {error : LedgerError}
    (failed : (ledger.spend verify tx).1 = .error error) : ∃ reason, error = .rejected reason := by
  rcases spend_error_cases failed with invalid | ⟨_, _, ⟨_, detail, rfl⟩ | ⟨_, rfl⟩⟩
  · rw [shows] at invalid
    obtain ⟨reason, rfl, _⟩ := validate_eq_error few invalid
    exact ⟨reason, rfl⟩
  · exact ⟨_, rfl⟩
  · exact ⟨_, rfl⟩

end Ledger

omit [CoinHash] in
/-- Payments succeed behind an event as they do without it. -/
theorem exists_withEvent_ok (event : Event) {run : Except LedgerError (List Event) × HostState}
    (later : ∃ events, run.1 = .ok events) :
    ∃ events, (payShares.withEvent event run).1 = .ok events := by
  obtain ⟨outcome, after⟩ := run
  obtain ⟨events, rfl⟩ := later
  exact ⟨event :: events, rfl⟩

/-- Paying a share that fits succeeds for every list of authorities. -/
theorem payShares_total {share : Nat} (fits : share < amountBound) (block : UInt64)
    (authorities : List Loose) (state : HostState) :
    ∃ events, (payShares share block authorities state).1 = .ok events := by
  induction authorities generalizing state with
  | nil => exact ⟨[], rfl⟩
  | cons authority authorities inductive_step =>
      obtain ⟨value, held⟩ := Amount.exists_ofInt_eq_ok "value" fits
      rw [payShares]
      split
      · exact exists_withEvent_ok _ (inductive_step _)
      · rw [held]
        dsimp only
        split
        · exact exists_withEvent_ok _ (inductive_step _)
        · exact exists_withEvent_ok _ (inductive_step _)

/-- Dispersing a pool that fits succeeds for every list of authorities. -/
theorem disperse_total {pool share : Nat} (fits : pool < amountBound) (within : share ≤ pool)
    (block : UInt64) (authorities : List Loose) (state : HostState) :
    ∃ events, (disperse pool share block authorities state).1 = .ok events := by
  obtain ⟨remainder, held⟩ := Amount.exists_ofInt_eq_ok "reward total"
    (Nat.lt_of_le_of_lt (Nat.sub_le pool (share * authorities.length)) fits)
  unfold disperse
  rw [held]
  exact payShares_total (Nat.lt_of_le_of_lt within fits) block authorities _

/-- **Dealing with the pool does not fail in a block that has a number.** -/
theorem Ledger.finalize_total {ledger : Ledger} (fits : ledger.host.pool < amountBound)
    (authorities : List Loose) (number : UInt64) :
    ∃ settlement, (ledger.finalize authorities number.toNat).1 = .ok settlement := by
  have numbered : u64OfInt number.toNat = .ok number := u64OfInt_eq_ok_iff.mpr rfl
  unfold finalize
  rw [numbered]
  dsimp only
  split
  · exact ⟨_, rfl⟩
  · split
    · exact ⟨_, rfl⟩
    · split
      · rename_i failed
        obtain ⟨_, inner, stopped⟩ := atomically_error disperse_confined failed
        obtain ⟨events, paid⟩ := disperse_total fits (Nat.div_le_self _ authorities.length) number
          authorities ledger.host.enter
        rw [stopped] at paid
        cases paid
      · exact ⟨_, rfl⟩

end CoinLedger

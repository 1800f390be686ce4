import CoinLedger.Proofs.CoinSet.Totals
import CoinLedger.Proofs.Ledger.Finalize
import CoinLedger.Proofs.Ledger.Genesis

/-! # Runs of a ledger

A ledger seeds, spends and pays out, in any order and as often as it is asked to, and may be
opened anew over its state in between. Whatever it is asked, what becomes of its state is a move,
in which coins are removed by a spend that succeeds and by nothing else
(`CoinLedger.Ledger.perform_moves`).
-/

namespace CoinLedger

open HostState

namespace Ledger

/-- What a ledger is asked to do. -/
inductive Operation where
  /-- Seed genesis coins. -/
  | seed (outputs : List (Except InvalidValue Output))
  /-- Apply a transaction under a check on signatures. -/
  | spend (verify : Verifier) (tx : Transaction)
  /-- Pay out the pool to authorities, at the end of the block that a source names. -/
  | finalize (authorities : List Loose) (source : Option Int)

/-- What a ledger answers when it has done what it was asked to do. -/
inductive Reply where
  /-- The keys of the genesis coins. -/
  | seeded (keys : List Outpoint)
  /-- The fee of the transaction. -/
  | spent (fee : Nat)
  /-- How the pool was dealt with. -/
  | settled (settlement : Settlement)

/-- A step in the life of a ledger. -/
inductive Step where
  /-- The ledger is asked to do something. -/
  | call (operation : Operation)
  /-- The ledger is opened anew over its state, with a log of events that goes on. -/
  | restart (events : List Event)

variable [CoinHash]

/-- Do what is asked; the result is a reply, or why it failed. -/
def perform (ledger : Ledger) : Operation → Except LedgerError Reply × Ledger
  | .seed outputs => ((ledger.seed outputs).1.map .seeded, (ledger.seed outputs).2)
  | .spend verify tx => ((ledger.spend verify tx).1.map .spent, (ledger.spend verify tx).2)
  | .finalize authorities source =>
      ((ledger.finalizeFrom authorities source).1.map .settled,
        (ledger.finalizeFrom authorities source).2)

/-- Take a step. There is an outcome if something is asked. -/
def advance (ledger : Ledger) : Step → Option (Except LedgerError Reply) × Ledger
  | .call operation => (some (ledger.perform operation).1, (ledger.perform operation).2)
  | .restart events => (none, ofHost ledger.host events)

/-- Do one thing after another; the result is what was asked with what came of it, and the ledger
after all. -/
def run (ledger : Ledger) :
    List Operation → List (Operation × Except LedgerError Reply) × Ledger
  | [] => ([], ledger)
  | operation :: operations =>
      let (outcome, after) := ledger.perform operation
      let (reports, final) := after.run operations
      ((operation, outcome) :: reports, final)

/-- The ledger after steps. -/
def live (ledger : Ledger) (steps : List Step) : Ledger :=
  steps.foldl (fun ledger step => (ledger.advance step).2) ledger

@[simp] theorem live_nil (ledger : Ledger) : ledger.live [] = ledger := rfl

theorem live_cons (ledger : Ledger) (step : Step) (steps : List Step) :
    ledger.live (step :: steps) = (ledger.advance step).2.live steps := rfl

theorem live_append (ledger : Ledger) (earlier later : List Step) :
    ledger.live (earlier ++ later) = (ledger.live earlier).live later :=
  List.foldl_append

/-- **Whatever a ledger is asked, its state makes a move, and coins are removed only by a
transaction that is accepted.** -/
theorem perform_moves (ledger : Ledger) (operation : Operation) :
    ∃ spent minted, Moves ledger.host (ledger.perform operation).2.host spent minted ∧
      (spent = [] ∨ ∃ verify tx coins keys fee, operation = .spend verify tx ∧
        (ledger.perform operation).1 = .ok (.spent fee) ∧
        Admissible verify ledger.host.coin? tx coins keys fee ∧
        spent = tx.outpoints.zip coins) := by
  cases operation with
  | seed outputs =>
      rcases seeded : ledger.seed outputs with ⟨error | keys, after⟩
      · refine ⟨[], [], ?_, .inl rfl⟩
        rw [perform, seeded, seed_error seeded]
        exact Moves.refl ledger.host
      · obtain ⟨coins, _, _, _, moves, _⟩ := seed_ok seeded
        refine ⟨[], coins.map Output.atGenesis, ?_, .inl rfl⟩
        rw [perform, seeded]
        exact moves
  | spend verify tx =>
      rcases applied : ledger.spend verify tx with ⟨error | fee, after⟩
      · refine ⟨[], [], ?_, .inl rfl⟩
        rw [perform, applied, spend_error applied]
        exact Moves.refl ledger.host
      · obtain ⟨coins, keys, admissible, moves, _⟩ := spend_ok applied
        refine ⟨tx.outpoints.zip coins, keys.zip tx.outputs, ?_, .inr ?_⟩
        · rw [perform, applied]
          exact moves
        · refine ⟨verify, tx, coins, keys, fee, rfl, ?_, admissible, rfl⟩
          rw [perform, applied]
          rfl
  | finalize authorities source =>
      cases source with
      | none => exact ⟨[], [], Moves.refl ledger.host, .inl rfl⟩
      | some block =>
          rcases settled : ledger.finalize authorities block with ⟨outcome, after⟩
          change ∃ spent minted, Moves ledger.host (ledger.finalize authorities block).2.host
            spent minted ∧ _
          rw [settled]
          rcases finalize_cases settled with ⟨share, events, carry, rfl⟩ | ⟨same, _⟩
          · obtain ⟨number, _, _, _, moves, _⟩ := finalize_dispersed settled
            exact ⟨[], (rewardsOf events).map (Output.asReward number), moves, .inl rfl⟩
          · refine ⟨[], [], ?_, .inl rfl⟩
            rw [same]
            exact Moves.refl ledger.host

variable {ledger : Ledger}

/-- Whatever is asked, the state stays well-formed. -/
theorem wellFormed_perform (valid : ledger.host.WellFormed) (operation : Operation) :
    (ledger.perform operation).2.host.WellFormed := by
  obtain ⟨_, _, moves, _⟩ := ledger.perform_moves operation
  exact moves.wellFormed valid

/-- A step keeps the state well-formed. -/
theorem wellFormed_advance (valid : ledger.host.WellFormed) (step : Step) :
    (ledger.advance step).2.host.WellFormed := by
  cases step with
  | call operation => exact wellFormed_perform valid operation
  | restart events => exact valid

/-- **Well-formed states stay well-formed.** -/
theorem wellFormed_live (valid : ledger.host.WellFormed) (steps : List Step) :
    (ledger.live steps).host.WellFormed := by
  induction steps generalizing ledger with
  | nil => exact valid
  | cons step steps inductive_step => exact inductive_step (wellFormed_advance valid step)

/-- Whatever is asked one after another, the state stays well-formed. -/
theorem wellFormed_run (valid : ledger.host.WellFormed) (operations : List Operation) :
    (ledger.run operations).2.host.WellFormed := by
  induction operations generalizing ledger with
  | nil => exact valid
  | cons operation operations inductive_step =>
      exact inductive_step (wellFormed_perform valid operation)

end Ledger
end CoinLedger

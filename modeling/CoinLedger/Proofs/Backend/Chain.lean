import CoinLedger.Chain.Settings
import CoinLedger.Proofs.Backend.State
import CoinLedger.Proofs.Chain.Host

/-! # Ledgers and chains over a table

Everything that a ledger and a chain do to their state is portable: it looks cells up, writes them
and opens transactions, and it lists only under the mark of coins. So a ledger and a chain over a
table come to the same results as over the state in memory that the table stands for, and keep the
same events, totals and phase (`CoinLedger.Chain.executeBlock_onTable`).
-/

namespace CoinLedger

open HostState

/-- The pool of a table is credited as that of the state. -/
theorem creditPool_onTable (fee : Nat) (state : HostState) :
    creditPool fee state.onTable = (creditPool fee state).map onTable := by
  unfold creditPool
  rw [pool_onTable]
  split
  · rfl
  · split
    · rfl
    · split
      · rfl
      · rw [setPool_onTable]
        rfl

/-- Inputs are removed from a table as from the state. -/
theorem removeInputs_onTable (inputs : List Input) (state : HostState) :
    removeInputs inputs state.onTable = (removeInputs inputs state).onTable := by
  induction inputs generalizing state with
  | nil => rfl
  | cons input inputs inductive_step =>
      refine Eq.trans ?_ (inductive_step (state.removeCoin input.outpoint))
      rw [← removeCoin_onTable]
      rfl

section

variable [CoinHash]

/-- Seeding coins is portable. -/
theorem portable_seedFrom (index : Nat) (outputs : List (Except InvalidValue Output)) :
    Portable (seedFrom index outputs) := by
  intro state
  induction outputs generalizing index state with
  | nil => rfl
  | cons entry outputs inductive_step =>
      cases entry with
      | error reason => rfl
      | ok output =>
          rw [seedFrom, seedFrom]
          dsimp only
          rw [hasCoin_onTable, addCoin_onTable, inductive_step]
          split
          · rfl
          · split
            · rfl
            · rcases seedFrom (index + 1) outputs (state.addCoin output.genesisKey output) with
                ⟨error | keys, after⟩ <;> rfl

/-- Storing outputs is portable. -/
theorem portable_storeOutputs (encoded : ByteString) (index : Nat) (outputs : List Output) :
    Portable (storeOutputs encoded index outputs) := by
  intro state
  induction outputs generalizing index state with
  | nil => rfl
  | cons output outputs inductive_step =>
      rw [storeOutputs, storeOutputs]
      split
      · rfl
      · split
        · rfl
        · rw [addCoin_onTable, inductive_step]

/-- Applying a transaction is portable. -/
theorem portable_applyTo (verify : Verifier) (tx : Transaction) : Portable (applyTo verify tx) := by
  intro state
  unfold applyTo
  rw [coin?_onTable]
  split
  · rfl
  · rename_i fee _
    rw [creditPool_onTable]
    cases creditPool fee state with
    | error error => rfl
    | ok credited =>
        dsimp only [Except.map]
        rw [removeInputs_onTable, portable_storeOutputs]
        rcases storeOutputs tx.encode 0 tx.outputs (removeInputs tx.inputs credited) with
          ⟨error | done, after⟩ <;> rfl

/-- Paying shares is portable. -/
theorem portable_payShares (share : Nat) (block : UInt64) (authorities : List Loose) :
    Portable (payShares share block authorities) := by
  have framed (event : Event) (run : Except LedgerError (List Event) × HostState) :
      payShares.withEvent event (run.map id onTable) =
        (payShares.withEvent event run).map id onTable := by
    rcases run with ⟨error | events, after⟩ <;> rfl
  intro state
  induction authorities generalizing state with
  | nil => rfl
  | cons authority authorities inductive_step =>
      rw [payShares, payShares]
      split
      · rw [inductive_step, framed]
      · split
        · rfl
        · dsimp only
          rw [hasCoin_onTable]
          split
          · rw [inductive_step, framed]
          · rw [addCoin_onTable, inductive_step, framed]

/-- Paying out a pool is portable. -/
theorem portable_disperse (pool share : Nat) (block : UInt64) (authorities : List Loose) :
    Portable (disperse pool share block authorities) := by
  intro state
  unfold disperse
  split
  · rfl
  · rw [setPool_onTable, portable_payShares]

/-- Founding a chain is portable. -/
theorem portable_foundOn (outputs : List (Except InvalidValue Output)) :
    Portable (Chain.foundOn outputs) := by
  intro state
  unfold Chain.foundOn
  rw [(portable_seedFrom 0 outputs).atomically state]
  rcases state.atomically (seedFrom 0 outputs) with ⟨error | keys, after⟩
  · rfl
  · exact congrArg (Prod.mk _) ((congrArg (HostState.setBlockNumber · 0)
      (after.put_onTable genesisDoneKey [1])).trans (setBlockNumber_onTable _ 0))

end

namespace Ledger

/-- The ledger over the state as a table. -/
def onTable (ledger : Ledger) : Ledger := { ledger with host := ledger.host.onTable }

variable (ledger : Ledger)

@[simp] theorem host_onTable : ledger.onTable.host = ledger.host.onTable := rfl

/-- A ledger is opened over a table as over the state. -/
@[simp] theorem ofHost_onTable (host : HostState) (events : List Event) :
    ofHost host.onTable events = (ofHost host events).onTable := by
  rw [ofHost, pool_onTable]
  rfl

@[simp] theorem statistics_onTable : ledger.onTable.statistics = ledger.statistics := by
  unfold statistics
  rw [host_onTable, totalValue_onTable, coinCount_onTable, pool_onTable]
  rfl

@[simp] theorem summary_onTable : ledger.onTable.summary = ledger.summary := by
  unfold summary
  rw [host_onTable, coinCount_onTable, pool_onTable]

variable [CoinHash]

/-- A pool of transactions gets the same answer from a ledger over a table. -/
@[simp] theorem validityOf_onTable (verify : Verifier) (longevity : Int) (tx : Transaction) :
    ledger.onTable.validityOf verify longevity tx = ledger.validityOf verify longevity tx := by
  rw [validityOf, validityOf, view, view, host_onTable, coin?_onTable]

/-- A ledger over a table is seeded with the same result. -/
@[simp] theorem seed_onTable (outputs : List (Except InvalidValue Output)) :
    ledger.onTable.seed outputs = (ledger.seed outputs).map id onTable := by
  unfold seed
  rw [host_onTable, (portable_seedFrom 0 outputs).atomically]
  rfl

/-- A ledger over a table spends with the same result. -/
@[simp] theorem spend_onTable (verify : Verifier) (tx : Transaction) :
    ledger.onTable.spend verify tx = (ledger.spend verify tx).map id onTable := by
  unfold spend
  rw [host_onTable, (portable_applyTo verify tx).atomically]
  rcases ledger.host.atomically (applyTo verify tx) with ⟨error | fee, host⟩ <;> rfl

/-- A ledger over a table deals with its pool with the same result. -/
@[simp] theorem finalize_onTable (authorities : List Loose) (block : Int) :
    ledger.onTable.finalize authorities block =
      (ledger.finalize authorities block).map id onTable := by
  unfold finalize
  split
  · rfl
  · rename_i number _
    dsimp only
    rw [host_onTable, pool_onTable]
    split
    · rfl
    · split
      · rfl
      · rw [(portable_disperse _ _ number authorities).atomically]
        rcases ledger.host.atomically (disperse ledger.host.pool _ number authorities) with
          ⟨error | events, host⟩
        · rfl
        · dsimp only [Prod.map, id]
          rw [pool_onTable]
          rfl

/-- This is so also where the number of the block may be missing. -/
@[simp] theorem finalizeFrom_onTable (authorities : List Loose) (source : Option Int) :
    ledger.onTable.finalizeFrom authorities source =
      (ledger.finalizeFrom authorities source).map id onTable := by
  cases source with
  | none => rfl
  | some block => exact ledger.finalize_onTable authorities block

end Ledger

namespace Chain

/-- The chain over the state as a table. -/
def onTable (chain : Chain) : Chain := chain.withLedger chain.ledger.onTable

variable (chain : Chain)

@[simp] theorem host_onTable : chain.onTable.host = chain.host.onTable := rfl

@[simp] theorem ledger_onTable : chain.onTable.ledger = chain.ledger.onTable := rfl

@[simp] theorem verify_onTable : chain.onTable.verify = chain.verify := rfl

/-- A chain is opened over a table as over the state. -/
@[simp] theorem ofHost_onTable (host : HostState) (authorities : List Loose) (verify : Verifier)
    (longevity : Int) :
    ofHost host.onTable authorities verify longevity =
      (ofHost host authorities verify longevity).onTable := by
  rw [ofHost, Ledger.ofHost_onTable]
  rfl

@[simp] theorem statistics_onTable : chain.onTable.statistics = chain.statistics := by
  unfold statistics
  rw [ledger_onTable, host_onTable, Ledger.statistics_onTable, blockNumber_onTable]
  rfl

variable [CoinHash]

/-- A chain over a table has its genesis with the same result. -/
@[simp] theorem genesis_onTable (outputs : List (Except InvalidValue Output)) :
    chain.onTable.genesis outputs = (chain.genesis outputs).map id onTable := by
  rw [genesis_eq, genesis_eq, host_onTable, genesisDone_onTable,
    (portable_foundOn outputs).atomically]
  split <;> rfl

/-- A chain over a table spends with the same result. -/
@[simp] theorem spend_onTable (tx : Transaction) :
    chain.onTable.spend tx = (chain.spend tx).map id onTable := by
  unfold spend
  rw [ledger_onTable, Ledger.spend_onTable]
  rfl

/-- A chain over a table deals with its pool with the same result. -/
@[simp] theorem finalize_onTable (block : Int) :
    chain.onTable.finalize block = (chain.finalize block).map id onTable := by
  unfold finalize
  rw [ledger_onTable, Ledger.finalize_onTable]
  rfl

/-- A transaction has the same outcome on a chain over a table. -/
@[simp] theorem apply_onTable (tx : Transaction) :
    chain.onTable.apply tx = (chain.apply tx).map id onTable := by
  unfold apply
  rw [spend_onTable]
  rcases chain.spend tx with ⟨error | fee, after⟩
  · cases error <;> rfl
  · rfl

/-- Transactions have the same outcomes on a chain over a table. -/
@[simp] theorem applyAll_onTable (txs : List Transaction) :
    applyAll txs chain.onTable = (applyAll txs chain).map id onTable := by
  induction txs generalizing chain with
  | nil => rfl
  | cons tx txs inductive_step =>
      rw [applyAll, applyAll, apply_onTable]
      rcases chain.apply tx with ⟨error | outcome, after⟩
      · rfl
      · dsimp only [Prod.map, id]
        rw [inductive_step]
        rcases applyAll txs after with ⟨error | outcomes, final⟩ <;> rfl

/-- **A block over a table has the receipt that it has over the state in memory.** -/
@[simp] theorem executeBlock_onTable (txs : List Transaction) :
    chain.onTable.executeBlock txs = (chain.executeBlock txs).map id onTable := by
  unfold executeBlock
  rw [host_onTable, blockNumber_onTable]
  dsimp only
  split
  · rfl
  · rename_i position _
    have numbered : chain.onTable.withLedger
        { chain.onTable.ledger with host := chain.host.onTable.setBlockNumber position } =
      (chain.withLedger
        { chain.ledger with host := chain.host.setBlockNumber position }).onTable := by
      rw [setBlockNumber_onTable]
      rfl
    rw [numbered, applyAll_onTable]
    rcases applyAll txs (chain.withLedger
      { chain.ledger with host := chain.host.setBlockNumber position })
      with ⟨error | outcomes, after⟩
    · rfl
    · dsimp only [Prod.map, id]
      rw [finalize_onTable]
      rcases after.finalize (chain.host.blockNumber + 1 : Nat) with ⟨error | settlement, final⟩
      · rfl
      · dsimp only [Prod.map, id]
        rw [host_onTable, pool_onTable]
        rfl

/-- A call by name has the same result on a chain over a table. -/
@[simp] theorem dispatch_onTable (name : String) (arguments : List Transaction) :
    chain.onTable.dispatch name arguments = (chain.dispatch name arguments).map id onTable := by
  unfold dispatch
  split
  · split
    · rename_i tx
      rw [spend_onTable]
      rcases chain.spend tx with ⟨error | fee, after⟩ <;> rfl
    · rfl
  · rfl

/-- A chain is started over a table with the same result. -/
@[simp] theorem start_onTable (settings : ChainSettings) (host : HostState) (verify : Verifier) :
    start settings host.onTable verify = (start settings host verify).map id onTable := by
  unfold start
  rw [ofHost_onTable]
  dsimp only
  split
  · rfl
  · rename_i outputs _
    rw [host_onTable, genesisDone_onTable, genesis_onTable]
    split
    · rfl
    · rcases (ofHost host settings.authorities verify settings.longevity).genesis
        (outputs.map .ok) with ⟨error | keys, after⟩ <;> rfl

end Chain
end CoinLedger

import CoinLedger.Ledger.Event
import CoinLedger.Validation

/-! # The ledger

The ledger keeps coins and a pool of fees in its host's state, deposits events, and keeps running
totals for as long as it is open.
-/

namespace CoinLedger

/-- Where the pool of fees is in its life between two blocks. -/
inductive PoolPhase where
  /-- The pool was found empty or paid out, and no fee has come in since. What could not be divided
  evenly may be left in it. -/
  | empty
  /-- Fees have come in. -/
  | accruing
  /-- The pool is being paid out. -/
  | dispersing
  /-- The pool was too small to be paid out, or nobody was there to be paid. -/
  | carry
  deriving DecidableEq, Repr

/-- The name of a phase. -/
def PoolPhase.name : PoolPhase → String
  | empty => "empty"
  | accruing => "accruing"
  | dispersing => "dispersing"
  | carry => "carry"

/-- An open ledger. -/
structure Ledger where
  /-- The host's state. -/
  host : HostState
  /-- The events deposited, oldest first. -/
  events : List Event
  /-- The phase of the pool. -/
  phase : PoolPhase
  /-- The fees collected since the ledger was opened. -/
  feesCollected : Nat
  /-- The rewards paid since the ledger was opened. -/
  rewardsPaid : Nat
  /-- The shares forfeited since the ledger was opened. -/
  rewardsWasted : Nat

namespace Ledger

/-- Open a ledger over a state, with a log of events that goes on. -/
def ofHost (host : HostState) (events : List Event) : Ledger where
  host
  events
  phase := if host.pool = 0 then .empty else .carry
  feesCollected := 0
  rewardsPaid := 0
  rewardsWasted := 0

/-- The view of the coins in the host's state. -/
def view (ledger : Ledger) : CoinView := ledger.host.coin?

/-- A short description of a ledger. -/
def summary (ledger : Ledger) : String :=
  s!"UtxoModule(utxos={ledger.host.coinCount}, reward_total={ledger.host.pool})"

/-- The statistics of a ledger. -/
def statistics (ledger : Ledger) : Except DecodeError Json :=
  ledger.host.totalValue.map fun total =>
    .object [("utxo_count", .natural ledger.host.coinCount), ("total_value", .natural total),
      ("reward_total", .natural ledger.host.pool), ("pool_state", .string ledger.phase.name),
      ("total_fees_collected", .natural ledger.feesCollected),
      ("total_rewards_paid", .natural ledger.rewardsPaid),
      ("total_rewards_wasted", .natural ledger.rewardsWasted)]

/-- Tag a transaction for a pool of waiting transactions. -/
def validityOf [CoinHash] (ledger : Ledger) (verify : Verifier) (longevity : Int)
    (tx : Transaction) : Except LedgerError Validity :=
  poolValidity verify longevity ledger.view tx

end Ledger
end CoinLedger

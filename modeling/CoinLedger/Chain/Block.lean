import CoinLedger.Chain.Basic

/-! # Blocks

A block applies transactions in order and then deals with the pool. A rejected transaction is a
result, not a failure: it leaves no trace in the state, and the block goes on.
-/

namespace CoinLedger

/-- The outcome of one transaction of a block. -/
structure Outcome where
  /-- The identifier of the transaction. -/
  id : Digest
  /-- Its fee, or why it was rejected. -/
  verdict : Except Rejection Nat

namespace Outcome

/-- Whether the transaction was applied. -/
def applied (outcome : Outcome) : Bool :=
  match outcome.verdict with
  | .ok _ => true
  | .error _ => false

/-- Why the transaction was rejected, if it was. -/
def rejection? (outcome : Outcome) : Option Rejection :=
  match outcome.verdict with
  | .ok _ => none
  | .error reason => some reason

/-- The fee of the transaction; a rejected one has none. -/
def fee (outcome : Outcome) : Nat :=
  match outcome.verdict with
  | .ok fee => fee
  | .error _ => 0

/-- The document of an outcome. -/
def toDocument (outcome : Outcome) : Json :=
  .object [("tx_hash", .string (Hex.encode outcome.id.bytes)),
    ("success", .boolean outcome.applied), ("fee", .natural outcome.fee),
    ("error", (outcome.rejection?.map fun reason => Json.string reason.kind.name).getD .null)]

end Outcome

/-- Everything that happened in one block. -/
structure Receipt where
  /-- The number of the block. -/
  number : Nat
  /-- The outcomes of its transactions, in order. -/
  outcomes : List Outcome
  /-- The events deposited during the block. -/
  events : List Event
  /-- The pool after the block. -/
  pool : Nat

namespace Receipt

/-- The number of transactions applied. -/
def applied (receipt : Receipt) : Nat := receipt.outcomes.countP Outcome.applied

/-- The number of transactions rejected. -/
def rejected (receipt : Receipt) : Nat := receipt.outcomes.countP fun outcome => !outcome.applied

end Receipt

namespace Chain

variable [CoinHash]

/-- Apply a transaction and report the outcome. Only rejections are outcomes. -/
def apply (chain : Chain) (tx : Transaction) : Except LedgerError Outcome × Chain :=
  match chain.spend tx with
  | (.ok fee, after) => (.ok { id := tx.id, verdict := .ok fee }, after)
  | (.error (.rejected reason), after) => (.ok { id := tx.id, verdict := .error reason }, after)
  | (.error error, after) => (.error error, after)

/-- Apply transactions in order. -/
def applyAll : List Transaction → Chain → Except LedgerError (List Outcome) × Chain
  | [], chain => (.ok [], chain)
  | tx :: txs, chain =>
      match chain.apply tx with
      | (.error error, after) => (.error error, after)
      | (.ok outcome, after) =>
          match applyAll txs after with
          | (.error error, final) => (.error error, final)
          | (.ok outcomes, final) => (.ok (outcome :: outcomes), final)

/-- Execute the next block: number it, apply its transactions, and deal with the pool. -/
def executeBlock (chain : Chain) (txs : List Transaction) : Except LedgerError Receipt × Chain :=
  let number := chain.host.blockNumber + 1
  match u64OfInt number with
  | .error reason => (.error (.invalid reason), chain)
  | .ok position =>
      let numbered := chain.withLedger
        { chain.ledger with host := chain.host.setBlockNumber position }
      match applyAll txs numbered with
      | (.error error, after) => (.error error, after)
      | (.ok outcomes, applied) =>
          match applied.finalize number with
          | (.error error, after) => (.error error, after)
          | (.ok _, final) =>
              (.ok
                { number, outcomes
                  events := final.ledger.events.drop chain.ledger.events.length
                  pool := final.host.pool }, final)

end Chain
end CoinLedger

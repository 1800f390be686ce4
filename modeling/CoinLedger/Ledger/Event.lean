import CoinLedger.Transaction.Document

/-! # Events

What the ledger tells its host: transactions that were applied, and rewards that were paid or
forfeited.
-/

namespace CoinLedger

/-- An event that the ledger deposits. -/
inductive Event where
  /-- A transaction was applied. -/
  | transactionApplied (tx : Transaction)
  /-- An authority received its share of the fees. -/
  | rewardPaid (owner : PublicKey) (value : Amount)
  /-- An authority's share was forfeited; there is no owner if the entry was no public key. -/
  | rewardWasted (owner : Option PublicKey)
  deriving DecidableEq

namespace Event

/-- The name of an event's kind. -/
def kind : Event → String
  | transactionApplied _ => "TRANSACTION_APPLIED"
  | rewardPaid _ _ => "REWARD_PAID"
  | rewardWasted _ => "REWARD_WASTED"

/-- The kinds of events. -/
def kinds : List String := ["TRANSACTION_APPLIED", "REWARD_PAID", "REWARD_WASTED"]

/-- The document of an event. -/
def toDocument [CoinHash] (event : Event) : Json :=
  match event with
  | transactionApplied tx =>
      .object [("event", .string event.kind), ("tx_hash", .string (Hex.encode tx.id.bytes)),
        ("transaction", tx.toDocument)]
  | rewardPaid owner value =>
      .object [("event", .string event.kind), ("pubkey", .string (Hex.encode owner.bytes)),
        ("value", .natural value.toNat)]
  | rewardWasted owner =>
      .object [("event", .string event.kind),
        ("pubkey", (owner.map fun owner => Json.string (Hex.encode owner.bytes)).getD .null)]

end Event
end CoinLedger

import CoinLedger.Crypto.Blake2b
import CoinLedger.Proofs.Chain.Host
import CoinLedger.Proofs.Ledger.Spend

/-! # What fails leaves no trace

A spend, a seeding and a genesis each run inside a transaction of the host's state and write nothing
else before it is kept. The steps inside are confined to that transaction, so undoing it gives back
the state that it was opened over, whatever was written before the failure and however many
transactions were open already (`CoinLedger.failures_leave_no_trace`).
-/

namespace CoinLedger

open HostState

section

variable [CoinHash]

/-- **An operation that fails changes nothing.** The state may be any, with any number of open
transactions and with cells that hold no coin or no amount, and the outputs to be seeded may be
followed by ones that cannot be built. If a spend, a seeding or a genesis fails, for whatever
reason, then the ledger or the chain is exactly the one before: the entries and what each open
transaction has written or saved, and with them the mark of genesis and the number of the latest
block, the events, the running totals and the phase of the pool. -/
theorem failures_leave_no_trace (ledger : Ledger) (chain : Chain) :
    (∀ verify tx error, (ledger.spend verify tx).1 = .error error →
      (ledger.spend verify tx).2 = ledger) ∧
    (∀ outputs error, (ledger.seed outputs).1 = .error error → (ledger.seed outputs).2 = ledger) ∧
    ∀ outputs error, (chain.genesis outputs).1 = .error error →
      (chain.genesis outputs).2 = chain := by
  refine ⟨fun verify tx error failed => ?_, fun outputs error failed => ?_,
    fun outputs error failed => ?_⟩
  · exact Ledger.spend_error (Prod.ext failed rfl)
  · exact Ledger.seed_error (Prod.ext failed rfl)
  · exact Chain.genesis_error (Prod.ext failed rfl)

end

/-- Two transactions are open and the pool is full. A spend whose fee no longer fits, a seeding that
stops at an output that cannot be built, and a genesis that stops at an output without value leave
everything as it is. -/
theorem failures_in_open_transactions :
    let owner : PublicKey := FixedBytes.zero 32
    let outpoint : Outpoint := FixedBytes.zero 32
    let coin : Output := ⟨⟨5, by decide⟩, owner⟩
    let host := (((emptyMemory.addCoin outpoint coin).enter.setPool
      ⟨2 ^ 128 - 1, by decide⟩).enter.put [1] [2])
    let chain := Chain.ofHost host [] (fun _ _ _ => true) 1
    let tx : Transaction := ⟨[⟨outpoint, emptySignature⟩], [⟨⟨4, by decide⟩, owner⟩]⟩
    let unbuilt : Except InvalidValue Output := .error (.wrongLength "pubkey" 32 31)
    let worthless : Except InvalidValue Output := .ok ⟨.zero, owner⟩
    (chain.ledger.spend chain.verify tx).1 = .error (.rejected (.overflow
        "u128 overflow: 340282366920938463463374607431768211455 + 1")) ∧
      (chain.ledger.spend chain.verify tx).2 = chain.ledger ∧
      (chain.ledger.seed [.ok coin, unbuilt]).2 = chain.ledger ∧
      (chain.genesis [.ok coin, worthless]).2 = chain := by
  intro owner outpoint coin host chain tx unbuilt worthless
  have overflows : (chain.ledger.spend chain.verify tx).1 = .error (.rejected (.overflow
      "u128 overflow: 340282366920938463463374607431768211455 + 1")) := by decide +kernel
  have stops : (chain.ledger.seed [.ok coin, unbuilt]).1 =
      .error (.invalid (.wrongLength "pubkey" 32 31)) := by decide +kernel
  have refuses : (chain.genesis [.ok coin, worthless]).1 =
      .error (.invalid (.zeroGenesisOutput 1)) := by decide +kernel
  obtain ⟨spend, seed, genesis⟩ := failures_leave_no_trace chain.ledger chain
  exact ⟨overflows, spend _ _ _ overflows, seed _ _ stops, genesis _ _ refuses⟩

end CoinLedger

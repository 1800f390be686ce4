import CoinLedger.Chain.Block
import CoinLedger.Journal

/-! # Replaying blocks

Blocks that are given as documents are executed one after another. A block is decoded as a whole
before any of its transactions is executed, so that a block with an entry that is no transaction
leaves no trace; the blocks before it stay executed.
-/

namespace CoinLedger

/-- Why a replay stops. -/
inductive ReplayError where
  /-- Blocks or entries are missing or are no transactions. -/
  | document (reason : DocumentError)
  /-- An operation of the chain fails. -/
  | ledger (error : LedgerError)
  deriving DecidableEq

/-- A block that has been executed: the chain before it, its transactions and what came of them. -/
structure ReplayedBlock where
  before : Chain
  txs : List Transaction
  receipt : Receipt

/-- A replay: the blocks that were executed, what stopped it, and the chain it leaves. -/
structure Replay where
  blocks : List ReplayedBlock
  error? : Option ReplayError
  chain : Chain

/-- The transactions of a block that is given as a document. -/
def blockOfDocument (document : Json) : Except DocumentError (List Transaction) := do
  let entries ← Document.items document
  entries.mapM Transaction.ofEntry

/-- The line about a transaction that was rejected. -/
def Outcome.rejectionLine? (outcome : Outcome) : Option String :=
  outcome.rejection?.map fun reason =>
    s!"  ✗ {Hex.abbreviate outcome.id.bytes 18} {reason.kind.name}: {reason.message}"

namespace Chain

variable [CoinHash]

/-- Execute a block that is given as a document. -/
def executeDocument (chain : Chain) (document : Json) : Except ReplayError ReplayedBlock × Chain :=
  match blockOfDocument document with
  | .error reason => (.error (.document reason), chain)
  | .ok txs =>
      match chain.executeBlock txs with
      | (.error error, after) => (.error (.ledger error), after)
      | (.ok receipt, after) => (.ok { before := chain, txs, receipt }, after)

/-- Execute blocks that are given as documents, up to the first that fails. -/
def replay : List Json → Chain → Replay
  | [], chain => { blocks := [], error? := none, chain }
  | document :: documents, chain =>
      match chain.executeDocument document with
      | (.error error, after) => { blocks := [], error? := some error, chain := after }
      | (.ok block, after) =>
          let rest := replay documents after
          { rest with blocks := block :: rest.blocks }

end Chain

/-- The lines about a block that was executed: the counts, the rejections and the events. -/
def Receipt.lines [CoinHash] (receipt : Receipt) : List String :=
  s!"Block {receipt.number}: {receipt.applied} applied, {receipt.rejected} rejected" ::
    receipt.outcomes.filterMap Outcome.rejectionLine? ++
    receipt.events.map fun event => "  " ++ event.toDocument.compactText

/-- What the log says about a block that was executed. -/
def ReplayedBlock.journal [CoinHash] (block : ReplayedBlock) : List LogLine :=
  Journal.block block.before block.txs

end CoinLedger

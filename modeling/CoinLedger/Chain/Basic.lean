import CoinLedger.Ledger.Finalize
import CoinLedger.Ledger.Genesis
import CoinLedger.Ledger.Spend

/-! # A chain of blocks on one node

A minimal host for the ledger: it numbers blocks, holds the authorities that are paid at the end of
each one, and remembers in its state whether the genesis coins have been seeded.
-/

namespace CoinLedger

/-- The key of the cell with the number of the latest block. -/
def blockNumberKey : ByteString := "Host:BlockNumber".toUTF8.toList

/-- The key of the cell that marks the genesis coins as seeded. -/
def genesisDoneKey : ByteString := "Host:GenesisDone".toUTF8.toList

namespace HostState

/-- The number of the latest block; there is none before the first. -/
def blockNumber (state : HostState) : Nat :=
  match state.get? blockNumberKey with
  | none => 0
  | some bytes => ofLittleEndian bytes

/-- Set the number of the latest block. -/
def setBlockNumber (state : HostState) (number : UInt64) : HostState :=
  state.put blockNumberKey (u64Bytes number)

/-- Whether the genesis coins have been seeded. -/
def genesisDone (state : HostState) : Bool := state.contains genesisDoneKey

end HostState

/-- A chain: an open ledger and the settings of its host. -/
structure Chain where
  /-- The ledger. -/
  ledger : Ledger
  /-- The authorities paid at the end of each block. -/
  authorities : List Loose
  /-- The check on signatures. -/
  verify : Verifier
  /-- For how many blocks a waiting transaction stays valid. -/
  longevity : Int

namespace Chain

/-- A chain over a state, with an empty log of events. -/
def ofHost (host : HostState) (authorities : List Loose) (verify : Verifier) (longevity : Int) :
    Chain :=
  { ledger := Ledger.ofHost host [], authorities, verify, longevity }

/-- The host's state. -/
def host (chain : Chain) : HostState := chain.ledger.host

/-- The same settings over the same state, opened anew. -/
def reopen (chain : Chain) : Chain :=
  ofHost chain.host chain.authorities chain.verify chain.longevity

/-- The chain with its ledger replaced. -/
def withLedger (chain : Chain) (ledger : Ledger) : Chain := { chain with ledger }

/-- The statistics of a chain. -/
def statistics (chain : Chain) : Except DecodeError Json :=
  chain.ledger.statistics.map fun ledger =>
    .object [("block_number", .natural chain.host.blockNumber),
      ("authorities", .natural chain.authorities.length),
      ("events", .natural chain.ledger.events.length), ("ledger", ledger)]

variable [CoinHash]

/-- Seed the genesis coins, mark them as seeded and set the block number to zero, once. -/
def genesis (chain : Chain) (outputs : List (Except InvalidValue Output)) :
    Except LedgerError (List Outpoint) × Chain :=
  if chain.host.genesisDone then (.error .genesisDone, chain)
  else
    let step (state : HostState) : Except LedgerError (List Outpoint) × HostState :=
      match state.atomically (seedFrom 0 outputs) with
      | (.error error, after) => (.error error, after)
      | (.ok keys, after) =>
          (.ok keys, (after.put genesisDoneKey [1]).setBlockNumber 0)
    let (outcome, host) := chain.host.atomically step
    (outcome, chain.withLedger { chain.ledger with host })

/-- Validate and apply a transaction; the result is its fee. -/
def spend (chain : Chain) (tx : Transaction) : Except LedgerError Nat × Chain :=
  let (outcome, ledger) := chain.ledger.spend chain.verify tx
  (outcome, chain.withLedger ledger)

/-- Deal with the pool at the end of a block. -/
def finalize (chain : Chain) (block : Int) : Except LedgerError Settlement × Chain :=
  let (outcome, ledger) := chain.ledger.finalize chain.authorities block
  (outcome, chain.withLedger ledger)

end Chain

/-- Why a call is not carried out. -/
inductive CallError where
  /-- No call has this name. -/
  | unknown (name : String)
  /-- The call takes another number of arguments. -/
  | wrongArity
  /-- The call fails. -/
  | failed (error : LedgerError)
  deriving DecidableEq

/-- Carry out the call with a given name on transactions as arguments. -/
def Chain.dispatch [CoinHash] (chain : Chain) (name : String) (arguments : List Transaction) :
    Except CallError Nat × Chain :=
  if name = "spend" then
    match arguments with
    | [tx] =>
        match chain.spend tx with
        | (.ok fee, after) => (.ok fee, after)
        | (.error error, after) => (.error (.failed error), after)
    | _ => (.error .wrongArity, chain)
  else (.error (.unknown name), chain)

end CoinLedger

import CoinLedger.Chain.Settings
import CoinLedger.Journal

/-! # Sessions

A session performs steps on a state one after another, each answering a value or an error and going
on after an error: reads and writes of cells, typed access to coins, operations of a ledger or of a
chain, and blocks of steps that are kept or undone as a whole.
-/

namespace CoinLedger

-- Powers are those of the core library, also where others are in scope.
attribute [local instance (high)] instPowNat

/-- A cell with the number of the block that is finalized where none is given. A ledger consults the
cell if it was full when the ledger was opened. -/
structure BlockCell where
  number : Option Int
  consulted : Bool
  deriving DecidableEq, Repr

/-- A cell as a ledger that is opened finds it. -/
def BlockCell.ofNumber (number : Option Int) : BlockCell := ⟨number, number.isSome⟩

/-- Who runs the ledger of a session. -/
inductive Hosting where
  /-- Nobody: blocks are finalized by hand. -/
  | byHand (cell : BlockCell)
  /-- A chain that is started with the given settings. -/
  | byChain (settings : ChainSettings)

/-- A session: a chain and who runs it. A session that has no chain uses its ledger alone. -/
structure Session where
  chain : Chain
  hosting : Hosting

/-- A step of a session. -/
inductive Step where
  /-- Nothing, because a value for the step is refused. -/
  | refused (reason : DocumentError)
  | put (key value : ByteString)
  | get (key : ByteString)
  | delete (key : ByteString)
  | contains (key : ByteString)
  | scan (start : ByteString)
  | snapshot
  | depth
  | addCoin (key : ByteString) (coin : Output)
  | coin (key : ByteString)
  | removeCoin (key : ByteString)
  | hasCoin (key : ByteString)
  | coins
  | coinCount
  | totalValue
  | pool
  | setPool (value : Int)
  | genesis (outputs : List (Except InvalidValue Output))
  | spend (tx : Transaction)
  | finalize (block : Option Int)
  | validity (tx : Transaction)
  | coinsOf (owner : ByteString)
  | balanceOf (owner : ByteString)
  | statistics
  | summary
  | setAuthorities (authorities : List Loose)
  | setVerifier (verify : Verifier)
  | setBlock (number : Option Int)
  | restart
  | events (kind : String)
  | clearEvents
  | block (txs : List Transaction)
  | apply (tx : Transaction)
  | dispatch (call : String) (arguments : List Transaction)
  | genesisDone
  /-- Steps inside one transaction, which is kept unless it is aborted. -/
  | atomically (steps : List Step) (abort : Bool)

/-- What a step answers. -/
inductive StepAnswer where
  | nothing
  | value (bytes : Option ByteString)
  | flag (holds : Bool)
  | entries (entries : List (ByteString × ByteString))
  | number (value : Nat)
  | coin (coin : Option Output)
  | coins (coins : List (ByteString × Output))
  | membership (holds : Bool)
  | keys (keys : List Outpoint)
  | validity (validity : Validity)
  | document (document : Json)
  | text (text : String)
  | events (events : List Event)
  | receipt (receipt : Receipt)
  | outcome (outcome : Outcome)

/-- Why a step fails. -/
inductive StepError where
  /-- A value for the step is refused. -/
  | refused (reason : DocumentError)
  /-- The ledger refuses the step. -/
  | ledger (error : LedgerError)
  /-- A call is not carried out. -/
  | call (error : CallError)
  /-- The state does not offer the step. -/
  | unsupported

/-- What came of a step: its answer and the session after it, or the reports of the steps of a
block. -/
inductive Report where
  | single (outcome : Except StepError StepAnswer) (after : Session)
  | group (kept : Bool) (inner : List Report) (after : Session)

namespace Session

/-- The state of a session. -/
def host (session : Session) : HostState := session.chain.host

/-- The session with another ledger. -/
def withLedger (session : Session) (ledger : Ledger) : Session :=
  { session with chain := session.chain.withLedger ledger }

/-- The session with another state. -/
def withHost (session : Session) (host : HostState) : Session :=
  session.withLedger { session.chain.ledger with host }

/-- The session with another chain. -/
def withChain (session : Session) (chain : Chain) : Session := { session with chain }

/-- A session by hand on a state. -/
def ofHost (host : HostState) (verify : Verifier) : Session :=
  { chain := .ofHost host [] verify (2 ^ (64 : Nat) - 1 : Nat)
    hosting := .byHand (.ofNumber none) }

/-- An answer about a cell that may not be readable. -/
def readable {α : Type} (answer : α → StepAnswer) :
    Except DecodeError α → Except StepError StepAnswer
  | .ok value => .ok (answer value)
  | .error reason => .error (.ledger (.malformedCell reason))

/-- An answer of the ledger. -/
def answered {α : Type} (answer : α → StepAnswer) :
    Except LedgerError α → Except StepError StepAnswer
  | .ok value => .ok (answer value)
  | .error error => .error (.ledger error)

/-- Do something with the outpoint that a byte string is. -/
def withOutpoint {α : Type} (key : ByteString) (unchanged : α)
    (step : Outpoint → Except StepError StepAnswer × α) : Except StepError StepAnswer × α :=
  match FixedBytes.ofBytes "outpoint" 32 key with
  | .ok outpoint => step outpoint
  | .error reason => (.error (.ledger (.invalid reason)), unchanged)

variable [CoinHash]

/-- Start the ledger or the chain of a session anew over the same state. -/
def restart (session : Session) : Except LedgerError Unit × Session :=
  match session.hosting with
  | .byHand cell =>
      (.ok (), { session.withLedger (.ofHost session.host session.chain.ledger.events) with
        hosting := .byHand (.ofNumber cell.number) })
  | .byChain settings =>
      match Chain.start settings session.host session.chain.verify with
      | (.ok (), chain) => (.ok (), session.withChain chain)
      | (.error error, chain) => (.error error, session.withHost chain.host)

/-- The number of the block that a session finalizes where none is given. -/
def blockSource (session : Session) : Option Int :=
  match session.hosting with
  | .byHand cell => if cell.consulted then cell.number else none
  | .byChain _ => some session.host.blockNumber

/-- Whether a session consults a cell that is empty. -/
def consultsEmptyCell (session : Session) : Bool :=
  match session.hosting with
  | .byHand cell => cell.consulted && cell.number.isNone
  | .byChain _ => false

/-- Perform a step that is not a block of steps. -/
def performSingle (session : Session) : Step → Except StepError StepAnswer × Session
  | .refused reason => (.error (.refused reason), session)
  | .put key value => (.ok .nothing, session.withHost (session.host.put key value))
  | .get key => (.ok (.value (session.host.get? key)), session)
  | .delete key => (.ok .nothing, session.withHost (session.host.delete key))
  | .contains key => (.ok (.flag (session.host.contains key)), session)
  | .scan start => (.ok (.entries (session.host.scan start)), session)
  | .snapshot =>
      match session.host with
      | .memory store => (.ok (.entries store.committed.entries), session)
      | .table _ => (.error .unsupported, session)
  | .depth =>
      match session.host with
      | .memory store => (.ok (.number store.depth), session)
      | .table _ => (.error .unsupported, session)
  | .addCoin key coin =>
      withOutpoint key session fun outpoint =>
        (.ok .nothing, session.withHost (session.host.addCoin outpoint coin))
  | .coin key =>
      withOutpoint key session fun outpoint =>
        (readable .coin (session.host.coin? outpoint), session)
  | .removeCoin key =>
      withOutpoint key session fun outpoint =>
        (.ok .nothing, session.withHost (session.host.removeCoin outpoint))
  | .hasCoin key =>
      withOutpoint key session fun outpoint =>
        (.ok (.membership (session.host.hasCoin outpoint)), session)
  | .coins => (readable .coins session.host.coins, session)
  | .coinCount => (.ok (.number session.host.coinCount), session)
  | .totalValue => (readable .number session.host.totalValue, session)
  | .pool => (.ok (.number session.host.pool), session)
  | .setPool value =>
      match Amount.ofInt "reward total" value with
      | .ok amount => (.ok .nothing, session.withHost (session.host.setPool amount))
      | .error reason => (.error (.ledger (.invalid reason)), session)
  | .genesis outputs =>
      match session.hosting with
      | .byHand _ =>
          let (outcome, ledger) := session.chain.ledger.seed outputs
          (answered .keys outcome, session.withLedger ledger)
      | .byChain _ =>
          let (outcome, chain) := session.chain.genesis outputs
          (answered .keys outcome, session.withChain chain)
  | .spend tx =>
      let (outcome, chain) := session.chain.spend tx
      (answered .number outcome, session.withChain chain)
  | .finalize block =>
      if block.isNone && session.consultsEmptyCell then (.error (.refused .notInteger), session)
      else
        let (outcome, ledger) := session.chain.ledger.finalizeFrom session.chain.authorities
          (block <|> session.blockSource)
        (answered (fun _ => .nothing) outcome, session.withLedger ledger)
  | .validity tx =>
      (answered .validity (session.chain.ledger.validityOf session.chain.verify
        session.chain.longevity tx), session)
  | .coinsOf owner => (readable .coins (session.host.coinsOf owner), session)
  | .balanceOf owner => (readable .number (session.host.balanceOf owner), session)
  | .statistics =>
      match session.hosting with
      | .byHand _ => (readable .document session.chain.ledger.statistics, session)
      | .byChain _ => (readable .document session.chain.statistics, session)
  | .summary => (.ok (.text session.chain.ledger.summary), session)
  | .setAuthorities authorities =>
      (.ok .nothing, session.withChain { session.chain with authorities })
  | .setVerifier verify => (.ok .nothing, session.withChain { session.chain with verify })
  | .setBlock number =>
      match session.hosting with
      | .byHand cell => (.ok .nothing, { session with hosting := .byHand { cell with number } })
      | .byChain _ =>
          match number.map u64OfInt with
          | none => (.error (.refused .notInteger), session)
          | some (.ok number) =>
              (.ok .nothing, session.withHost (session.host.setBlockNumber number))
          | some (.error reason) => (.error (.ledger (.invalid reason)), session)
  | .restart =>
      let (outcome, session) := session.restart
      (answered (fun _ => .nothing) outcome, session)
  | .events kind =>
      (.ok (.events (session.chain.ledger.events.filter fun event => event.kind = kind)), session)
  | .clearEvents => (.ok .nothing, session.withLedger { session.chain.ledger with events := [] })
  | .block txs =>
      let (outcome, chain) := session.chain.executeBlock txs
      (answered .receipt outcome, session.withChain chain)
  | .apply tx =>
      let (outcome, chain) := session.chain.apply tx
      (answered .outcome outcome, session.withChain chain)
  | .dispatch call arguments =>
      match session.chain.dispatch call arguments with
      | (.ok fee, chain) => (.ok (.number fee), session.withChain chain)
      | (.error error, chain) => (.error (.call error), session.withChain chain)
  | .genesisDone => (.ok (.flag session.host.genesisDone), session)
  | .atomically _ _ => (.error .unsupported, session)

mutual

/-- Perform a step. -/
def perform (session : Session) : Step → Report × Session
  | .atomically steps abort =>
      let (inner, final) := performAll (session.withHost session.host.enter) steps
      let closed := final.withHost (if abort then final.host.rollback else final.host.commit)
      (.group (!abort) inner closed, closed)
  | step =>
      let (outcome, after) := session.performSingle step
      (.single outcome after, after)

/-- Perform steps one after another. -/
def performAll (session : Session) : List Step → List Report × Session
  | [] => ([], session)
  | step :: steps =>
      let (report, after) := perform session step
      let (reports, final) := performAll after steps
      (report :: reports, final)

end

/-- What the log says about a step that is not a block of steps. -/
def journalOf (session : Session) : Step → List LogLine
  | .genesis outputs =>
      match session.hosting with
      | .byHand _ => Journal.seeding outputs (session.chain.ledger.seed outputs).1
      | .byChain _ => Journal.seeding outputs (session.chain.genesis outputs).1
  | .spend tx | .apply tx => Journal.spending tx (session.chain.spend tx).1
  | .dispatch call arguments =>
      match call, arguments with
      | "spend", [tx] => Journal.spending tx (session.chain.spend tx).1
      | _, _ => []
  | .finalize block =>
      match block <|> session.blockSource with
      | none => []
      | some number =>
          Journal.settling session.chain.authorities number
            (session.chain.ledger.finalize session.chain.authorities number).1
  | .validity tx =>
      Journal.tagging (session.chain.ledger.validityOf session.chain.verify
        session.chain.longevity tx)
  | .block txs => Journal.block session.chain txs
  | .restart =>
      match session.hosting with
      | .byHand _ => []
      | .byChain settings => Journal.starting settings session.host
  | _ => []

end Session
end CoinLedger

import CoinLedger.Crypto.Blake2b
import CoinLedger.Proofs.Chain.Host
import CoinLedger.Proofs.Storage.TableFile

/-! # Restarts are invisible

A chain remembers things that last no longer than itself: the events that it has deposited, the
phase of the pool and the running totals. Two chains that differ in nothing else are akin. Whatever
is asked of them, they answer alike, deposit the same events and stay akin
(`CoinLedger.Chain.Blind`): no decision looks at what is remembered, and a receipt takes from the
log what came after the block began. A restart gives an akin chain, also when a table is closed and
read from its file again, as long as no transaction is open. So restarts change no answer
(`CoinLedger.Chain.restarts_are_invisible`).
-/

namespace CoinLedger

namespace HostState

/-- The number of open transactions. -/
def depth : HostState → Nat
  | memory store => store.depth
  | table store => store.depth

/-- The state after it was closed and opened again. What is in memory stays there, and a table is
read from its file. -/
def reopened? : HostState → Option HostState
  | memory store => some (memory store)
  | table store => (TableFile.decode (TableFile.encode store)).map table

/-- **A state without open transactions is the same after it was closed.** -/
theorem reopened?_eq {state : HostState} (closed : state.depth = 0) :
    state.reopened? = some state := by
  cases state with
  | memory store => rfl
  | table store =>
      obtain ⟨rows, saved⟩ := store
      have none_saved : saved = [] := List.length_eq_zero_iff.mp closed
      rw [reopened?, TableFile.decode_encode, none_saved]
      rfl

/-- Writing a cell neither opens nor closes a transaction. -/
theorem depth_write (state : HostState) (key : ByteString) (value : Option ByteString) :
    (state.write key value).depth = state.depth := by
  cases state with
  | memory store =>
      obtain ⟨committed, layers⟩ := store
      cases layers with
      | nil => cases value <;> rfl
      | cons layer outer => rfl
  | table store => cases value <;> rfl

/-- Keeping what was done inside a transaction leaves as many open as before it was opened. -/
theorem InnerOf.depth_commit {inner state : HostState} (inside : inner.InnerOf state) :
    inner.commit.depth = state.depth := by
  cases state with
  | memory store =>
      cases inner with
      | table other => exact inside.elim
      | memory other =>
          obtain ⟨layer, rfl⟩ := inside
          have kept (entries : List (ByteString × Option ByteString)) (below : LayeredStore) :
              (entries.foldl (fun below entry => below.write entry.1 entry.2) below).depth =
                below.depth := by
            induction entries generalizing below with
            | nil => rfl
            | cons entry entries inductive_step =>
                exact (inductive_step _).trans (depth_write (memory below) entry.1 entry.2)
          exact kept layer.entries store
  | table store =>
      cases inner with
      | memory other => exact inside.elim
      | table other =>
          obtain ⟨rows, rfl⟩ := inside
          rfl

/-- A confined step in a transaction of its own leaves as many transactions open as there were. -/
theorem depth_atomically {ε α : Type} {step : HostState → Except ε α × HostState}
    (confined : Confined step) {state after : HostState} {outcome : Except ε α}
    (run : state.atomically step = (outcome, after)) : after.depth = state.depth := by
  cases outcome with
  | error error =>
      obtain ⟨rfl, _⟩ := atomically_error confined run
      rfl
  | ok value =>
      obtain ⟨inner, succeeded, rfl⟩ := atomically_ok run
      have inside := confined state.innerOf_enter
      rw [succeeded] at inside
      exact inside.depth_commit

end HostState

namespace Chain

open HostState

/-- Two chains are over the same state with the same settings. -/
structure Akin (left right : Chain) : Prop where
  host : left.host = right.host
  authorities : left.authorities = right.authorities
  verify : left.verify = right.verify
  longevity : left.longevity = right.longevity

/-- Two chains that have gone on from two others are akin and have deposited the same events. -/
structure AlikeAfter (left right leftAfter rightAfter : Chain) : Prop where
  akin : Akin leftAfter rightAfter
  logged : ∃ events, leftAfter.ledger.events = left.ledger.events ++ events ∧
    rightAfter.ledger.events = right.ledger.events ++ events

/-- What comes of an operation on a chain comes of it on every akin chain, and both go on alike.
What a chain remembers is not looked at. -/
def Blind {α : Type} (operation : Chain → α × Chain) : Prop :=
  ∀ ⦃left right leftAfter : Chain⦄ ⦃outcome : α⦄, Akin left right →
    operation left = (outcome, leftAfter) →
    ∃ rightAfter, operation right = (outcome, rightAfter) ∧
      AlikeAfter left right leftAfter rightAfter

theorem Akin.refl (chain : Chain) : Akin chain chain := ⟨rfl, rfl, rfl, rfl⟩

theorem Akin.trans {left middle right : Chain} (first : Akin left middle)
    (second : Akin middle right) : Akin left right :=
  ⟨first.host.trans second.host, first.authorities.trans second.authorities,
    first.verify.trans second.verify, first.longevity.trans second.longevity⟩

/-- A chain that is opened again over its state is akin to what it was. -/
theorem akin_reopen (chain : Chain) : Akin chain.reopen chain := ⟨rfl, rfl, rfl, rfl⟩

theorem Akin.alikeAfter {left right : Chain} (akin : Akin left right) :
    AlikeAfter left right left right :=
  ⟨akin, [], (List.append_nil _).symm, (List.append_nil _).symm⟩

/-- Akin chains go on alike when they take over one state and deposit the same events. -/
theorem Akin.deposit {left right : Chain} (akin : Akin left right) {first second : Ledger}
    (events : List Event) (same : first.host = second.host)
    (leftLogged : first.events = left.ledger.events ++ events)
    (rightLogged : second.events = right.ledger.events ++ events) :
    AlikeAfter left right (left.withLedger first) (right.withLedger second) :=
  ⟨⟨same, akin.authorities, akin.verify, akin.longevity⟩, events, leftLogged, rightLogged⟩

theorem Akin.quiet {left right : Chain} (akin : Akin left right) {first second : Ledger}
    (same : first.host = second.host) (leftLogged : first.events = left.ledger.events)
    (rightLogged : second.events = right.ledger.events) :
    AlikeAfter left right (left.withLedger first) (right.withLedger second) :=
  akin.deposit [] same (leftLogged.trans (List.append_nil _).symm)
    (rightLogged.trans (List.append_nil _).symm)

/-- What goes on alike twice goes on alike. -/
theorem AlikeAfter.trans {left right leftMiddle rightMiddle leftAfter rightAfter : Chain}
    (first : AlikeAfter left right leftMiddle rightMiddle)
    (second : AlikeAfter leftMiddle rightMiddle leftAfter rightAfter) :
    AlikeAfter left right leftAfter rightAfter := by
  obtain ⟨earlier, leftFirst, rightFirst⟩ := first.logged
  obtain ⟨later, leftSecond, rightSecond⟩ := second.logged
  refine ⟨second.akin, earlier ++ later, ?_, ?_⟩
  · rw [leftSecond, leftFirst, List.append_assoc]
  · rw [rightSecond, rightFirst, List.append_assoc]

section

variable [CoinHash]

/-- Spending looks at nothing that a chain remembers. -/
theorem blind_spend (tx : Transaction) : Blind fun chain => chain.spend tx := by
  intro left right leftAfter outcome akin run
  obtain ⟨ledger, spent, rfl⟩ := spend_eq run
  have same : left.ledger.host.atomically (applyTo left.verify tx) =
      right.ledger.host.atomically (applyTo right.verify tx) := by
    rw [akin.verify, ← host, akin.host, host]
  unfold Ledger.spend at spent
  rw [same] at spent
  dsimp only
  unfold spend Ledger.spend
  split at spent
  · cases spent
    exact ⟨_, rfl, akin.quiet rfl rfl rfl⟩
  · cases spent
    exact ⟨_, rfl, akin.deposit [.transactionApplied tx] rfl rfl rfl⟩

/-- Ending a block looks at nothing that a chain remembers. -/
theorem blind_finalize (block : Int) : Blind fun chain => chain.finalize block := by
  intro left right leftAfter outcome akin run
  obtain ⟨ledger, settled, rfl⟩ := finalize_eq run
  have same : left.ledger.host = right.ledger.host := akin.host
  unfold Ledger.finalize at settled
  rw [same, akin.authorities] at settled
  dsimp only
  unfold finalize Ledger.finalize
  split at settled
  · cases settled
    exact ⟨_, rfl, akin.quiet same rfl rfl⟩
  · dsimp only at settled ⊢
    split at settled
    · rename_i nobody
      cases settled
      rw [if_pos nobody]
      exact ⟨_, rfl, akin.quiet rfl rfl rfl⟩
    · rename_i somebody
      rw [if_neg somebody]
      split at settled
      · rename_i nothing
        cases settled
        rw [if_pos nothing]
        exact ⟨_, rfl, akin.quiet rfl rfl rfl⟩
      · rename_i enough
        rw [if_neg enough]
        split at settled
        · cases settled
          exact ⟨_, rfl, akin.quiet rfl rfl rfl⟩
        · rename_i events _ _
          cases settled
          exact ⟨_, rfl, akin.deposit events rfl rfl rfl⟩

/-- Seeding the genesis coins looks at nothing that a chain remembers. -/
theorem blind_genesis (outputs : List (Except InvalidValue Output)) :
    Blind fun chain => chain.genesis outputs := by
  intro left right leftAfter outcome akin run
  dsimp only at run ⊢
  rw [genesis_eq, akin.host] at run
  rw [genesis_eq]
  split at run
  · rename_i founded
    cases run
    rw [if_pos founded]
    exact ⟨right, rfl, akin.alikeAfter⟩
  · rename_i unfounded
    cases run
    rw [if_neg unfounded]
    exact ⟨_, rfl, akin.quiet rfl rfl rfl⟩

/-- Applying a transaction looks at nothing that a chain remembers. -/
theorem blind_apply (tx : Transaction) : Blind fun chain => chain.apply tx := by
  intro left right leftAfter outcome akin run
  dsimp only at run ⊢
  unfold apply at run ⊢
  rcases spent : left.spend tx with ⟨result, middle⟩
  obtain ⟨rightAfter, same, alike⟩ := blind_spend tx akin spent
  dsimp only at same
  rw [spent] at run
  rw [same]
  cases result with
  | ok fee =>
      cases run
      exact ⟨rightAfter, rfl, alike⟩
  | error error =>
      cases error <;> (cases run; exact ⟨rightAfter, rfl, alike⟩)

/-- Applying one transaction after another looks at nothing that a chain remembers. -/
theorem blind_applyAll (txs : List Transaction) : Blind (applyAll txs) := by
  induction txs with
  | nil =>
      intro left right leftAfter outcome akin run
      cases run
      exact ⟨right, rfl, akin.alikeAfter⟩
  | cons tx txs inductive_step =>
      intro left right leftAfter outcome akin run
      rw [applyAll] at run ⊢
      rcases attempted : left.apply tx with ⟨result, middle⟩
      obtain ⟨rightMiddle, same, first⟩ := blind_apply tx akin attempted
      dsimp only at same
      rw [attempted] at run
      rw [same]
      cases result with
      | error error =>
          cases run
          exact ⟨rightMiddle, rfl, first⟩
      | ok outcome =>
          dsimp only at run ⊢
          rcases later : applyAll txs middle with ⟨others, final⟩
          obtain ⟨rightFinal, sameLater, second⟩ := inductive_step first.akin later
          rw [later] at run
          rw [sameLater]
          cases others <;> (cases run; exact ⟨rightFinal, rfl, first.trans second⟩)

/-- Executing a block looks at the log only to tell what came after the block began. -/
theorem blind_executeBlock (txs : List Transaction) :
    Blind fun chain => chain.executeBlock txs := by
  intro left right leftAfter outcome akin run
  dsimp only at run ⊢
  unfold executeBlock at run ⊢
  rw [akin.host] at run
  dsimp only at run ⊢
  split at run
  · cases run
    exact ⟨right, rfl, akin.alikeAfter⟩
  · rename_i position _
    -- The number is written to both states, so the two chains begin the block akin.
    have numbered : AlikeAfter left right
        (left.withLedger { left.ledger with host := right.host.setBlockNumber position })
        (right.withLedger { right.ledger with host := right.host.setBlockNumber position }) :=
      akin.quiet rfl rfl rfl
    rcases ran : applyAll txs (left.withLedger { left.ledger with
      host := right.host.setBlockNumber position }) with ⟨result, middle⟩
    obtain ⟨rightMiddle, sameRan, applied⟩ := blind_applyAll txs numbered.akin ran
    rw [ran] at run
    rw [sameRan]
    cases result with
    | error error =>
        cases run
        exact ⟨rightMiddle, rfl, numbered.trans applied⟩
    | ok outcomes =>
        dsimp only at run ⊢
        rcases settled : middle.finalize (right.host.blockNumber + 1 : Nat) with ⟨result, final⟩
        obtain ⟨rightFinal, sameSettled, ended⟩ := blind_finalize _ applied.akin settled
        dsimp only at sameSettled
        have whole := (numbered.trans applied).trans ended
        rw [settled] at run
        rw [sameSettled]
        cases result with
        | error error =>
            cases run
            exact ⟨rightFinal, rfl, whole⟩
        | ok settlement =>
            cases run
            obtain ⟨events, leftLogged, rightLogged⟩ := whole.logged
            refine ⟨rightFinal, ?_, whole⟩
            dsimp only
            rw [leftLogged, rightLogged, List.drop_left, List.drop_left, whole.akin.host]

/-- What a chain is asked. -/
inductive Request where
  /-- Seed the genesis coins. -/
  | genesis (outputs : List (Except InvalidValue Output))
  /-- Execute the next block. -/
  | block (txs : List Transaction)
  /-- Apply a transaction outside a block. -/
  | apply (tx : Transaction)
  /-- Tag a transaction for a pool of waiting transactions. -/
  | validity (tx : Transaction)

/-- What comes of a request. -/
inductive Response where
  | founded (outcome : Except LedgerError (List Outpoint))
  | executed (outcome : Except LedgerError Receipt)
  | attempted (outcome : Except LedgerError Outcome)
  | tagged (outcome : Except LedgerError Validity)

/-- Do what is asked. -/
def serve (request : Request) (chain : Chain) : Response × Chain :=
  match request with
  | .genesis outputs => (.founded (chain.genesis outputs).1, (chain.genesis outputs).2)
  | .block txs => (.executed (chain.executeBlock txs).1, (chain.executeBlock txs).2)
  | .apply tx => (.attempted (chain.apply tx).1, (chain.apply tx).2)
  | .validity tx => (.tagged (chain.ledger.validityOf chain.verify chain.longevity tx), chain)

/-- Do one thing after another. -/
def serveAll : List Request → Chain → List Response × Chain
  | [], chain => ([], chain)
  | request :: requests, chain =>
      let (response, after) := chain.serve request
      let (responses, final) := after.serveAll requests
      (response :: responses, final)

omit [CoinHash] in
/-- What is reported of a blind operation may be put in other words. -/
theorem Blind.map {α β : Type} {operation : Chain → α × Chain} (blind : Blind operation)
    (report : α → β) :
    Blind fun chain => (report (operation chain).1, (operation chain).2) := by
  intro left right leftAfter outcome akin run
  cases run
  obtain ⟨rightAfter, same, alike⟩ := blind akin rfl
  refine ⟨rightAfter, ?_, alike⟩
  dsimp only
  rw [same]

/-- **No request looks at what a chain remembers.** -/
theorem blind_serve (request : Request) : Blind (serve request) := by
  cases request with
  | genesis outputs => exact (blind_genesis outputs).map Response.founded
  | block txs => exact (blind_executeBlock txs).map Response.executed
  | apply tx => exact (blind_apply tx).map Response.attempted
  | validity tx =>
      intro left right leftAfter outcome akin run
      cases run
      refine ⟨right, ?_, akin.alikeAfter⟩
      rw [serve, Ledger.validityOf, Ledger.validityOf, Ledger.view, Ledger.view, ← host, ← host,
        akin.host, akin.verify, akin.longevity]

variable (chain : Chain)

/-- Spending leaves as many transactions open as there were. -/
theorem depth_spend (tx : Transaction) : (chain.spend tx).2.host.depth = chain.host.depth := by
  change (Ledger.spend _ _ _).2.host.depth = _
  unfold Ledger.spend
  split <;> (rename_i run; exact depth_atomically applyTo_confined run)

/-- Applying a transaction leaves as many transactions of the state open as there were. -/
theorem depth_apply (tx : Transaction) : (chain.apply tx).2.host.depth = chain.host.depth := by
  have kept := chain.depth_spend tx
  unfold apply
  split <;> (rename_i run; rw [run] at kept; exact kept)

/-- Applying one transaction after another leaves as many transactions of the state open. -/
theorem depth_applyAll (txs : List Transaction) :
    (applyAll txs chain).2.host.depth = chain.host.depth := by
  induction txs generalizing chain with
  | nil => rfl
  | cons tx txs inductive_step =>
      have first := chain.depth_apply tx
      rw [applyAll]
      split
      · rename_i attempted
        rw [attempted] at first
        exact first
      · rename_i after attempted
        rw [attempted] at first
        have later := (inductive_step after).trans first
        split <;> (rename_i run; rw [run] at later; exact later)

/-- Ending a block leaves as many transactions open as there were. -/
theorem depth_finalize (block : Int) : (chain.finalize block).2.host.depth = chain.host.depth := by
  rcases run : chain.finalize block with ⟨outcome, after⟩
  obtain ⟨ledger, settled, rfl⟩ := finalize_eq run
  rcases Ledger.finalize_undispersed settled with ⟨share, events, carry, rfl⟩ | ⟨same, _⟩
  · obtain ⟨number, host, _, _, _, paid, rfl⟩ := Ledger.finalize_eq_dispersed settled
    exact depth_atomically disperse_confined paid
  · rw [same]
    rfl

/-- Seeding the genesis coins leaves as many transactions open as there were. -/
theorem depth_genesis (outputs : List (Except InvalidValue Output)) :
    (chain.genesis outputs).2.host.depth = chain.host.depth := by
  rw [genesis_eq]
  split
  · rfl
  · exact depth_atomically (foundOn_confined outputs) rfl

/-- Executing a block leaves as many transactions open as there were. -/
theorem depth_executeBlock (txs : List Transaction) :
    (chain.executeBlock txs).2.host.depth = chain.host.depth := by
  unfold executeBlock
  dsimp only
  split
  · rfl
  · rename_i position _
    have applied := depth_applyAll (chain.withLedger
      { chain.ledger with host := chain.host.setBlockNumber position }) txs
    have numbered : (chain.host.setBlockNumber position).depth = chain.host.depth :=
      depth_write _ _ _
    split
    · rename_i run
      rw [run] at applied
      exact applied.trans numbered
    · rename_i outcomes after run
      rw [run] at applied
      have settled := (after.depth_finalize (chain.host.blockNumber + 1 : Nat)).trans
        (applied.trans numbered)
      split <;> (rename_i ended; rw [ended] at settled; exact settled)

/-- A request leaves no transaction open and closes none. -/
theorem depth_serve (request : Request) :
    (chain.serve request).2.host.depth = chain.host.depth := by
  cases request with
  | genesis outputs => exact chain.depth_genesis outputs
  | block txs => exact chain.depth_executeBlock txs
  | apply tx => exact chain.depth_apply tx
  | validity tx => rfl

/-- A step in the life of a chain. -/
inductive Step where
  /-- The chain is asked something. -/
  | ask (request : Request)
  /-- A chain with the same settings takes its place over the same state. -/
  | restart
  /-- The state is closed and opened again, and a chain with the same settings is opened over it. -/
  | reopen

/-- The request of a step, if it is one. -/
def Step.request? : Step → Option Request
  | .ask request => some request
  | .restart | .reopen => none

/-- What is asked in the course of steps. -/
def asked (steps : List Step) : List Request := steps.filterMap Step.request?

/-- Take steps one after another. There is no result if a state cannot be opened again. -/
def live : List Step → Chain → Option (List Response × Chain)
  | [], chain => some ([], chain)
  | .ask request :: steps, chain =>
      ((chain.serve request).2.live steps).map fun (responses, final) =>
        ((chain.serve request).1 :: responses, final)
  | .restart :: steps, chain => chain.reopen.live steps
  | .reopen :: steps, chain =>
      chain.host.reopened?.bind fun host =>
        (ofHost host chain.authorities chain.verify chain.longevity).live steps

/-- A chain that is restarted while no transaction is open answers as an akin chain that is only
asked, and ends akin to it. -/
theorem live_akin {steps : List Step} {left right : Chain} (akin : Akin left right)
    (closed : .reopen ∈ steps → left.host.depth = 0) :
    ∃ final, left.live steps = some ((right.serveAll (asked steps)).1, final) ∧
      Akin final (right.serveAll (asked steps)).2 := by
  induction steps generalizing left right with
  | nil => exact ⟨left, rfl, akin⟩
  | cons step steps inductive_step =>
      have later : .reopen ∈ steps → left.host.depth = 0 :=
        fun member => closed (List.mem_cons_of_mem step member)
      cases step with
      | ask request =>
          obtain ⟨rightAfter, same, alike⟩ := blind_serve request akin rfl
          obtain ⟨final, run, last⟩ := @inductive_step (left.serve request).2 rightAfter alike.akin
            fun member => (left.depth_serve request).trans (later member)
          refine ⟨final, ?_, ?_⟩
          · rw [live, run]
            change _ = some ((right.serveAll (request :: asked steps)).1, final)
            rw [serveAll, same]
            rfl
          · change Akin final (right.serveAll (request :: asked steps)).2
            rw [serveAll, same]
            exact last
      | restart => exact inductive_step (left.akin_reopen.trans akin) later
      | reopen =>
          have idle := closed List.mem_cons_self
          rw [live, reopened?_eq idle]
          exact inductive_step (left.akin_reopen.trans akin) later

/-- **Restarts are invisible.** A chain with any settings, over any state, founds, executes blocks,
applies transactions and tags them, in any order and as often as one likes. In between, other chains
with the same settings are opened over its state, as often as one likes; and if no transaction of
the state is open at the start, the state may be closed as well and opened again, a table from its
file. Then every such state can be opened, and all responses are those of the run without restarts:
the keys of genesis coins, the receipts with their numbers, outcomes, events and pools, the outcomes
of single transactions, the tags, and the errors. At the end the states are the same. The chains
differ in nothing but their logs, the phases of the pool and the running totals. -/
theorem restarts_are_invisible (chain : Chain) {steps : List Step}
    (closed : .reopen ∈ steps → chain.host.depth = 0) :
    let straight := chain.serveAll (asked steps)
    ∃ final, chain.live steps = some (straight.1, final) ∧
      final.host.contents = straight.2.host.contents ∧ Akin final straight.2 := by
  intro straight
  obtain ⟨final, run, akin⟩ := live_akin (.refl chain) closed
  exact ⟨final, run, congrArg contents akin.host, akin⟩

end

/-- A table is founded, closed and opened again, and a block is executed on it. After another
restart the transaction of the block is rejected, and the state is that of a chain that was never
closed. -/
theorem block_on_reopened_table :
    let owner : PublicKey := FixedBytes.zero 32
    let coin : Output := ⟨⟨5, by decide⟩, owner⟩
    let tx : Transaction := ⟨[⟨coin.genesisKey, emptySignature⟩], [⟨⟨3, by decide⟩, owner⟩]⟩
    let chain := ofHost .emptyTable [.bytes owner.bytes] (fun _ _ _ => true) 3
    let steps : List Step :=
      [.ask (.genesis [.ok coin]), .reopen, .ask (.block [tx]), .restart, .ask (.apply tx)]
    ∃ final, chain.live steps =
        some ((chain.serveAll [.genesis [.ok coin], .block [tx], .apply tx]).1, final) ∧
      final.host.blockNumber = 1 := by
  intro owner coin tx chain steps
  obtain ⟨final, run, _, akin⟩ := @restarts_are_invisible _ chain steps fun _ => rfl
  refine ⟨final, run, ?_⟩
  rw [akin.host]
  decide +kernel

end Chain
end CoinLedger

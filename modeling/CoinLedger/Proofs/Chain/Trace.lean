import CoinLedger.Proofs.Chain.Host

/-! # Traces of a chain

A chain is founded, executes blocks, applies transactions, is given authorities and is opened
anew, in any order. A trace lists the moments of this one after another: each attempt of a
transaction is a moment of its own, also inside a block, and so are the numbering of a block and
the settlement at its end. A moment says which transaction was accepted and what was hashed for
the keys of the coins that were stored. The last moment of an operation is the chain that the
operation leaves (`CoinLedger.Chain.getLast?_moments`).
-/

namespace CoinLedger

/-- What is hashed for the keys of a transaction's outputs, in order. -/
def Transaction.preimages (tx : Transaction) : List ByteString :=
  (List.range' 0 tx.outputs.length).map fun position =>
    outputPreimage tx.encode (UInt64.ofNat position)

/-- The outputs that could be built. -/
def builtOutputs (outputs : List (Except InvalidValue Output)) : List Output :=
  outputs.filterMap Except.toOption

theorem builtOutputs_map_ok (coins : List Output) : builtOutputs (coins.map .ok) = coins := by
  rw [builtOutputs, List.filterMap_map]
  exact List.filterMap_some

namespace Chain

/-- What is done with a chain. -/
inductive Operation where
  /-- Seed the genesis coins. -/
  | genesis (outputs : List (Except InvalidValue Output))
  /-- Execute the next block. -/
  | block (txs : List Transaction)
  /-- Apply a transaction outside a block. -/
  | apply (tx : Transaction)
  /-- Set the authorities that are paid at the end of each block. -/
  | setAuthorities (authorities : List Loose)
  /-- Open a chain over the same state. -/
  | restart (authorities : List Loose) (verify : Verifier) (longevity : Int)

/-- A moment in the life of a chain. -/
structure Moment where
  /-- The chain at this moment. -/
  chain : Chain
  /-- The transaction that has just been accepted, if one has. -/
  accepted? : Option Transaction
  /-- What was hashed for the keys of the coins that have just been stored. -/
  stored : List ByteString

/-- A moment at which no coin has been moved. -/
def Moment.quiet (chain : Chain) : Moment := ⟨chain, none, []⟩

/-- The transactions that are accepted in the course of moments. -/
def accepted (moments : List Moment) : List Transaction := moments.filterMap Moment.accepted?

/-- What is hashed for the keys of coins that are stored in the course of moments. -/
def hashed (moments : List Moment) : List ByteString := moments.flatMap Moment.stored

theorem accepted_append (earlier later : List Moment) :
    accepted (earlier ++ later) = accepted earlier ++ accepted later :=
  List.filterMap_append

theorem hashed_append (earlier later : List Moment) :
    hashed (earlier ++ later) = hashed earlier ++ hashed later :=
  List.flatMap_append

theorem hashed_cons (moment : Moment) (later : List Moment) :
    hashed (moment :: later) = moment.stored ++ hashed later :=
  List.flatMap_cons

theorem accepted_singleton (moment : Moment) : accepted [moment] = moment.accepted?.toList := by
  rw [accepted, List.filterMap_cons]
  cases moment.accepted? <;> rfl

theorem hashed_singleton (moment : Moment) : hashed [moment] = moment.stored :=
  List.flatMap_singleton ..

variable [CoinHash]

/-- The chain after an operation, whether it succeeds or fails. -/
def perform (chain : Chain) : Operation → Chain
  | .genesis outputs => (chain.genesis outputs).2
  | .block txs => (chain.executeBlock txs).2
  | .apply tx => (chain.apply tx).2
  | .setAuthorities authorities => { chain with authorities }
  | .restart authorities verify longevity => ofHost chain.host authorities verify longevity

/-- The chain after operations, one after another. -/
def performAll (chain : Chain) (operations : List Operation) : Chain :=
  operations.foldl perform chain

/-- The moment after a chain's genesis. -/
def found (chain : Chain) (outputs : List (Except InvalidValue Output)) : Moment :=
  match chain.genesis outputs with
  | (.ok _, after) => ⟨after, none, (builtOutputs outputs).map Output.encode⟩
  | (.error _, after) => .quiet after

/-- The moment after a transaction was attempted. -/
def attempt (chain : Chain) (tx : Transaction) : Moment :=
  match chain.spend tx with
  | (.ok _, after) => ⟨after, some tx, tx.preimages⟩
  | (.error _, after) => .quiet after

/-- The moment after the pool was dealt with at the end of a block. -/
def settle (chain : Chain) (number : Nat) : Moment :=
  match chain.finalize number with
  | (.ok (.dispersed _ events _), after) =>
      ⟨after, none, (rewardsOf events).map fun coin => coin.rewardPreimage (UInt64.ofNat number)⟩
  | (_, after) => .quiet after

/-- The moments of a block that has its number: its transactions, up to one that cannot be reported,
and the settlement. -/
def blockMoments (number : Nat) : List Transaction → Chain → List Moment
  | [], chain => [chain.settle number]
  | tx :: txs, chain =>
      match (chain.apply tx).1 with
      | .error _ => [chain.attempt tx]
      | .ok _ => chain.attempt tx :: blockMoments number txs (chain.attempt tx).chain

/-- The moments of an operation. -/
def moments (chain : Chain) : Operation → List Moment
  | .genesis outputs => [chain.found outputs]
  | .block txs =>
      let number := chain.host.blockNumber + 1
      match u64OfInt number with
      | .error _ => [.quiet chain]
      | .ok position =>
          let numbered := chain.withLedger
            { chain.ledger with host := chain.host.setBlockNumber position }
          .quiet numbered :: blockMoments number txs numbered
  | .apply tx => [chain.attempt tx]
  | .setAuthorities authorities => [.quiet { chain with authorities }]
  | .restart authorities verify longevity =>
      [.quiet (ofHost chain.host authorities verify longevity)]

/-- The moments of operations, one after another. -/
def trace (chain : Chain) : List Operation → List Moment
  | [] => []
  | operation :: operations =>
      chain.moments operation ++ (chain.perform operation).trace operations

/-- After genesis the moment shows the chain that genesis leaves. -/
theorem chain_found (chain : Chain) (outputs : List (Except InvalidValue Output)) :
    (chain.found outputs).chain = (chain.genesis outputs).2 := by
  unfold found
  rcases chain.genesis outputs with ⟨error | keys, after⟩ <;> rfl

/-- After an attempt the moment shows the chain that applying the transaction leaves. -/
theorem chain_attempt (chain : Chain) (tx : Transaction) :
    (chain.attempt tx).chain = (chain.apply tx).2 := by
  unfold attempt apply
  rcases chain.spend tx with ⟨error | fee, after⟩
  · cases error <;> rfl
  · rfl

/-- After dealing with the pool the moment shows the chain that this leaves. -/
theorem chain_settle (chain : Chain) (number : Nat) :
    (chain.settle number).chain = (chain.finalize number).2 := by
  unfold settle
  rcases chain.finalize number with ⟨error | settlement, after⟩
  · rfl
  · cases settlement <;> rfl

/-- **The last moment of a block shows the chain that the block leaves.** -/
theorem getLast?_blockMoments (number : Nat) (txs : List Transaction) (chain : Chain) :
    (blockMoments number txs chain).getLast?.map Moment.chain =
      some (match applyAll txs chain with
        | (.error _, after) => after
        | (.ok _, applied) => (applied.finalize number).2) := by
  induction txs generalizing chain with
  | nil => exact congrArg some (chain.chain_settle number)
  | cons tx txs inductive_step =>
      have attempted := chain.chain_attempt tx
      rw [blockMoments, applyAll]
      rcases applied : chain.apply tx with ⟨error | outcome, after⟩
      · rw [applied] at attempted
        exact congrArg some attempted
      · rw [applied] at attempted
        have later := inductive_step after
        dsimp only
        rw [attempted]
        have nonempty : blockMoments number txs after ≠ [] := by
          intro empty
          rw [empty] at later
          cases later
        rw [List.getLast?_cons_of_ne_nil nonempty, later]
        rcases applyAll txs after with ⟨error | outcomes, final⟩ <;> rfl

/-- **The last moment of an operation is the chain that the operation leaves.** -/
theorem getLast?_moments (chain : Chain) (operation : Operation) :
    (chain.moments operation).getLast?.map Moment.chain = some (chain.perform operation) := by
  cases operation with
  | genesis outputs => exact congrArg some (chain.chain_found outputs)
  | apply tx => exact congrArg some (chain.chain_attempt tx)
  | setAuthorities authorities => rfl
  | restart authorities verify longevity => rfl
  | block txs =>
      rw [moments, perform, executeBlock]
      cases u64OfInt ((chain.host.blockNumber + 1 : Nat) : Int) with
      | error reason => rfl
      | ok position =>
          dsimp only
          generalize numbered : chain.withLedger _ = start
          have final := getLast?_blockMoments (chain.host.blockNumber + 1) txs start
          have nonempty : blockMoments (chain.host.blockNumber + 1) txs start ≠ [] := by
            intro empty
            rw [empty] at final
            cases final
          rw [List.getLast?_cons_of_ne_nil nonempty, final]
          rcases applyAll txs start with ⟨error | outcomes, applied⟩
          · rfl
          · dsimp only
            rcases applied.finalize ((chain.host.blockNumber + 1 : Nat) : Int) with
              ⟨error | settlement, after⟩ <;> rfl

end Chain
end CoinLedger

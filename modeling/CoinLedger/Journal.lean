import CoinLedger.Chain.Settings
import CoinLedger.LogLine

/-! # Log lines

What an operator's log says about each operation. Lines are read off an operation's result, so that
the operations themselves know nothing of logging.
-/

namespace CoinLedger

-- Sums start at the zero of the core library, also where others are in scope.
attribute [local instance (high)] Zero.ofOfNat0

namespace Journal

/-- What the log says about a seeding of genesis coins. -/
def seeding (outputs : List (Except InvalidValue Output)) :
    Except LedgerError (List Outpoint) → List LogLine
  | .error _ => []
  | .ok keys =>
      let total := (outputs.map fun
        | .ok output => output.value.toNat
        | .error _ => 0).sum
      [⟨.info, .ledger, s!"Genesis seeded: {keys.length} outputs, {total} total value"⟩]

variable [CoinHash]

/-- What the log says about the start of a chain over a state. -/
def starting (settings : ChainSettings) (host : HostState) : List LogLine :=
  match settings.genesis? with
  | none => []
  | some outputs =>
      if host.genesisDone then []
      else
        let outputs : List (Except InvalidValue Output) := outputs.map .ok
        seeding outputs (host.atomically (seedFrom 0 outputs)).1

/-- What the log says about a transaction. -/
def spending (tx : Transaction) : Except LedgerError Nat → List LogLine
  | .ok fee =>
      [⟨.debug, .ledger, s!"Applied tx {Hex.short tx.id.bytes} ({tx.inputs.length} in, " ++
        s!"{tx.outputs.length} out, fee={fee})"⟩]
  | .error (.rejected reason) =>
      [⟨.info, .ledger,
        s!"Rejected tx {Hex.short tx.id.bytes}: {reason.kind.name} ({reason.message})"⟩]
  | .error _ => []

/-- What the log says about the tags of a waiting transaction. -/
def tagging : Except LedgerError Validity → List LogLine
  | .ok validity =>
      if validity.requires.isEmpty then []
      else
        [⟨.debug, .validator,
          s!"Transaction waits on {validity.requires.length} missing input(s)"⟩]
  | .error _ => []

/-- What the log says about a forfeited share. -/
def forfeiting (block : Int) : Event → List LogLine
  | .rewardWasted none =>
      [⟨.warning, .ledger, s!"Block {block}: malformed authority key, share forfeited"⟩]
  | .rewardWasted (some owner) =>
      [⟨.warning, .ledger, s!"Block {block}: reward key collision for " ++
        s!"{Hex.short owner.bytes}, share forfeited"⟩]
  | _ => []

/-- What the log says about the end of a block. A payment that fails does so at the first public key
among the authorities. -/
def settling (authorities : List Loose) (block : Int) : Except LedgerError Settlement → List LogLine
  | .ok (.noAuthorities pool) =>
      [⟨.debug, .ledger, s!"Block {block}: no authorities, carrying {pool}"⟩]
  | .ok (.poolTooSmall pool count) =>
      [⟨.debug, .ledger,
        s!"Block {block}: pool {pool} too small for {count} authorities, carrying"⟩]
  | .ok (.dispersed share events carry) =>
      events.flatMap (forfeiting block) ++
        [⟨.info, .ledger, s!"Block {block}: dispersed {paidBy events} to {events.length} " ++
          s!"authorities (share={share}, wasted={share * wastedCount events}, carry={carry})"⟩]
  | .error (.invalid (.tooWide _ _)) =>
      (authorities.takeWhile fun authority => authority.publicKey?.isNone).flatMap fun _ =>
        forfeiting block (.rewardWasted none)
  | .error _ => []

/-- What the log says about transactions applied in order. -/
def applying : List Transaction → Chain → List LogLine
  | [], _ => []
  | tx :: txs, chain =>
      match chain.spend tx with
      | (.ok fee, after) => spending tx (.ok fee) ++ applying txs after
      | (.error (.rejected reason), after) =>
          spending tx (.error (.rejected reason)) ++ applying txs after
      | (.error _, _) => []

/-- What the log says about a block as a whole. -/
def closing (number : Nat) (outcomes : List Outcome) (pool : Nat) : LogLine :=
  let applied := outcomes.countP Outcome.applied
  let rejected := outcomes.length - applied
  ⟨.info, .runtime,
    s!"Block {number}: {applied} applied, {rejected} rejected, reward_total={pool}"⟩

/-- What the log says about a block. -/
def block (chain : Chain) (txs : List Transaction) : List LogLine :=
  let number := chain.host.blockNumber + 1
  match u64OfInt number with
  | .error _ => []
  | .ok position =>
      let numbered := chain.withLedger
        { chain.ledger with host := chain.host.setBlockNumber position }
      match Chain.applyAll txs numbered with
      | (.error _, _) => applying txs numbered
      | (.ok outcomes, applied) =>
          let (settlement, final) := applied.finalize number
          let last : List LogLine :=
            match settlement with
            | .error _ => []
            | .ok _ => [closing number outcomes final.host.pool]
          applying txs numbered ++ settling chain.authorities number settlement ++ last

end Journal
end CoinLedger

import CoinLedger.Ledger.Basic

/-! # Paying out the pool

At the end of a block the pool is split evenly among the authorities and the remainder is carried
over. Each share becomes a coin whose key depends on the block. A share is forfeited if its
authority is no public key or if a coin with its key exists. With no authorities, or too small a
pool, the whole pool is carried over.
-/

namespace CoinLedger

-- Sums start at the zero of the core library, also where others are in scope.
attribute [local instance (high)] Zero.ofOfNat0

variable [CoinHash]

/-- The public key that an entry of an authority list is, if it is one. -/
def Loose.publicKey? : Loose → Option PublicKey
  | .bytes content => FixedBytes.ofBytes? 32 content
  | _ => none

/-- Pay one share to each authority in turn; the result is one event for each. -/
def payShares (share : Nat) (block : UInt64) : List Loose → HostState →
    Except LedgerError (List Event) × HostState
  | [], state => (.ok [], state)
  | authority :: authorities, state =>
      match authority.publicKey? with
      | none => withEvent (.rewardWasted none) (payShares share block authorities state)
      | some owner =>
          match Amount.ofInt "value" share with
          | .error reason => (.error (.invalid reason), state)
          | .ok value =>
              let coin : Output := { value, owner }
              let key := coin.rewardKey block
              if state.hasCoin key then
                withEvent (.rewardWasted (some owner)) (payShares share block authorities state)
              else
                withEvent (.rewardPaid owner value)
                  (payShares share block authorities (state.addCoin key coin))
where
  /-- Put an event before those of the remaining authorities. -/
  withEvent (event : Event) :
      Except LedgerError (List Event) × HostState → Except LedgerError (List Event) × HostState
    | (.ok events, state) => (.ok (event :: events), state)
    | (.error error, state) => (.error error, state)

/-- How the pool was dealt with at the end of a block. -/
inductive Settlement where
  /-- Nobody was there to be paid. -/
  | noAuthorities (pool : Nat)
  /-- There was less than one unit for each authority. -/
  | poolTooSmall (pool authorities : Nat)
  /-- Each authority was due a share. -/
  | dispersed (share : Nat) (events : List Event) (carry : Nat)
  deriving DecidableEq

/-- The sum of the rewards that events pay. -/
def paidBy (events : List Event) : Nat :=
  (events.map fun
    | .rewardPaid _ value => value.toNat
    | _ => 0).sum

/-- The number of shares that events forfeit. -/
def wastedCount (events : List Event) : Nat :=
  events.countP fun
    | .rewardWasted _ => true
    | _ => false

/-- Leave the remainder in the pool and pay the shares. -/
def disperse (pool share : Nat) (block : UInt64) (authorities : List Loose) (state : HostState) :
    Except LedgerError (List Event) × HostState :=
  match Amount.ofInt "reward total" ((pool - share * authorities.length : Nat) : Int) with
  | .error reason => (.error (.invalid reason), state)
  | .ok remainder => payShares share block authorities (state.setPool remainder)

/-- Deal with the pool at the end of a block. -/
def Ledger.finalize (ledger : Ledger) (authorities : List Loose) (block : Int) :
    Except LedgerError Settlement × Ledger :=
  match u64OfInt block with
  | .error reason => (.error (.invalid reason), ledger)
  | .ok block =>
      let pool := ledger.host.pool
      let share := pool / authorities.length
      if authorities = [] then
        (.ok (.noAuthorities pool),
          { ledger with phase := if pool = 0 then ledger.phase else .carry })
      else if share = 0 then
        (.ok (.poolTooSmall pool authorities.length),
          { ledger with phase := if pool = 0 then .empty else .carry })
      else
        match ledger.host.atomically (disperse pool share block authorities) with
        | (.error error, host) => (.error error, { ledger with host, phase := .dispersing })
        | (.ok events, host) =>
            (.ok (.dispersed share events host.pool),
              { ledger with
                host
                phase := .empty
                rewardsPaid := ledger.rewardsPaid + paidBy events
                rewardsWasted := ledger.rewardsWasted + share * wastedCount events
                events := ledger.events ++ events })

/-- Deal with the pool at the end of the block that a source names, if there is a source. -/
def Ledger.finalizeFrom (ledger : Ledger) (authorities : List Loose) (source : Option Int) :
    Except LedgerError Settlement × Ledger :=
  match source with
  | none => (.error (.invalid .noBlockNumber), ledger)
  | some block => ledger.finalize authorities block

end CoinLedger

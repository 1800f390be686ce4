import CoinLedger.Ledger.Finalize
import CoinLedger.Proofs.Ledger.Spend

/-! # What paying out the pool does

Paying out stores the rewards that its events name, each under its key for the block, all of which
were free and are distinct. What is paid, what is forfeited and what stays in the pool add up to
what was in it (`CoinLedger.Ledger.finalize_dispersed`). In every other case nothing changes but the
phase of the pool (`CoinLedger.Ledger.finalize_undispersed`). Either way the coins that are stored
are the rewards of the events that are deposited (`CoinLedger.Ledger.finalize_recorded`).
-/

namespace CoinLedger

open HostState

/-- The coins that events pay as rewards. -/
def rewardsOf (events : List Event) : List Output :=
  events.filterMap fun
    | .rewardPaid owner value => some { value, owner }
    | _ => none

/-- An event tells of a reward, paid or forfeited. -/
def Event.IsReward : Event → Prop
  | .transactionApplied _ => False
  | .rewardPaid _ _ | .rewardWasted _ => True

/-- What events pay is the sum of the rewards that they tell of. -/
theorem paidBy_eq (events : List Event) :
    paidBy events = ((rewardsOf events).map fun coin => coin.value.toNat).sum := by
  induction events with
  | nil => rfl
  | cons event events inductive_step =>
      cases event with
      | transactionApplied tx => exact (Nat.zero_add _).trans inductive_step
      | rewardPaid owner value => exact congrArg (value.toNat + ·) inductive_step
      | rewardWasted owner => exact (Nat.zero_add _).trans inductive_step

theorem wastedCount_rewardPaid (owner : PublicKey) (value : Amount) (events : List Event) :
    wastedCount (.rewardPaid owner value :: events) = wastedCount events :=
  List.countP_cons_of_neg Bool.false_ne_true

theorem wastedCount_rewardWasted (owner : Option PublicKey) (events : List Event) :
    wastedCount (.rewardWasted owner :: events) = wastedCount events + 1 :=
  List.countP_cons_of_pos rfl

/-- Payments that succeed behind an event succeeded without it. -/
theorem withEvent_ok {event : Event} {outcome : Except LedgerError (List Event)}
    {state after : HostState} {events : List Event}
    (run : payShares.withEvent event (outcome, state) = (.ok events, after)) :
    ∃ later, outcome = .ok later ∧ state = after ∧ events = event :: later := by
  cases outcome with
  | error error => cases run
  | ok later =>
      cases run
      exact ⟨later, rfl, rfl, rfl⟩

theorem withEvent_fst (event : Event) (run : Except LedgerError (List Event) × HostState) :
    (payShares.withEvent event run).1 = run.1.map (event :: ·) := by
  obtain ⟨outcome, state⟩ := run
  cases outcome <;> rfl

theorem withEvent_snd (event : Event) (run : Except LedgerError (List Event) × HostState) :
    (payShares.withEvent event run).2 = run.2 := by
  obtain ⟨outcome, state⟩ := run
  cases outcome <;> rfl

variable [CoinHash]

/-- A reward with its key for a block. -/
def Output.asReward (block : UInt64) (coin : Output) : Outpoint × Output :=
  (coin.rewardKey block, coin)

theorem map_fst_asReward (block : UInt64) (coins : List Output) :
    (coins.map (Output.asReward block)).map Prod.fst =
      coins.map fun coin => coin.rewardKey block :=
  List.map_map

theorem map_snd_asReward (block : UInt64) (coins : List Output) :
    (coins.map (Output.asReward block)).map Prod.snd = coins := by
  rw [List.map_map]
  exact List.map_id _

section

variable {share : Nat} {block : UInt64}

/-- Paying shares leaves alone what lies outside the innermost transaction. -/
theorem payShares_confined (authorities : List Loose) :
    Confined (payShares share block authorities) := by
  intro state base inside
  induction authorities generalizing state with
  | nil => exact inside
  | cons authority authorities inductive_step =>
      rw [payShares]
      split
      · rw [withEvent_snd]
        exact inductive_step inside
      · split
        · exact inside
        · dsimp only
          split
          · rw [withEvent_snd]
            exact inductive_step inside
          · rw [withEvent_snd]
            exact inductive_step (inside.put _ _)

/-- What paying shares to authorities has done to a state once it has deposited events. -/
structure Paid (share : Nat) (block : UInt64) (authorities : List Loose) (state after : HostState)
    (events : List Event) : Prop where
  /-- The rewards of the events are stored under their keys for the block. -/
  stored : after = addCoins ((rewardsOf events).map (Output.asReward block)) state
  /-- The keys are distinct. -/
  distinct : ((rewardsOf events).map fun coin => coin.rewardKey block).Nodup
  /-- Nothing was under the keys. -/
  free : ∀ coin ∈ rewardsOf events, state.coin? (coin.rewardKey block) = .ok none
  /-- Each authority's share is paid or forfeited. -/
  shared : paidBy events + share * wastedCount events = share * authorities.length
  /-- Each reward is a share. -/
  even : ∀ coin ∈ rewardsOf events, coin.value.toNat = share
  /-- Nothing but rewards is told. -/
  rewards : ∀ event ∈ events, event.IsReward

/-- A share that is forfeited stores nothing and is accounted for. -/
theorem Paid.wasted {authorities : List Loose} {state after : HostState} {events : List Event}
    (paid : Paid share block authorities state after events) (authority : Loose)
    (owner : Option PublicKey) :
    Paid share block (authority :: authorities) state after (.rewardWasted owner :: events) where
  stored := paid.stored
  distinct := paid.distinct
  free := paid.free
  shared := by
    have unpaid : paidBy (.rewardWasted owner :: events) = paidBy events := Nat.zero_add _
    have shared := paid.shared
    rw [wastedCount_rewardWasted, unpaid, List.length_cons, Nat.mul_succ, Nat.mul_succ]
    omega
  even := paid.even
  rewards := List.forall_mem_cons.mpr ⟨trivial, paid.rewards⟩

/-- A share that is paid is a coin of that value under a key that was free. -/
theorem Paid.reward {authorities : List Loose} {state after : HostState} {events : List Event}
    {coin : Output} (paid : Paid share block authorities
      (state.addCoin (coin.rewardKey block) coin) after events)
    (authority : Loose) (value : coin.value.toNat = share)
    (nothing : state.coin? (coin.rewardKey block) = .ok none) :
    Paid share block (authority :: authorities) state after
      (.rewardPaid coin.owner coin.value :: events) where
  stored := paid.stored
  distinct := by
    refine List.nodup_cons.mpr ⟨?_, paid.distinct⟩
    intro member
    obtain ⟨other, later, same⟩ := List.mem_map.mp member
    exact ((state.coin?_addCoin_eq_none_iff).mp (paid.free other later)).1 same
  free other member := by
    rcases List.mem_cons.mp member with rfl | later
    · exact nothing
    · exact ((state.coin?_addCoin_eq_none_iff).mp (paid.free other later)).2
  shared := by
    have more : paidBy (.rewardPaid coin.owner coin.value :: events) =
      coin.value.toNat + paidBy events := rfl
    have shared := paid.shared
    rw [wastedCount_rewardPaid, more, List.length_cons, Nat.mul_succ]
    omega
  even := List.forall_mem_cons.mpr ⟨value, paid.even⟩
  rewards := List.forall_mem_cons.mpr ⟨trivial, paid.rewards⟩

/-- **Payments that succeed have paid or forfeited the share of each authority.** -/
theorem payShares_ok {authorities : List Loose} {state after : HostState} {events : List Event}
    (run : payShares share block authorities state = (.ok events, after)) :
    Paid share block authorities state after events := by
  induction authorities generalizing state events with
  | nil =>
      cases run
      exact ⟨rfl, List.nodup_nil, (fun _ member => by cases member), rfl,
        (fun _ member => by cases member), (fun _ member => by cases member)⟩
  | cons authority authorities inductive_step =>
      rw [payShares] at run
      split at run
      · obtain ⟨later, paid, same, rfl⟩ := withEvent_ok run
        exact (inductive_step (Prod.ext paid same)).wasted authority none
      · rename_i owner _
        split at run
        · cases run
        · rename_i value fits
          have amount : value.toNat = share := by
            have same := Amount.ofInt_eq_ok_iff.mp fits
            omega
          dsimp only at run
          split at run
          · obtain ⟨later, paid, same, rfl⟩ := withEvent_ok run
            exact (inductive_step (Prod.ext paid same)).wasted authority (some owner)
          · rename_i taken
            obtain ⟨later, paid, same, rfl⟩ := withEvent_ok run
            exact (inductive_step (Prod.ext paid same)).reward authority amount
              ((state.hasCoin_eq_false_iff _).mp (Bool.eq_false_iff.mpr taken))

end

section

variable {pool share : Nat} {block : UInt64} {authorities : List Loose}

/-- Dispersing the pool leaves alone what lies outside the innermost transaction. -/
theorem disperse_confined : Confined (disperse pool share block authorities) := by
  intro state base inside
  unfold disperse
  split
  · exact inside
  · exact payShares_confined authorities (inside.put _ _)

/-- **A dispersal moves rewards out of the pool and leaves the remainder in it.** -/
theorem disperse_ok {state after : HostState} {events : List Event}
    (run : disperse pool share block authorities state = (.ok events, after)) :
    Moves state after [] ((rewardsOf events).map (Output.asReward block)) ∧
      ((rewardsOf events).map fun coin => coin.rewardKey block).Nodup ∧
      after.pool = pool - share * authorities.length ∧
      paidBy events + share * wastedCount events = share * authorities.length ∧
      (∀ coin ∈ rewardsOf events, coin.value.toNat = share) ∧
      ∀ event ∈ events, event.IsReward := by
  unfold disperse at run
  split at run
  · cases run
  · rename_i remainder fits
    have paid := payShares_ok run
    have left : remainder.toNat = pool - share * authorities.length := by
      have same := Amount.ofInt_eq_ok_iff.mp fits
      omega
    have free : ∀ entry ∈ (rewardsOf events).map (Output.asReward block),
        (state.setPool remainder).coin? entry.1 = .ok none := by
      intro entry member
      obtain ⟨coin, inside, rfl⟩ := List.mem_map.mp member
      exact paid.free coin inside
    rw [paid.stored]
    refine ⟨(Moves.store free).of_setPool, paid.distinct, ?_, paid.shared, paid.even, paid.rewards⟩
    rw [pool_addCoins, pool_setPool, left]

end

namespace Ledger

variable {ledger after : Ledger} {authorities : List Loose}

/-- The pool is paid out in a transaction of its own, and the ledger counts the shares and deposits
the events. -/
theorem finalize_eq_dispersed {block : Int} {share carry : Nat} {events : List Event}
    (run : ledger.finalize authorities block = (.ok (.dispersed share events carry), after)) :
    ∃ (number : UInt64) (host : HostState), block = number.toNat ∧
      share = ledger.host.pool / authorities.length ∧ share ≠ 0 ∧
      ledger.host.atomically (disperse ledger.host.pool share number authorities) =
        (.ok events, host) ∧
      after = { ledger with
        host
        phase := .empty
        rewardsPaid := ledger.rewardsPaid + paidBy events
        rewardsWasted := ledger.rewardsWasted + share * wastedCount events
        events := ledger.events ++ events } := by
  unfold finalize at run
  split at run
  · cases run
  · rename_i number fits
    dsimp only at run
    split at run
    · cases run
    · split at run
      · cases run
      · rename_i enough
        split at run
        · cases run
        · rename_i host paid
          cases run
          exact ⟨number, host, u64OfInt_eq_ok_iff.mp fits, rfl, enough, paid, rfl⟩

/-- **Paying out moves the rewards of its events into the coin set, and nothing is lost.** -/
theorem finalize_dispersed {block : Int} {share carry : Nat} {events : List Event}
    (run : ledger.finalize authorities block = (.ok (.dispersed share events carry), after)) :
    ∃ number : UInt64, block = number.toNat ∧
      share = ledger.host.pool / authorities.length ∧ share ≠ 0 ∧
      Moves ledger.host after.host [] ((rewardsOf events).map (Output.asReward number)) ∧
      ((rewardsOf events).map fun coin => coin.rewardKey number).Nodup ∧
      after.host.pool + paidBy events + share * wastedCount events = ledger.host.pool ∧
      after.rewardsWasted = ledger.rewardsWasted + share * wastedCount events := by
  obtain ⟨number, host, numbered, divided, enough, paid, rfl⟩ := finalize_eq_dispersed run
  obtain ⟨inner, dispersed, rfl⟩ := atomically_ok paid
  obtain ⟨moves, distinct, left, shared, _⟩ := disperse_ok dispersed
  refine ⟨number, numbered, divided, enough, moves.atomically, distinct, ?_, rfl⟩
  -- The shares are not more than the pool, so what is left is what was there less these.
  have within := Nat.div_mul_le_self ledger.host.pool authorities.length
  rw [← divided] at within
  rw [pool_commit, left]
  omega

/-- The pool is paid out if there is a unit of it for each authority. -/
theorem exists_dispersed {settlement : Settlement} {number : Int}
    (run : ledger.finalize authorities number = (.ok settlement, after))
    (someone : authorities ≠ []) (enough : authorities.length ≤ ledger.host.pool) :
    ∃ events carry,
      settlement = .dispersed (ledger.host.pool / authorities.length) events carry := by
  have positive : ledger.host.pool / authorities.length ≠ 0 :=
    Nat.ne_of_gt (Nat.div_pos enough (List.length_pos_of_ne_nil someone))
  unfold finalize at run
  split at run
  · cases run
  · dsimp only at run
    rw [if_neg someone, if_neg positive] at run
    split at run
    · cases run
    · cases run
      exact ⟨_, _, rfl⟩

/-- Unless the pool is paid out, nothing changes but its phase. -/
theorem finalize_undispersed {block : Int} {outcome : Except LedgerError Settlement}
    (run : ledger.finalize authorities block = (outcome, after)) :
    (∃ share events carry, outcome = .ok (.dispersed share events carry)) ∨
      (after = { ledger with phase := after.phase } ∧
        ∀ share events carry, outcome ≠ .ok (.dispersed share events carry)) := by
  unfold finalize at run
  split at run
  · cases run
    exact .inr ⟨rfl, fun _ _ _ same => nomatch same⟩
  · dsimp only at run
    split at run
    · cases run
      exact .inr ⟨rfl, fun _ _ _ same => nomatch same⟩
    · split at run
      · cases run
        exact .inr ⟨rfl, fun _ _ _ same => nomatch same⟩
      · split at run
        · rename_i failed
          cases run
          obtain ⟨rfl, _⟩ := atomically_error disperse_confined failed
          exact .inr ⟨rfl, fun _ _ _ same => nomatch same⟩
        · cases run
          exact .inl ⟨_, _, _, rfl⟩

/-- Unless the pool is paid out, the coins, the pool and what was forfeited stay as they are. -/
theorem finalize_cases {block : Int} {outcome : Except LedgerError Settlement}
    (run : ledger.finalize authorities block = (outcome, after)) :
    (∃ share events carry, outcome = .ok (.dispersed share events carry)) ∨
      (after.host = ledger.host ∧ after.rewardsWasted = ledger.rewardsWasted ∧
        ∀ share events carry, outcome ≠ .ok (.dispersed share events carry)) := by
  rcases finalize_undispersed run with dispersed | ⟨same, others⟩
  · exact .inl dispersed
  · exact .inr ⟨by rw [same], by rw [same], others⟩

/-- **Whatever comes of dealing with the pool, the coins that are stored are the rewards of the
events that are deposited, all of some value and with keys of their own.** -/
theorem finalize_recorded {block : Int} {outcome : Except LedgerError Settlement}
    (run : ledger.finalize authorities block = (outcome, after)) :
    ∃ (number : UInt64) (rewards : List Event),
      (rewards = [] ∨ block = number.toNat) ∧ (∀ event ∈ rewards, event.IsReward) ∧
      (∀ coin ∈ rewardsOf rewards, coin.value.toNat ≠ 0) ∧
      Moves ledger.host after.host [] ((rewardsOf rewards).map (Output.asReward number)) ∧
      ((rewardsOf rewards).map fun coin => coin.rewardKey number).Nodup ∧
      after.events = ledger.events ++ rewards := by
  rcases finalize_undispersed run with ⟨share, events, carry, rfl⟩ | ⟨same, _⟩
  · obtain ⟨number, host, numbered, _, enough, paid, rfl⟩ := finalize_eq_dispersed run
    obtain ⟨inner, dispersed, rfl⟩ := atomically_ok paid
    obtain ⟨moves, distinct, _, _, even, rewards⟩ := disperse_ok dispersed
    refine ⟨number, events, .inr numbered, rewards, fun coin member => ?_, moves.atomically,
      distinct, rfl⟩
    rw [even coin member]
    exact enough
  · refine ⟨0, [], .inl rfl, (fun _ member => by cases member), (fun _ member => by cases member),
      ?_, List.nodup_nil, ?_⟩
    · rw [congrArg Ledger.host same]
      exact Moves.refl ledger.host
    · rw [congrArg Ledger.events same, List.append_nil]

end Ledger
end CoinLedger

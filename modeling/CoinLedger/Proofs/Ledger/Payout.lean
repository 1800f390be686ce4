import CoinLedger.Crypto.Blake2b
import CoinLedger.Proofs.CoinSet.Totals
import CoinLedger.Proofs.Ledger.Progress

/-! # The effect of a payout

A payout goes through the list of authorities once, and later entries see the rewards of earlier
ones. What becomes of each share can all the same be told from the state before the payout: the key
of its reward is taken if it was taken then, or if an earlier entry of the list has a reward with
that key, whether this one was paid or not (`CoinLedger.payShares_eq_payoutEvents`). With the events
of a payout its effect is known cell by cell (`CoinLedger.Ledger.PaidOut`), and every block with a
number ends in one or leaves the state as it is (`CoinLedger.Ledger.finalize_pays_out`).
-/

namespace CoinLedger

open HostState

/-- Rewards that are all of the same amount pay as many times that amount. -/
theorem paidBy_of_even {share : Nat} {events : List Event}
    (even : ∀ coin ∈ rewardsOf events, coin.value.toNat = share) :
    paidBy events = (rewardsOf events).length * share := by
  rw [paidBy_eq, List.map_congr_left even, List.map_const', List.sum_replicate_nat]

section

variable [CoinHash]

/-- The keys of the rewards of an amount that are due to the entries of a list in a block. -/
def rewardKeys (value : Amount) (block : UInt64) (entries : List Loose) : List Outpoint :=
  (entries.filterMap Loose.publicKey?).map fun owner => (Output.mk value owner).rewardKey block

/-- What becomes of the share of an entry that stands in a list after earlier entries: it is
forfeited if the entry is no public key, and if the key of the reward is taken beforehand or
belongs to the reward of an earlier entry. -/
def payoutEvent (taken : Outpoint → Bool) (value : Amount) (block : UInt64) (earlier : List Loose)
    (entry : Loose) : Event :=
  match entry.publicKey? with
  | none => .rewardWasted none
  | some owner =>
      let key := (Output.mk value owner).rewardKey block
      if taken key = true ∨ key ∈ rewardKeys value block earlier then .rewardWasted (some owner)
      else .rewardPaid owner value

/-- What becomes of the shares of all entries in a list. -/
def payoutEvents (taken : Outpoint → Bool) (value : Amount) (block : UInt64)
    (authorities : List Loose) : List Event :=
  authorities.mapIdx fun index entry =>
    payoutEvent taken value block (authorities.take index) entry

section

variable {taken : Outpoint → Bool} {share : Nat} {value : Amount} {block : UInt64}

/-- An entry at the end adds the key of its reward, if it is a public key. -/
theorem mem_rewardKeys_append_singleton {earlier : List Loose} {entry : Loose} {key : Outpoint} :
    key ∈ rewardKeys value block (earlier ++ [entry]) ↔
      key ∈ rewardKeys value block earlier ∨
        ∃ owner, entry.publicKey? = some owner ∧ (Output.mk value owner).rewardKey block = key := by
  rw [rewardKeys, List.filterMap_append, List.map_append, List.mem_append, rewardKeys]
  refine or_congr_right ?_
  cases owned : entry.publicKey? with
  | none => simp [owned]
  | some owner => simp [owned, eq_comm]

/-- **The events of a payout**, where the taken keys are those that were taken beforehand and
those of earlier entries. -/
theorem payShares_eq_payoutEvents (fits : Amount.ofInt "value" share = .ok value)
    (entries : List Loose) {earlier : List Loose} {state : HostState}
    (occupied : ∀ key, state.hasCoin key = true ↔
      taken key = true ∨ key ∈ rewardKeys value block earlier) :
    (payShares share block entries state).1 = .ok (entries.mapIdx fun index entry =>
      payoutEvent taken value block (earlier ++ entries.take index) entry) := by
  induction entries generalizing earlier state with
  | nil => rfl
  | cons entry entries inductive_step =>
      -- The entries after this one are those of a list in which this one is an earlier entry.
      have shifted (index : Nat) : earlier ++ (entry :: entries).take (index + 1) =
          (earlier ++ [entry]) ++ entries.take index := by
        rw [List.take_succ_cons, List.append_assoc, List.singleton_append]
      simp only [List.mapIdx_cons, List.take_zero, List.append_nil, shifted]
      rw [payShares, payoutEvent]
      cases owned : entry.publicKey? with
      | none =>
          rw [withEvent_fst, inductive_step]
          · rfl
          · intro key
            rw [occupied, mem_rewardKeys_append_singleton, owned]
            simp
      | some owner =>
          rw [fits]
          dsimp only
          by_cases there : state.hasCoin ((Output.mk value owner).rewardKey block) = true
          · rw [if_pos there, if_pos ((occupied _).mp there), withEvent_fst, inductive_step]
            · rfl
            · intro key
              rw [occupied, mem_rewardKeys_append_singleton, owned, ← or_assoc, ← occupied]
              refine (or_iff_left_of_imp ?_).symm
              rintro ⟨other, same, rfl⟩
              cases same
              exact there
          · rw [if_neg there, if_neg (mt (occupied _).mpr there), withEvent_fst, inductive_step]
            · rfl
            · intro key
              rw [hasCoin_addCoin_iff, or_comm, occupied, or_assoc,
                mem_rewardKeys_append_singleton, owned]
              refine or_congr_right (or_congr_right ⟨fun same => ⟨owner, rfl, same.symm⟩, ?_⟩)
              rintro ⟨other, same, rfl⟩
              cases same
              rfl

/-- There is an event for each authority. -/
theorem length_payoutEvents (authorities : List Loose) :
    (payoutEvents taken value block authorities).length = authorities.length :=
  List.length_mapIdx

variable {pool : Nat} {authorities : List Loose} {state after : HostState} {events : List Event}

/-- A dispersal tells just what becomes of each share. -/
theorem payoutEvents_of_disperse (fits : Amount.ofInt "value" share = .ok value)
    (run : disperse pool share block authorities state = (.ok events, after)) :
    events = payoutEvents state.hasCoin value block authorities := by
  unfold disperse at run
  split at run
  · cases run
  · rename_i remainder _
    have occupied (key : Outpoint) : (state.setPool remainder).hasCoin key = true ↔
        state.hasCoin key = true ∨ key ∈ rewardKeys value block [] := by
      rw [hasCoin_setPool]
      exact (or_iff_left List.not_mem_nil).symm
    have told := payShares_eq_payoutEvents fits authorities occupied
    rw [run] at told
    exact Except.ok.inj told

/-- After a dispersal the cell of the pool holds the remainder. -/
theorem poolCell_of_disperse
    (run : disperse pool share block authorities state = (.ok events, after)) :
    after.get? poolKey = some (littleEndian 16 (pool - share * authorities.length)) := by
  unfold disperse at run
  split at run
  · cases run
  · rename_i remainder fits
    have left : remainder.toNat = pool - share * authorities.length := by
      have same := Amount.ofInt_eq_ok_iff.mp fits
      omega
    rw [(payShares_ok run).stored, get?_addCoins_of_unmarked not_coinMark_prefix_poolKey, setPool,
      get?_put, if_pos rfl, Amount.encode, left]

end

namespace Ledger

/-- What a payout of shares of some value to a list of authorities makes of a ledger, where it tells
of some events. -/
structure PaidOut (authorities : List Loose) (number : UInt64) (value : Amount)
    (events : List Event) (before after : Ledger) : Prop where
  /-- An event tells what becomes of the share of each entry, as the coins before the payout and the
  earlier entries decide it. -/
  shares : events = payoutEvents before.host.hasCoin value number authorities
  /-- There is one event for each entry. -/
  counted : events.length = authorities.length
  /-- The events are deposited in the order of the list. -/
  told : after.events = before.events ++ events
  /-- A reward that is told of is a share. Its key was free, and now has the reward. -/
  gained : ∀ coin ∈ rewardsOf events, coin.value = value ∧
    before.host.coin? (coin.rewardKey number) = .ok none ∧
    after.host.coin? (coin.rewardKey number) = .ok (some coin)
  /-- All cells but the pool's and those of these rewards hold what they held. -/
  untouched : ∀ cell, cell ≠ poolKey →
    (∀ coin ∈ rewardsOf events, coinCell (coin.rewardKey number) ≠ cell) →
    after.host.get? cell = before.host.get? cell
  /-- What cannot be shared evenly stays in the pool. -/
  pool : after.host.pool = before.host.pool % authorities.length
  /-- The pool's cell holds it in sixteen bytes. -/
  poolCell : after.host.get? poolKey =
    some (littleEndian 16 (before.host.pool % authorities.length))
  /-- The total grows by a share for each reward. -/
  total : ∃ total, before.host.totalValue = .ok total ∧
    after.host.totalValue = .ok (total + value.toNat * (rewardsOf events).length)
  /-- Nobody is paid twice. -/
  once : ((rewardsOf events).map Output.owner).Nodup

variable {ledger after : Ledger} {authorities : List Loose} {number : UInt64} {value : Amount}
  {events : List Event}

/-- In a block with a number the pool is paid out in a transaction that is kept. -/
theorem disperse_of_finalize {share carry : Nat}
    (run : ledger.finalize authorities number.toNat =
      (.ok (.dispersed share events carry), after)) :
    share = ledger.host.pool / authorities.length ∧ ∃ inner,
      disperse ledger.host.pool share number authorities ledger.host.enter = (.ok events, inner) ∧
        after.host = inner.commit ∧ after.events = ledger.events ++ events := by
  obtain ⟨position, host, same, divided, _, paid, rfl⟩ := finalize_eq_dispersed run
  obtain rfl : number = position := UInt64.toNat_inj.mp (Int.natCast_inj.mp same)
  obtain ⟨inner, dispersed, rfl⟩ := atomically_ok paid
  exact ⟨divided, inner, dispersed, rfl, rfl⟩

/-- **A payout over a well-formed state pays out.** -/
theorem paidOut_of_finalize (valid : ledger.host.WellFormed) {carry : Nat}
    (run : ledger.finalize authorities number.toNat =
      (.ok (.dispersed value.toNat events carry), after)) :
    PaidOut authorities number value events ledger after := by
  obtain ⟨divided, inner, dispersed, kept, told⟩ := disperse_of_finalize run
  obtain ⟨moved, distinct, left, _, even, _⟩ := disperse_ok dispersed
  have moves := moved.atomically
  rw [← kept] at moves
  have remainder : ledger.host.pool - value.toNat * authorities.length =
      ledger.host.pool % authorities.length := by
    rw [divided, Nat.mod_eq_sub_div_mul]
  have shared : ∀ coin ∈ rewardsOf events, coin.value = value :=
    fun coin member => Amount.ext (even coin member)
  have shares := payoutEvents_of_disperse (Amount.ofInt_eq_ok_iff.mpr rfl) dispersed
  rw [hasCoin_enter] at shares
  have apart := distinct
  rw [← map_fst_asReward] at apart
  constructor
  case shares => exact shares
  case counted => rw [shares, length_payoutEvents]
  case told => exact told
  case gained =>
    intro coin member
    have listed := List.mem_map_of_mem (f := Output.asReward number) member
    exact ⟨shared coin member, moves.free _ listed, moves.found apart listed⟩
  case untouched =>
    intro cell unpooled unpaid
    rw [moves.cells cell unpooled]
    refine get?_addCoins_of_ne ?_
    rw [map_fst_asReward]
    exact List.forall_mem_map.mpr unpaid
  case pool => rw [kept, pool_commit, left, remainder]
  case poolCell => rw [kept, get?_commit, poolCell_of_disperse dispersed, remainder]
  case total =>
    refine ⟨_, valid.totalValue_eq, ?_⟩
    have grown := moves.worth_eq (fun coin => coin.value.toNat) apart
    rw [List.map_map] at grown
    rw [(moves.wellFormed valid).totalValue_eq, Nat.mul_comm, ← paidBy_of_even even, paidBy_eq]
    exact congrArg Except.ok grown
  case once =>
    refine List.Nodup.map_on ?_ distinct.of_map
    intro left leftMember right rightMember same
    have even := (shared left leftMember).trans (shared right rightMember).symm
    cases left
    cases right
    cases same
    cases even
    rfl

/-- **What the end of a block does, exactly.** Let a ledger over a well-formed state be asked to
deal with its pool in a block that has a number, whatever its list of authorities is. It answers.
With nobody in the list or too small a pool its state stays as it is, and no event is told.
Otherwise it pays each entry an equal share of the pool, as far as the list and the coins allow
it. -/
theorem finalize_pays_out (valid : ledger.host.WellFormed) (authorities : List Loose)
    (number : UInt64) :
    ∃ settlement after, ledger.finalize authorities number.toNat = (.ok settlement, after) ∧
      (authorities = [] ∨ ledger.host.pool < authorities.length →
        after.host = ledger.host ∧ after.events = ledger.events) ∧
      (authorities ≠ [] → authorities.length ≤ ledger.host.pool →
        ∃ (value : Amount) (events : List Event),
          value.toNat = ledger.host.pool / authorities.length ∧
            PaidOut authorities number value events ledger after) := by
  obtain ⟨settlement, answer⟩ := finalize_total valid.pool_lt authorities number
  rcases run : ledger.finalize authorities number.toNat with ⟨outcome, after⟩
  rw [run] at answer
  cases answer
  refine ⟨settlement, after, rfl, ?_, ?_⟩
  · intro unpaid
    have nothing : ledger.host.pool / authorities.length = 0 := by
      rcases unpaid with rfl | few
      · exact Nat.div_zero _
      · exact Nat.div_eq_of_lt few
    rcases finalize_undispersed run with ⟨share, events, carry, same⟩ | ⟨same, _⟩
    · cases same
      obtain ⟨_, _, _, divided, enough, _⟩ := finalize_eq_dispersed run
      exact absurd (divided.trans nothing) enough
    · exact ⟨by rw [same], by rw [same]⟩
  · intro someone enough
    obtain ⟨events, carry, rfl⟩ := exists_dispersed run someone enough
    have fits := Nat.lt_of_le_of_lt (Nat.div_le_self _ authorities.length) valid.pool_lt
    exact ⟨⟨_, fits⟩, events, rfl, paidOut_of_finalize valid run⟩

end Ledger

end

/-- A pool of seven is due to a list that names one owner twice, with no key in between. The
owner is paid two once, the other shares are forfeited, and one stays in the pool. -/
theorem Ledger.owner_named_twice :
    let owner : PublicKey := FixedBytes.zero 32
    let two : Amount := ⟨2, by decide⟩
    let authorities : List Loose := [.bytes owner.bytes, .nothing, .bytes owner.bytes]
    let ledger := Ledger.ofHost (HostState.emptyMemory.setPool ⟨7, by decide⟩) []
    ∃ settlement after, ledger.finalize authorities 3 = (.ok settlement, after) ∧
      after.events = [.rewardPaid owner two, .rewardWasted none, .rewardWasted (some owner)] ∧
      after.host.coin? ((Output.mk two owner).rewardKey 3) = .ok (some ⟨two, owner⟩) ∧
      after.host.pool = 1 := by
  intro owner two authorities ledger
  have empty : HostState.emptyMemory.WellFormed := wellFormed_of_empty fun _ => rfl
  have valid : ledger.host.WellFormed := empty.setPool _
  have full : ledger.host.pool = 7 := by decide +kernel
  have three : authorities.length = 3 := rfl
  obtain ⟨settlement, after, run, _, pays⟩ := Ledger.finalize_pays_out valid authorities 3
  obtain ⟨value, events, divided, paid⟩ := pays (List.cons_ne_nil _ _) (by rw [full, three]; decide)
  obtain rfl : value = two := Amount.ext (by rw [divided, full, three])
  have told : events = [.rewardPaid owner two, .rewardWasted none, .rewardWasted (some owner)] :=
    paid.shares.trans (by decide +kernel)
  refine ⟨settlement, after, run, ?_, ?_, ?_⟩
  · rw [paid.told, told]
    rfl
  · refine (paid.gained ⟨two, owner⟩ ?_).2.2
    rw [told]
    exact List.mem_cons_self
  · rw [paid.pool, full, three]

end CoinLedger

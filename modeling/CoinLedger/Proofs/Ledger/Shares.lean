import CoinLedger.Proofs.Ledger.Fees
import CoinLedger.Proofs.Ledger.Payout

/-! # Who gets a share

Where no key of a reward is taken beforehand, and rewards of different owners have different keys,
what becomes of a share depends on the list of authorities alone
(`CoinLedger.payoutEvents_eq_shareEvents`): an entry that is no public key and an entry that stands
in the list before have no share paid to them, and all others do.
-/

namespace CoinLedger

open HostState

/-- An entry is a public key exactly when it is the bytes of one. -/
theorem publicKey?_eq_some_iff {entry : Loose} {owner : PublicKey} :
    entry.publicKey? = some owner ↔ entry = .bytes owner.bytes := by
  cases entry with
  | bytes content => rw [Loose.publicKey?, FixedBytes.ofBytes?_eq_some_iff, Loose.bytes.injEq]
  | _ => simp [Loose.publicKey?]

/-- An entry is no public key exactly when it is the bytes of none. -/
theorem publicKey?_eq_none_iff {entry : Loose} :
    entry.publicKey? = none ↔ ∀ owner : PublicKey, entry ≠ .bytes owner.bytes := by
  rw [Option.eq_none_iff_forall_ne_some]
  exact forall_congr' fun owner => not_congr publicKey?_eq_some_iff

theorem publicKey?_bytes (owner : PublicKey) :
    (Loose.bytes owner.bytes).publicKey? = some owner :=
  publicKey?_eq_some_iff.mpr rfl

/-- What becomes of the share of an entry in a list after the owners of earlier entries. -/
def shareEvent (value : Amount) (earlier : List PublicKey) (entry : Loose) : Event :=
  match entry.publicKey? with
  | none => .rewardWasted none
  | some owner =>
      if owner ∈ earlier then .rewardWasted (some owner) else .rewardPaid owner value

/-- What becomes of the shares of all entries in a list. -/
def shareEvents (value : Amount) (earlier : List PublicKey) : List Loose → List Event
  | [] => []
  | entry :: entries =>
      shareEvent value earlier entry ::
        shareEvents value (earlier ++ entry.publicKey?.toList) entries

section

variable {value : Amount} {earlier : List PublicKey}

/-- What becomes of a share depends on its entry and on the owners before it. -/
theorem getElem?_shareEvents (entries : List Loose) (index : Nat) :
    (shareEvents value earlier entries)[index]? =
      entries[index]?.map
        (shareEvent value (earlier ++ (entries.take index).filterMap Loose.publicKey?)) := by
  induction entries generalizing earlier index with
  | nil => simp [shareEvents]
  | cons entry entries inductive_step =>
      cases index with
      | zero => simp [shareEvents]
      | succ index =>
          rw [shareEvents, List.getElem?_cons_succ, inductive_step, List.getElem?_cons_succ,
            List.take_succ_cons, List.append_assoc]
          cases owned : entry.publicKey? with
          | none => rw [List.filterMap_cons_none owned]; rfl
          | some owner => rw [List.filterMap_cons_some owned]; rfl

/-- Distinct owners that have had no share yet are all paid. -/
theorem shareEvents_of_nodup {owners : List PublicKey} (distinct : owners.Nodup)
    (disjoint : ∀ owner ∈ owners, owner ∉ earlier) :
    shareEvents value earlier (owners.map fun owner => .bytes owner.bytes) =
      owners.map fun owner => .rewardPaid owner value := by
  induction owners generalizing earlier with
  | nil => rfl
  | cons owner owners inductive_step =>
      obtain ⟨others, distinct⟩ := List.nodup_cons.mp distinct
      obtain ⟨fresh, disjoint⟩ := List.forall_mem_cons.mp disjoint
      rw [List.map_cons, List.map_cons, shareEvents, shareEvent, publicKey?_bytes]
      dsimp only
      rw [if_neg fresh, inductive_step distinct]
      intro other member repeated
      rcases List.mem_append.mp repeated with before | here
      · exact disjoint other member before
      · cases List.mem_singleton.mp here
        exact others member

end

/-- Shares that are lost are lost to the list of authorities: each is that of an entry that is no
public key, or that stands in the list before. -/
structure BlamesList (authorities : List Loose) (rewards : List Event) : Prop where
  malformed : ∀ index : Nat, rewards[index]? = some (.rewardWasted none) →
    ∃ entry, authorities[index]? = some entry ∧ ∀ owner : PublicKey, entry ≠ .bytes owner.bytes
  repeated : ∀ (index : Nat) (owner : PublicKey),
    rewards[index]? = some (.rewardWasted (some owner)) →
      authorities[index]? = some (.bytes owner.bytes) ∧
        .bytes owner.bytes ∈ authorities.take index

theorem blamesList_nil (authorities : List Loose) : BlamesList authorities [] where
  malformed _ lost := nomatch lost
  repeated _ _ lost := nomatch lost

/-- Of the shares of a list, those that are lost are lost to the list. -/
theorem blamesList_shareEvents (value : Amount) (authorities : List Loose) :
    BlamesList authorities (shareEvents value [] authorities) where
  malformed index lost := by
    rw [getElem?_shareEvents, List.nil_append] at lost
    obtain ⟨entry, listed, told⟩ := Option.map_eq_some_iff.mp lost
    refine ⟨entry, listed, publicKey?_eq_none_iff.mp ?_⟩
    unfold shareEvent at told
    cases owned : entry.publicKey? with
    | none => rfl
    | some owner =>
        rw [owned] at told
        dsimp only at told
        split at told <;> cases told
  repeated index owner lost := by
    rw [getElem?_shareEvents, List.nil_append] at lost
    obtain ⟨entry, listed, told⟩ := Option.map_eq_some_iff.mp lost
    unfold shareEvent at told
    split at told
    · cases told
    · rename_i other owned
      split at told
      · rename_i before
        cases told
        obtain ⟨first, inside, same⟩ := List.mem_filterMap.mp before
        rw [publicKey?_eq_some_iff] at owned same
        exact ⟨owned ▸ listed, same ▸ inside⟩
      · cases told

/-- A payout gives equal parts of a pool to distinct authorities, as long as there is a unit for
each. -/
def PaysEvenly (authorities : List Loose) (pool : Nat) (rewards : List Event) : Prop :=
  ∀ owners : List PublicKey, authorities = owners.map (fun owner => .bytes owner.bytes) →
    owners.Nodup → owners.length ≤ pool → ∃ value : Amount,
      value.toNat = pool / owners.length ∧ rewards = owners.map fun owner => .rewardPaid owner value

theorem mem_publicKeys_cons {entry : Loose} {entries : List Loose} {owner : PublicKey}
    (member : owner ∈ entries.filterMap Loose.publicKey?) :
    owner ∈ (entry :: entries).filterMap Loose.publicKey? := by
  obtain ⟨other, inside, owned⟩ := List.mem_filterMap.mp member
  exact List.mem_filterMap.mpr ⟨other, List.mem_cons_of_mem entry inside, owned⟩

/-- A reward that is told of is a share and goes to a public key in the list. -/
theorem mem_publicKeys_of_told {share : Nat} {authorities : List Loose} {events : List Event}
    (told : List.Forall₂ (Event.TellsOf share) authorities events) {coin : Output}
    (paid : coin ∈ rewardsOf events) :
    coin.owner ∈ authorities.filterMap Loose.publicKey? ∧ coin.value.toNat = share := by
  induction told with
  | nil => cases paid
  | @cons entry event entries events tells later inductive_step =>
      rw [← List.singleton_append, rewardsOf, List.filterMap_append] at paid
      rcases List.mem_append.mp paid with here | there
      · cases event with
        | transactionApplied tx => cases tells
        | rewardWasted owner => cases here
        | rewardPaid owner value =>
            cases List.mem_singleton.mp here
            exact ⟨List.mem_filterMap.mpr ⟨entry, List.mem_cons_self, tells.1⟩, tells.2⟩
      · obtain ⟨listed, even⟩ := inductive_step there
        exact ⟨mem_publicKeys_cons listed, even⟩

variable [CoinHash] {share : Nat} {value : Amount} {block : UInt64}

/-- Equal rewards of different owners in a list have different keys. -/
def RewardsApart (value : Amount) (block : UInt64) (entries : List Loose) : Prop :=
  ∀ left ∈ entries.filterMap Loose.publicKey?, ∀ right ∈ entries.filterMap Loose.publicKey?,
    (Output.mk value left).rewardKey block = (Output.mk value right).rewardKey block → left = right

/-- **A share is lost only if its entry is no public key or stands in the list before**, as long as
keys of rewards are taken by earlier shares alone. -/
theorem payoutEvents_eq_shareEvents {taken : Outpoint → Bool} {entries : List Loose}
    (apart : RewardsApart value block entries)
    (free : ∀ owner ∈ entries.filterMap Loose.publicKey?,
      taken ((Output.mk value owner).rewardKey block) = false) :
    payoutEvents taken value block entries = shareEvents value [] entries := by
  refine List.ext_getElem? fun index => ?_
  rw [payoutEvents, List.getElem?_mapIdx, getElem?_shareEvents, List.nil_append]
  cases listed : entries[index]? with
  | none => rfl
  | some entry =>
      refine congrArg some ?_
      change payoutEvent taken value block (entries.take index) entry = _
      rw [payoutEvent, shareEvent]
      cases owned : entry.publicKey? with
      | none => rfl
      | some owner =>
          have inside : owner ∈ entries.filterMap Loose.publicKey? :=
            List.mem_filterMap.mpr ⟨entry, List.mem_of_getElem? listed, owned⟩
          -- The key is free at first, so it is an earlier entry's, and this is the same owner.
          have same : taken ((Output.mk value owner).rewardKey block) = true ∨
              (Output.mk value owner).rewardKey block ∈
                rewardKeys value block (entries.take index) ↔
              owner ∈ (entries.take index).filterMap Loose.publicKey? := by
            rw [free owner inside, or_iff_right Bool.false_ne_true, rewardKeys]
            refine ⟨fun keyed => ?_, List.mem_map_of_mem⟩
            obtain ⟨other, earlier, keyed⟩ := List.mem_map.mp keyed
            have listed := List.filterMap_subset _ (List.take_subset index entries) earlier
            exact apart other listed owner inside keyed ▸ earlier
          simp only [same]

namespace Ledger

variable {ledger after : Ledger} {authorities : List Loose}

/-- **A payout under keys that are free and distinct** loses the shares of entries that are no
public keys or stand in the list before, and no others. -/
theorem finalize_shares {share carry : Nat} {events : List Event} {number : UInt64}
    (run : ledger.finalize authorities number.toNat = (.ok (.dispersed share events carry), after))
    (fits : Amount.ofInt "value" share = .ok value)
    (apart : RewardsApart value number authorities)
    (free : ∀ owner ∈ authorities.filterMap Loose.publicKey?,
      ledger.host.hasCoin ((Output.mk value owner).rewardKey number) = false) :
    events = shareEvents value [] authorities := by
  obtain ⟨_, inner, dispersed, _⟩ := disperse_of_finalize run
  rw [payoutEvents_of_disperse fits dispersed, hasCoin_enter]
  exact payoutEvents_eq_shareEvents apart free

/-- **Where nothing is dispersed, nothing is due**: there is no authority, or less than a unit for
each. -/
theorem paysEvenly_nil {settlement : Settlement} {number : UInt64}
    (run : ledger.finalize authorities number.toNat = (.ok settlement, after))
    (others : ∀ share events carry, settlement ≠ .dispersed share events carry) :
    PaysEvenly authorities ledger.host.pool [] := by
  intro owners listed once enough
  by_cases nobody : owners = []
  · subst nobody
    exact ⟨.zero, (Nat.div_zero _).symm, rfl⟩
  · have someone : authorities ≠ [] := by
      rw [listed]
      exact mt List.map_eq_nil_iff.mp nobody
    have within : authorities.length ≤ ledger.host.pool := by
      rw [listed, List.length_map]
      exact enough
    obtain ⟨events, carry, dispersed⟩ := exists_dispersed run someone within
    exact absurd dispersed (others _ events carry)

end Ledger
end CoinLedger

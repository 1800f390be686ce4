import CoinLedger.Proofs.Chain.Trace
import CoinLedger.Proofs.Encoding.KeyOrigin

/-! # What the past says about a state

The moments of a chain's past account for its state: every coin that is there was stored under the
digest of something hashed in the past, every coin that an accepted transaction spent is gone, and
whatever was hashed is a genesis coin's, a reward's of an earlier block or an output's of an
accepted transaction (`CoinLedger.Chain.Accounted`). A moment at which coins are moved is
accounted for as well, provided that what is hashed at it was never hashed before: then its keys
are new, and no coin that was spent comes back (`CoinLedger.Chain.Accounted.extend`).
-/

namespace CoinLedger.Chain

open HostState

/-- Where something that is hashed for the key of a coin comes from: rewards come from blocks
before the next one, outputs from transactions accepted in the past. -/
inductive Source (past : List Moment) (next : Nat) : ByteString → Prop
  /-- A genesis coin. -/
  | genesis (coin : Output) : Source past next coin.encode
  /-- A reward of an earlier block. -/
  | reward (coin : Output) (block : UInt64) (before : block.toNat < next) :
      Source past next (coin.rewardPreimage block)
  /-- An output of an accepted transaction. -/
  | output (tx : Transaction) (index : UInt64) (member : tx ∈ accepted past) :
      Source past next (outputPreimage tx.encode index)

/-- A source in the past is one in a longer past and before a later block. -/
theorem Source.mono {past later : List Moment} {next after : Nat} (within : next ≤ after)
    {preimage : ByteString} (source : Source past next preimage) :
    Source (past ++ later) after preimage := by
  cases source with
  | genesis coin => exact .genesis coin
  | reward coin block before => exact .reward coin block (Nat.lt_of_lt_of_le before within)
  | output tx index member =>
      refine .output tx index ?_
      rw [accepted_append]
      exact List.mem_append_left _ member

variable [CoinHash]

/-- No two of some byte strings have one digest. -/
def Apart (preimages : List ByteString) : Prop :=
  ∀ left ∈ preimages, ∀ right ∈ preimages,
    CoinHash.digest left = CoinHash.digest right → left = right

theorem Apart.of_subset {fewer more : List ByteString} (apart : Apart more)
    (subset : fewer ⊆ more) : Apart fewer :=
  fun left leftMember right rightMember =>
    apart left (subset leftMember) right (subset rightMember)

/-- What is hashed in the course of the first moments is apart if all that is hashed is. -/
theorem Apart.earlier {first second : List Moment} (apart : Apart (hashed (first ++ second))) :
    Apart (hashed first) := by
  rw [hashed_append] at apart
  exact apart.of_subset (List.subset_append_left _ _)

/-- The past accounts for a state before the block with the next number is settled. -/
structure Accounted (past : List Moment) (next : Nat) (host : HostState) : Prop where
  /-- Every coin that is there has the digest of something that was hashed. -/
  named : ∀ key coin, host.coin? key = .ok (some coin) →
    ∃ preimage ∈ hashed past, CoinHash.digest preimage = key
  /-- A coin that was spent is gone. -/
  gone : ∀ tx ∈ accepted past, ∀ outpoint ∈ tx.outpoints, host.coin? outpoint = .ok none
  /-- A coin that was spent had the digest of something that was hashed. -/
  known : ∀ tx ∈ accepted past, ∀ outpoint ∈ tx.outpoints,
    ∃ preimage ∈ hashed past, CoinHash.digest preimage = outpoint
  /-- A transaction that was accepted is in order. -/
  ordered : ∀ tx ∈ accepted past, WellStructured tx ∧ tx.Writable
  /-- No coin was spent twice. -/
  once : ((accepted past).flatMap Transaction.outpoints).Nodup
  /-- Whatever was hashed has a source. -/
  sources : ∀ preimage ∈ hashed past, Source past next preimage
  /-- Before genesis nothing was stored and the pool is empty. -/
  unseeded : host.genesisDone = false → hashed past = [] ∧ host.pool = 0

namespace Accounted

variable {past : List Moment} {next : Nat} {host : HostState}

/-- Nothing has to be accounted for in an empty state. -/
theorem of_empty (empty : ∀ cell, host.get? cell = none) (next : Nat) : Accounted [] next host where
  named key coin there := by
    rw [coin?_eq_some_iff, empty] at there
    cases there
  gone tx member := by cases member
  known tx member := by cases member
  ordered tx member := by cases member
  once := List.nodup_nil
  sources preimage member := by cases member
  unseeded _ := ⟨rfl, by rw [HostState.pool, empty]⟩

/-- The sources stay when the next block comes. -/
theorem mono (accounted : Accounted past next host) {after : Nat} (within : next ≤ after) :
    Accounted past after host where
  named := accounted.named
  gone := accounted.gone
  known := accounted.known
  ordered := accounted.ordered
  once := accounted.once
  sources preimage member := by
    have source : Source (past ++ []) after preimage :=
      (accounted.sources preimage member).mono within
    rwa [List.append_nil] at source
  unseeded := accounted.unseeded

/-- A moment at which nothing is moved is accounted for. -/
theorem quiet (accounted : Accounted past next host) (chain : Chain)
    (coins : chain.host.coin? = host.coin?) (done : chain.host.genesisDone = host.genesisDone)
    (pool : chain.host.pool = host.pool) :
    Accounted (past ++ [.quiet chain]) next chain.host := by
  have sameHashed : hashed (past ++ [.quiet chain]) = hashed past := by
    rw [hashed_append, hashed_singleton, Moment.quiet, List.append_nil]
  have sameAccepted : accepted (past ++ [.quiet chain]) = accepted past := by
    rw [accepted_append, accepted_singleton, Moment.quiet, Option.toList_none, List.append_nil]
  constructor
  · rw [sameHashed, coins]
    exact accounted.named
  · rw [sameAccepted, coins]
    exact accounted.gone
  · rw [sameAccepted, sameHashed]
    exact accounted.known
  · rw [sameAccepted]
    exact accounted.ordered
  · rw [sameAccepted]
    exact accounted.once
  · rw [sameHashed]
    exact fun preimage member => (accounted.sources preimage member).mono (Nat.le_refl next)
  · rw [sameHashed, done, pool]
    exact accounted.unseeded

section

variable {moved : HostState} {spent minted : List (Outpoint × Output)} {stored : List ByteString}

/-- No coin that was spent comes back where coins are stored under the digests of new preimages. -/
theorem gone_after (accounted : Accounted past next host) (moves : Moves host moved spent minted)
    (names : minted.map Prod.fst = stored.map CoinHash.digest)
    (fresh : ∀ preimage ∈ stored, preimage ∉ hashed past) (apart : Apart (hashed past ++ stored)) :
    ∀ tx ∈ accepted past, ∀ outpoint ∈ tx.outpoints, moved.coin? outpoint = .ok none := by
  intro tx member outpoint inside
  rcases moves.free_or_minted (accounted.gone tx member outpoint inside) with free | back
  · exact free
  · -- Its key would be the digest of something old and of something new.
    rw [names] at back
    obtain ⟨preimage, new, digest⟩ := List.mem_map.mp back
    obtain ⟨old, before, sameDigest⟩ := accounted.known tx member outpoint inside
    have same := apart preimage (List.mem_append_right _ new) old (List.mem_append_left _ before)
      (digest.trans sameDigest.symm)
    exact absurd (same ▸ before) (fresh preimage new)

/-- After a move every coin has the digest of something that was hashed. -/
theorem named_after (accounted : Accounted past next host) (moves : Moves host moved spent minted)
    (names : minted.map Prod.fst = stored.map CoinHash.digest) {key : Outpoint} {coin : Output}
    (there : moved.coin? key = .ok (some coin)) :
    ∃ preimage ∈ hashed past ++ stored, CoinHash.digest preimage = key := by
  rcases moves.origin there with before | now
  · obtain ⟨preimage, member, digest⟩ := accounted.named key coin before
    exact ⟨preimage, List.mem_append_left _ member, digest⟩
  · have inside : key ∈ minted.map Prod.fst := List.mem_map_of_mem now
    rw [names] at inside
    obtain ⟨preimage, member, digest⟩ := List.mem_map.mp inside
    exact ⟨preimage, List.mem_append_right _ member, digest⟩

/-- What is spent had the digest of something that was hashed. -/
theorem known_of_spent (accounted : Accounted past next host)
    (moves : Moves host moved spent minted) {outpoint : Outpoint}
    (inside : outpoint ∈ spent.map Prod.fst) :
    ∃ preimage ∈ hashed past, CoinHash.digest preimage = outpoint := by
  obtain ⟨entry, member, rfl⟩ := List.mem_map.mp inside
  exact accounted.named entry.1 entry.2 (moves.present entry member)

/-- What is spent has not been spent before. -/
theorem once_after (accounted : Accounted past next host) (moves : Moves host moved spent minted) :
    ((accepted past).flatMap Transaction.outpoints ++ spent.map Prod.fst).Nodup := by
  refine List.nodup_append'.mpr ⟨accounted.once, moves.once, ?_⟩
  intro outpoint earlier now
  obtain ⟨tx, member, inside⟩ := List.mem_flatMap.mp earlier
  obtain ⟨entry, taken, rfl⟩ := List.mem_map.mp now
  have there := moves.present entry taken
  rw [accounted.gone tx member entry.1 inside] at there
  cases there

end

/-- **A moment at which coins are moved is accounted for, if what is hashed at it is new.** -/
theorem extend (accounted : Accounted past next host) {moment : Moment} {after : Nat}
    {moved : HostState} {spent minted : List (Outpoint × Output)}
    (moves : Moves host moved spent minted) (coins : moment.chain.host.coin? = moved.coin?)
    (names : minted.map Prod.fst = moment.stored.map CoinHash.digest)
    (spender : ∀ tx, moment.accepted? = some tx →
      WellStructured tx ∧ tx.Writable ∧ tx.outpoints = spent.map Prod.fst)
    (fresh : ∀ preimage ∈ moment.stored, preimage ∉ hashed past)
    (apart : Apart (hashed (past ++ [moment]))) (order : hashed past = [] ∨ next ≤ after)
    (sources : ∀ preimage ∈ moment.stored, Source (past ++ [moment]) after preimage)
    (unseeded : moment.chain.host.genesisDone = false →
      hashed (past ++ [moment]) = [] ∧ moment.chain.host.pool = 0) :
    Accounted (past ++ [moment]) after moment.chain.host := by
  have moreHashed : hashed (past ++ [moment]) = hashed past ++ moment.stored := by
    rw [hashed_append, hashed_singleton]
  have eitherAccepted : ∀ tx ∈ accepted (past ++ [moment]),
      tx ∈ accepted past ∨ moment.accepted? = some tx := by
    intro tx member
    rw [accepted_append, accepted_singleton, List.mem_append, Option.mem_toList] at member
    exact member
  constructor
  · intro key coin there
    rw [coins] at there
    rw [moreHashed]
    exact accounted.named_after moves names there
  · intro tx member outpoint inside
    rw [coins]
    rcases eitherAccepted tx member with before | now
    · exact accounted.gone_after moves names fresh (moreHashed ▸ apart) tx before outpoint inside
    · exact moves.gone ((spender tx now).2.2 ▸ inside)
  · intro tx member outpoint inside
    have earlier : ∃ preimage ∈ hashed past, CoinHash.digest preimage = outpoint := by
      rcases eitherAccepted tx member with before | now
      · exact accounted.known tx before outpoint inside
      · exact accounted.known_of_spent moves ((spender tx now).2.2 ▸ inside)
    obtain ⟨preimage, before, digest⟩ := earlier
    exact ⟨preimage, moreHashed ▸ List.mem_append_left _ before, digest⟩
  · intro tx member
    rcases eitherAccepted tx member with before | now
    · exact accounted.ordered tx before
    · exact ⟨(spender tx now).1, (spender tx now).2.1⟩
  · rw [accepted_append, accepted_singleton, List.flatMap_append]
    cases given : moment.accepted? with
    | none =>
        rw [Option.toList_none, List.flatMap_nil, List.append_nil]
        exact accounted.once
    | some tx =>
        rw [Option.toList_some, List.flatMap_singleton, (spender tx given).2.2]
        exact accounted.once_after moves
  · intro preimage member
    rw [moreHashed] at member
    rcases List.mem_append.mp member with before | now
    · -- Genesis sets the number of the block back, but there is nothing before it.
      rcases order with nothing | within
      · rw [nothing] at before
        cases before
      · exact (accounted.sources preimage before).mono within
    · exact sources preimage now
  · exact unseeded

/-- What is hashed for a reward of the next block has not been hashed before. -/
theorem reward_not_mem (accounted : Accounted past next host) (coin : Output) {block : UInt64}
    (late : next ≤ block.toNat) : coin.rewardPreimage block ∉ hashed past := by
  intro member
  generalize same : coin.rewardPreimage block = preimage at member
  cases accounted.sources preimage member with
  | genesis other => exact KeyOrigin.encode_ne_rewardPreimage other coin block same.symm
  | reward other earlier before =>
      obtain ⟨_, rfl⟩ := Output.rewardPreimage_inj.mp same
      omega
  | output tx index _ => exact KeyOrigin.rewardPreimage_ne_outputPreimage coin block tx index same

/-- What is hashed for an output of a new transaction has not been hashed before. -/
theorem output_not_mem (accounted : Accounted past next host) {tx : Transaction}
    (writable : tx.Writable) (new : tx ∉ accepted past) (index : UInt64) :
    outputPreimage tx.encode index ∉ hashed past := by
  intro member
  generalize same : outputPreimage tx.encode index = preimage at member
  cases accounted.sources preimage member with
  | genesis other => exact KeyOrigin.encode_ne_outputPreimage other tx index same.symm
  | reward other earlier _ =>
      exact KeyOrigin.rewardPreimage_ne_outputPreimage other earlier tx index same.symm
  | output other position inside =>
      have otherWritable := (accounted.ordered other inside).2
      obtain ⟨rfl, _⟩ := (KeyOrigin.outputPreimage_encode_inj writable otherWritable).mp same
      exact new inside

/-- A transaction whose coins are there was not accepted before. -/
theorem not_mem_accepted (accounted : Accounted past next host) {verify : Verifier}
    {tx : Transaction} {coins : List Output} {keys : List Outpoint} {fee : Nat}
    (admissible : Admissible verify host.coin? tx coins keys fee) : tx ∉ accepted past := by
  intro member
  obtain ⟨outpoint, inside, coin, there⟩ := admissible.exists_coin
  rw [accounted.gone tx member outpoint inside] at there
  cases there

end Accounted
end CoinLedger.Chain

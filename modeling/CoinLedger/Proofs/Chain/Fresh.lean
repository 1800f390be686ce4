import CoinLedger.Crypto.Blake2b
import CoinLedger.Proofs.Chain.Receipts
import CoinLedger.Proofs.Chain.Spent
import CoinLedger.Proofs.Ledger.Shares

/-! # Fresh keys

Keys are derived in scenes: at a genesis, when a transaction is attempted and when a block is
settled. If no two of the byte strings that are hashed for them have one digest, then no key that is
derived in a scene is taken, since all that was hashed before is something else: no transaction is
rejected for a key (`CoinLedger.Chain.Ready.untaken`), and no share is lost but those of a bad list
of authorities (`CoinLedger.Chain.Ready.settled`).
-/

namespace CoinLedger

open HostState

/-- What is hashed for the keys of equal rewards to the public keys in a list. -/
def rewardPreimages (share : Nat) (block : UInt64) (entries : List Loose) : List ByteString :=
  match Amount.ofInt "value" share with
  | .error _ => []
  | .ok value =>
      (entries.filterMap Loose.publicKey?).map fun owner =>
        (Output.mk value owner).rewardPreimage block

namespace Chain

/-- An occasion on which keys of coins are derived. -/
inductive Scene where
  /-- The chain is founded. -/
  | found (chain : Chain) (outputs : List (Except InvalidValue Output))
  /-- A transaction is attempted. -/
  | attempt (chain : Chain) (tx : Transaction)
  /-- The pool is dealt with at the end of the block with a number. -/
  | settle (chain : Chain) (number : Nat)

section

variable [CoinHash]

/-- What is hashed for keys on an occasion. A transaction has its keys looked up if it is accepted
or rejected for one of them. -/
def Scene.keyed : Scene → List ByteString
  | found chain outputs => (chain.found outputs).stored
  | attempt chain tx =>
      match (chain.spend tx).1 with
      | .ok _ | .error (.rejected (.outputAlreadyExists _)) => tx.preimages
      | .error _ => []
  | settle chain number =>
      match (chain.finalize number).1 with
      | .ok (.dispersed share _ _) =>
          rewardPreimages share (UInt64.ofNat number) chain.authorities
      | _ => []

/-- What is hashed for keys in the course of scenes. -/
def keyed (scenes : List Scene) : List ByteString := scenes.flatMap Scene.keyed

/-- The scenes of a block that has its number. -/
def blockScenes (number : Nat) : List Transaction → Chain → List Scene
  | [], chain => [.settle chain number]
  | tx :: txs, chain =>
      match (chain.apply tx).1 with
      | .error _ => [.attempt chain tx]
      | .ok _ => .attempt chain tx :: blockScenes number txs (chain.attempt tx).chain

/-- The scenes of an operation. -/
def scenesOf (chain : Chain) : Operation → List Scene
  | .genesis outputs => [.found chain outputs]
  | .block txs =>
      let number := chain.host.blockNumber + 1
      match u64OfInt number with
      | .error _ => []
      | .ok position => blockScenes number txs (chain.numbered position)
  | .apply tx => [.attempt chain tx]
  | .setAuthorities _ | .restart _ _ _ => []

/-- The scenes of operations, one after another. -/
def scenes (chain : Chain) : List Operation → List Scene
  | [] => []
  | operation :: operations =>
      chain.scenesOf operation ++ (chain.perform operation).scenes operations

theorem keyed_append (earlier later : List Scene) :
    keyed (earlier ++ later) = keyed earlier ++ keyed later :=
  List.flatMap_append

theorem keyed_cons (scene : Scene) (later : List Scene) :
    keyed (scene :: later) = scene.keyed ++ keyed later :=
  List.flatMap_cons

theorem keyed_subset {scene : Scene} {scenes : List Scene} (member : scene ∈ scenes) :
    scene.keyed ⊆ keyed scenes :=
  fun _ inside => List.mem_flatMap.mpr ⟨scene, member, inside⟩

variable {chain after : Chain}

/-- What an attempt stores is under keys that were derived in its scene. -/
theorem stored_attempt_subset (chain : Chain) (tx : Transaction) :
    (chain.attempt tx).stored ⊆ (Scene.attempt chain tx).keyed := by
  unfold attempt
  rw [Scene.keyed]
  rcases chain.spend tx with ⟨error | fee, after⟩
  · exact List.nil_subset _
  · exact List.Subset.refl _

/-- The rewards that are stored are some of those whose keys are derived. -/
theorem stored_settle_subset (chain : Chain) (number : Nat) :
    (chain.settle number).stored ⊆ (Scene.settle chain number).keyed := by
  unfold settle
  rw [Scene.keyed]
  rcases run : chain.finalize number with ⟨error | settlement, after⟩
  · exact List.nil_subset _
  cases settlement with
  | noAuthorities pool => exact List.nil_subset _
  | poolTooSmall pool authorities => exact List.nil_subset _
  | dispersed share events carry =>
      obtain ⟨ledger, settled, _⟩ := finalize_eq run
      obtain ⟨_, _, told, _⟩ := Ledger.finalize_told settled
      intro preimage member
      obtain ⟨coin, paid, rfl⟩ := List.mem_map.mp member
      obtain ⟨listed, even⟩ := mem_publicKeys_of_told told paid
      have fits : Amount.ofInt "value" share = .ok coin.value :=
        Amount.ofInt_eq_ok_iff.mpr (by rw [even])
      dsimp only
      rw [rewardPreimages, fits]
      exact List.mem_map.mpr ⟨coin.owner, listed, rfl⟩

/-- What a block stores is under keys that were derived in its scenes. -/
theorem hashed_blockMoments_subset (number : Nat) (txs : List Transaction) (chain : Chain) :
    hashed (blockMoments number txs chain) ⊆ keyed (blockScenes number txs chain) := by
  induction txs generalizing chain with
  | nil =>
      rw [blockMoments, hashed_singleton]
      exact List.Subset.trans (stored_settle_subset chain number)
        (keyed_subset List.mem_cons_self)
  | cons tx txs inductive_step =>
      rw [blockMoments, blockScenes]
      cases (chain.apply tx).1 with
      | error error =>
          rw [hashed_singleton]
          exact List.Subset.trans (stored_attempt_subset chain tx)
            (keyed_subset List.mem_cons_self)
      | ok outcome =>
          dsimp only
          rw [hashed_cons, keyed_cons]
          exact List.append_subset.mpr
            ⟨List.subset_append_of_subset_left _ (stored_attempt_subset chain tx),
              List.subset_append_of_subset_right _ (inductive_step _)⟩

/-- Whatever is hashed for coins that an operation stores is hashed in its scenes. -/
theorem hashed_moments_subset (chain : Chain) (operation : Operation) :
    hashed (chain.moments operation) ⊆ keyed (chain.scenesOf operation) := by
  cases operation with
  | genesis outputs =>
      rw [moments, hashed_singleton]
      have only : Scene.found chain outputs ∈ chain.scenesOf (.genesis outputs) :=
        List.mem_cons_self
      exact keyed_subset only
  | apply tx =>
      rw [moments, hashed_singleton]
      exact List.Subset.trans (stored_attempt_subset chain tx) (keyed_subset List.mem_cons_self)
  | setAuthorities authorities => exact List.nil_subset _
  | restart authorities verify longevity => exact List.nil_subset _
  | block txs =>
      rw [moments, scenesOf]
      dsimp only
      cases u64OfInt ((chain.host.blockNumber + 1 : Nat) : Int) with
      | error reason => exact List.nil_subset _
      | ok position =>
          dsimp only
          rw [hashed_cons]
          exact hashed_blockMoments_subset _ txs _

/-- A chain is ready for the block with the next number: it is sound, and a past in which no more
was hashed than what is known accounts for it. -/
structure Ready (known : List ByteString) (next : Nat) (chain : Chain) : Prop where
  sound : chain.host.Sound
  accounted : ∃ past, Accounted past next chain.host ∧ hashed past ⊆ known

/-- The chain of a scene is ready for it. -/
def Scene.Prepared (known : List ByteString) : Scene → Prop
  | found _ _ => True
  | attempt chain _ => ∃ next, Ready known next chain
  | settle chain number => Ready known number chain

variable {known : List ByteString} {next : Nat}

/-- After an attempt a chain is ready for the same block. -/
theorem Ready.attempt (apart : Apart known) (ready : Ready known next chain) {tx : Transaction}
    (inside : (Scene.attempt chain tx).keyed ⊆ known) :
    Ready known next (chain.attempt tx).chain ∧
      (chain.attempt tx).chain.host.blockNumber = chain.host.blockNumber := by
  obtain ⟨past, accounted, before⟩ := ready.accounted
  have within : hashed (past ++ [chain.attempt tx]) ⊆ known := by
    rw [hashed_append, hashed_singleton]
    exact List.append_subset.mpr
      ⟨before, List.Subset.trans (stored_attempt_subset chain tx) inside⟩
  obtain ⟨attempted, same⟩ := accounted.attempt (apart.of_subset within)
  exact ⟨⟨sound_attempt ready.sound tx, _, attempted, within⟩, same⟩

/-- At every scene of a block the chain is ready for it. -/
theorem prepared_blockScenes (apart : Apart known) {number : Nat} {txs : List Transaction}
    (ready : Ready known number chain) (inside : keyed (blockScenes number txs chain) ⊆ known) :
    ∀ scene ∈ blockScenes number txs chain, scene.Prepared known := by
  induction txs generalizing chain with
  | nil => exact List.forall_mem_singleton.mpr ready
  | cons tx txs inductive_step =>
      rw [blockScenes] at inside ⊢
      split
      · exact List.forall_mem_singleton.mpr ⟨number, ready⟩
      · rename_i applied
        rw [applied] at inside
        dsimp only at inside
        rw [keyed_cons] at inside
        obtain ⟨here, later⟩ := List.append_subset.mp inside
        obtain ⟨attempted, _⟩ := ready.attempt apart here
        exact List.forall_mem_cons.mpr ⟨⟨number, ready⟩, inductive_step attempted later⟩

/-- A chain that has been given a number is ready as it was. -/
theorem Ready.numbered (ready : Ready known next chain) (position : UInt64) :
    Ready known next (chain.numbered position) := by
  obtain ⟨past, accounted, before⟩ := ready.accounted
  have host : (chain.numbered position).host = chain.host.setBlockNumber position := rfl
  refine ⟨ready.sound.setBlockNumber position, past ++ [.quiet (chain.numbered position)], ?_, ?_⟩
  · apply accounted.quiet
    · rw [host, coin?_setBlockNumber]
    · rw [host, genesisDone_setBlockNumber]
    · rw [host, pool_setBlockNumber]
  · rw [hashed_append, hashed_singleton, Moment.quiet, List.append_nil]
    exact before

/-- Every scene of an operation is prepared for. -/
theorem prepared_scenesOf (apart : Apart known)
    (ready : Ready known (chain.host.blockNumber + 1) chain) {operation : Operation}
    (inside : keyed (chain.scenesOf operation) ⊆ known) :
    ∀ scene ∈ chain.scenesOf operation, scene.Prepared known := by
  cases operation with
  | genesis outputs => exact List.forall_mem_singleton.mpr trivial
  | apply tx => exact List.forall_mem_singleton.mpr ⟨_, ready⟩
  | setAuthorities authorities => exact fun _ member => nomatch member
  | restart authorities verify longevity => exact fun _ member => nomatch member
  | block txs =>
      rw [scenesOf] at inside ⊢
      split
      · exact fun _ member => nomatch member
      · rename_i position fits
        rw [fits] at inside
        exact prepared_blockScenes apart (ready.numbered position) inside

/-- After an operation the chain is ready for the next block. -/
theorem Ready.perform (apart : Apart known)
    (ready : Ready known (chain.host.blockNumber + 1) chain) {operation : Operation}
    (inside : keyed (chain.scenesOf operation) ⊆ known) :
    Ready known ((chain.perform operation).host.blockNumber + 1) (chain.perform operation) := by
  obtain ⟨past, accounted, before⟩ := ready.accounted
  have within : hashed (past ++ chain.moments operation) ⊆ known := by
    rw [hashed_append]
    exact List.append_subset.mpr
      ⟨before, List.Subset.trans (hashed_moments_subset chain operation) inside⟩
  obtain ⟨_, last, final, closing⟩ := carried_moments accounted (apart.of_subset within)
  have left := chain.getLast?_moments operation
  rw [final] at left
  have same : last.chain = chain.perform operation := Option.some.inj left
  rw [same] at closing
  exact ⟨sound_perform ready.sound operation, _, closing, within⟩

/-- **Every scene of a run is prepared for.** -/
theorem prepared_scenes (apart : Apart known)
    (ready : Ready known (chain.host.blockNumber + 1) chain) {operations : List Operation}
    (inside : keyed (chain.scenes operations) ⊆ known) :
    ∀ scene ∈ chain.scenes operations, scene.Prepared known := by
  induction operations generalizing chain with
  | nil => exact fun _ member => nomatch member
  | cons operation operations inductive_step =>
      rw [scenes] at inside ⊢
      rw [keyed_append] at inside
      obtain ⟨here, later⟩ := List.append_subset.mp inside
      exact List.forall_mem_append.mpr
        ⟨prepared_scenesOf apart ready here, inductive_step (ready.perform apart here) later⟩

/-- The scenes of more operations come after those of the earlier ones. -/
theorem scenes_append (chain : Chain) (earlier later : List Operation) :
    chain.scenes (earlier ++ later) =
      chain.scenes earlier ++ (chain.performAll earlier).scenes later := by
  induction earlier generalizing chain with
  | nil => rfl
  | cons operation earlier inductive_step =>
      rw [List.cons_append, scenes, inductive_step, scenes, List.append_assoc]
      rfl

/-- A coin under the digest of something known is one of the past. -/
theorem Accounted.mem_hashed (apart : Apart known) {past : List Moment} {host : HostState}
    (accounted : Accounted past next host) (before : hashed past ⊆ known) {preimage : ByteString}
    (inside : preimage ∈ known) {coin : Output}
    (there : host.coin? (CoinHash.digest preimage) = .ok (some coin)) : preimage ∈ hashed past := by
  obtain ⟨old, member, same⟩ := accounted.named _ coin there
  exact apart old (before member) preimage inside same ▸ member

/-- **No transaction is rejected for a key** by a chain that is ready. -/
theorem Ready.untaken (apart : Apart known) (ready : Ready known next chain) {tx : Transaction}
    (inside : (Scene.attempt chain tx).keyed ⊆ known) (bytes : ByteString) :
    (chain.spend tx).1 ≠ .error (.rejected (.outputAlreadyExists bytes)) := by
  intro failed
  rw [Scene.keyed, failed] at inside
  obtain ⟨past, accounted, before⟩ := ready.accounted
  have shows := ready.sound.toWellFormed.shows
  rcases Ledger.spend_error_cases failed with invalid | ⟨_, _, ⟨_, _, same⟩ | ⟨_, same⟩⟩
  · rw [← host, shows] at invalid
    obtain ⟨ninth, keys, derived, key, member, taken⟩ := validate_eq_taken invalid
    have structured : WellStructured tx :=
      KeptBelow.wellStructured fun rule less => ninth rule (by omega)
    -- The coins of the transaction are there, so it was not accepted before.
    have new : tx ∉ accepted past := by
      intro old
      obtain ⟨outpoint, spent⟩ := structured.exists_outpoint
      have gone := accounted.gone tx old outpoint spent
      rw [shows.coin?_eq] at gone
      exact ninth .missingInput (by decide) outpoint spent (Except.ok.inj gone)
    rw [map_digest_preimages derived] at member
    obtain ⟨preimage, hashedNow, rfl⟩ := List.mem_map.mp member
    obtain ⟨coin, there⟩ := Option.ne_none_iff_exists'.mp taken
    have old := accounted.mem_hashed apart before (inside hashedNow)
      (there ▸ shows.coin?_eq _)
    obtain ⟨position, _, rfl⟩ := List.mem_map.mp hashedNow
    exact accounted.output_not_mem (structured.writable derived) new _ old
  · cases same
  · cases same

/-- Keys of the rewards of a block are free before it is settled, and are distinct. -/
theorem Ready.rewards_free (apart : Apart known) {position : UInt64}
    (ready : Ready known position.toNat chain) {value : Amount} {entries : List Loose}
    (inside : ∀ owner ∈ entries.filterMap Loose.publicKey?,
      (Output.mk value owner).rewardPreimage position ∈ known) :
    RewardsApart value position entries ∧ ∀ owner ∈ entries.filterMap Loose.publicKey?,
      chain.host.hasCoin ((Output.mk value owner).rewardKey position) = false := by
  obtain ⟨past, accounted, before⟩ := ready.accounted
  constructor
  · intro left leftMember right rightMember same
    have equal := apart _ (inside left leftMember) _ (inside right rightMember) same
    exact congrArg Output.owner (Output.rewardPreimage_inj.mp equal).1
  · intro owner member
    rw [hasCoin_eq_false_iff]
    obtain ⟨found, shown⟩ := ready.sound.toWellFormed.coin?_eq_ok
      ((Output.mk value owner).rewardKey position)
    cases found with
    | none => exact shown
    | some coin =>
        have old := accounted.mem_hashed apart before (inside owner member) shown
        exact absurd old (accounted.reward_not_mem _ (Nat.le_refl _))

/-- **A chain that is ready for its block loses shares to its list of authorities only.** The others
are in the state afterwards. -/
theorem Ready.settled (apart : Apart known) {position : UInt64}
    (ready : Ready known position.toNat chain)
    (inside : (Scene.settle chain position.toNat).keyed ⊆ known) :
    ∃ settlement after rewards, chain.finalize position.toNat = (.ok settlement, after) ∧
      after.ledger.events = chain.ledger.events ++ rewards ∧
      (∀ coin ∈ rewardsOf rewards,
        after.host.coin? (coin.rewardKey position) = .ok (some coin)) ∧
      BlamesList chain.authorities rewards ∧
      PaysEvenly chain.authorities chain.host.pool rewards := by
  have bound := ready.sound.toWellFormed.pool_lt
  obtain ⟨settlement, settled⟩ := Ledger.finalize_total bound chain.authorities position
  rcases run : chain.finalize position.toNat with ⟨outcome, after⟩
  obtain ⟨ledger, carried, rfl⟩ := finalize_eq run
  rw [carried] at settled
  cases settled
  refine ⟨settlement, chain.withLedger ledger, ?_⟩
  rcases Ledger.finalize_undispersed carried with ⟨share, events, carry, same⟩ | ⟨same, others⟩
  · cases same
    obtain ⟨divided, logged, _⟩ := Ledger.finalize_told carried
    obtain ⟨value, fits⟩ := Amount.exists_ofInt_eq_ok "value"
      (Nat.lt_of_le_of_lt (Nat.div_le_self _ chain.authorities.length) bound)
    change share = chain.host.pool / chain.authorities.length at divided
    rw [← divided] at fits
    rw [Scene.keyed, run] at inside
    dsimp only at inside
    rw [rewardPreimages, fits, UInt64.ofNat_toNat] at inside
    obtain ⟨distinct, free⟩ := ready.rewards_free apart fun owner member =>
      inside (List.mem_map.mpr ⟨owner, member, rfl⟩)
    obtain rfl := Ledger.finalize_shares carried fits distinct free
    obtain rfl : share = value.toNat := Int.natCast_inj.mp (Amount.ofInt_eq_ok_iff.mp fits)
    have paidOut := Ledger.paidOut_of_finalize ready.sound.toWellFormed carried
    refine ⟨_, rfl, logged, fun coin paid => (paidOut.gained coin paid).2.2,
      blamesList_shareEvents value chain.authorities, ?_⟩
    intro owners listed once _
    refine ⟨value, ?_, ?_⟩
    · rw [divided, listed, List.length_map]
    · rw [listed]
      exact shareEvents_of_nodup once fun _ _ => List.not_mem_nil
  · refine ⟨[], rfl, ?_, nofun, blamesList_nil chain.authorities, ?_⟩
    · have logged := congrArg Ledger.events same
      rwa [List.append_nil]
    · exact Ledger.paysEvenly_nil carried fun share events carry dispersed =>
        others share events carry (congrArg Except.ok dispersed)

/-- What attempts of transactions leave to a settlement: the events of those that were applied, and
their fees. -/
structure Attempted (before after : Chain) (applied : List Transaction) (fees : Nat) : Prop where
  authorities : after.authorities = before.authorities
  logged : after.ledger.events = before.ledger.events ++ applied.map .transactionApplied
  pool : after.host.pool = before.host.pool + fees

omit [CoinHash] in
theorem Attempted.refl (chain : Chain) : Attempted chain chain [] 0 where
  authorities := rfl
  logged := (List.append_nil _).symm
  pool := rfl

omit [CoinHash] in
/-- Attempts that come after attempts add their transactions and fees. -/
theorem Attempted.trans {before middle after : Chain} {earlier later : List Transaction}
    {earlierFees laterFees : Nat} (first : Attempted before middle earlier earlierFees)
    (second : Attempted middle after later laterFees) :
    Attempted before after (earlier ++ later) (earlierFees + laterFees) where
  authorities := second.authorities.trans first.authorities
  logged := by rw [second.logged, first.logged, List.append_assoc, List.map_append]
  pool := by rw [second.pool, first.pool, Nat.add_assoc]

/-- Applying a transaction is an attempt with the fee that is told of it. -/
theorem attempted_apply {tx : Transaction} {result : Except LedgerError Outcome}
    (run : chain.apply tx = (result, after)) :
    ∃ applied fees, Attempted chain after applied fees ∧
      ∀ outcome, result = .ok outcome → fees = outcome.fee := by
  unfold apply at run
  split at run
  · rename_i fee final spent
    cases run
    obtain ⟨ledger, carried, rfl⟩ := spend_eq spent
    obtain ⟨_, _, _, _, credited, _⟩ := Ledger.spend_ok carried
    obtain ⟨host, _, rfl⟩ := Ledger.spend_eq_ok carried
    refine ⟨[tx], fee, ⟨rfl, rfl, credited⟩, ?_⟩
    rintro outcome ⟨⟩
    rfl
  · rename_i refused
    cases run
    rw [spend_error refused]
    refine ⟨[], 0, .refl chain, ?_⟩
    rintro outcome ⟨⟩
    rfl
  · rename_i refused
    cases run
    rw [spend_error refused]
    exact ⟨[], 0, .refl chain, fun _ same => nomatch same⟩

/-- Applying transactions is a row of attempts with the fees that are told of them. -/
theorem attempted_applyAll {txs : List Transaction} {result : Except LedgerError (List Outcome)}
    (run : applyAll txs chain = (result, after)) :
    ∃ applied fees, Attempted chain after applied fees ∧
      ∀ outcomes, result = .ok outcomes → fees = (outcomes.map Outcome.fee).sum := by
  induction txs generalizing chain result with
  | nil =>
      cases run
      refine ⟨[], 0, .refl _, ?_⟩
      rintro outcomes ⟨⟩
      rfl
  | cons tx txs inductive_step =>
      rw [applyAll] at run
      rcases here : chain.apply tx with ⟨error | outcome, middle⟩
      · obtain ⟨applied, fees, attempted, _⟩ := attempted_apply here
        rw [here] at run
        cases run
        refine ⟨applied, fees, attempted, ?_⟩
        rintro _ ⟨⟩
      · obtain ⟨applied, fee, attempted, charged⟩ := attempted_apply here
        rw [here] at run
        dsimp only at run
        rcases there : applyAll txs middle with ⟨error | outcomes, final⟩
        · rw [there] at run
          cases run
          obtain ⟨more, fees, later, _⟩ := inductive_step there
          refine ⟨_, _, attempted.trans later, ?_⟩
          rintro _ ⟨⟩
        · rw [there] at run
          cases run
          obtain ⟨more, fees, later, added⟩ := inductive_step there
          refine ⟨_, _, attempted.trans later, ?_⟩
          rintro outcomes ⟨⟩
          rw [charged outcome rfl, added _ rfl, List.map_cons, List.sum_cons]

/-- The outcomes of a block are those of its scenes, and the last of these is its settlement. -/
theorem scenes_applyAll {txs : List Transaction} {outcomes : List Outcome} (number : Nat)
    (run : applyAll txs chain = (.ok outcomes, after)) :
    Scene.settle after number ∈ blockScenes number txs chain ∧
      ∀ outcome ∈ outcomes, ∃ occasion tx,
        Scene.attempt occasion tx ∈ blockScenes number txs chain ∧
          (occasion.apply tx).1 = .ok outcome := by
  induction txs generalizing chain outcomes with
  | nil =>
      cases run
      exact ⟨List.mem_cons_self, fun _ member => nomatch member⟩
  | cons tx txs inductive_step =>
      rw [applyAll] at run
      split at run
      · cases run
      · rename_i outcome middle here
        split at run
        · cases run
        · rename_i later final there
          cases run
          have same : (chain.attempt tx).chain = middle := by rw [chain_attempt, here]
          rw [blockScenes, here, same]
          obtain ⟨settled, attempts⟩ := inductive_step there
          refine ⟨List.mem_cons_of_mem _ settled, List.forall_mem_cons.mpr ⟨?_, ?_⟩⟩
          · exact ⟨chain, tx, List.mem_cons_self, congrArg Prod.fst here⟩
          · intro outcome member
            obtain ⟨occasion, other, inside, given⟩ := attempts outcome member
            exact ⟨occasion, other, List.mem_cons_of_mem _ inside, given⟩

/-- A transaction whose verdict is a rejection could not be spent for that reason. -/
theorem apply_rejected {tx : Transaction} {outcome : Outcome} {reason : Rejection}
    (given : (chain.apply tx).1 = .ok outcome) (rejected : outcome.verdict = .error reason) :
    (chain.spend tx).1 = .error (.rejected reason) := by
  unfold apply at given
  split at given
  · cases given
    cases rejected
  · rename_i refused
    cases given
    cases rejected
    exact congrArg Prod.fst refused
  · cases given

/-- The transactions of a block, then its rewards: no share is lost and no transaction is rejected
for a key. -/
theorem executeBlock_shares (apart : Apart known) {txs : List Transaction}
    (prepared : ∀ scene ∈ chain.scenesOf (.block txs), scene.Prepared known)
    (inside : ∀ scene ∈ chain.scenesOf (.block txs), scene.keyed ⊆ known)
    {result : Except LedgerError Receipt} (run : chain.executeBlock txs = (result, after)) :
    ∃ (applied : List Transaction) (rewards : List Event),
      after.ledger.events =
        chain.ledger.events ++ applied.map .transactionApplied ++ rewards ∧
      (∀ coin ∈ rewardsOf rewards, after.host.coin?
        (coin.rewardKey (UInt64.ofNat (chain.host.blockNumber + 1))) = .ok (some coin)) ∧
      BlamesList chain.authorities rewards ∧
      ∀ receipt, result = .ok receipt →
        receipt.events = applied.map .transactionApplied ++ rewards ∧
        (∀ outcome ∈ receipt.outcomes, ∀ key,
          outcome.verdict ≠ .error (.outputAlreadyExists key)) ∧
        PaysEvenly chain.authorities
          (chain.host.pool + (receipt.outcomes.map Outcome.fee).sum) rewards := by
  rw [scenesOf] at prepared inside
  cases fits : u64OfInt ((chain.host.blockNumber + 1 : Nat) : Int) with
  | error reason =>
      unfold executeBlock at run
      dsimp only at run
      rw [fits] at run
      cases run
      refine ⟨[], [], ?_, nofun, blamesList_nil _, fun _ same => nomatch same⟩
      rw [List.map_nil, List.append_nil, List.append_nil]
  | ok position =>
      have number := Int.natCast_inj.mp (u64OfInt_eq_ok_iff.mp fits)
      rw [executeBlock_eq number] at run
      rw [fits, number] at prepared inside
      rcases ran : applyAll txs (chain.numbered position) with ⟨error | outcomes, middle⟩
      · rw [ran] at run
        cases run
        obtain ⟨applied, _, attempted, _⟩ := attempted_applyAll ran
        refine ⟨applied, [], ?_, nofun, blamesList_nil _, fun _ same => nomatch same⟩
        rw [List.append_nil]
        exact attempted.logged
      · obtain ⟨applied, fees, attempted, added⟩ := attempted_applyAll ran
        obtain ⟨settles, attempts⟩ := scenes_applyAll position.toNat ran
        obtain ⟨settlement, final, rewards, settled, logged, stored, blames, pays⟩ :=
          Ready.settled apart (prepared _ settles) (inside _ settles)
        rw [ran] at run
        dsimp only at run
        rw [settled] at run
        cases run
        have pool : (chain.numbered position).host.pool = chain.host.pool :=
          pool_setBlockNumber chain.host position
        have whole : after.ledger.events =
            chain.ledger.events ++ (applied.map .transactionApplied ++ rewards) := by
          rw [logged, attempted.logged, List.append_assoc]
          rfl
        rw [attempted.authorities] at blames pays
        rw [attempted.pool, pool, added outcomes rfl] at pays
        refine ⟨applied, rewards, ?_, ?_, blames, ?_⟩
        · rw [whole, List.append_assoc]
        · rw [number, UInt64.ofNat_toNat]
          exact stored
        · rintro receipt ⟨⟩
          refine ⟨?_, ?_, pays⟩
          · rw [whole]
            exact List.drop_left
          · intro outcome member key rejected
            obtain ⟨occasion, tx, attempt, given⟩ := attempts outcome member
            obtain ⟨_, ready⟩ := prepared _ attempt
            exact ready.untaken apart (inside _ attempt) key (apply_rejected given rejected)

/-- **Shares are lost to bad lists of authorities only, and no transaction is rejected for a key.**
A chain over an empty state is founded, executes blocks, applies transactions, is given authorities
of any kind and is opened anew, in any order and as often as one likes, and no two of the byte
strings that are hashed for keys have one digest. Then no attempt of a transaction, inside a block
or outside, is rejected because a key is taken. A block emits the transactions that were applied and
then its rewards: a share is lost for no owner only where the entry of the list is no public key,
and for an owner only where that owner stands in the list before. A reward that is told of is in the
state after the block, under the key that is derived for it from the number of the block. So
distinct public keys, of which there are not more than there are units in the pool after the
transactions, are each paid their part of it. A block that has a number and whose outputs can be
numbered has a receipt, which tells all this. -/
theorem shares_lost_to_bad_lists_only {host : HostState} (empty : ∀ cell, host.get? cell = none)
    (authorities : List Loose) (verify : Verifier) (longevity : Int) (operations : List Operation)
    (apart : Apart (keyed ((ofHost host authorities verify longevity).scenes operations))) :
    let start := ofHost host authorities verify longevity
    (∀ chain tx, .attempt chain tx ∈ start.scenes operations →
      ∀ key, (chain.spend tx).1 ≠ .error (.rejected (.outputAlreadyExists key))) ∧
    ∀ earlier txs later, operations = earlier ++ .block txs :: later →
      let chain := start.performAll earlier
      let block := chain.executeBlock txs
      ((∀ tx ∈ txs, tx.outputs.length < 2 ^ 64) → chain.host.blockNumber + 1 < 2 ^ 64 →
        ∃ receipt, block.1 = .ok receipt) ∧
      ∃ (applied : List Transaction) (rewards : List Event),
        block.2.ledger.events =
          chain.ledger.events ++ applied.map .transactionApplied ++ rewards ∧
        (∀ coin ∈ rewardsOf rewards, block.2.host.coin?
          (coin.rewardKey (UInt64.ofNat (chain.host.blockNumber + 1))) = .ok (some coin)) ∧
        (∀ index : Nat, rewards[index]? = some (.rewardWasted none) →
          ∃ entry, chain.authorities[index]? = some entry ∧
            ∀ owner : PublicKey, entry ≠ .bytes owner.bytes) ∧
        (∀ (index : Nat) (owner : PublicKey),
          rewards[index]? = some (.rewardWasted (some owner)) →
            chain.authorities[index]? = some (.bytes owner.bytes) ∧
              .bytes owner.bytes ∈ chain.authorities.take index) ∧
        ∀ receipt, block.1 = .ok receipt →
          receipt.events = applied.map .transactionApplied ++ rewards ∧
          (∀ outcome ∈ receipt.outcomes, ∀ key,
            outcome.verdict ≠ .error (.outputAlreadyExists key)) ∧
          let pool := chain.host.pool + (receipt.outcomes.map Outcome.fee).sum
          ∀ owners : List PublicKey,
            chain.authorities = owners.map (fun owner => .bytes owner.bytes) → owners.Nodup →
            owners.length ≤ pool → ∃ value : Amount, value.toNat = pool / owners.length ∧
              rewards = owners.map fun owner => .rewardPaid owner value := by
  intro start
  have sound : start.host.Sound := sound_of_empty empty
  have ready : Ready (keyed (start.scenes operations)) (start.host.blockNumber + 1) start :=
    ⟨sound, [], Accounted.of_empty empty _, List.nil_subset _⟩
  have prepared := prepared_scenes apart ready (List.Subset.refl _)
  have inside : ∀ scene ∈ start.scenes operations, scene.keyed ⊆ keyed (start.scenes operations) :=
    fun _ => keyed_subset
  constructor
  · intro chain tx attempt key
    obtain ⟨_, readyHere⟩ := prepared _ attempt
    exact readyHere.untaken apart (inside _ attempt) key
  · intro earlier txs later split chain block
    have part : chain.scenesOf (.block txs) ⊆ start.scenes operations := by
      rw [split, scenes_append, scenes]
      exact List.subset_append_of_subset_right _ (List.subset_append_left _ _)
    have run : chain.executeBlock txs = (block.1, block.2) := rfl
    obtain ⟨applied, rewards, logged, stored, blames, received⟩ := executeBlock_shares apart
      (fun scene member => prepared scene (part member))
      (fun scene member => inside scene (part member)) run
    exact ⟨executeBlock_total (sound_performAll sound earlier), applied, rewards, logged, stored,
      blames.malformed, blames.repeated, received⟩

end

/-- The fee of a payment is shared by two authorities, and the coins are there afterwards. -/
theorem fee_shared_by_two :
    let owner : PublicKey := FixedBytes.zero 32
    let other : PublicKey := FixedBytes.truncate 32 [1]
    let coin : Output := ⟨⟨9, by decide⟩, owner⟩
    let tx : Transaction := ⟨[⟨coin.genesisKey, emptySignature⟩], [⟨⟨5, by decide⟩, owner⟩]⟩
    let start := ofHost .emptyMemory [.bytes owner.bytes, .bytes other.bytes] (fun _ _ _ => true) 3
    let chain := start.performAll [.genesis [.ok coin]]
    ∃ receipt value, (chain.executeBlock [tx]).1 = .ok receipt ∧ value.toNat = 2 ∧
      [.rewardPaid owner value, .rewardPaid other value] <:+ receipt.events ∧
      (chain.executeBlock [tx]).2.host.coin? ((Output.mk value other).rewardKey 1) =
        .ok (some ⟨value, other⟩) := by
  intro owner other coin tx start chain
  have facts : Apart (keyed (start.scenes [.genesis [.ok coin], .block [tx]])) ∧
      (chain.host.blockNumber, chain.host.pool,
        (chain.executeBlock [tx]).1.toOption.map fun receipt =>
          (receipt.outcomes.map Outcome.fee).sum) = (0, 0, some 4) := by
    unfold Apart
    decide +kernel
  obtain ⟨apart, facts⟩ := facts
  obtain ⟨first, facts⟩ := Prod.mk.inj facts
  obtain ⟨nothing, charged⟩ := Prod.mk.inj facts
  obtain ⟨_, blocks⟩ := @shares_lost_to_bad_lists_only _ .emptyMemory (fun _ => rfl)
    [.bytes owner.bytes, .bytes other.bytes] (fun _ _ _ => true) 3
    [.genesis [.ok coin], .block [tx]] apart
  obtain ⟨total, applied, rewards, _, stored, _, _, received⟩ :=
    blocks [.genesis [.ok coin]] [tx] [] rfl
  have next : chain.host.blockNumber + 1 < 2 ^ 64 := by
    rw [first]
    decide
  obtain ⟨receipt, executed⟩ : ∃ receipt, (chain.executeBlock [tx]).1 = .ok receipt :=
    total (by decide) next
  have four : (receipt.outcomes.map Outcome.fee).sum = 4 := by
    rw [executed] at charged
    exact Option.some.inj charged
  obtain ⟨told, _, pays⟩ := received receipt executed
  have pool : chain.host.pool + (receipt.outcomes.map Outcome.fee).sum = 4 := by
    rw [nothing, four]
  obtain ⟨value, half, paid⟩ := pays [owner, other] rfl (by decide) (pool ▸ by decide)
  refine ⟨receipt, value, executed, ?_, ⟨applied.map .transactionApplied, ?_⟩, ?_⟩
  · exact half.trans (congrArg (· / 2) pool)
  · rw [told, paid]
    rfl
  · have kept := stored ⟨value, other⟩ (paid ▸ .tail _ (.head _))
    rw [first] at kept
    exact kept

end Chain
end CoinLedger

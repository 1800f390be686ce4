import CoinLedger.Crypto.Blake2b
import CoinLedger.Proofs.Chain.Trace
import CoinLedger.Proofs.Ledger.Progress

/-! # A chain does not fail

A state is sound if its coins can be read and have some value, and if the pool and the number of the
latest block have their sizes (`CoinLedger.HostState.Sound`). Whatever is done with a chain leaves
its state sound, at every moment on the way (`CoinLedger.Chain.sound_trace`). Over a sound state
look-ups, listings and statistics succeed, every transaction is applied or rejected
(`CoinLedger.Chain.apply_total`), and a block fails only for want of a number
(`CoinLedger.Chain.executeBlock_error_iff`).
-/

namespace CoinLedger

namespace HostState

/-- Cells hold what they are for: the coins have some value, and the number of the latest block has
its size. -/
structure Sound (state : HostState) : Prop extends state.WellFormed where
  /-- No coin is without value. -/
  positive : ∀ key coin, state.coin? key = .ok (some coin) → coin.value.toNat ≠ 0
  /-- The cell with the number of the latest block holds as many bytes as a number has. -/
  number : ∀ value, state.get? blockNumberKey = some value → value.length = 8

variable {state : HostState}

/-- A state without cells is sound. -/
theorem sound_of_empty (empty : ∀ cell, state.get? cell = none) : state.Sound where
  toWellFormed := wellFormed_of_empty empty
  positive key coin there := by
    rw [coin?_eq_some_iff, empty] at there
    cases there
  number value stored := by
    rw [empty] at stored
    cases stored

/-- Soundness depends on what the cells hold only. -/
theorem Sound.congr (sound : state.Sound) {other : HostState}
    (same : ∀ cell, other.get? cell = state.get? cell) : other.Sound where
  coins cell value marked stored := sound.coins cell value marked (same cell ▸ stored)
  pool value stored := sound.pool value (same poolKey ▸ stored)
  positive key coin there := by
    rw [coin?_eq_coinIn, same, ← coin?_eq_coinIn] at there
    exact sound.positive key coin there
  number value stored := sound.number value (same blockNumberKey ▸ stored)

/-- A write to a cell that is neither a coin's nor the pool's leaves a state sound. -/
theorem Sound.put (sound : state.Sound) {cell value : ByteString} (unmarked : ¬ coinMark <+: cell)
    (other : cell ≠ poolKey) (size : cell = blockNumberKey → value.length = 8) :
    (state.put cell value).Sound where
  toWellFormed := sound.toWellFormed.write (fun _ marked => absurd marked unmarked)
    (fun _ same => absurd same other)
  positive key coin there := by
    rw [coin?_put_of_ne _ unmarked] at there
    exact sound.positive key coin there
  number bytes stored := by
    rw [get?_put] at stored
    split at stored
    · rename_i same
      cases stored
      exact size same.symm
    · exact sound.number bytes stored

theorem WellFormed.setBlockNumber (valid : state.WellFormed) (number : UInt64) :
    (state.setBlockNumber number).WellFormed :=
  valid.write (fun _ marked => absurd marked not_coinMark_prefix_blockNumberKey)
    fun _ same => absurd same blockNumberKey_ne_poolKey

theorem Sound.setBlockNumber (sound : state.Sound) (number : UInt64) :
    (state.setBlockNumber number).Sound :=
  sound.put not_coinMark_prefix_blockNumberKey blockNumberKey_ne_poolKey
    fun _ => littleEndian_length 8 number.toNat

/-- **A move that stores coins of some value leaves a state sound.** -/
theorem Moves.sound {before after : HostState} {spent minted : List (Outpoint × Output)}
    (moves : Moves before after spent minted) (sound : before.Sound)
    (positive : ∀ entry ∈ minted, entry.2.value.toNat ≠ 0) : after.Sound where
  toWellFormed := moves.wellFormed sound.toWellFormed
  positive key coin there := by
    rcases moves.origin there with before | stored
    · exact sound.positive key coin before
    · exact positive _ stored
  number value stored := by
    rw [moves.frame not_coinMark_prefix_blockNumberKey blockNumberKey_ne_poolKey] at stored
    exact sound.number value stored

/-- Coins of some value are of some value under whatever names. -/
theorem positive_of_mem_map {coins : List Output} {name : Output → Outpoint}
    (positive : ∀ coin ∈ coins, coin.value.toNat ≠ 0) :
    ∀ entry ∈ coins.map fun coin => (name coin, coin), entry.2.value.toNat ≠ 0 := by
  intro entry member
  obtain ⟨coin, inside, rfl⟩ := List.mem_map.mp member
  exact positive coin inside

/-- The number of the latest block of a sound state fits in eight bytes. -/
theorem Sound.blockNumber_lt (sound : state.Sound) : state.blockNumber < 2 ^ 64 := by
  rw [HostState.blockNumber]
  cases stored : state.get? blockNumberKey with
  | none => decide
  | some bytes =>
      have bound := ofLittleEndian_lt bytes
      rw [sound.number bytes stored] at bound
      exact bound

end HostState

namespace Chain

open HostState

section

variable [CoinHash] {chain : Chain}

/-- The chain with the number of its next block. -/
def numbered (chain : Chain) (position : UInt64) : Chain :=
  chain.withLedger { chain.ledger with host := chain.host.setBlockNumber position }

/-- A block that has a number applies its transactions and deals with the pool. -/
theorem executeBlock_eq {position : UInt64} (next : chain.host.blockNumber + 1 = position.toNat)
    (txs : List Transaction) :
    chain.executeBlock txs =
      match applyAll txs (chain.numbered position) with
      | (.error error, after) => (.error error, after)
      | (.ok outcomes, applied) =>
          match applied.finalize position.toNat with
          | (.error error, after) => (.error error, after)
          | (.ok _, final) =>
              (.ok
                { number := position.toNat, outcomes
                  events := final.ledger.events.drop chain.ledger.events.length
                  pool := final.host.pool }, final) := by
  have fits : u64OfInt position.toNat = .ok position := u64OfInt_eq_ok_iff.mpr rfl
  unfold executeBlock
  rw [next]
  dsimp only
  rw [fits]
  rfl

/-- A property of chains lasts while their settings stay: whatever happens to a chain, the chain
keeps it. -/
structure Lasting (property : Chain → Prop) : Prop where
  attempt : ∀ {chain : Chain} (tx : Transaction), property chain →
    property (chain.attempt tx).chain
  settle : ∀ {chain : Chain} (number : Nat), property chain → property (chain.settle number).chain
  found : ∀ {chain : Chain} (outputs : List (Except InvalidValue Output)), property chain →
    property (chain.found outputs).chain
  numbered : ∀ {chain : Chain} (position : UInt64), property chain →
    property (chain.numbered position)

/-- An operation keeps the settings of a chain: it neither sets authorities nor opens another
chain. -/
def Operation.KeepsSettings : Operation → Prop
  | .genesis _ | .block _ | .apply _ => True
  | .setAuthorities _ | .restart _ _ _ => False

instance (operation : Operation) : Decidable operation.KeepsSettings :=
  match operation with
  | .genesis _ | .block _ | .apply _ => .isTrue trivial
  | .setAuthorities _ | .restart _ _ _ => .isFalse id

namespace Lasting

variable {property : Chain → Prop}

/-- A lasting property holds at every moment of a block. -/
theorem blockMoments (lasting : Lasting property) (held : property chain) (number : Nat)
    (txs : List Transaction) :
    ∀ moment ∈ blockMoments number txs chain, property moment.chain := by
  induction txs generalizing chain with
  | nil => exact List.forall_mem_singleton.mpr (lasting.settle number held)
  | cons tx txs inductive_step =>
      have attempted := lasting.attempt tx held
      rw [Chain.blockMoments]
      split
      · exact List.forall_mem_singleton.mpr attempted
      · exact List.forall_mem_cons.mpr ⟨attempted, inductive_step attempted⟩

/-- A lasting property holds at every moment of an operation that keeps the settings. -/
theorem moments (lasting : Lasting property) (held : property chain) {operation : Operation}
    (keeps : operation.KeepsSettings) :
    ∀ moment ∈ chain.moments operation, property moment.chain := by
  cases operation with
  | setAuthorities authorities => cases keeps
  | restart authorities verify longevity => cases keeps
  | genesis outputs => exact List.forall_mem_singleton.mpr (lasting.found outputs held)
  | apply tx => exact List.forall_mem_singleton.mpr (lasting.attempt tx held)
  | block txs =>
      rw [Chain.moments]
      dsimp only
      split
      · exact List.forall_mem_singleton.mpr held
      · rename_i position _
        have started := lasting.numbered position held
        exact List.forall_mem_cons.mpr ⟨started, lasting.blockMoments started _ txs⟩

/-- A lasting property holds after an operation that keeps the settings. -/
theorem perform (lasting : Lasting property) (held : property chain) {operation : Operation}
    (keeps : operation.KeepsSettings) : property (chain.perform operation) := by
  obtain ⟨last, final, same⟩ := Option.map_eq_some_iff.mp (chain.getLast?_moments operation)
  rw [← same]
  exact lasting.moments held keeps last (List.mem_of_getLast? final)

/-- **What lasts holds at every moment of a run.** -/
theorem trace (lasting : Lasting property) (held : property chain) {operations : List Operation}
    (keep : ∀ operation ∈ operations, operation.KeepsSettings) :
    ∀ moment ∈ chain.trace operations, property moment.chain := by
  induction operations generalizing chain with
  | nil => exact fun _ member => nomatch member
  | cons operation operations inductive_step =>
      obtain ⟨keeps, others⟩ := List.forall_mem_cons.mp keep
      rw [Chain.trace]
      exact List.forall_mem_append.mpr ⟨lasting.moments held keeps,
        inductive_step (lasting.perform held keeps) others⟩

end Lasting

/-- Applying a transaction keeps the state sound. -/
theorem sound_attempt (sound : chain.host.Sound) (tx : Transaction) :
    (chain.attempt tx).chain.host.Sound := by
  unfold attempt
  rcases run : chain.spend tx with ⟨error | fee, after⟩
  · rw [spend_error run]
    exact sound
  · obtain ⟨coins, keys, admissible, moves⟩ := spend_ok run
    exact moves.sound sound fun entry member =>
      admissible.positive entry.2 (List.of_mem_zip member).2

/-- Dealing with the pool keeps the state sound. -/
theorem sound_settle (sound : chain.host.Sound) (number : Nat) :
    (chain.settle number).chain.host.Sound := by
  rw [chain_settle]
  rcases run : chain.finalize number with ⟨outcome, after⟩
  obtain ⟨_, rewards, _, _, positive, moves, _⟩ := finalize_recorded run
  exact moves.sound sound (positive_of_mem_map positive)

/-- Seeding the genesis coins keeps the state sound. -/
theorem sound_found (sound : chain.host.Sound) (outputs : List (Except InvalidValue Output)) :
    (chain.found outputs).chain.host.Sound := by
  rw [chain_found]
  rcases run : chain.genesis outputs with ⟨error | keys, after⟩
  · rw [genesis_error run]
    exact sound
  · obtain ⟨_, coins, seeded, _, positive, moves, cells⟩ := genesis_founded run
    have stored : seeded.Sound := moves.sound sound (positive_of_mem_map positive)
    have marked : (seeded.put genesisDoneKey [1]).Sound :=
      stored.put not_coinMark_prefix_genesisDoneKey genesisDoneKey_ne_poolKey
        fun same => absurd same genesisDoneKey_ne_blockNumberKey
    exact (marked.setBlockNumber 0).congr cells

/-- Soundness lasts. -/
theorem lasting_sound : Lasting fun chain => chain.host.Sound where
  attempt tx sound := sound_attempt sound tx
  settle number sound := sound_settle sound number
  found outputs sound := sound_found sound outputs
  numbered position sound := sound.setBlockNumber position

/-- **The state is sound at every moment of an operation.** -/
theorem sound_moments (sound : chain.host.Sound) (operation : Operation) :
    ∀ moment ∈ chain.moments operation, moment.chain.host.Sound := by
  cases operation with
  | setAuthorities authorities => exact List.forall_mem_singleton.mpr sound
  | restart authorities verify longevity => exact List.forall_mem_singleton.mpr sound
  | genesis outputs => exact lasting_sound.moments sound trivial
  | block txs => exact lasting_sound.moments sound trivial
  | apply tx => exact lasting_sound.moments sound trivial

/-- **Whatever is done with a chain leaves its state sound.** -/
theorem sound_perform (sound : chain.host.Sound) (operation : Operation) :
    (chain.perform operation).host.Sound := by
  obtain ⟨last, final, same⟩ := Option.map_eq_some_iff.mp (chain.getLast?_moments operation)
  rw [← same]
  exact sound_moments sound operation last (List.mem_of_getLast? final)

/-- **Any operations keep the state sound.** -/
theorem sound_performAll (sound : chain.host.Sound) (operations : List Operation) :
    (chain.performAll operations).host.Sound := by
  induction operations generalizing chain with
  | nil => exact sound
  | cons operation operations inductive_step => exact inductive_step (sound_perform sound operation)

/-- **Every moment of a run is sound.** -/
theorem sound_trace (sound : chain.host.Sound) (operations : List Operation) :
    ∀ moment ∈ chain.trace operations, moment.chain.host.Sound := by
  induction operations generalizing chain with
  | nil => exact fun _ member => nomatch member
  | cons operation operations inductive_step =>
      rw [trace]
      exact List.forall_mem_append.mpr ⟨sound_moments sound operation,
        inductive_step (sound_perform sound operation)⟩

/-- Where the coins can be read, a transaction is applied or rejected, and they can still be
read. -/
theorem exists_outcome (valid : chain.host.WellFormed) {tx : Transaction}
    (few : tx.outputs.length < 2 ^ 64) :
    ∃ outcome after, chain.apply tx = (.ok outcome, after) ∧ after.host.WellFormed := by
  unfold apply
  rcases run : chain.spend tx with ⟨error | fee, after⟩
  · have failed : (chain.ledger.spend chain.verify tx).1 = .error error := congrArg Prod.fst run
    obtain ⟨reason, rfl⟩ := Ledger.spend_error_rejected valid.shows few failed
    exact ⟨_, _, rfl, spend_error run ▸ valid⟩
  · obtain ⟨_, _, _, moves⟩ := spend_ok run
    exact ⟨_, _, rfl, moves.wellFormed valid⟩

/-- Over a well-formed state, transactions whose outputs can be numbered are each applied or
rejected. -/
theorem exists_outcomes (valid : chain.host.WellFormed) {txs : List Transaction}
    (few : ∀ tx ∈ txs, tx.outputs.length < 2 ^ 64) :
    ∃ outcomes applied, applyAll txs chain = (.ok outcomes, applied) ∧
      applied.host.WellFormed := by
  induction txs generalizing chain with
  | nil => exact ⟨[], chain, rfl, valid⟩
  | cons tx txs inductive_step =>
      obtain ⟨fewHere, fewLater⟩ := List.forall_mem_cons.mp few
      obtain ⟨outcome, after, run, validAfter⟩ := exists_outcome valid fewHere
      obtain ⟨outcomes, applied, later, final⟩ := inductive_step validAfter fewLater
      refine ⟨outcome :: outcomes, applied, ?_, final⟩
      rw [applyAll, run]
      dsimp only
      rw [later]

/-- Where the coins can be read and the pool has its size, a block that has a number is executed. -/
theorem exists_receipt (valid : chain.host.WellFormed) {txs : List Transaction}
    (few : ∀ tx ∈ txs, tx.outputs.length < 2 ^ 64) (next : chain.host.blockNumber + 1 < 2 ^ 64) :
    ∃ receipt after, chain.executeBlock txs = (.ok receipt, after) := by
  obtain ⟨position, _, number⟩ := exists_u64OfInt_eq_ok next
  have started : (chain.numbered position).host.WellFormed := valid.setBlockNumber position
  obtain ⟨outcomes, applied, run, final⟩ := exists_outcomes started few
  obtain ⟨settlement, settled⟩ :=
    Ledger.finalize_total final.pool_lt applied.authorities position
  rw [executeBlock_eq number.symm, run]
  dsimp only
  rcases ended : applied.finalize position.toNat with ⟨result, after⟩
  have same : result = .ok settlement := (congrArg Prod.fst ended).symm.trans settled
  cases same
  exact ⟨_, _, rfl⟩

/-- Over a sound state, a transaction whose outputs can be numbered is applied or rejected. -/
theorem apply_total (sound : chain.host.Sound) {tx : Transaction}
    (few : tx.outputs.length < 2 ^ 64) : ∃ outcome, (chain.apply tx).1 = .ok outcome := by
  obtain ⟨outcome, _, run, _⟩ := exists_outcome sound.toWellFormed few
  exact ⟨outcome, congrArg Prod.fst run⟩

/-- Over a sound state, a block whose number fits and whose outputs can be numbered is executed. -/
theorem executeBlock_total (sound : chain.host.Sound) {txs : List Transaction}
    (few : ∀ tx ∈ txs, tx.outputs.length < 2 ^ 64) (next : chain.host.blockNumber + 1 < 2 ^ 64) :
    ∃ receipt, (chain.executeBlock txs).1 = .ok receipt := by
  obtain ⟨receipt, _, run⟩ := exists_receipt sound.toWellFormed few next
  exact ⟨receipt, congrArg Prod.fst run⟩

/-- After the last number there is no block, and nothing changes. -/
theorem executeBlock_of_last (last : chain.host.blockNumber = 2 ^ 64 - 1)
    (txs : List Transaction) : ∃ error, chain.executeBlock txs = (.error error, chain) := by
  unfold executeBlock
  rw [last]
  exact ⟨_, rfl⟩

/-- **A block fails exactly when there is no number for it.** -/
theorem executeBlock_error_iff (sound : chain.host.Sound) {txs : List Transaction}
    (few : ∀ tx ∈ txs, tx.outputs.length < 2 ^ 64) :
    (∃ error, (chain.executeBlock txs).1 = .error error) ↔
      chain.host.blockNumber = 2 ^ 64 - 1 := by
  constructor
  · rintro ⟨error, failed⟩
    by_contra more
    have bound := sound.blockNumber_lt
    obtain ⟨receipt, executed⟩ := executeBlock_total sound few (by omega)
    rw [executed] at failed
    cases failed
  · intro last
    obtain ⟨error, failed⟩ := executeBlock_of_last last txs
    exact ⟨error, congrArg Prod.fst failed⟩

omit [CoinHash] in
/-- The statistics of a chain over a sound state can be told. -/
theorem statistics_total (sound : chain.host.Sound) :
    ∃ document, chain.statistics = .ok document := by
  unfold statistics Ledger.statistics
  rw [← host, sound.toWellFormed.totalValue_eq]
  exact ⟨_, rfl⟩

/-- **A chain over an empty state never fails.** It is founded, executes blocks, applies
transactions, is given authorities of any kind and is opened anew under other settings, in any order
and as often as one likes. Then at every moment, also within a block, each cell under the mark of
coins is the cell of a key and holds the encoding of a coin of some value, and the pool and the
number of the latest block have sixteen and eight bytes if they are there. So every coin can be
looked up, the coins and the balance of every owner and the statistics can be read, and every
transaction whose outputs can be numbered is applied or rejected. A block of such transactions fails
exactly when the latest block has the last number that there is, and then nothing changes. -/
theorem never_fails {host : HostState} (empty : ∀ cell, host.get? cell = none)
    (authorities : List Loose) (verify : Verifier) (longevity : Int)
    (operations : List Operation) :
    let start := ofHost host authorities verify longevity
    ∀ point ∈ .quiet start :: start.trace operations,
      let state := point.chain.host
      (∀ cell value, coinMark <+: cell → state.get? cell = some value →
        ∃ (key : Outpoint) (coin : Output), cell = coinCell key ∧ value = coin.encode ∧
          value.length = 48 ∧ 1 ≤ coin.value.toNat) ∧
      (∀ value, state.get? poolKey = some value → value.length = 16) ∧
      (∀ value, state.get? blockNumberKey = some value → value.length = 8) ∧
      (∀ key, ∃ found, state.coin? key = .ok found) ∧
      (∀ owner, (∃ coins, state.coinsOf owner = .ok coins) ∧
        ∃ balance, state.balanceOf owner = .ok balance) ∧
      (∃ document, point.chain.statistics = .ok document) ∧
      (∀ tx : Transaction, tx.outputs.length < 2 ^ 64 →
        ∃ outcome, (point.chain.apply tx).1 = .ok outcome) ∧
      ∀ txs : List Transaction, (∀ tx ∈ txs, tx.outputs.length < 2 ^ 64) →
        ((∃ error, (point.chain.executeBlock txs).1 = .error error) ↔
          state.blockNumber = 2 ^ 64 - 1) ∧
        (state.blockNumber = 2 ^ 64 - 1 → (point.chain.executeBlock txs).2 = point.chain) := by
  intro start point member state
  have sound : point.chain.host.Sound := by
    have begun : start.host.Sound := sound_of_empty empty
    rcases List.mem_cons.mp member with rfl | later
    · exact begun
    · exact sound_trace begun operations point later
  refine ⟨fun cell value marked stored => ?_, sound.pool, sound.number,
    sound.toWellFormed.coin?_eq_ok, fun owner => ⟨?_, _, sound.toWellFormed.balanceOf_eq owner⟩,
    statistics_total sound, fun tx few => apply_total sound few, fun txs few =>
    ⟨executeBlock_error_iff sound few, fun last => ?_⟩⟩
  · obtain ⟨key, coin, rfl, rfl⟩ := sound.toWellFormed.exists_coin marked stored
    refine ⟨key, coin, rfl, rfl, coin.length_encode, Nat.one_le_iff_ne_zero.mpr ?_⟩
    exact sound.positive key coin (state.coin?_eq_some_iff.mpr stored)
  · obtain ⟨coins, read, _⟩ := sound.toWellFormed.coins_eq_ok
    rw [coinsOf, read]
    exact ⟨_, rfl⟩
  · obtain ⟨error, failed⟩ := executeBlock_of_last last txs
    rw [failed]

end

/-- A block collects a fee for an authority that is no public key, and the next block, which submits
the same transaction again, is executed. -/
theorem next_block_after_malformed_authority :
    let owner : PublicKey := FixedBytes.zero 32
    let coin : Output := ⟨⟨5, by decide⟩, owner⟩
    let tx : Transaction :=
      ⟨[⟨coin.genesisKey, emptySignature⟩], [⟨⟨4, by decide⟩, owner⟩]⟩
    let moments := (ofHost .emptyMemory [] (fun _ _ _ => true) 3).trace
      [.genesis [.ok coin], .setAuthorities [.bytes [1]], .block [tx]]
    ∃ last, moments.getLast? = some last ∧ last.chain.host.blockNumber = 1 ∧
      ∃ receipt, (last.chain.executeBlock [tx]).1 = .ok receipt := by
  intro owner coin tx moments
  have numbered : (moments.getLast?.map fun last => last.chain.host.blockNumber) = some 1 := by
    decide +kernel
  obtain ⟨last, final, first⟩ := Option.map_eq_some_iff.mp numbered
  obtain ⟨_, _, _, _, _, _, _, blocks⟩ := @never_fails _ .emptyMemory (fun _ => rfl) []
    (fun _ _ _ => true) 3 [.genesis [.ok coin], .setAuthorities [.bytes [1]], .block [tx]] last
    (List.mem_cons_of_mem _ (List.mem_of_getLast? final))
  obtain ⟨fails_iff, _⟩ := blocks [tx] (List.forall_mem_singleton.mpr (by decide))
  refine ⟨last, final, first, ?_⟩
  cases executed : (last.chain.executeBlock [tx]).1 with
  | ok receipt => exact ⟨receipt, rfl⟩
  | error error =>
      have full := fails_iff.mp ⟨error, executed⟩
      rw [first] at full
      cases full

end Chain
end CoinLedger

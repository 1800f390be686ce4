import CoinLedger.Proofs.Chain.Founding
import CoinLedger.Proofs.Config
import CoinLedger.Proofs.Encoding.Document
import CoinLedger.Proofs.Ledger.Shares

/-! # Chains that are started under a configuration

What a document has to be is checked when it is loaded. Afterwards the coins and the authorities
can be read back from their normal form, and a chain that is started over an empty state is refused
for coins that are the same and for nothing else (`CoinLedger.Chain.start_over_empty`). Its
authorities are public keys, and as long as nobody sets others no share is forfeited for want of a
key (`CoinLedger.Chain.lasting_keyed`). All of this follows from the document being accepted
(`CoinLedger.Config.accepted_starts_chains`).
-/

namespace CoinLedger

namespace Config

/-- The genesis coins, read back from their normal form. -/
def genesisOutputs (config : Config) : Except DocumentError (List Output) :=
  (config.genesis.map Output.toDocument).mapM Output.ofDocument

/-- The bytes of the authorities, read back from their normal form. -/
def authorityKeys (config : Config) : Except Hex.Malformed (List ByteString) :=
  (config.authorities.map fun key => Hex.encode key.bytes).mapM Hex.decode

/-- The genesis coins are read back from their normal form. -/
theorem genesisOutputs_eq (config : Config) : config.genesisOutputs = .ok config.genesis := by
  rw [genesisOutputs, mapM_eq_ok_iff, List.forall₂_map_left_iff]
  exact List.forall₂_same.mpr fun coin _ => coin.ofDocument_toDocument

/-- The authorities are read back from their normal form. -/
theorem authorityKeys_eq (config : Config) :
    config.authorityKeys = .ok (config.authorities.map FixedBytes.bytes) := by
  rw [authorityKeys, mapM_eq_ok_iff, List.forall₂_map_left_iff, List.forall₂_map_right_iff]
  exact List.forall₂_same.mpr fun key _ => Hex.decode_encode key.bytes

end Config

section

variable [CoinHash]

/-- A state has been founded with coins, and nothing has happened to it since. -/
structure HostState.Founded (state : HostState) (coins : List Output) : Prop where
  readable : ∀ key, ∃ found, state.coin? key = .ok found
  /-- The coins are there, each under its digest, and no others. -/
  holds : ∀ key coin, state.coin? key = .ok (some coin) ↔ coin ∈ coins ∧ coin.genesisKey = key
  /-- They are listed, and no others. -/
  lists : ∃ listed, state.coins = .ok listed ∧
    ∀ name coin, (name, coin) ∈ listed ↔ coin ∈ coins ∧ coin.genesisKey.bytes = name
  pool : state.pool = 0
  number : state.blockNumber = 0
  done : state.genesisDone = true

namespace Chain

open HostState

variable {chain : Chain}

omit [CoinHash] in
theorem hasCoin_of_empty {host : HostState} (empty : ∀ cell, host.get? cell = none)
    (key : Outpoint) : host.hasCoin key = false := by
  rw [hasCoin, contains, empty]
  rfl

/-- Genesis leaves the pool alone. -/
theorem pool_genesis {coins : List Output} {keys : List Outpoint} {after : Chain}
    (run : chain.genesis (coins.map .ok) = (.ok keys, after)) :
    after.host.pool = chain.host.pool := by
  obtain ⟨unfounded, _⟩ := genesis_ok run
  obtain ⟨seeding, cells⟩ := genesis_adds_mark_and_number unfounded (coins.map .ok)
  rw [run] at seeding cells
  apply pool_eq_of_get?_eq
  rw [cells keys seeding.symm, if_neg (Ne.symm blockNumberKey_ne_poolKey),
    if_neg (Ne.symm genesisDoneKey_ne_poolKey), Ledger.get?_seed (Prod.ext seeding.symm rfl),
    get?_addCoins_of_unmarked not_coinMark_prefix_poolKey]
  rfl

/-- The coins after genesis over an empty state are those of genesis, each under its digest. -/
theorem coin?_genesis_of_empty (empty : ∀ cell, chain.host.get? cell = none) {coins : List Output}
    {keys : List Outpoint} {after : Chain}
    (run : chain.genesis (coins.map .ok) = (.ok keys, after)) (key : Outpoint) (coin : Output) :
    after.host.coin? key = .ok (some coin) ↔ coin ∈ coins ∧ coin.genesisKey = key := by
  obtain ⟨unfounded, others, seeded, same, moves, shown, _⟩ := genesis_ok run
  obtain rfl : coins = others := map_ok_injective same
  obtain ⟨seeding, _⟩ := genesis_adds_mark_and_number unfounded (coins.map .ok)
  rw [run] at seeding
  have admits := Ledger.exists_seed_iff.mp ⟨keys, seeding.symm⟩
  rw [shown]
  constructor
  · intro there
    rcases moves.origin there with before | stored
    · rw [(shows_of_empty empty).coin?_eq] at before
      cases before
    · obtain ⟨other, member, named⟩ := List.mem_map.mp stored
      cases named
      exact ⟨member, rfl⟩
  · rintro ⟨member, rfl⟩
    have names : (coins.map Output.atGenesis).map Prod.fst = coins.map Output.genesisKey :=
      List.map_map
    exact moves.found (names ▸ admits.distinct) (List.mem_map_of_mem member)

/-- Genesis over an empty state leaves its coins and nothing else. -/
theorem founded_of_empty (empty : ∀ cell, chain.host.get? cell = none) {coins : List Output}
    {keys : List Outpoint} {after : Chain}
    (run : chain.genesis (coins.map .ok) = (.ok keys, after)) : after.host.Founded coins := by
  have holds := coin?_genesis_of_empty empty run
  have valid : after.host.WellFormed := by
    have sound := sound_perform (sound_of_empty empty) (.genesis (coins.map .ok))
    rw [perform, run] at sound
    exact sound.toWellFormed
  obtain ⟨_, _, _, _, _, _, done, zero⟩ := genesis_ok run
  obtain ⟨listed, read, _⟩ := valid.coins_eq_ok
  refine ⟨valid.coin?_eq_ok, holds, ⟨listed, read, fun name coin => ?_⟩, ?_, zero, done⟩
  · rw [valid.mem_coins_iff read]
    simp only [holds]
    constructor
    · rintro ⟨key, rfl, member, rfl⟩
      exact ⟨member, rfl⟩
    · rintro ⟨member, rfl⟩
      exact ⟨_, rfl, member, rfl⟩
  · rw [pool_genesis run, HostState.pool, empty]

/-- Genesis over an empty state that fails names the first coin that repeats a digest, if all coins
have some value. -/
theorem fault_of_empty (empty : ∀ cell, chain.host.get? cell = none)
    (unfounded : chain.host.genesisDone = false) {coins : List Output}
    (valued : ∀ coin ∈ coins, 1 ≤ coin.value.toNat) {error : LedgerError} {after : Chain}
    (run : chain.genesis (coins.map .ok) = (.error error, after)) :
    after = chain ∧ ∃ index coin, error =
        .invalid (.duplicateGenesisKey index (Hex.encode coin.genesisKey.bytes)) ∧
      FirstFault (fun earlier coin => coin.genesisKey ∈ earlier.map Output.genesisKey)
        coins index coin := by
  obtain ⟨seeding, _⟩ := genesis_adds_mark_and_number unfounded (coins.map .ok)
  rw [run] at seeding
  obtain ⟨_, index, coin, rfl, fault⟩ := Ledger.seed_fault (Prod.ext seeding.symm rfl)
  refine ⟨genesis_error run, index, coin, ?_, fault.congr fun earlier other member => ?_⟩
  · rw [Output.seedingFault, if_neg (Nat.ne_of_gt (valued coin fault.mem))]
  · have worth : other.value.toNat ≠ 0 := Nat.ne_of_gt (valued other member)
    have absent : chain.ledger.host.hasCoin other.genesisKey = false :=
      hasCoin_of_empty empty other.genesisKey
    simp [Unseedable, worth, absent]

/-- **A chain is started over an empty state if the coins have distinct digests**, which are then
all that is in the set, and otherwise the first one that repeats a digest is named and the state
stays empty. -/
theorem start_over_empty {settings : ChainSettings} {coins : List Output}
    (named : settings.genesis? = some coins) (valued : ∀ coin ∈ coins, 1 ≤ coin.value.toNat)
    {host : HostState} (empty : ∀ cell, host.get? cell = none) (verify : Verifier) :
    let begun := start settings host verify
    (begun.1 = .ok () ↔ (coins.map Output.genesisKey).Nodup) ∧
    (begun.1 = .ok () → begun.2.host.Founded coins) ∧
    ∀ error, begun.1 = .error error → begun.2.host = host ∧
      ∃ index coin, error =
          .invalid (.duplicateGenesisKey index (Hex.encode coin.genesisKey.bytes)) ∧
        FirstFault (fun earlier coin => coin.genesisKey ∈ earlier.map Output.genesisKey)
          coins index coin := by
  intro begun
  let opened := ofHost host settings.authorities verify settings.longevity
  have unfounded : host.genesisDone = false := by
    rw [genesisDone, contains, empty]
    rfl
  have same : begun = ((opened.genesis (coins.map .ok)).1.map fun _ => (),
      (opened.genesis (coins.map .ok)).2) := start_eq_genesis named unfounded verify
  have seeds : (∃ keys, (opened.genesis (coins.map .ok)).1 = .ok keys) ↔
      (coins.map Output.genesisKey).Nodup := by
    obtain ⟨seeding, _⟩ := @genesis_adds_mark_and_number _ opened unfounded (coins.map .ok)
    rw [seeding, Ledger.exists_seed_iff]
    exact ⟨Admits.distinct, fun distinct =>
      ⟨valued, distinct, fun coin _ => hasCoin_of_empty empty coin.genesisKey⟩⟩
  rw [same, ← seeds]
  dsimp only
  rcases run : opened.genesis (coins.map .ok) with ⟨error | keys, after⟩
  · refine ⟨iff_of_false ?_ ?_, ?_, ?_⟩
    · rintro ⟨⟩
    · rintro ⟨_, ⟨⟩⟩
    · rintro ⟨⟩
    · rintro _ ⟨⟩
      obtain ⟨rfl, fault⟩ := @fault_of_empty _ opened empty unfounded _ valued _ _ run
      exact ⟨rfl, fault⟩
  · refine ⟨iff_of_true rfl ⟨keys, rfl⟩, fun _ => ?_, ?_⟩
    · exact @founded_of_empty _ opened empty _ _ _ run
    · rintro _ ⟨⟩

/-- The authorities of a chain are public keys, and no share has been forfeited for want of one. -/
structure Keyed (chain : Chain) : Prop where
  keys : ∀ entry ∈ chain.authorities, entry.publicKey? ≠ none
  silent : .rewardWasted none ∉ chain.ledger.events

omit [CoinHash] in
/-- Where every entry is a public key, no share is forfeited for want of one. -/
theorem not_wasted_of_told {share : Nat} {authorities : List Loose} {events : List Event}
    (told : List.Forall₂ (Event.TellsOf share) authorities events)
    (keys : ∀ entry ∈ authorities, entry.publicKey? ≠ none) : .rewardWasted none ∉ events := by
  induction told with
  | nil => exact List.not_mem_nil
  | cons tells _ inductive_step =>
      obtain ⟨key, others⟩ := List.forall_mem_cons.mp keys
      rw [List.mem_cons, not_or]
      refine ⟨?_, inductive_step others⟩
      rintro rfl
      exact key tells

/-- **As long as nobody sets other authorities, no share is forfeited for want of a key.** -/
theorem lasting_keyed : Lasting Keyed where
  attempt {chain} tx keyed := by
    unfold attempt
    rcases run : chain.spend tx with ⟨error | fee, after⟩
    · rw [spend_error run]
      exact keyed
    · obtain ⟨ledger, applied, rfl⟩ := spend_eq run
      obtain ⟨host, _, rfl⟩ := Ledger.spend_eq_ok applied
      refine ⟨keyed.keys, fun wasted => ?_⟩
      rcases List.mem_append.mp wasted with before | here
      · exact keyed.silent before
      · cases List.mem_singleton.mp here
  settle {chain} number keyed := by
    rw [chain_settle]
    rcases run : chain.finalize number with ⟨outcome, after⟩
    obtain ⟨ledger, settled, rfl⟩ := finalize_eq run
    refine ⟨keyed.keys, ?_⟩
    change .rewardWasted none ∉ ledger.events
    rcases Ledger.finalize_undispersed settled with ⟨share, events, carry, rfl⟩ | ⟨same, _⟩
    · obtain ⟨_, logged, told, _⟩ := Ledger.finalize_told settled
      rw [logged, List.mem_append, not_or]
      exact ⟨keyed.silent, not_wasted_of_told told keyed.keys⟩
    · rw [same]
      exact keyed.silent
  found {chain} outputs keyed := by
    rw [chain_found, genesis_withLedger]
    exact ⟨keyed.keys, keyed.silent⟩
  numbered _ keyed := ⟨keyed.keys, keyed.silent⟩

/-- A chain that starts with public keys as authorities has these. -/
theorem keyed_start {settings : ChainSettings}
    (keys : ∀ entry ∈ settings.authorities, entry.publicKey? ≠ none) (host : HostState)
    (verify : Verifier) : (start settings host verify).2.Keyed := by
  have opened : (ofHost host settings.authorities verify settings.longevity).Keyed :=
    ⟨keys, List.not_mem_nil⟩
  unfold start
  dsimp only
  split
  · exact opened
  · rename_i coins _
    split
    · exact opened
    · have founded := lasting_keyed.found (coins.map .ok) opened
      rw [chain_found] at founded
      split <;> (rename_i run; rw [run] at founded; exact founded)

/-- The events of a receipt are in the log. -/
theorem receipt_events_subset {txs : List Transaction} {receipt : Receipt} {after : Chain}
    (run : chain.executeBlock txs = (.ok receipt, after)) :
    receipt.events ⊆ after.ledger.events := by
  unfold executeBlock at run
  dsimp only at run
  split at run
  · cases run
  · split at run
    · cases run
    · split at run
      · cases run
      · cases run
        exact List.drop_subset _ _

/-- No receipt tells of a share that was forfeited for want of a key. -/
theorem Keyed.reports (keyed : chain.Keyed) {operations : List Operation}
    (keep : ∀ operation ∈ operations, operation.KeepsSettings) :
    ∀ receipt, .ok receipt ∈ chain.reports operations → .rewardWasted none ∉ receipt.events := by
  induction operations generalizing chain with
  | nil => exact fun _ member => nomatch member
  | cons operation operations inductive_step =>
      obtain ⟨keeps, others⟩ := List.forall_mem_cons.mp keep
      have performed := lasting_keyed.perform keyed keeps
      intro receipt member
      rw [Chain.reports] at member
      rcases List.mem_append.mp member with here | later
      · cases operation with
        | block txs =>
            have executed := List.mem_singleton.mp here
            have run : chain.executeBlock txs = (.ok receipt, chain.perform (.block txs)) :=
              Prod.ext executed.symm rfl
            exact fun wasted => performed.silent (receipt_events_subset run wasted)
        | _ => cases here
      · exact inductive_step performed others receipt later

end Chain

/-- **What is accepted does not fail later.** A document that is accepted is an object whose members
spell the coins and the authorities of its configuration, each in any of the forms of its kind. From
the normal form that the configuration keeps, the coins and the authorities are read back without
failure. Every coin has a value from one to `2 ^ 128 - 1`, and its owner and every authority are 32
bytes. Over an empty state a chain is started if and only if the digests of the coins are distinct.
Then the state holds these coins and no others, the pool is empty, the block number is zero and
genesis is done. Otherwise the first coin that repeats a digest is refused as a value, and the state
stays empty. Over a state with genesis done a chain is started and the state stays as it is.
Whatever the state was, as long as nobody sets authorities, at no moment has a share been forfeited
for want of a key, and no receipt tells of one. -/
theorem Config.accepted_starts_chains {document : Json} {config : Config}
    (accepted : ofDocument document = .ok config) (verify : Verifier) :
    let start (host : HostState) := Chain.start config.chainSettings host verify
    (∃ members, document = .object members ∧
      Json.MemberSpells Json.SpellsCoin members "genesis" config.genesis ∧
      Json.MemberSpells Json.SpellsKey members "authorities" config.authorities) ∧
    config.genesisOutputs = .ok config.genesis ∧
    (∀ coin ∈ config.genesis, 1 ≤ coin.value.toNat ∧ coin.value.toNat ≤ 2 ^ 128 - 1 ∧
      coin.owner.bytes.length = 32) ∧
    (∃ keys, config.authorityKeys = .ok keys ∧ (∀ key ∈ keys, key.length = 32) ∧
      config.chainSettings.authorities = keys.map .bytes) ∧
    (∀ host, (∀ cell, host.get? cell = none) →
      ((start host).1 = .ok () ↔ (config.genesis.map Output.genesisKey).Nodup) ∧
      ((start host).1 = .ok () → (start host).2.host.Founded config.genesis) ∧
      ∀ error, (start host).1 = .error error → (start host).2.host = host ∧
        ∃ index coin, error =
            .invalid (.duplicateGenesisKey index (Hex.encode coin.genesisKey.bytes)) ∧
          FirstFault (fun earlier coin => coin.genesisKey ∈ earlier.map Output.genesisKey)
            config.genesis index coin) ∧
    (∀ host, host.genesisDone = true → (start host).1 = .ok () ∧ (start host).2.host = host) ∧
    ∀ host operations, (∀ operation ∈ operations, operation.KeepsSettings) →
      (∀ moment ∈ .quiet (start host).2 :: (start host).2.trace operations,
        .rewardWasted none ∉ moment.chain.ledger.events) ∧
      ∀ receipt, .ok receipt ∈ (start host).2.reports operations →
        .rewardWasted none ∉ receipt.events := by
  intro start
  obtain ⟨spelled, valued⟩ := spelled_of_ofDocument accepted
  refine ⟨spelled, config.genesisOutputs_eq, fun coin member => ?_,
    ⟨_, config.authorityKeys_eq, ?_, ?_⟩, fun host empty => ?_, fun host founded => ?_,
    fun host operations keep => ?_⟩
  · have bound : coin.value.toNat < 2 ^ 128 := coin.value.toNat_lt
    exact ⟨valued coin member, by omega, coin.owner.length_bytes⟩
  · exact List.forall_mem_map.mpr fun key _ => key.length_bytes
  · exact List.map_map.symm
  · exact Chain.start_over_empty rfl valued empty verify
  · have begun : start host = _ := Chain.start_of_founded founded config.chainSettings verify
    rw [begun]
    exact ⟨rfl, rfl⟩
  · have keyed : (start host).2.Keyed := by
      refine Chain.keyed_start (List.forall_mem_map.mpr fun key _ => ?_) host verify
      rw [publicKey?_bytes]
      exact Option.some_ne_none key
    refine ⟨List.forall_mem_cons.mpr ⟨keyed.silent, fun moment member => ?_⟩, keyed.reports keep⟩
    exact (Chain.lasting_keyed.trace keyed keep moment member).silent

end

/-- A chain is started with a coin, whose fee is paid in the first block. Another spelling of the
same coin beside it is accepted, and refused when a chain is started. -/
theorem Config.coin_spelled_twice_starts_no_chain :
    let owner : PublicKey := FixedBytes.zero 32
    let coin : Output := ⟨⟨5, by decide⟩, owner⟩
    let tx : Transaction := ⟨[⟨coin.genesisKey, emptySignature⟩], [⟨⟨3, by decide⟩, owner⟩]⟩
    let item : Json :=
      .object [("value", .string "5"), ("pubkey", .string (Hex.encode owner.bytes))]
    let again : Json :=
      .object [("pubkey", .string (Hex.encodeBare owner.bytes)), ("value", .integer 5)]
    let document (items : List Json) : Json := .object [("genesis", .array items),
      ("authorities", .array [.string (Hex.encodeBare owner.bytes)])]
    let config (coins : List Output) : Config :=
      { genesis := coins, authorities := [owner], longevity := maxLongevity, logLevel := .info
        logDirectory := none, dataDirectory := none }
    let start (coins : List Output) :=
      Chain.start (config coins).chainSettings .emptyMemory fun _ _ _ => true
    ofDocument (document [item]) = .ok (config [coin]) ∧
    (start [coin]).2.host.Founded [coin] ∧
    (∀ moment ∈ .quiet (start [coin]).2 :: (start [coin]).2.trace [.block [tx]],
      .rewardWasted none ∉ moment.chain.ledger.events) ∧
    ofDocument (document [item, again]) = .ok (config [coin, coin]) ∧
    (start [coin, coin]).1 =
      .error (.invalid (.duplicateGenesisKey 1 (Hex.encode coin.genesisKey.bytes))) ∧
    (start [coin, coin]).2.host = .emptyMemory := by
  intro owner coin tx item again document config start
  have accepted : ofDocument (document [item]) = .ok (config [coin]) := by decide +kernel
  have acceptedTwice : ofDocument (document [item, again]) = .ok (config [coin, coin]) := by
    decide +kernel
  have begun : (start [coin]).1 = .ok () := by decide +kernel
  have refused : (start [coin, coin]).1 =
      .error (.invalid (.duplicateGenesisKey 1 (Hex.encode coin.genesisKey.bytes))) := by
    decide +kernel
  obtain ⟨_, _, _, _, one, _, silent⟩ := accepted_starts_chains accepted fun _ _ _ => true
  obtain ⟨_, _, _, _, two, _⟩ := accepted_starts_chains acceptedTwice fun _ _ _ => true
  obtain ⟨_, founded, _⟩ := one .emptyMemory fun _ => rfl
  obtain ⟨_, _, fails⟩ := two .emptyMemory fun _ => rfl
  obtain ⟨quiet, _⟩ := silent .emptyMemory [.block [tx]] (by decide +kernel)
  exact ⟨accepted, founded begun, quiet, acceptedTwice, refused, (fails _ refused).1⟩

end CoinLedger

import CoinLedger.Proofs.Chain.Host
import CoinLedger.Proofs.Ledger.Independence

/-! # The effect of a spend

A spend succeeds exactly when validation accepts the transaction and the pool holds the fee on top
of what is in it. What a spend that succeeds leaves is said cell by cell
(`CoinLedger.Ledger.TookEffect`): each key of an output has the last output with that key, the
outpoints of the inputs have nothing under them, the pool's cell has the fee added to it, and no
other cell has changed (`CoinLedger.Ledger.spend_takes_effect`).
-/

namespace CoinLedger

open HostState

section

variable [CoinHash]

/-- The coins that a transaction creates are its outputs, each under its own key. -/
theorem Transaction.getElem?_minted (tx : Transaction) {index : Nat} {key : Outpoint}
    {output : Output} :
    (tx.derivedKeys.zip tx.outputs)[index]? = some (key, output) ↔
      deriveOutputKey tx.encode (UInt64.ofNat index) = key ∧ tx.outputs[index]? = some output := by
  rw [List.getElem?_zip_eq_some]
  refine and_congr_left fun there => ?_
  have inside := (List.getElem?_eq_some_iff.mp there).1
  rw [derivedKeys, List.getElem?_map, List.getElem?_range inside, Option.map_some,
    Option.some.injEq]

namespace Ledger

/-- What a transaction with a fee makes of a ledger. -/
structure TookEffect (tx : Transaction) (fee : Nat) (before after : Ledger) : Prop where
  /-- Under the key of an output is the last output with that key. -/
  created : ∀ (index : Nat) (output : Output), tx.outputs[index]? = some output →
    (∀ later, index < later → later < tx.outputs.length →
      deriveOutputKey tx.encode (UInt64.ofNat later) ≠
        deriveOutputKey tx.encode (UInt64.ofNat index)) →
    after.host.coin? (deriveOutputKey tx.encode (UInt64.ofNat index)) = .ok (some output)
  /-- Nothing is under the outpoint of an input, unless it is the key of an output. -/
  removed : ∀ key ∈ tx.outpoints, key ∉ tx.derivedKeys → after.host.coin? key = .ok none
  /-- What is under any other key stays as it is. -/
  kept : ∀ key, key ∉ tx.outpoints → key ∉ tx.derivedKeys →
    after.host.coin? key = before.host.coin? key
  /-- The pool has grown by the fee. -/
  pool : after.host.pool = before.host.pool + fee
  /-- The pool's cell holds sixteen bytes if there is a fee, and else what it held. -/
  poolCell : after.host.get? poolKey =
    if fee = 0 then before.host.get? poolKey
    else some (littleEndian 16 (before.host.pool + fee))
  /-- Without a fee nothing is written but the cells of coins: those of the inputs are deleted, and
  then those of the outputs are written. -/
  unwritten : fee = 0 → after.host =
    (addCoins (tx.derivedKeys.zip tx.outputs) (removeCoins tx.outpoints before.host.enter)).commit
  /-- The cells that are neither the pool's nor one of these coins' hold what they held. -/
  untouched : ∀ cell, cell ≠ poolKey → (∀ key ∈ tx.outpoints, coinCell key ≠ cell) →
    (∀ key ∈ tx.derivedKeys, coinCell key ≠ cell) → after.host.get? cell = before.host.get? cell
  /-- So do the cells of the number of the latest block and of the mark of genesis. -/
  chainCells : after.host.get? blockNumberKey = before.host.get? blockNumberKey ∧
    after.host.get? genesisDoneKey = before.host.get? genesisDoneKey
  /-- One event is deposited. -/
  told : after.events = before.events ++ [.transactionApplied tx]

variable {ledger after : Ledger} {verify : Verifier} {tx : Transaction} {fee : Nat}

/-- Where there is no fee, what is written in the transaction of a spend are coins' cells. -/
theorem host_of_free_spend (run : ledger.spend verify tx = (.ok 0, after)) :
    after.host = (addCoins (tx.derivedKeys.zip tx.outputs)
      (removeCoins tx.outpoints ledger.host.enter)).commit := by
  obtain ⟨host, applied, rfl⟩ := spend_eq_ok run
  obtain ⟨inner, carried, rfl⟩ := atomically_ok applied
  obtain ⟨_, _, credited, admissible, credits, rfl⟩ := applyTo_eq_ok carried
  rw [creditPool, if_pos rfl] at credits
  cases credits
  rw [Transaction.eq_derivedKeys admissible.derived]

/-- **A spend that succeeds takes effect.** -/
theorem tookEffect_of_spend (run : ledger.spend verify tx = (.ok fee, after)) :
    TookEffect tx fee ledger after := by
  have together := spend_appliedTogether run
  obtain ⟨coins, keys, admissible, moves, pooled, _⟩ := spend_ok run
  obtain rfl := Transaction.eq_derivedKeys admissible.derived
  have spent := admissible.map_fst_spent
  have minted := admissible.map_fst_minted
  constructor
  case created =>
    intro index output there last
    rw [moves.coin?_eq]
    refine coin?_addCoins_of_last (tx.getElem?_minted.mpr ⟨rfl, there⟩) ?_
    rintro later ⟨key, other⟩ follows found
    obtain ⟨keyed, placed⟩ := tx.getElem?_minted.mp found
    exact keyed ▸ last later follows (List.getElem?_eq_some_iff.mp placed).1
  case removed =>
    intro key taken _
    exact moves.gone (by rwa [spent])
  case kept =>
    intro key unspent uncreated
    exact moves.kept (by rwa [spent]) (by rwa [minted])
  case pool => exact pooled
  case poolCell => exact together.poolCell
  case unwritten =>
    rintro rfl
    exact host_of_free_spend run
  case untouched =>
    intro cell unpooled unspent uncreated
    refine together.untouched cell unpooled (List.forall_mem_singleton.mpr fun key member => ?_)
    exact (List.mem_append.mp member).elim (unspent key) (uncreated key)
  case chainCells =>
    exact ⟨moves.frame not_coinMark_prefix_blockNumberKey blockNumberKey_ne_poolKey,
      moves.frame not_coinMark_prefix_genesisDoneKey genesisDoneKey_ne_poolKey⟩
  case told =>
    obtain ⟨host, _, rfl⟩ := spend_eq_ok run
    rfl

/-- A fee that has been credited fits in the pool. -/
theorem pool_add_fee_lt_of_spend (valid : ledger.host.WellFormed)
    (run : ledger.spend verify tx = (.ok fee, after)) :
    ledger.host.pool + fee < amountBound := by
  obtain ⟨coins, keys, _, moves, pooled, _⟩ := spend_ok run
  exact pooled ▸ (moves.wellFormed valid).pool_lt

/-- **What a spend does, exactly.** Let a ledger over a well-formed state, inside open
transactions or not, be asked to apply a transaction whose outputs can be numbered. It answers
with a fee exactly when validation against its coins gives that fee and the pool holds it on top
of what is in it. If validation gives a fee and the pool does not hold it, the answer is an
overflow, and nothing changes. If there is a fee for an answer, the transaction has taken effect. -/
theorem spend_takes_effect (valid : ledger.host.WellFormed) (verify : Verifier)
    (few : tx.outputs.length < 2 ^ 64) :
    (∀ fee, (ledger.spend verify tx).1 = .ok fee ↔
      validate verify ledger.view tx = .ok fee ∧ ledger.host.pool + fee ≤ 2 ^ 128 - 1) ∧
    (∀ fee, validate verify ledger.view tx = .ok fee → 2 ^ 128 - 1 < ledger.host.pool + fee →
      ∃ detail, ledger.spend verify tx = (.error (.rejected (.overflow detail)), ledger)) ∧
    ∀ fee after, ledger.spend verify tx = (.ok fee, after) → TookEffect tx fee ledger after := by
  have bound : amountBound = 2 ^ 128 := rfl
  have accepted_of_spend {fee : Nat} (answer : (ledger.spend verify tx).1 = .ok fee) :
      validate verify ledger.view tx = .ok fee ∧ ledger.host.pool + fee < amountBound := by
    have run : ledger.spend verify tx = (.ok fee, (ledger.spend verify tx).2) :=
      Prod.ext answer rfl
    obtain ⟨coins, keys, admissible, _⟩ := spend_ok run
    exact ⟨validate_eq_ok_iff.mpr ⟨coins, keys, admissible⟩, pool_add_fee_lt_of_spend valid run⟩
  refine ⟨fun fee => ⟨fun answer => ?_, ?_⟩, ?_, fun fee after => tookEffect_of_spend⟩
  · obtain ⟨accepted, fits⟩ := accepted_of_spend answer
    exact ⟨accepted, by omega⟩
  · rintro ⟨accepted, fits⟩
    obtain ⟨after, run⟩ := exists_spend_eq_ok accepted (by omega) few
    rw [run]
  · intro fee accepted full
    rcases run : ledger.spend verify tx with ⟨error | paid, after⟩
    · obtain rfl := spend_error run
      rcases spend_error_cases (congrArg Prod.fst run) with
        invalid | ⟨_, _, ⟨_, detail, rfl⟩ | many⟩
      · rw [view, invalid] at accepted
        cases accepted
      · exact ⟨detail, rfl⟩
      · exact absurd few (Nat.not_lt_of_le many.1)
    · obtain ⟨same, fits⟩ := accepted_of_spend (congrArg Prod.fst run)
      rw [accepted] at same
      cases same
      omega

end Ledger

end

/-- A coin of five is spent inside an open transaction. Its outpoint is empty then, the output of
three is under its key, the fee of two is in the pool, a cell of others is as it was, and one event
is told. Where the pool is full the same transaction overflows and changes nothing. -/
theorem Ledger.spend_inside_a_transaction :
    let owner : PublicKey := FixedBytes.zero 32
    let outpoint : Outpoint := FixedBytes.zero 32
    let three : Output := ⟨⟨3, by decide⟩, owner⟩
    let tx : Transaction := ⟨[⟨outpoint, emptySignature⟩], [three]⟩
    let accept : Verifier := fun _ _ _ => true
    let host := (HostState.emptyMemory.enter.put [7] [9]).addCoin outpoint ⟨⟨5, by decide⟩, owner⟩
    let ledger := Ledger.ofHost host []
    let full := Ledger.ofHost (host.setPool ⟨2 ^ 128 - 1, by decide⟩) []
    (∃ after, ledger.spend accept tx = (.ok 2, after) ∧
      after.host.coin? outpoint = .ok none ∧
      after.host.coin? (deriveOutputKey tx.encode 0) = .ok (some three) ∧
      after.host.get? poolKey = some (littleEndian 16 2) ∧ after.host.get? [7] = some [9] ∧
      after.events = [.transactionApplied tx]) ∧
    ∃ detail, full.spend accept tx = (.error (.rejected (.overflow detail)), full) := by
  intro owner outpoint three tx accept host ledger full
  have unmarked : ¬ coinMark <+: [7] := by decide +kernel
  have foreign : [7] ≠ poolKey := by decide +kernel
  have empty : HostState.emptyMemory.enter.WellFormed :=
    wellFormed_of_empty fun cell => HostState.emptyMemory.get?_enter cell
  have written : (HostState.emptyMemory.enter.put [7] [9]).WellFormed :=
    empty.write (fun _ marked => absurd marked unmarked) (fun _ same => absurd same foreign)
  have valid : ledger.host.WellFormed := written.addCoin outpoint _
  have fullValid : full.host.WellFormed := valid.setPool _
  have apart : outpoint ∉ tx.derivedKeys := by decide +kernel
  have few : tx.outputs.length < 2 ^ 64 := by decide
  obtain ⟨answers, _, effect⟩ := Ledger.spend_takes_effect valid accept few
  obtain ⟨_, overflows, _⟩ := Ledger.spend_takes_effect fullValid accept few
  have answer := (answers 2).mpr ⟨by decide +kernel, by decide +kernel⟩
  have done := effect 2 _ (Prod.ext answer rfl)
  refine ⟨⟨_, Prod.ext answer rfl, ?_, ?_, ?_, ?_, done.told⟩, ?_⟩
  · exact done.removed outpoint List.mem_cons_self apart
  · refine done.created 0 three rfl fun later follows inside => ?_
    exact absurd inside (Nat.not_lt.mpr follows)
  · have nothing : ledger.host.pool = 0 := by decide +kernel
    have cell := done.poolCell
    rwa [nothing] at cell
  · refine (done.untouched [7] foreign ?_ ?_).trans (by decide +kernel)
    · exact fun key _ => coinCell_ne unmarked key
    · exact fun key _ => coinCell_ne unmarked key
  · exact overflows 2 (by decide +kernel) (by decide +kernel)

end CoinLedger

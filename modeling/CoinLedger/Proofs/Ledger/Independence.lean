import CoinLedger.Crypto.Blake2b
import CoinLedger.Proofs.Ledger.Progress
import CoinLedger.Proofs.Ledger.Run

/-! # Transactions that do not depend on each other

A transaction looks at the keys of its inputs and of its outputs and changes what is under these,
and besides it adds its fee to the pool. Transactions that a state accepts, of which no two spend
the same coin or create coins under the same key, have no key in common: what each spends is there,
and what the others create is not. So each leaves the others accepted with the same fee, and what
all of them leave can be said without saying in which order they came
(`CoinLedger.HostState.AppliedTogether`). Any order is accepted, and all orders end alike
(`CoinLedger.Ledger.any_order_ends_alike`).
-/

namespace CoinLedger

open HostState

namespace Transaction

variable [CoinHash]

/-- The keys that a transaction looks at: those of its inputs and of its outputs. -/
def touched (tx : Transaction) : List Outpoint := tx.outpoints ++ tx.derivedKeys

/-- What a transaction leaves in the cell of a coin that it touches: nothing if the coin is spent,
else the last output with its key. -/
def leaves (tx : Transaction) (key : Outpoint) : Option ByteString :=
  (storeCoins (tx.derivedKeys.zip tx.outputs) (fun _ => none) key).map Output.encode

/-- Neither of two transactions spends a coin that the other one spends, and no output of one has
the key of an output of the other. -/
structure Independent (left right : Transaction) : Prop where
  outpoints : left.outpoints.Disjoint right.outpoints
  derivedKeys : left.derivedKeys.Disjoint right.derivedKeys

theorem Independent.symm {left right : Transaction} (independent : left.Independent right) :
    right.Independent left :=
  ⟨List.disjoint_symm independent.outpoints, List.disjoint_symm independent.derivedKeys⟩

end Transaction

section

variable [CoinHash] {verify : Verifier} {view other : CoinView} {tx left right : Transaction}
  {fee : Nat}

omit [CoinHash] in
/-- Resolving inputs depends on what is shown under their outpoints only. -/
theorem resolve_congr {inputs : List Input}
    (same : ∀ input ∈ inputs, other input.outpoint = view input.outpoint) :
    resolve other inputs = resolve view inputs := by
  induction inputs with
  | nil => rfl
  | cons input inputs inductive_step =>
      obtain ⟨here, later⟩ := List.forall_mem_cons.mp same
      rw [resolve, resolve, here, inductive_step later]

omit [CoinHash] in
/-- Checking keys depends on what is shown under them only. -/
theorem checkKeys_congr {keys : List Outpoint} (same : ∀ key ∈ keys, other key = view key) :
    checkKeys other keys = checkKeys view keys := by
  induction keys with
  | nil => rfl
  | cons key keys inductive_step =>
      obtain ⟨here, later⟩ := List.forall_mem_cons.mp same
      rw [checkKeys, checkKeys, here, inductive_step later]

/-- Checking the keys of outputs depends on what is shown under them only. -/
theorem checkFresh_congr (same : ∀ key ∈ tx.derivedKeys, other key = view key) :
    checkFresh other tx = checkFresh view tx := by
  unfold checkFresh
  cases derived : tx.outputKeys with
  | error reason => rfl
  | ok keys =>
      obtain rfl := Transaction.eq_derivedKeys derived
      dsimp only
      rw [checkKeys_congr same]

/-- Validation looks at the keys that a transaction touches and at no others. -/
theorem validate_congr (same : ∀ key ∈ tx.touched, other key = view key) :
    validate verify other tx = validate verify view tx := by
  obtain ⟨spent, created⟩ := List.forall_mem_append.mp same
  unfold validate
  rw [resolve_congr (List.forall_mem_map.mp spent), checkFresh_congr created]

/-- There is a coin under each outpoint of an accepted transaction, and none under its keys. -/
theorem found_of_validate (accepted : validate verify view tx = .ok fee) :
    (∀ outpoint ∈ tx.outpoints, ∃ coin, view outpoint = .ok (some coin)) ∧
      ∀ key ∈ tx.derivedKeys, view key = .ok none := by
  obtain ⟨coins, keys, admissible⟩ := validate_eq_ok_iff.mp accepted
  constructor
  · intro outpoint member
    rw [← admissible.map_fst_spent] at member
    obtain ⟨entry, paired, rfl⟩ := List.mem_map.mp member
    obtain ⟨_, _, _, there, _⟩ := admissible.input_of_mem_spent paired
    exact ⟨entry.2, there⟩
  · rw [← Transaction.eq_derivedKeys admissible.derived]
    exact admissible.free

/-- Independent transactions that a view accepts have no key in common. -/
theorem touched_disjoint {otherFee : Nat} (accepted : validate verify view left = .ok fee)
    (otherAccepted : validate verify view right = .ok otherFee)
    (independent : left.Independent right) : left.touched.Disjoint right.touched := by
  obtain ⟨leftThere, leftFree⟩ := found_of_validate accepted
  obtain ⟨rightThere, rightFree⟩ := found_of_validate otherAccepted
  -- What one of them spends is there, and what the other one creates is not.
  have apart : ∀ {key : Outpoint}, (∃ coin, view key = .ok (some coin)) →
      view key ≠ .ok none := by
    rintro key ⟨coin, there⟩ nothing
    rw [there] at nothing
    cases nothing
  refine List.disjoint_append_left.mpr
    ⟨List.disjoint_append_right.mpr ⟨independent.outpoints, ?_⟩,
      List.disjoint_append_right.mpr ⟨?_, independent.derivedKeys⟩⟩
  · exact fun key spent created => apart (leftThere key spent) (rightFree key created)
  · exact fun key created spent => apart (rightThere key spent) (leftFree key created)

namespace HostState

/-- A state comes from another one by applying transactions that have no key in common and whose
fees have a given sum. Nothing is said about their order. -/
structure AppliedTogether (txs : List Transaction) (total : Nat) (before after : HostState) :
    Prop where
  /-- Under the keys of each transaction is what that transaction leaves there. -/
  touched : ∀ tx ∈ txs, ∀ key ∈ tx.touched, after.get? (coinCell key) = tx.leaves key
  /-- The other cells but the pool's are as they were. -/
  untouched : ∀ cell, cell ≠ poolKey →
    (∀ tx ∈ txs, ∀ key ∈ tx.touched, coinCell key ≠ cell) → after.get? cell = before.get? cell
  /-- The pool has grown by the fees. -/
  pool : after.pool = before.pool + total
  /-- The pool's cell is written if there is a fee. -/
  poolCell : after.get? poolKey =
    if total = 0 then before.get? poolKey else some (littleEndian 16 (before.pool + total))

namespace AppliedTogether

variable {txs order : List Transaction} {total : Nat} {before middle after : HostState}

theorem nil (state : HostState) : AppliedTogether [] 0 state state where
  touched _ member := by cases member
  untouched _ _ _ := rfl
  pool := rfl
  poolCell := rfl

/-- Transactions that are applied together are so in any order. -/
theorem perm (together : AppliedTogether txs total before after) (same : order.Perm txs) :
    AppliedTogether order total before after where
  touched tx member := together.touched tx (same.mem_iff.mp member)
  untouched cell unpooled others :=
    together.untouched cell unpooled fun tx member => others tx (same.mem_iff.mpr member)
  pool := together.pool
  poolCell := together.poolCell

/-- A coin that none of the transactions touches is found as before. -/
theorem coin?_eq (together : AppliedTogether txs total before after) {key : Outpoint}
    (untouched : ∀ tx ∈ txs, key ∉ tx.touched) : after.coin? key = before.coin? key := by
  rw [coin?_eq_coinIn, coin?_eq_coinIn,
    together.untouched _ (coinCell_ne not_coinMark_prefix_poolKey key)]
  intro tx member touched inside same
  exact untouched tx member (coinCell_inj.mp same ▸ inside)

/-- A transaction that touches nothing of the others is applied together with them. -/
theorem cons (first : AppliedTogether [tx] fee before middle)
    (others : AppliedTogether txs total middle after)
    (apart : ∀ other ∈ txs, tx.touched.Disjoint other.touched) :
    AppliedTogether (tx :: txs) (fee + total) before after where
  touched := by
    refine List.forall_mem_cons.mpr ⟨fun key here => ?_, others.touched⟩
    rw [others.untouched _ (coinCell_ne not_coinMark_prefix_poolKey key),
      first.touched tx List.mem_cons_self key here]
    intro other member touched inside same
    exact apart other member here (coinCell_inj.mp same ▸ inside)
  untouched cell unpooled elsewhere := by
    obtain ⟨here, later⟩ := List.forall_mem_cons.mp elsewhere
    rw [others.untouched cell unpooled later, first.untouched cell unpooled]
    exact List.forall_mem_singleton.mpr here
  pool := by
    rw [others.pool, first.pool, Nat.add_assoc]
  poolCell := by
    rw [others.poolCell, first.poolCell, first.pool, Nat.add_assoc]
    by_cases free : total = 0
    · rw [if_pos free, free, Nat.add_zero]
    · rw [if_neg free, if_neg fun nothing => free (Nat.eq_zero_of_add_eq_zero_left nothing)]

/-- **What transactions leave together is one map.** -/
theorem contents_eq {final : HostState} (one : AppliedTogether txs total before after)
    (another : AppliedTogether txs total before final) : after.contents = final.contents := by
  refine HostState.contents_eq fun cell => ?_
  by_cases pooled : cell = poolKey
  · rw [pooled, one.poolCell, another.poolCell]
  by_cases elsewhere : ∀ tx ∈ txs, ∀ key ∈ tx.touched, coinCell key ≠ cell
  · rw [one.untouched cell pooled elsewhere, another.untouched cell pooled elsewhere]
  · push Not at elsewhere
    obtain ⟨tx, member, key, inside, rfl⟩ := elsewhere
    rw [one.touched tx member key inside, another.touched tx member key inside]

end AppliedTogether
end HostState

namespace Ledger

variable {ledger after : Ledger}

/-- A spend that succeeds leaves what its transaction leaves. -/
theorem spend_appliedTogether (run : ledger.spend verify tx = (.ok fee, after)) :
    AppliedTogether [tx] fee ledger.host after.host := by
  obtain ⟨coins, keys, admissible, moves, pooled, _⟩ := spend_ok run
  obtain ⟨host, applied, rfl⟩ := spend_eq_ok run
  obtain ⟨inner, carried, rfl⟩ := atomically_ok applied
  obtain ⟨_, _, credited, _, credits, rfl⟩ := applyTo_eq_ok carried
  have derived := Transaction.eq_derivedKeys admissible.derived
  have cells := moves.cells
  rw [admissible.map_fst_spent, derived] at cells
  have minted := admissible.map_fst_minted
  rw [derived] at minted
  refine ⟨List.forall_mem_singleton.mpr fun key member => ?_, fun cell unpooled elsewhere => ?_,
    pooled, ?_⟩
  · rw [cells _ (coinCell_ne not_coinMark_prefix_poolKey key)]
    -- Before the outputs are stored the cell is empty: the coin is removed, or there was none.
    refine get?_coinCell_addCoins ?_ _
    by_cases spent : key ∈ tx.outpoints
    · exact get?_removeCoins_of_mem spent
    · have created : key ∈ keys := derived ▸ (List.mem_append.mp member).resolve_left spent
      rw [Option.map_none, ← coin?_eq_none_iff, coin?_removeCoins, if_neg spent]
      exact admissible.free key created
  · have others := List.forall_mem_append.mp (List.forall_mem_singleton.mp elsewhere)
    rw [cells cell unpooled, get?_addCoins_of_ne, get?_removeCoins_of_ne others.1]
    rw [minted]
    exact others.2
  · change HostState.get? (HostState.commit _) poolKey = _
    rw [get?_commit, get?_addCoins_of_unmarked not_coinMark_prefix_poolKey,
      get?_removeCoins_of_unmarked not_coinMark_prefix_poolKey,
      get?_poolKey_creditPool credits, get?_enter, pool_enter]

/-- A transaction that is accepted is spent with the fee that validation gives, if this fits in the
pool and the outputs can be numbered. -/
theorem exists_spend_eq_ok (accepted : validate verify ledger.host.coin? tx = .ok fee)
    (fits : ledger.host.pool + fee < amountBound) (few : tx.outputs.length < 2 ^ 64) :
    ∃ after, ledger.spend verify tx = (.ok fee, after) := by
  rcases run : ledger.spend verify tx with ⟨error | paid, after⟩
  · rcases spend_error_cases (congrArg Prod.fst run) with invalid | ⟨charged, same, full | many⟩
    · rw [accepted] at invalid
      cases invalid
    · rw [accepted] at same
      cases same
      exact absurd fits (Nat.not_lt_of_le full.1)
    · exact absurd few (Nat.not_lt_of_le many.1)
  · obtain ⟨coins, keys, admissible, _⟩ := spend_ok run
    rw [validate_eq_ok_iff.mpr ⟨coins, keys, admissible⟩] at accepted
    cases accepted
    exact ⟨after, rfl⟩

/-- Transactions that are accepted and independent are all spent, with the fees that they have at
the start. -/
theorem run_independent {txs : List Transaction} {fees : Transaction → Nat}
    (accepted : ∀ tx ∈ txs, validate verify ledger.host.coin? tx = .ok (fees tx))
    (few : ∀ tx ∈ txs, tx.outputs.length < 2 ^ 64)
    (independent : txs.Pairwise Transaction.Independent)
    (fits : ledger.host.pool + (txs.map fees).sum < amountBound) :
    (ledger.run (txs.map (.spend verify))).1 =
        txs.map (fun tx => (.spend verify tx, .ok (.spent (fees tx)))) ∧
      AppliedTogether txs (txs.map fees).sum ledger.host
        (ledger.run (txs.map (.spend verify))).2.host ∧
      (ledger.run (txs.map (.spend verify))).2.feesCollected =
        ledger.feesCollected + (txs.map fees).sum := by
  induction txs generalizing ledger with
  | nil => exact ⟨rfl, .nil ledger.host, rfl⟩
  | cons tx txs inductive_step =>
      obtain ⟨here, later⟩ := List.forall_mem_cons.mp accepted
      obtain ⟨fewHere, fewLater⟩ := List.forall_mem_cons.mp few
      obtain ⟨alone, independentLater⟩ := List.pairwise_cons.mp independent
      rw [List.map_cons, List.sum_cons] at fits
      obtain ⟨after, spent⟩ := exists_spend_eq_ok here (by omega) fewHere
      have first := spend_appliedTogether spent
      have apart : ∀ other ∈ txs, tx.touched.Disjoint other.touched := fun other member =>
        touched_disjoint here (later other member) (alone other member)
      -- The others still find what they look at, so they are accepted as before.
      have still : ∀ other ∈ txs, validate verify after.host.coin? other = .ok (fees other) := by
        intro other member
        refine (validate_congr fun key touched => ?_).trans (later other member)
        refine first.coin?_eq (List.forall_mem_singleton.mpr fun taken => ?_)
        exact apart other member taken touched
      have fitsLater : after.host.pool + (txs.map fees).sum < amountBound := by
        rw [first.pool]
        omega
      obtain ⟨reports, together, collected⟩ :=
        inductive_step still fewLater independentLater fitsLater
      have counted : after.feesCollected = ledger.feesCollected + fees tx := by
        obtain ⟨host, _, rfl⟩ := spend_eq_ok spent
        rfl
      simp only [List.map_cons, List.sum_cons, run, perform, spent]
      refine ⟨?_, first.cons together apart, ?_⟩
      · rw [reports]
        rfl
      · rw [collected, counted, Nat.add_assoc]

/-- **Independent transactions may come in any order.** Let a ledger over any state be given
transactions, each of which validation accepts against that state, no two of which spend the same
coin or create a coin under the same key, and whose fees fit in the pool together. Spent one after
another in any order, all of them are accepted, each with the fee that it has against the first
state. Every order ends with the same contents of the state, with a pool and with collected fees
that have grown by the sum of the fees. -/
theorem any_order_ends_alike (ledger : Ledger) (verify : Verifier) {txs order : List Transaction}
    {fees : Transaction → Nat}
    (accepted : ∀ tx ∈ txs, validate verify ledger.host.coin? tx = .ok (fees tx))
    (few : ∀ tx ∈ txs, tx.outputs.length < 2 ^ 64)
    (independent : txs.Pairwise Transaction.Independent)
    (fits : ledger.host.pool + (txs.map fees).sum < amountBound) (same : order.Perm txs) :
    let final := (ledger.run (order.map (.spend verify))).2
    (ledger.run (order.map (.spend verify))).1 =
        order.map (fun tx => (.spend verify tx, .ok (.spent (fees tx)))) ∧
      final.host.contents = (ledger.run (txs.map (.spend verify))).2.host.contents ∧
      final.host.pool = ledger.host.pool + (txs.map fees).sum ∧
      final.feesCollected = ledger.feesCollected + (txs.map fees).sum := by
  intro final
  have sums : (order.map fees).sum = (txs.map fees).sum := (same.map fees).sum_eq
  obtain ⟨_, straight, _⟩ := run_independent accepted few independent fits
  obtain ⟨reports, together, collected⟩ := run_independent
    (fun tx member => accepted tx (same.mem_iff.mp member))
    (fun tx member => few tx (same.mem_iff.mp member))
    (same.symm.pairwise independent Transaction.Independent.symm) (sums ▸ fits)
  rw [sums] at together collected
  exact ⟨reports, (together.perm same.symm).contents_eq straight, together.pool, collected⟩

end Ledger

end

/-- Two coins are there, and each of them is spent by a transaction of its own, one of which leaves
a fee of two. The later one may come first. -/
theorem Ledger.two_payments_in_either_order :
    let owner : PublicKey := FixedBytes.zero 32
    let first : Outpoint := FixedBytes.zero 32
    let second : Outpoint := ⟨List.replicate 32 1, rfl⟩
    let seven : Output := ⟨⟨7, by decide⟩, owner⟩
    let host := (HostState.emptyMemory.addCoin first ⟨⟨5, by decide⟩, owner⟩).addCoin second seven
    let generous : Transaction := ⟨[⟨first, emptySignature⟩], [⟨⟨3, by decide⟩, owner⟩]⟩
    let exact : Transaction := ⟨[⟨second, emptySignature⟩], [seven]⟩
    let accept : Verifier := fun _ _ _ => true
    let straight := (Ledger.ofHost host []).run [.spend accept generous, .spend accept exact]
    let reversed := (Ledger.ofHost host []).run [.spend accept exact, .spend accept generous]
    reversed.1 = [(.spend accept exact, .ok (.spent 0)), (.spend accept generous, .ok (.spent 2))] ∧
      reversed.2.host.contents = straight.2.host.contents ∧ reversed.2.host.pool = 2 := by
  intro owner first second seven host generous exact accept straight reversed
  let fees : Transaction → Nat := fun tx => if tx = generous then 2 else 0
  have fee_generous : fees generous = 2 := if_pos rfl
  have fee_exact : fees exact = 0 := if_neg (by decide)
  have accepted : ∀ tx ∈ [generous, exact], validate accept host.coin? tx = .ok (fees tx) := by
    decide +kernel
  have apart : generous.Independent exact :=
    ⟨List.disjoint_left.mpr (by decide), List.disjoint_left.mpr (by decide +kernel)⟩
  have fits : host.pool + ([generous, exact].map fees).sum < amountBound := by decide +kernel
  obtain ⟨reports, contents, pool, _⟩ :=
    (Ledger.ofHost host []).any_order_ends_alike accept accepted
    (by decide) (List.pairwise_pair.mpr apart) fits (List.Perm.swap generous exact [])
  simp only [List.map_cons, List.map_nil, fee_exact, fee_generous] at reports
  exact ⟨reports, contents, pool.trans (by decide +kernel)⟩

end CoinLedger

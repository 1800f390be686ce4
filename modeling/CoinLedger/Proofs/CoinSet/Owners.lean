import CoinLedger.Proofs.CoinSet.Map
import Mathlib.Algebra.BigOperators.Group.List.Basic
import Mathlib.Data.Set.List

/-! # The coins of each owner

The listing of a well-formed state has every coin that look-ups find, once
(`CoinLedger.HostState.WellFormed.exists_entries`). So a balance is the sum over the keys under
which an owner's coins are found (`CoinLedger.HostState.WellFormed.exists_owned`), and the balances
of all owners are the total (`CoinLedger.HostState.WellFormed.totalValue_eq_sum`).
-/

namespace CoinLedger

/-- What those of some coins that belong to an owner are worth together. -/
def heldBy (owner : PublicKey) (coins : List Output) : Nat :=
  ((coins.filter fun coin => coin.owner = owner).map fun coin => coin.value.toNat).sum

/-- What a coin is worth to an owner: nothing if it belongs to another one. -/
def Output.worthTo (owner : PublicKey) (coin : Output) : Nat :=
  if coin.owner = owner then coin.value.toNat else 0

theorem heldBy_eq (owner : PublicKey) (coins : List Output) :
    heldBy owner coins = (coins.map (Output.worthTo owner)).sum :=
  SortedMap.sum_map_filter (fun coin : Output => coin.owner = owner) _ coins

/-- A coin counts for its owner, and that once among distinct owners. -/
theorem Output.sum_worthTo {owners : List PublicKey} (distinct : owners.Nodup) {coin : Output}
    (owned : coin.owner ∈ owners) :
    (owners.map fun owner => coin.worthTo owner).sum = coin.value.toNat := by
  have others : ∀ owner, owner ≠ coin.owner → owner ∈ owners → coin.worthTo owner = 0 :=
    fun owner other _ => if_neg other.symm
  rw [List.sum_map_eq_nsmul_single coin.owner _ others, List.count_eq_one_of_mem distinct owned,
    one_nsmul, worthTo, if_pos rfl]

/-- **What distinct owners hold together is what all coins are worth**, if each coin belongs to one
of them. -/
theorem sum_heldBy {owners : List PublicKey} (distinct : owners.Nodup) {coins : List Output}
    (covered : ∀ coin ∈ coins, coin.owner ∈ owners) :
    (owners.map fun owner => heldBy owner coins).sum =
      (coins.map fun coin => coin.value.toNat).sum := by
  simp only [heldBy_eq]
  induction coins with
  | nil => exact List.sum_map_zero
  | cons coin coins inductive_step =>
      obtain ⟨here, later⟩ := List.forall_mem_cons.mp covered
      simp only [List.map_cons, List.sum_cons]
      rw [List.sum_map_add, inductive_step later, Output.sum_worthTo distinct here]

namespace HostState

variable {state : HostState}

/-- The cells of coins have distinct names. -/
theorem nodup_coinCells (state : HostState) : (state.coinCells.map Prod.fst).Nodup := by
  have ascending : ((state.contents.withPrefix coinMark).map Prod.fst).Nodup :=
    state.contents.nodup_keys.sublist (List.filter_sublist.map Prod.fst)
  have names : state.coinCells.map Prod.fst =
      ((state.contents.withPrefix coinMark).map Prod.fst).map (·.drop coinMark.length) := by
    rw [coinCells, scan_eq state coinMark_ne_nil, List.map_map, List.map_map]
    rfl
  -- All these keys begin with the mark, so they still differ without it.
  have marked : ∀ cell ∈ (state.contents.withPrefix coinMark).map Prod.fst, coinMark <+: cell := by
    intro cell member
    obtain ⟨entry, listed, rfl⟩ := List.mem_map.mp member
    exact (SortedMap.mem_withPrefix_iff.mp listed).1
  rw [names]
  refine List.Nodup.map_on ?_ ascending
  intro left leftMember right rightMember same
  obtain ⟨leftName, rfl⟩ := marked left leftMember
  obtain ⟨rightName, rfl⟩ := marked right rightMember
  rw [List.drop_left, List.drop_left] at same
  rw [same]

theorem map_fst_of_coins {listed : List (ByteString × Output)} (reads : state.coins = .ok listed) :
    listed.map Prod.fst = state.coinCells.map Prod.fst := by
  rw [← List.forall₂_eq_eq_eq, List.forall₂_map_left_iff, List.forall₂_map_right_iff]
  refine (mapM_eq_ok_iff.mp reads).flip.imp fun entry cell read => ?_
  obtain ⟨coin, _, rfl⟩ := map_eq_ok_iff.mp read
  rfl

/-- **A well-formed state has a list of its coins**, each with the one key under which look-ups find
it. -/
theorem WellFormed.exists_entries (valid : state.WellFormed) :
    ∃ entries : List (Outpoint × Output), (entries.map Prod.fst).Nodup ∧
      (∀ key coin, (key, coin) ∈ entries ↔ state.coin? key = .ok (some coin)) ∧
      ∀ weight : Output → Nat,
        state.worth weight = (entries.map fun entry => weight entry.2).sum := by
  obtain ⟨listed, reads, weighed⟩ := valid.coins_eq_ok
  let named (entry : Outpoint × Output) : ByteString × Output := (entry.1.bytes, entry.2)
  have keyed : listed ∈ Set.range (List.map named) := by
    rw [Set.range_list_map]
    rintro ⟨name, coin⟩ member
    obtain ⟨key, rfl, _⟩ := (valid.mem_coins_iff reads).mp member
    exact ⟨(key, coin), rfl⟩
  obtain ⟨entries, rfl⟩ := keyed
  have names : ((entries.map named).map Prod.fst).Nodup := by
    rw [map_fst_of_coins reads]
    exact state.nodup_coinCells
  refine ⟨entries, ?_, ?_, ?_⟩
  · rw [List.map_map] at names
    refine List.Nodup.of_map FixedBytes.bytes ?_
    rw [List.map_map]
    exact names
  · intro key coin
    have injective : Function.Injective named := by
      rintro ⟨left, leftCoin⟩ ⟨right, rightCoin⟩ same
      obtain ⟨names, coins⟩ := Prod.mk.inj same
      exact Prod.ext (FixedBytes.ext names) coins
    rw [← List.mem_map_of_injective injective, valid.mem_coins_iff reads]
    constructor
    · rintro ⟨other, names, found⟩
      obtain rfl : other = key := FixedBytes.ext names
      exact found
    · exact fun found => ⟨key, rfl, found⟩
  · intro weight
    rw [← weighed, List.map_map]
    rfl

/-- A balance is what all coins are worth to the owner. -/
theorem WellFormed.balanceOf_eq_worth (valid : state.WellFormed) (owner : PublicKey) :
    state.balanceOf owner.bytes = .ok (state.worth (Output.worthTo owner)) := by
  rw [valid.balanceOf_eq]
  refine congrArg (fun weight => Except.ok (state.worth weight)) ?_
  funext coin
  simp only [Output.worthTo, FixedBytes.ext_iff]

/-- **A balance is the sum over the keys under which the owner's coins are found.** -/
theorem WellFormed.exists_owned (valid : state.WellFormed) (owner : PublicKey) :
    ∃ owned : List (Outpoint × Output), (owned.map Prod.fst).Nodup ∧
      (∀ key coin, (key, coin) ∈ owned ↔
        state.coin? key = .ok (some coin) ∧ coin.owner = owner) ∧
      state.worth (Output.worthTo owner) = (owned.map fun entry => entry.2.value.toNat).sum := by
  obtain ⟨entries, distinct, listed, weighed⟩ := valid.exists_entries
  refine ⟨entries.filter fun entry => entry.2.owner = owner, ?_, ?_, ?_⟩
  · exact distinct.sublist (List.filter_sublist.map Prod.fst)
  · intro key coin
    rw [List.mem_filter, listed, decide_eq_true_eq]
  · rw [weighed]
    exact (SortedMap.sum_map_filter (fun entry : Outpoint × Output => entry.2.owner = owner)
      (fun entry => entry.2.value.toNat) entries).symm

/-- **The total is the sum of the balances of distinct owners** who own all coins. -/
theorem WellFormed.totalValue_eq_sum (valid : state.WellFormed) {owners : List PublicKey}
    (distinct : owners.Nodup)
    (covered : ∀ key coin, state.coin? key = .ok (some coin) → coin.owner ∈ owners) :
    state.totalValue =
      .ok (owners.map fun owner => state.worth (Output.worthTo owner)).sum := by
  obtain ⟨entries, _, listed, weighed⟩ := valid.exists_entries
  have owned : ∀ coin ∈ entries.map Prod.snd, coin.owner ∈ owners := by
    intro coin member
    obtain ⟨entry, inside, rfl⟩ := List.mem_map.mp member
    exact covered entry.1 entry.2 ((listed entry.1 entry.2).mp inside)
  have held (owner : PublicKey) :
      state.worth (Output.worthTo owner) = heldBy owner (entries.map Prod.snd) := by
    rw [weighed, heldBy_eq, List.map_map]
    rfl
  simp only [held]
  rw [valid.totalValue_eq, weighed, sum_heldBy distinct owned, List.map_map]
  rfl

end HostState
end CoinLedger

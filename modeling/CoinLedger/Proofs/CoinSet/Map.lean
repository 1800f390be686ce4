import CoinLedger.Proofs.CoinSet.Totals
import CoinLedger.Proofs.Steps
import CoinLedger.Validation
import Mathlib.Logic.Function.Basic

/-! # The map that a state shows

A state whose cells can all be read shows a map from keys to coins
(`CoinLedger.HostState.WellFormed.shows`), and the listing of its coins is that map, entry by entry
(`CoinLedger.HostState.WellFormed.mem_coins_iff`). A move does to the map what it does to the cells:
keys are dropped, and then coins are stored one after another (`CoinLedger.HostState.Moves.shows`).
-/

namespace CoinLedger

/-- Store coins in a map one after another. -/
def storeCoins (entries : List (Outpoint × Output)) (coins : Outpoint → Option Output) :
    Outpoint → Option Output :=
  entries.foldl (fun coins entry => Function.update coins entry.1 (some entry.2)) coins

/-- Drop keys from a map one after another. -/
def dropCoins (keys : List Outpoint) (coins : Outpoint → Option Output) :
    Outpoint → Option Output :=
  keys.foldl (fun coins key => Function.update coins key none) coins

namespace HostState

/-- Every look-up in a state finds what a map has. -/
def Shows (state : HostState) (coins : Outpoint → Option Output) : Prop :=
  state.coin? = CoinView.ofMap coins

/-- The coins that can be read, by their keys. -/
def coinMap (state : HostState) (key : Outpoint) : Option Output :=
  match state.coin? key with
  | .ok found => found
  | .error _ => none

variable {state : HostState} {coins : Outpoint → Option Output}

/-- Look-ups in a well-formed state find what its map of coins has. -/
theorem WellFormed.shows (valid : state.WellFormed) : state.Shows state.coinMap := by
  funext key
  obtain ⟨found, shown⟩ := valid.coin?_eq_ok key
  rw [CoinView.ofMap, coinMap, shown]

/-- Look-ups in a state without cells find nothing. -/
theorem shows_of_empty (empty : ∀ cell, state.get? cell = none) : state.Shows fun _ => none := by
  funext key
  rw [coin?_eq_coinIn, empty]
  rfl

namespace Shows

theorem coin?_eq (shows : state.Shows coins) (key : Outpoint) :
    state.coin? key = .ok (coins key) := by
  rw [shows, CoinView.ofMap]

/-- Storing a coin stores it in the map. -/
theorem addCoin (shows : state.Shows coins) (key : Outpoint) (coin : Output) :
    (state.addCoin key coin).Shows (Function.update coins key (some coin)) := by
  funext other
  rw [coin?_addCoin, shows.coin?_eq, CoinView.ofMap, Function.update_apply]
  split <;> rfl

/-- Removing a coin drops its key from the map. -/
theorem removeCoin (shows : state.Shows coins) (key : Outpoint) :
    (state.removeCoin key).Shows (Function.update coins key none) := by
  funext other
  rw [coin?_removeCoin, shows.coin?_eq, CoinView.ofMap, Function.update_apply]
  split <;> rfl

/-- Storing coins stores them in the map. -/
theorem addCoins (shows : state.Shows coins) (entries : List (Outpoint × Output)) :
    (addCoins entries state).Shows (storeCoins entries coins) := by
  induction entries generalizing state coins with
  | nil => exact shows
  | cons entry rest inductive_step => exact inductive_step (shows.addCoin entry.1 entry.2)

/-- Removing coins drops their keys from the map. -/
theorem removeCoins (shows : state.Shows coins) (keys : List Outpoint) :
    (removeCoins keys state).Shows (dropCoins keys coins) := by
  induction keys generalizing state coins with
  | nil => exact shows
  | cons key rest inductive_step => exact inductive_step (shows.removeCoin key)

end Shows

/-- **A move drops the keys of the coins that it removes and stores the others in their order.** -/
theorem Moves.shows {after : HostState} {spent minted : List (Outpoint × Output)}
    (moves : Moves state after spent minted) (shows : state.Shows coins) :
    after.Shows (storeCoins minted (dropCoins (spent.map Prod.fst) coins)) := by
  funext key
  rw [moves.coin?_eq]
  exact ((shows.removeCoins _).addCoins minted).coin?_eq key

/-- What storing coins leaves in a coin's cell is what storing them leaves in a map that has what
the cell holds. -/
theorem get?_coinCell_addCoins {key : Outpoint}
    (holds : state.get? (coinCell key) = (coins key).map Output.encode)
    (entries : List (Outpoint × Output)) :
    (HostState.addCoins entries state).get? (coinCell key) =
      (storeCoins entries coins key).map Output.encode := by
  induction entries generalizing state coins with
  | nil => exact holds
  | cons entry rest inductive_step =>
      have stored : (state.addCoin entry.1 entry.2).get? (coinCell key) =
          (Function.update coins entry.1 (some entry.2) key).map Output.encode := by
        rw [HostState.addCoin, get?_put]
        by_cases same : key = entry.1
        · rw [if_pos (coinCell_inj.mpr same), same, Function.update_self, Option.map_some]
        · rw [if_neg (mt coinCell_inj.mp same), Function.update_of_ne same, holds]
      exact inductive_step stored

/-- The cells of coins are what is stored under the mark of coins. -/
theorem mem_coinCells_iff {name value : ByteString} :
    (name, value) ∈ state.coinCells ↔ state.get? (coinMark ++ name) = some value := by
  rw [coinCells, scan_eq state coinMark_ne_nil, List.mem_map]
  constructor
  · rintro ⟨⟨cell, stored⟩, listed, same⟩
    obtain ⟨⟨rest, rfl⟩, found⟩ := SortedMap.mem_withPrefix_iff.mp listed
    rw [get?_contents] at found
    rw [List.drop_left] at same
    cases same
    exact found
  · intro found
    refine ⟨(coinMark ++ name, value), SortedMap.mem_withPrefix_iff.mpr ⟨?_, ?_⟩, ?_⟩
    · exact List.prefix_append coinMark name
    · rw [get?_contents, found]
    · rw [List.drop_left]

/-- **The listing of all coins has the coins that look-ups find, each under its key.** -/
theorem WellFormed.mem_coins_iff (valid : state.WellFormed)
    {listed : List (ByteString × Output)} (reads : state.coins = .ok listed) {name : ByteString}
    {coin : Output} :
    (name, coin) ∈ listed ↔
      ∃ key : Outpoint, key.bytes = name ∧ state.coin? key = .ok (some coin) := by
  rw [mem_of_mapM_eq_ok reads]
  constructor
  · rintro ⟨⟨other, value⟩, listed, read⟩
    rw [mem_coinCells_iff] at listed
    obtain ⟨_, decoded, same⟩ := map_eq_ok_iff.mp read
    cases same
    obtain rfl : coin.encode = value := Output.decode_eq_ok_iff.mp decoded
    have wide := (valid.coins _ _ (List.prefix_append coinMark other) listed).1
    rw [List.length_append, Nat.add_left_cancel_iff] at wide
    exact ⟨⟨other, wide⟩, rfl, state.coin?_eq_some_iff.mpr listed⟩
  · rintro ⟨key, rfl, there⟩
    refine ⟨(key.bytes, coin.encode), mem_coinCells_iff.mpr (state.coin?_eq_some_iff.mp there), ?_⟩
    rw [Output.decode_encode]
    rfl

end HostState
end CoinLedger

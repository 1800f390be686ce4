import CoinLedger.CoinSet
import CoinLedger.Proofs.Encoding.Transaction
import CoinLedger.Proofs.Storage.Contents

/-! # Cells of coins and of the pool

The cells of two coins are apart, and the pool's cell is no coin's. So what is found under a key
after a coin is stored or removed is plain, and neither touches the pool. A move takes coins that
are there out of the set and stores others under keys that are free
(`CoinLedger.HostState.Moves`): a coin that was there is still there or was taken out, and a coin
that is there was there before or was stored.
-/

namespace CoinLedger

theorem coinMark_ne_nil : coinMark ≠ [] := by decide +kernel

theorem coinMark_prefix_coinCell (key : Outpoint) : coinMark <+: coinCell key :=
  List.prefix_append coinMark key.bytes

theorem not_coinMark_prefix_poolKey : ¬ coinMark <+: poolKey := by decide +kernel

/-- Each coin has a cell of its own. -/
theorem coinCell_inj {left right : Outpoint} : coinCell left = coinCell right ↔ left = right := by
  constructor
  · intro same
    exact FixedBytes.ext (List.append_cancel_left same)
  · rintro rfl
    rfl

/-- A cell without the mark of coins is not the cell of a coin. -/
theorem coinCell_ne {cell : ByteString} (unmarked : ¬ coinMark <+: cell) (key : Outpoint) :
    coinCell key ≠ cell := by
  rintro rfl
  exact unmarked (coinMark_prefix_coinCell key)

namespace HostState

variable (state : HostState)

/-- The coin in a cell. -/
def coinIn : Option ByteString → Except DecodeError (Option Output)
  | none => .ok none
  | some bytes => (Output.decode bytes).map some

/-- What a look-up finds depends on the coin's own cell. -/
theorem coin?_eq_coinIn (key : Outpoint) :
    state.coin? key = coinIn (state.get? (coinCell key)) := by
  unfold coin?
  cases state.get? (coinCell key) <;> rfl

/-- A coin is under a key when the key's cell holds the encoding of the coin. -/
theorem coin?_eq_some_iff {key : Outpoint} {coin : Output} :
    state.coin? key = .ok (some coin) ↔ state.get? (coinCell key) = some coin.encode := by
  rw [coin?_eq_coinIn]
  cases stored : state.get? (coinCell key) with
  | none => exact ⟨(fun same => nomatch same), (fun same => nomatch same)⟩
  | some bytes =>
      rw [coinIn]
      constructor
      · intro found
        cases read : Output.decode bytes with
        | error reason =>
            rw [read] at found
            cases found
        | ok other =>
            rw [read] at found
            cases found
            exact congrArg some (Output.decode_eq_ok_iff.mp read).symm
      · intro same
        cases same
        rw [Output.decode_encode]
        rfl

/-- A write elsewhere leaves a coin as it is. -/
theorem coin?_put_of_ne {cell : ByteString} (unmarked : ¬ coinMark <+: cell) (value : ByteString) :
    (state.put cell value).coin? = state.coin? := by
  funext key
  rw [coin?_eq_coinIn, coin?_eq_coinIn, get?_put, if_neg (coinCell_ne unmarked key)]

/-- After a coin has been added, its key finds it and all others find what they found. -/
@[simp] theorem coin?_addCoin (key other : Outpoint) (coin : Output) :
    (state.addCoin key coin).coin? other =
      if other = key then .ok (some coin) else state.coin? other := by
  rw [coin?_eq_coinIn, coin?_eq_coinIn, addCoin, get?_put]
  by_cases same : other = key
  · rw [if_pos (coinCell_inj.mpr same), if_pos same, coinIn, Output.decode_encode]
    rfl
  · rw [if_neg (mt coinCell_inj.mp same), if_neg same]

/-- A key is free after a coin has been added exactly when it was free and is not the key of this
coin. -/
theorem coin?_addCoin_eq_none_iff {key other : Outpoint} {coin : Output} :
    (state.addCoin key coin).coin? other = .ok none ↔
      other ≠ key ∧ state.coin? other = .ok none := by
  rw [coin?_addCoin]
  by_cases same : other = key
  · simp [same]
  · simp [same]

/-- After a coin has been removed, its key is free and all others find what they found. -/
@[simp] theorem coin?_removeCoin (key other : Outpoint) :
    (state.removeCoin key).coin? other = if other = key then .ok none else state.coin? other := by
  rw [coin?_eq_coinIn, coin?_eq_coinIn, removeCoin, get?_delete]
  by_cases same : other = key
  · rw [if_pos (coinCell_inj.mpr same), if_pos same, coinIn]
  · rw [if_neg (mt coinCell_inj.mp same), if_neg same]

@[simp] theorem coin?_setPool (value : Amount) : (state.setPool value).coin? = state.coin? :=
  state.coin?_put_of_ne not_coinMark_prefix_poolKey value.encode

@[simp] theorem coin?_enter : state.enter.coin? = state.coin? := by
  funext key
  rw [coin?_eq_coinIn, coin?_eq_coinIn, get?_enter]

@[simp] theorem coin?_commit : state.commit.coin? = state.coin? := by
  funext key
  rw [coin?_eq_coinIn, coin?_eq_coinIn, get?_commit]

/-- A key is free exactly when its cell is empty. -/
theorem coin?_eq_none_iff {key : Outpoint} :
    state.coin? key = .ok none ↔ state.get? (coinCell key) = none := by
  rw [coin?_eq_coinIn]
  cases state.get? (coinCell key) with
  | none => simp [coinIn]
  | some bytes =>
      cases read : Output.decode bytes <;> simp [coinIn, read, Except.map]

/-- A key is free when there is no cell for it. -/
theorem hasCoin_eq_false_iff (key : Outpoint) :
    state.hasCoin key = false ↔ state.coin? key = .ok none := by
  rw [hasCoin, contains, coin?_eq_none_iff, Option.isSome_eq_false_iff, Option.isNone_iff_eq_none]

@[simp] theorem hasCoin_setPool (value : Amount) :
    (state.setPool value).hasCoin = state.hasCoin := by
  funext key
  rw [hasCoin, hasCoin, contains, contains, setPool, get?_put,
    if_neg (coinCell_ne not_coinMark_prefix_poolKey key)]

@[simp] theorem hasCoin_enter : state.enter.hasCoin = state.hasCoin := by
  funext key
  rw [hasCoin, hasCoin, contains, contains, get?_enter]

/-- A key is taken after a coin has been added exactly when it was taken or is the key of this
coin. -/
theorem hasCoin_addCoin_iff {key other : Outpoint} {coin : Output} :
    (state.addCoin key coin).hasCoin other = true ↔ other = key ∨ state.hasCoin other = true := by
  rw [← not_iff_not, Bool.not_eq_true, hasCoin_eq_false_iff, coin?_addCoin_eq_none_iff,
    ← hasCoin_eq_false_iff, not_or, Bool.not_eq_true]

/-- The pool depends on its own cell. -/
theorem pool_eq_of_get?_eq {left right : HostState}
    (same : left.get? poolKey = right.get? poolKey) :
    left.pool = right.pool := by
  rw [pool, pool, same]

@[simp] theorem pool_setPool (value : Amount) : (state.setPool value).pool = value.toNat := by
  rw [pool, setPool, get?_put, if_pos rfl]
  exact ofLittleEndian_littleEndian value.toNat_lt

@[simp] theorem pool_enter : state.enter.pool = state.pool :=
  pool_eq_of_get?_eq (state.get?_enter poolKey)

@[simp] theorem pool_commit : state.commit.pool = state.pool :=
  pool_eq_of_get?_eq (state.get?_commit poolKey)

/-- Store coins one after another. -/
def addCoins (coins : List (Outpoint × Output)) (state : HostState) : HostState :=
  coins.foldl (fun state entry => state.addCoin entry.1 entry.2) state

/-- Remove coins one after another. -/
def removeCoins (keys : List Outpoint) (state : HostState) : HostState :=
  keys.foldl removeCoin state

variable {state}

/-- Storing coins leaves the cells that are none of theirs as they are. -/
theorem get?_addCoins_of_ne {cell : ByteString} {coins : List (Outpoint × Output)}
    (other : ∀ key ∈ coins.map Prod.fst, coinCell key ≠ cell) :
    (addCoins coins state).get? cell = state.get? cell := by
  induction coins generalizing state with
  | nil => rfl
  | cons entry rest inductive_step =>
      obtain ⟨here, later⟩ := List.forall_mem_cons.mp other
      refine (inductive_step later).trans ((state.get?_put _ _ _).trans ?_)
      rw [if_neg here.symm]

/-- Removing coins leaves the cells of other keys alone. -/
theorem get?_removeCoins_of_ne {cell : ByteString} {keys : List Outpoint}
    (other : ∀ key ∈ keys, coinCell key ≠ cell) :
    (removeCoins keys state).get? cell = state.get? cell := by
  induction keys generalizing state with
  | nil => rfl
  | cons key rest inductive_step =>
      obtain ⟨here, later⟩ := List.forall_mem_cons.mp other
      refine (inductive_step later).trans ((state.get?_delete _ _).trans ?_)
      rw [if_neg here.symm]

/-- Adding coins leaves the cells that are not for coins alone. -/
theorem get?_addCoins_of_unmarked {cell : ByteString} (unmarked : ¬ coinMark <+: cell)
    (coins : List (Outpoint × Output)) : (addCoins coins state).get? cell = state.get? cell :=
  get?_addCoins_of_ne fun key _ => coinCell_ne unmarked key

/-- Removing coins leaves the cells that are not for coins alone. -/
theorem get?_removeCoins_of_unmarked {cell : ByteString} (unmarked : ¬ coinMark <+: cell)
    (keys : List Outpoint) : (removeCoins keys state).get? cell = state.get? cell :=
  get?_removeCoins_of_ne fun key _ => coinCell_ne unmarked key

/-- There is nothing in the cell of a coin that is removed. -/
theorem get?_removeCoins_of_mem {key : Outpoint} {keys : List Outpoint} (member : key ∈ keys) :
    (removeCoins keys state).get? (coinCell key) = none := by
  induction keys generalizing state with
  | nil => cases member
  | cons first rest inductive_step =>
      by_cases later : key ∈ rest
      · exact inductive_step later
      · obtain rfl := (List.mem_cons.mp member).resolve_right later
        have others : ∀ other ∈ rest, coinCell other ≠ coinCell key :=
          fun other inside same => later (coinCell_inj.mp same ▸ inside)
        refine (get?_removeCoins_of_ne others).trans ((state.get?_delete _ _).trans ?_)
        rw [if_pos rfl]

theorem pool_addCoins (coins : List (Outpoint × Output)) :
    (addCoins coins state).pool = state.pool :=
  pool_eq_of_get?_eq (get?_addCoins_of_unmarked not_coinMark_prefix_poolKey coins)

theorem pool_removeCoins (keys : List Outpoint) : (removeCoins keys state).pool = state.pool :=
  pool_eq_of_get?_eq (get?_removeCoins_of_unmarked not_coinMark_prefix_poolKey keys)

/-- What is in a cell after coins are stored depends on what was in that cell alone. -/
theorem get?_addCoins_congr {left right : HostState} {cell : ByteString}
    (same : left.get? cell = right.get? cell) (coins : List (Outpoint × Output)) :
    (addCoins coins left).get? cell = (addCoins coins right).get? cell := by
  induction coins generalizing left right with
  | nil => exact same
  | cons entry rest inductive_step =>
      apply inductive_step
      refine (left.get?_put _ _ _).trans (Eq.trans ?_ (right.get?_put _ _ _).symm)
      rw [same]

/-- What a cell holds after coins have been removed depends on what it held before. -/
theorem get?_removeCoins_congr {left right : HostState} {cell : ByteString}
    (same : left.get? cell = right.get? cell) (keys : List Outpoint) :
    (removeCoins keys left).get? cell = (removeCoins keys right).get? cell := by
  induction keys generalizing left right with
  | nil => exact same
  | cons key rest inductive_step =>
      apply inductive_step
      refine (left.get?_delete _ _).trans (Eq.trans ?_ (right.get?_delete _ _).symm)
      rw [same]

/-- Adding coins under other keys leaves the coin of a key alone. -/
theorem coin?_addCoins_of_not_mem {key : Outpoint} {coins : List (Outpoint × Output)}
    (absent : key ∉ coins.map Prod.fst) : (addCoins coins state).coin? key = state.coin? key := by
  induction coins generalizing state with
  | nil => rfl
  | cons entry rest inductive_step =>
      rw [List.map_cons, List.mem_cons, not_or] at absent
      refine (inductive_step absent.2).trans ((state.coin?_addCoin _ _ _).trans ?_)
      rw [if_neg absent.1]

/-- The coin under a key is the last one that was stored there. -/
theorem coin?_addCoins_of_mem (state : HostState) {key : Outpoint}
    {coins : List (Outpoint × Output)} (member : key ∈ coins.map Prod.fst) :
    ∃ coin, (key, coin) ∈ coins ∧ (addCoins coins state).coin? key = .ok (some coin) := by
  induction coins generalizing state with
  | nil => cases member
  | cons entry rest inductive_step =>
      -- A coin that is stored later under the same key hides this one.
      by_cases later : key ∈ rest.map Prod.fst
      · obtain ⟨coin, inside, found⟩ := inductive_step (state.addCoin entry.1 entry.2) later
        exact ⟨coin, List.mem_cons_of_mem entry inside, found⟩
      · rw [List.map_cons, List.mem_cons] at member
        have same : key = entry.1 := member.resolve_right later
        refine ⟨entry.2, same ▸ List.mem_cons_self, ?_⟩
        refine (coin?_addCoins_of_not_mem later).trans ((state.coin?_addCoin _ _ _).trans ?_)
        rw [if_pos same]

/-- A coin that no later one is stored over is found under its key. -/
theorem coin?_addCoins_of_last {coins : List (Outpoint × Output)} {index : Nat}
    {entry : Outpoint × Output} (here : coins[index]? = some entry)
    (last : ∀ later other, index < later → coins[later]? = some other → other.1 ≠ entry.1) :
    (addCoins coins state).coin? entry.1 = .ok (some entry.2) := by
  induction coins generalizing index state with
  | nil => cases here
  | cons first rest inductive_step =>
      cases index with
      | zero =>
          obtain rfl : first = entry := Option.some.inj here
          have absent : first.1 ∉ rest.map Prod.fst := by
            intro stored
            obtain ⟨other, member, same⟩ := List.mem_map.mp stored
            obtain ⟨place, found⟩ := List.mem_iff_getElem?.mp member
            exact last (place + 1) other (Nat.succ_pos place) found same
          refine (coin?_addCoins_of_not_mem absent).trans ((state.coin?_addCoin _ _ _).trans ?_)
          rw [if_pos rfl]
      | succ index =>
          exact inductive_step here fun later other after found =>
            last (later + 1) other (Nat.succ_lt_succ after) found

/-- After coins have been removed, their keys are free and all others find what they found. -/
theorem coin?_removeCoins (key : Outpoint) (keys : List Outpoint) :
    (removeCoins keys state).coin? key =
      if key ∈ keys then .ok none else state.coin? key := by
  induction keys generalizing state with
  | nil => rfl
  | cons first rest inductive_step =>
      refine inductive_step.trans ?_
      rw [coin?_removeCoin]
      by_cases same : key = first
      · simp [same]
      · simp [same]

/-- Coins are removed inside a transaction that stays open. -/
theorem InnerOf.removeCoins {base : HostState} (inside : state.InnerOf base)
    (keys : List Outpoint) : (removeCoins keys state).InnerOf base := by
  induction keys generalizing state with
  | nil => exact inside
  | cons key rest inductive_step => exact inductive_step (inside.delete _)

/-- A state comes from another one by removing coins that are there, each once, and then storing
coins under keys that were free. The pool may have been set besides. -/
structure Moves (before after : HostState) (spent minted : List (Outpoint × Output)) : Prop where
  /-- The coins that are removed are there. -/
  present : ∀ entry ∈ spent, before.coin? entry.1 = .ok (some entry.2)
  /-- No coin is removed twice. -/
  once : (spent.map Prod.fst).Nodup
  /-- Nothing is under the keys of the coins that are stored. -/
  free : ∀ entry ∈ minted, before.coin? entry.1 = .ok none
  /-- All cells but the pool's are as after removing and storing. -/
  cells : ∀ cell, cell ≠ poolKey →
    after.get? cell = (addCoins minted (removeCoins (spent.map Prod.fst) before)).get? cell
  /-- The pool's cell is left alone or set to an amount. -/
  pool : after.get? poolKey = before.get? poolKey ∨
    ∃ amount : Amount, after.get? poolKey = some amount.encode

namespace Moves

variable {before after : HostState} {spent minted : List (Outpoint × Output)}

theorem refl (state : HostState) : Moves state state [] [] where
  present _ member := by cases member
  once := List.nodup_nil
  free _ member := by cases member
  cells _ _ := rfl
  pool := .inl rfl

/-- Removing coins that are there and storing others under free keys is a move. -/
theorem exchange (present : ∀ entry ∈ spent, before.coin? entry.1 = .ok (some entry.2))
    (once : (spent.map Prod.fst).Nodup) (free : ∀ entry ∈ minted, before.coin? entry.1 = .ok none) :
    Moves before (addCoins minted (removeCoins (spent.map Prod.fst) before)) spent minted where
  present := present
  once := once
  free := free
  cells _ _ := rfl
  pool := by
    left
    rw [get?_addCoins_of_unmarked not_coinMark_prefix_poolKey,
      get?_removeCoins_of_unmarked not_coinMark_prefix_poolKey]

/-- Storing coins under free keys is a move. -/
theorem store (free : ∀ entry ∈ minted, before.coin? entry.1 = .ok none) :
    Moves before (addCoins minted before) [] minted :=
  @exchange before [] minted (fun _ member => by cases member) List.nodup_nil free

/-- A move that starts after the pool was set starts before that, too. -/
theorem of_setPool {amount : Amount} (moves : Moves (before.setPool amount) after spent minted) :
    Moves before after spent minted where
  present entry member := by
    have there := moves.present entry member
    rwa [coin?_setPool] at there
  once := moves.once
  free entry member := by
    have nothing := moves.free entry member
    rwa [coin?_setPool] at nothing
  cells cell other := by
    have same : (before.setPool amount).get? cell = before.get? cell := by
      rw [setPool, get?_put, if_neg other]
    rw [moves.cells cell other]
    exact get?_addCoins_congr (get?_removeCoins_congr same _) minted
  pool := by
    rcases moves.pool with same | set
    · right
      refine ⟨amount, same.trans ?_⟩
      rw [setPool, get?_put, if_pos rfl]
    · exact .inr set

/-- A move inside a transaction that is kept is a move. -/
theorem atomically {inner : HostState} (moves : Moves before.enter inner spent minted) :
    Moves before inner.commit spent minted where
  present entry member := by
    have there := moves.present entry member
    rwa [coin?_enter] at there
  once := moves.once
  free entry member := by
    have nothing := moves.free entry member
    rwa [coin?_enter] at nothing
  cells cell other := by
    rw [get?_commit, moves.cells cell other]
    exact get?_addCoins_congr (get?_removeCoins_congr (before.get?_enter cell) _) minted
  pool := by
    rw [get?_commit]
    rcases moves.pool with same | set
    · exact .inl (same.trans (before.get?_enter poolKey))
    · exact .inr set

variable (moves : Moves before after spent minted)

include moves

/-- What a key finds afterwards is decided by removing the spent coins and adding the new ones. -/
theorem coin?_eq (key : Outpoint) :
    after.coin? key = (addCoins minted (removeCoins (spent.map Prod.fst) before)).coin? key := by
  rw [coin?_eq_coinIn, coin?_eq_coinIn, moves.cells _ (coinCell_ne not_coinMark_prefix_poolKey key)]

/-- Cells that are neither a coin's nor the pool's stay as they are. -/
theorem frame {cell : ByteString} (unmarked : ¬ coinMark <+: cell) (other : cell ≠ poolKey) :
    after.get? cell = before.get? cell := by
  rw [moves.cells cell other, get?_addCoins_of_unmarked unmarked,
    get?_removeCoins_of_unmarked unmarked]

/-- No key is both that of a spent coin and that of a new one. -/
theorem not_mem_minted {key : Outpoint} (member : key ∈ spent.map Prod.fst) :
    key ∉ minted.map Prod.fst := by
  intro stored
  obtain ⟨taken, takenMember, rfl⟩ := List.mem_map.mp member
  obtain ⟨entry, entryMember, same⟩ := List.mem_map.mp stored
  have there := moves.present taken takenMember
  have nothing := moves.free entry entryMember
  rw [same, there] at nothing
  cases nothing

/-- The key of a spent coin is free afterwards. -/
theorem gone {key : Outpoint} (member : key ∈ spent.map Prod.fst) : after.coin? key = .ok none := by
  rw [moves.coin?_eq, coin?_addCoins_of_not_mem (moves.not_mem_minted member), coin?_removeCoins,
    if_pos member]

/-- What is under a key that is neither removed nor stored stays as it is. -/
theorem kept {key : Outpoint} (unspent : key ∉ spent.map Prod.fst)
    (unminted : key ∉ minted.map Prod.fst) : after.coin? key = before.coin? key := by
  rw [moves.coin?_eq, coin?_addCoins_of_not_mem unminted, coin?_removeCoins, if_neg unspent]

/-- A coin that is stored under a key of its own is found there. -/
theorem found (distinct : (minted.map Prod.fst).Nodup) {entry : Outpoint × Output}
    (member : entry ∈ minted) : after.coin? entry.1 = .ok (some entry.2) := by
  obtain ⟨coin, inside, there⟩ := coin?_addCoins_of_mem
    (removeCoins (spent.map Prod.fst) before) (List.mem_map_of_mem member)
  have same : (entry.1, coin) = entry := List.inj_on_of_nodup_map distinct inside member rfl
  rw [moves.coin?_eq, there, ← congrArg Prod.snd same]

/-- A key that was free is still free, or a coin was stored under it. -/
theorem free_or_minted {key : Outpoint} (nothing : before.coin? key = .ok none) :
    after.coin? key = .ok none ∨ key ∈ minted.map Prod.fst := by
  by_cases stored : key ∈ minted.map Prod.fst
  · exact .inr stored
  · left
    rw [moves.coin?_eq, coin?_addCoins_of_not_mem stored, coin?_removeCoins, nothing, ite_self]

/-- **A coin that was there is still there, or was removed.** -/
theorem remains {key : Outpoint} {coin : Output} (there : before.coin? key = .ok (some coin)) :
    after.coin? key = .ok (some coin) ∨ ((key, coin) ∈ spent ∧ after.coin? key = .ok none) := by
  by_cases taken : key ∈ spent.map Prod.fst
  · right
    obtain ⟨entry, member, rfl⟩ := List.mem_map.mp taken
    have same := moves.present entry member
    rw [there] at same
    cases same
    exact ⟨member, moves.gone taken⟩
  · left
    -- Coins are stored under free keys only, and this key is taken.
    have unminted : key ∉ minted.map Prod.fst := by
      intro stored
      obtain ⟨entry, member, rfl⟩ := List.mem_map.mp stored
      rw [moves.free entry member] at there
      cases there
    rw [moves.kept taken unminted, there]

/-- **A coin that is there was there before, or was stored.** -/
theorem origin {key : Outpoint} {coin : Output} (there : after.coin? key = .ok (some coin)) :
    before.coin? key = .ok (some coin) ∨ (key, coin) ∈ minted := by
  by_cases stored : key ∈ minted.map Prod.fst
  · right
    obtain ⟨latest, member, found⟩ :=
      coin?_addCoins_of_mem (removeCoins (spent.map Prod.fst) before) stored
    rw [moves.coin?_eq, found] at there
    cases there
    exact member
  · left
    rw [moves.coin?_eq, coin?_addCoins_of_not_mem stored, coin?_removeCoins] at there
    split at there
    · cases there
    · exact there

end Moves
end HostState
end CoinLedger

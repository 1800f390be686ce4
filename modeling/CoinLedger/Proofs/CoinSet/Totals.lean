import CoinLedger.Proofs.CoinSet.Cells

/-! # Totals of the coin set

In a well-formed state every cell of a coin can be read, so the total and the balances are what
the coins are worth (`CoinLedger.HostState.WellFormed.totalValue_eq`,
`CoinLedger.HostState.WellFormed.balanceOf_eq`). What they are worth follows a move: the coins
that are removed are taken off, and those that are stored come on top, each of them if their keys
are distinct (`CoinLedger.HostState.Moves.worth_eq`), and at most that otherwise
(`CoinLedger.HostState.Moves.worth_le`).
-/

namespace CoinLedger

/-- Forty-eight bytes are the encoding of a coin. -/
theorem Output.decode_of_length {bytes : ByteString} (length : bytes.length = 48) :
    ∃ coin, Output.decode bytes = .ok coin := by
  have front : (bytes.take 16).length = 16 := by
    rw [List.length_take]
    omega
  have back : (bytes.drop 16).length = 32 := by
    rw [List.length_drop]
    omega
  refine ⟨⟨Amount.decode ⟨bytes.take 16, front⟩, ⟨bytes.drop 16, back⟩⟩, ?_⟩
  rw [Output.decode_eq_ok_iff, Output.encode, Amount.encode_decode]
  exact List.take_append_drop 16 bytes

namespace HostState

/-- Cells under the mark of coins are cells of coins, and the pool's cell holds an amount. -/
structure WellFormed (state : HostState) : Prop where
  /-- A cell under the mark has the size of a coin's cell and holds as many bytes as a coin has. -/
  coins : ∀ cell value, coinMark <+: cell → state.get? cell = some value →
    cell.length = coinMark.length + 32 ∧ value.length = 48
  /-- The pool's cell holds as many bytes as an amount has. -/
  pool : ∀ value, state.get? poolKey = some value → value.length = 16

variable {state : HostState}

/-- A state without cells is well-formed. -/
theorem wellFormed_of_empty (empty : ∀ cell, state.get? cell = none) : state.WellFormed where
  coins cell value _ stored := by
    rw [empty] at stored
    cases stored
  pool value stored := by
    rw [empty] at stored
    cases stored

/-- A write of bytes of the right size to a cell of the right kind leaves a state well-formed. -/
theorem WellFormed.write (valid : state.WellFormed) {cell : ByteString} {value : Option ByteString}
    (coin : ∀ bytes, coinMark <+: cell → value = some bytes →
      cell.length = coinMark.length + 32 ∧ bytes.length = 48)
    (amount : ∀ bytes, cell = poolKey → value = some bytes → bytes.length = 16) :
    (state.write cell value).WellFormed where
  coins other bytes marked stored := by
    rw [get?_write] at stored
    split at stored
    · rename_i same
      subst same
      exact coin bytes marked stored
    · exact valid.coins other bytes marked stored
  pool bytes stored := by
    rw [get?_write] at stored
    split at stored
    · rename_i same
      exact amount bytes same.symm stored
    · exact valid.pool bytes stored

/-- Storing a coin keeps a state well-formed. -/
theorem WellFormed.addCoin (valid : state.WellFormed) (key : Outpoint) (coin : Output) :
    (state.addCoin key coin).WellFormed := by
  refine valid.write ?_ ?_
  · rintro bytes _ stored
    cases stored
    refine ⟨?_, coin.length_encode⟩
    rw [coinCell, List.length_append, key.length_bytes]
  · exact fun _ same => absurd same (coinCell_ne not_coinMark_prefix_poolKey key)

theorem WellFormed.removeCoin (valid : state.WellFormed) (key : Outpoint) :
    (state.removeCoin key).WellFormed :=
  valid.write (fun _ _ stored => by cases stored) (fun _ _ stored => by cases stored)

/-- Setting the pool keeps a state well-formed. -/
theorem WellFormed.setPool (valid : state.WellFormed) (amount : Amount) :
    (state.setPool amount).WellFormed := by
  refine valid.write (fun _ marked => absurd marked not_coinMark_prefix_poolKey) ?_
  rintro bytes _ stored
  cases stored
  exact amount.length_encode

/-- Storing coins keeps a state well-formed. -/
theorem WellFormed.addCoins (valid : state.WellFormed) (coins : List (Outpoint × Output)) :
    (addCoins coins state).WellFormed := by
  induction coins generalizing state with
  | nil => exact valid
  | cons entry rest inductive_step => exact inductive_step (valid.addCoin entry.1 entry.2)

/-- Removing coins keeps a state well-formed. -/
theorem WellFormed.removeCoins (valid : state.WellFormed) (keys : List Outpoint) :
    (removeCoins keys state).WellFormed := by
  induction keys generalizing state with
  | nil => exact valid
  | cons key rest inductive_step => exact inductive_step (valid.removeCoin key)

/-- **A move leaves a state well-formed.** -/
theorem Moves.wellFormed {before after : HostState} {spent minted : List (Outpoint × Output)}
    (moves : Moves before after spent minted) (valid : before.WellFormed) : after.WellFormed where
  coins cell value marked stored := by
    have other : cell ≠ poolKey := by
      rintro rfl
      exact not_coinMark_prefix_poolKey marked
    rw [moves.cells cell other] at stored
    exact ((valid.removeCoins _).addCoins minted).coins cell value marked stored
  pool value stored := by
    rcases moves.pool with same | ⟨amount, set⟩
    · exact valid.pool value (same ▸ stored)
    · rw [set] at stored
      cases stored
      exact amount.length_encode

/-- In a well-formed state a cell under the mark that holds anything is the cell of a coin. -/
theorem WellFormed.exists_coin (valid : state.WellFormed) {cell value : ByteString}
    (marked : coinMark <+: cell) (stored : state.get? cell = some value) :
    ∃ (key : Outpoint) (coin : Output), cell = coinCell key ∧ value = coin.encode := by
  obtain ⟨name, rfl⟩ := marked
  obtain ⟨cellLength, valueLength⟩ := valid.coins _ value (List.prefix_append coinMark name) stored
  rw [List.length_append] at cellLength
  obtain ⟨coin, read⟩ := Output.decode_of_length valueLength
  exact ⟨⟨name, by omega⟩, coin, rfl, (Output.decode_eq_ok_iff.mp read).symm⟩

/-- Over a well-formed state every look-up of a coin succeeds. -/
theorem WellFormed.coin?_eq_ok (valid : state.WellFormed) (key : Outpoint) :
    ∃ found, state.coin? key = .ok found := by
  rw [coin?_eq_coinIn]
  cases stored : state.get? (coinCell key) with
  | none => exact ⟨none, rfl⟩
  | some bytes =>
      obtain ⟨coin, read⟩ := Output.decode_of_length
        (valid.coins _ bytes (coinMark_prefix_coinCell key) stored).2
      exact ⟨some coin, by rw [coinIn, read]; rfl⟩

/-- The pool of a well-formed state fits in 128 bits. -/
theorem WellFormed.pool_lt (valid : state.WellFormed) : state.pool < amountBound := by
  rw [HostState.pool]
  cases stored : state.get? poolKey with
  | none => decide
  | some bytes =>
      have bound := ofLittleEndian_lt bytes
      rw [valid.pool bytes stored] at bound
      exact bound

/-- What the coin in some bytes is worth; bytes that hold no coin are worth nothing. -/
def worthIn (weight : Output → Nat) (bytes : ByteString) : Nat :=
  match Output.decode bytes with
  | .ok coin => weight coin
  | .error _ => 0

/-- What all coins of a state are worth together. -/
def worth (weight : Output → Nat) (state : HostState) : Nat :=
  state.contents.sum fun cell bytes => if coinMark <+: cell then worthIn weight bytes else 0

/-- What is found under a key is worth. -/
def worthOf (weight : Output → Nat) : Except DecodeError (Option Output) → Nat
  | .ok (some coin) => weight coin
  | _ => 0

variable (weight : Output → Nat)

/-- A cell of a coin adds to the worth what is found under its key. -/
theorem weightAt_coinCell (key : Outpoint) :
    SortedMap.weightAt (fun cell bytes => if coinMark <+: cell then worthIn weight bytes else 0)
        (coinCell key) (state.contents.get? (coinCell key)) =
      worthOf weight (state.coin? key) := by
  rw [get?_contents, coin?_eq_coinIn]
  cases state.get? (coinCell key) with
  | none => rfl
  | some bytes =>
      rw [SortedMap.weightAt, if_pos (coinMark_prefix_coinCell key), worthIn, coinIn]
      cases Output.decode bytes <;> rfl

/-- A stored coin takes the place of what was under its key. -/
theorem worth_addCoin (state : HostState) (key : Outpoint) (coin : Output) :
    (state.addCoin key coin).worth weight + worthOf weight (state.coin? key) =
      state.worth weight + weight coin := by
  have exchange := state.contents.sum_write
    (fun cell bytes => if coinMark <+: cell then worthIn weight bytes else 0)
    (coinCell key) (some coin.encode)
  rw [← contents_write, weightAt_coinCell] at exchange
  rw [SortedMap.weightAt, if_pos (coinMark_prefix_coinCell key), worthIn,
    Output.decode_encode] at exchange
  exact exchange

/-- What was under the key of a removed coin is taken off. -/
theorem worth_removeCoin (state : HostState) (key : Outpoint) :
    (state.removeCoin key).worth weight + worthOf weight (state.coin? key) =
      state.worth weight := by
  have exchange := state.contents.sum_write
    (fun cell bytes => if coinMark <+: cell then worthIn weight bytes else 0) (coinCell key) none
  rw [← contents_write, weightAt_coinCell] at exchange
  exact exchange

/-- Storing coins adds at most what they are worth. -/
theorem worth_addCoins_le (coins : List (Outpoint × Output)) (state : HostState) :
    (addCoins coins state).worth weight ≤
      state.worth weight + (coins.map fun entry => weight entry.2).sum := by
  induction coins generalizing state with
  | nil => exact Nat.le_refl _
  | cons entry rest inductive_step =>
      have first := worth_addCoin weight state entry.1 entry.2
      have later := inductive_step (state.addCoin entry.1 entry.2)
      rw [List.map_cons, List.sum_cons]
      change (HostState.addCoins rest (state.addCoin entry.1 entry.2)).worth weight ≤ _
      omega

/-- Coins that are stored under distinct free keys all count. -/
theorem worth_addCoins {coins : List (Outpoint × Output)} (distinct : (coins.map Prod.fst).Nodup)
    (free : ∀ entry ∈ coins, state.coin? entry.1 = .ok none) :
    (addCoins coins state).worth weight =
      state.worth weight + (coins.map fun entry => weight entry.2).sum := by
  induction coins generalizing state with
  | nil => rfl
  | cons entry rest inductive_step =>
      rw [List.map_cons] at distinct
      obtain ⟨fresh, distinct⟩ := List.nodup_cons.mp distinct
      have first := worth_addCoin weight state entry.1 entry.2
      rw [free entry List.mem_cons_self] at first
      have others : ∀ other ∈ rest, (state.addCoin entry.1 entry.2).coin? other.1 = .ok none := by
        intro other member
        refine state.coin?_addCoin_eq_none_iff.mpr ⟨?_, free other (List.mem_cons_of_mem _ member)⟩
        intro same
        exact fresh (same ▸ List.mem_map_of_mem member)
      have later := inductive_step distinct others
      change (HostState.addCoins rest (state.addCoin entry.1 entry.2)).worth weight = _
      rw [later, List.map_cons, List.sum_cons]
      change _ + 0 = _ at first
      omega

/-- What is under keys that are removed, each once, is taken off. -/
theorem worth_removeCoins_add {keys : List Outpoint} (once : keys.Nodup) :
    (removeCoins keys state).worth weight +
        (keys.map fun key => worthOf weight (state.coin? key)).sum = state.worth weight := by
  induction keys generalizing state with
  | nil => rfl
  | cons key rest inductive_step =>
      obtain ⟨fresh, once⟩ := List.nodup_cons.mp once
      have first := worth_removeCoin weight state key
      have others : (rest.map fun other => worthOf weight ((state.removeCoin key).coin? other)) =
          rest.map fun other => worthOf weight (state.coin? other) := by
        refine List.map_congr_left fun other member => ?_
        rw [coin?_removeCoin, if_neg (ne_of_mem_of_not_mem member fresh)]
      have later := @inductive_step (state.removeCoin key) once
      rw [others] at later
      change (removeCoins rest (state.removeCoin key)).worth weight + _ = _
      rw [List.map_cons, List.sum_cons]
      omega

/-- Coins that are there and are removed, each once, are taken off. -/
theorem worth_removeCoins {coins : List (Outpoint × Output)}
    (present : ∀ entry ∈ coins, state.coin? entry.1 = .ok (some entry.2))
    (once : (coins.map Prod.fst).Nodup) :
    (removeCoins (coins.map Prod.fst) state).worth weight +
        (coins.map fun entry => weight entry.2).sum = state.worth weight := by
  have taken : (coins.map Prod.fst).map (fun key => worthOf weight (state.coin? key)) =
      coins.map fun entry => weight entry.2 := by
    rw [List.map_map]
    refine List.map_congr_left fun entry member => ?_
    rw [Function.comp_apply, present entry member]
    rfl
  rw [← taken]
  exact worth_removeCoins_add weight once

/-- Worth grows if every coin of some worth stays where it is. -/
theorem worth_le_worth {weight : Output → Nat} {left right : HostState}
    (kept : ∀ cell bytes coin, coinMark <+: cell → left.get? cell = some bytes →
      Output.decode bytes = .ok coin → weight coin ≠ 0 → right.get? cell = some bytes) :
    left.worth weight ≤ right.worth weight := by
  apply SortedMap.sum_le_sum
  intro cell bytes stored matters
  rw [get?_contents] at stored ⊢
  by_cases marked : coinMark <+: cell
  · rw [if_pos marked, worthIn] at matters
    split at matters
    · rename_i coin read
      exact kept cell bytes coin marked stored read matters
    · exact absurd rfl matters
  · rw [if_neg marked] at matters
    exact absurd rfl matters

/-- States with the same cells of coins are worth the same. -/
theorem worth_congr {left right : HostState}
    (same : ∀ cell, coinMark <+: cell → left.get? cell = right.get? cell) :
    left.worth weight = right.worth weight := by
  apply Nat.le_antisymm
  · refine worth_le_worth fun cell bytes coin marked stored _ _ => ?_
    rw [← same cell marked, stored]
  · refine worth_le_worth fun cell bytes coin marked stored _ _ => ?_
    rw [same cell marked, stored]

section

variable {before after : HostState} {spent minted : List (Outpoint × Output)}

/-- After a move a state is worth what removing and storing its coins makes of it. -/
theorem Moves.worth_after (moves : Moves before after spent minted) :
    after.worth weight =
      (addCoins minted (removeCoins (spent.map Prod.fst) before)).worth weight := by
  apply worth_congr
  intro cell marked
  apply moves.cells
  rintro rfl
  exact not_coinMark_prefix_poolKey marked

/-- **A move adds at most what is stored, less what is removed.** -/
theorem Moves.worth_le (moves : Moves before after spent minted) :
    after.worth weight + (spent.map fun entry => weight entry.2).sum ≤
      before.worth weight + (minted.map fun entry => weight entry.2).sum := by
  -- A coin that is stored may replace one that was stored before it, so there is no equation.
  have removed := worth_removeCoins weight moves.present moves.once
  have stored := worth_addCoins_le weight minted (removeCoins (spent.map Prod.fst) before)
  rw [moves.worth_after]
  omega

/-- **A move under distinct keys adds what is stored, less what is removed.** -/
theorem Moves.worth_eq (moves : Moves before after spent minted)
    (distinct : (minted.map Prod.fst).Nodup) :
    after.worth weight + (spent.map fun entry => weight entry.2).sum =
      before.worth weight + (minted.map fun entry => weight entry.2).sum := by
  have removed := worth_removeCoins weight moves.present moves.once
  have free : ∀ entry ∈ minted,
      (removeCoins (spent.map Prod.fst) before).coin? entry.1 = .ok none := by
    intro entry member
    rw [coin?_removeCoins, moves.free entry member, ite_self]
  have stored := worth_addCoins weight distinct free
  rw [moves.worth_after]
  omega

end

/-- Cells that hold as many bytes as coins have can all be read. -/
theorem mapM_decode_eq_ok {cells : List (ByteString × ByteString)}
    (sizes : ∀ cell ∈ cells, cell.2.length = 48) :
    ∃ coins : List (ByteString × Output),
      (cells.mapM fun cell => (Output.decode cell.2).map fun coin => (cell.1, coin)) = .ok coins ∧
        ∀ weight : Output → Nat, (coins.map fun entry => weight entry.2).sum =
          (cells.map fun cell => worthIn weight cell.2).sum := by
  induction cells with
  | nil => exact ⟨[], rfl, fun _ => rfl⟩
  | cons cell rest inductive_step =>
      obtain ⟨coin, read⟩ := Output.decode_of_length (sizes cell List.mem_cons_self)
      obtain ⟨coins, reads, weighed⟩ := inductive_step fun other member =>
        sizes other (List.mem_cons_of_mem _ member)
      refine ⟨(cell.1, coin) :: coins, ?_, ?_⟩
      · rw [List.mapM_cons, read, reads]
        rfl
      · intro weight
        rw [List.map_cons, List.sum_cons, List.map_cons, List.sum_cons, weighed, worthIn, read]

/-- **In a well-formed state all coins are listed, and together they are what the state is
worth.** -/
theorem WellFormed.coins_eq_ok (valid : state.WellFormed) :
    ∃ coins, state.coins = .ok coins ∧
      ∀ weight : Output → Nat,
        (coins.map fun entry => weight entry.2).sum = state.worth weight := by
  have sizes : ∀ cell ∈ state.coinCells, cell.2.length = 48 := by
    intro cell member
    rw [coinCells, scan_eq state coinMark_ne_nil] at member
    obtain ⟨entry, listed, rfl⟩ := List.mem_map.mp member
    obtain ⟨marked, stored⟩ := SortedMap.mem_withPrefix_iff.mp listed
    exact (valid.coins entry.1 entry.2 marked (state.get?_contents entry.1 ▸ stored)).2
  obtain ⟨coins, read, weighed⟩ := mapM_decode_eq_ok sizes
  refine ⟨coins, read, ?_⟩
  intro weight
  rw [weighed, coinCells, List.map_map, scan_eq state coinMark_ne_nil]
  exact SortedMap.sum_withPrefix (worthIn weight) state.contents coinMark

/-- The total is what all coins are worth by their amounts. -/
theorem WellFormed.totalValue_eq (valid : state.WellFormed) :
    state.totalValue = .ok (state.worth fun coin => coin.value.toNat) := by
  obtain ⟨coins, read, weighed⟩ := valid.coins_eq_ok
  rw [totalValue, read]
  exact congrArg Except.ok (weighed fun coin => coin.value.toNat)

/-- A balance is what all coins are worth if those of others count for nothing. -/
theorem WellFormed.balanceOf_eq (valid : state.WellFormed) (owner : ByteString) :
    state.balanceOf owner =
      .ok (state.worth fun coin => if coin.owner.bytes = owner then coin.value.toNat else 0) := by
  obtain ⟨coins, read, weighed⟩ := valid.coins_eq_ok
  rw [balanceOf, coinsOf, read]
  refine congrArg Except.ok ?_
  rw [← weighed]
  exact SortedMap.sum_map_filter (fun entry => entry.2.owner.bytes = owner) _ coins

end HostState
end CoinLedger

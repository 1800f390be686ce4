import CoinLedger.Chain.Basic
import CoinLedger.Proofs.CoinSet.Cells
import CoinLedger.Proofs.Storage.Layers

/-! # A state in memory, seen as a table

Layers of writes stand for saved copies, so every state can be seen as a table
(`CoinLedger.HostState.onTable`). Look-ups find the same in it, writes and transactions respect the
view, and so do all reads that are made of these. One listing tells the two apart: under the empty
prefix a table leaves out the entry with the empty key (`CoinLedger.HostState.scan_onTable`).
-/

namespace CoinLedger.HostState

/-- The state as a table: in place of layers of writes there are saved copies. -/
def onTable : HostState → HostState
  | memory store => table store.toSnapshots
  | table store => table store

variable (state : HostState)

@[simp] theorem onTable_emptyMemory : emptyMemory.onTable = emptyTable :=
  congrArg table (LayeredStore.toSnapshots_ofMap .empty)

/-- A table finds what the state finds. -/
@[simp] theorem get?_onTable (key : ByteString) : state.onTable.get? key = state.get? key := by
  cases state with
  | memory store => exact LayeredStore.simulates_toSnapshots.get? store key
  | table store => rfl

/-- A write goes to a table as to the state. -/
@[simp] theorem write_onTable (key : ByteString) (value : Option ByteString) :
    state.onTable.write key value = (state.write key value).onTable := by
  cases state with
  | memory store => exact congrArg table (LayeredStore.simulates_toSnapshots.write store key value)
  | table store => rfl

/-- A transaction is opened on a table as on the state. -/
@[simp] theorem enter_onTable : state.onTable.enter = state.enter.onTable := by
  cases state with
  | memory store => exact congrArg table (LayeredStore.simulates_toSnapshots.enter store)
  | table store => rfl

/-- A transaction is committed on a table as on the state. -/
@[simp] theorem commit_onTable : state.onTable.commit = state.commit.onTable := by
  cases state with
  | memory store => exact congrArg table (LayeredStore.simulates_toSnapshots.commit store)
  | table store => rfl

/-- A transaction is rolled back on a table as on the state. -/
@[simp] theorem rollback_onTable : state.onTable.rollback = state.rollback.onTable := by
  cases state with
  | memory store => exact congrArg table (LayeredStore.simulates_toSnapshots.rollback store)
  | table store => rfl

/-- **A table lists what a state in memory lists, without the empty key.** -/
theorem scan_onTable (start : ByteString) :
    state.onTable.scan start = (state.scan start).filter fun entry => entry.1 ≠ [] := by
  cases state with
  | memory store =>
      exact congrArg (List.filter fun entry => entry.1 ≠ [])
        (LayeredStore.simulates_toSnapshots.scan store start)
  | table store =>
      rw [onTable, scan, List.filter_filter]
      simp

example : (emptyMemory.write [] (some [1])).scan [] = [([], [1])] ∧
    (emptyTable.write [] (some [1])).scan [] = [] := by decide

/-- The empty key does not have a start, so it is left out only under the empty prefix. -/
theorem scan_onTable_of_ne_nil {start : ByteString} (nonempty : start ≠ []) :
    state.onTable.scan start = state.scan start := by
  cases state with
  | memory store =>
      rw [scan_eq _ nonempty, scan_eq _ nonempty]
      rfl
  | table store => rfl

@[simp] theorem put_onTable (key value : ByteString) :
    state.onTable.put key value = (state.put key value).onTable :=
  state.write_onTable key (some value)

@[simp] theorem delete_onTable (key : ByteString) :
    state.onTable.delete key = (state.delete key).onTable :=
  state.write_onTable key none

@[simp] theorem contains_onTable (key : ByteString) :
    state.onTable.contains key = state.contains key :=
  congrArg Option.isSome (state.get?_onTable key)

@[simp] theorem coin?_onTable : state.onTable.coin? = state.coin? := by
  funext key
  rw [coin?_eq_coinIn, coin?_eq_coinIn, get?_onTable]

@[simp] theorem hasCoin_onTable (key : Outpoint) : state.onTable.hasCoin key = state.hasCoin key :=
  state.contains_onTable (coinCell key)

@[simp] theorem addCoin_onTable (key : Outpoint) (coin : Output) :
    state.onTable.addCoin key coin = (state.addCoin key coin).onTable :=
  state.put_onTable (coinCell key) coin.encode

@[simp] theorem removeCoin_onTable (key : Outpoint) :
    state.onTable.removeCoin key = (state.removeCoin key).onTable :=
  state.delete_onTable (coinCell key)

@[simp] theorem coinCells_onTable : state.onTable.coinCells = state.coinCells := by
  rw [coinCells, coinCells, scan_onTable_of_ne_nil _ coinMark_ne_nil]

@[simp] theorem coinCount_onTable : state.onTable.coinCount = state.coinCount :=
  congrArg List.length state.coinCells_onTable

@[simp] theorem coins_onTable : state.onTable.coins = state.coins := by
  rw [coins, coins, coinCells_onTable]

@[simp] theorem totalValue_onTable : state.onTable.totalValue = state.totalValue := by
  rw [totalValue, totalValue, coins_onTable]

@[simp] theorem coinsOf_onTable (owner : ByteString) :
    state.onTable.coinsOf owner = state.coinsOf owner := by
  rw [coinsOf, coinsOf, coins_onTable]

/-- Owners have on a table what they have in the state. -/
@[simp] theorem balanceOf_onTable (owner : ByteString) :
    state.onTable.balanceOf owner = state.balanceOf owner := by
  rw [balanceOf, balanceOf, coinsOf_onTable]

@[simp] theorem pool_onTable : state.onTable.pool = state.pool :=
  pool_eq_of_get?_eq (state.get?_onTable poolKey)

@[simp] theorem setPool_onTable (value : Amount) :
    state.onTable.setPool value = (state.setPool value).onTable :=
  state.put_onTable poolKey value.encode

@[simp] theorem blockNumber_onTable : state.onTable.blockNumber = state.blockNumber := by
  rw [blockNumber, blockNumber, get?_onTable]

@[simp] theorem setBlockNumber_onTable (number : UInt64) :
    state.onTable.setBlockNumber number = (state.setBlockNumber number).onTable :=
  state.put_onTable blockNumberKey (u64Bytes number)

@[simp] theorem genesisDone_onTable : state.onTable.genesisDone = state.genesisDone :=
  state.contains_onTable genesisDoneKey

/-- A step gives the same result on a table and leaves what it leaves in memory. -/
def Portable {α : Type} (step : HostState → α × HostState) : Prop :=
  ∀ state, step state.onTable = (step state).map id onTable

/-- **A portable step can be run in a transaction of its own on a table, too.** -/
theorem Portable.atomically {ε α : Type} {step : HostState → Except ε α × HostState}
    (portable : Portable step) (state : HostState) :
    state.onTable.atomically step = (state.atomically step).map id onTable := by
  unfold HostState.atomically
  rw [enter_onTable, portable state.enter]
  rcases step state.enter with ⟨error | value, after⟩
  · exact congrArg (Prod.mk _) after.rollback_onTable
  · exact congrArg (Prod.mk _) after.commit_onTable

end CoinLedger.HostState

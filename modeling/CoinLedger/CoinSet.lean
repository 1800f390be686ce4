import CoinLedger.Storage.HostState
import CoinLedger.Transaction.Keys

/-! # The coin set in the host's state

Two kinds of cells lie in the host's state: one for each unspent coin, under a fixed mark and the
coin's key, and one for the pool of fees that is not paid out yet. An absent pool is empty.
-/

namespace CoinLedger

-- Sums start at the zero of the core library, also where others are in scope.
attribute [local instance (high)] Zero.ofOfNat0

/-- What the key of every coin's cell starts with. -/
def coinMark : ByteString := "Utxo:UtxoStore:".toUTF8.toList

/-- The key of the pool's cell. -/
def poolKey : ByteString := "Utxo:RewardTotal".toUTF8.toList

/-- The key of a coin's cell. -/
def coinCell (outpoint : Outpoint) : ByteString := coinMark ++ outpoint.bytes

namespace HostState

variable (state : HostState)

/-- The coin with a given key. -/
def coin? (outpoint : Outpoint) : Except DecodeError (Option Output) :=
  match state.get? (coinCell outpoint) with
  | none => .ok none
  | some bytes => (Output.decode bytes).map some

/-- Whether there is a cell for the coin with a given key. -/
def hasCoin (outpoint : Outpoint) : Bool := state.contains (coinCell outpoint)

/-- Store a coin. -/
def addCoin (outpoint : Outpoint) (coin : Output) : HostState :=
  state.put (coinCell outpoint) coin.encode

/-- Remove a coin. -/
def removeCoin (outpoint : Outpoint) : HostState := state.delete (coinCell outpoint)

/-- The cells of coins, without the mark in their keys. -/
def coinCells : List (ByteString × ByteString) :=
  (state.scan coinMark).map fun entry => (entry.1.drop coinMark.length, entry.2)

/-- The number of coins. -/
def coinCount : Nat := state.coinCells.length

/-- Every coin with its key, in ascending order of keys. -/
def coins : Except DecodeError (List (ByteString × Output)) :=
  state.coinCells.mapM fun cell => (Output.decode cell.2).map fun coin => (cell.1, coin)

/-- The sum of the amounts of all coins. -/
def totalValue : Except DecodeError Nat :=
  state.coins.map fun coins => (coins.map fun entry => entry.2.value.toNat).sum

/-- The coins of an owner with their keys, in ascending order of keys. -/
def coinsOf (owner : ByteString) : Except DecodeError (List (ByteString × Output)) :=
  state.coins.map fun coins => coins.filter fun entry => entry.2.owner.bytes = owner

/-- The sum of the amounts of an owner's coins. -/
def balanceOf (owner : ByteString) : Except DecodeError Nat :=
  (state.coinsOf owner).map fun coins => (coins.map fun entry => entry.2.value.toNat).sum

/-- The pool of fees. -/
def pool : Nat :=
  match state.get? poolKey with
  | none => 0
  | some bytes => ofLittleEndian bytes

/-- Set the pool of fees. -/
def setPool (value : Amount) : HostState := state.put poolKey value.encode

end HostState
end CoinLedger

import CoinLedger.Bytes

/-! # The Keccak-f[1600] permutation

The permutation of a state of 25 lanes of 64 bits, the lane at column `x` and row `y` standing at
index `x + 5 * y`.
-/

namespace CoinLedger.Keccak

/-- The 25 lanes of the state. -/
abbrev State := Vector UInt64 25

/-- The constant that each of the 24 rounds adds to the first lane. -/
def roundConstants : List UInt64 :=
  [0x0000000000000001, 0x0000000000008082, 0x800000000000808a, 0x8000000080008000,
   0x000000000000808b, 0x0000000080000001, 0x8000000080008081, 0x8000000000008009,
   0x000000000000008a, 0x0000000000000088, 0x0000000080008009, 0x000000008000000a,
   0x000000008000808b, 0x800000000000008b, 0x8000000000008089, 0x8000000000008003,
   0x8000000000008002, 0x8000000000000080, 0x000000000000800a, 0x800000008000000a,
   0x8000000080008081, 0x8000000000008080, 0x0000000080000001, 0x8000000080008008]

/-- How far each lane is rotated. -/
def rotations : Vector UInt64 25 :=
  #v[0, 1, 62, 28, 27,
     36, 44, 6, 55, 20,
     3, 10, 43, 25, 39,
     41, 45, 15, 21, 8,
     18, 2, 61, 56, 14]

/-- Rotation of a lane towards its high end; a full turn changes nothing. -/
def rotateLeft (lane distance : UInt64) : UInt64 :=
  (lane <<< distance) ||| (lane >>> ((64 - distance) % 64))

/-- The lane at column `x` and row `y`, both taken modulo five. -/
def lane (state : State) (x y : Nat) : UInt64 :=
  state.get ⟨x % 5 + 5 * (y % 5), by omega⟩

/-- One round: mix the columns, rotate and move the lanes, combine along rows, add the constant. -/
def round (state : State) (constant : UInt64) : State :=
  let parity (x : Nat) : UInt64 :=
    lane state x 0 ^^^ lane state x 1 ^^^ lane state x 2 ^^^ lane state x 3 ^^^ lane state x 4
  let parities : Vector UInt64 5 := Vector.ofFn fun x => parity x.val
  let mixed : State := Vector.ofFn fun i =>
    state[i] ^^^ parities.get ⟨(i.val + 4) % 5, by omega⟩ ^^^
      rotateLeft (parities.get ⟨(i.val + 1) % 5, by omega⟩) 1
  let moved : State := Vector.ofFn fun i =>
    -- the lane that moves to column `x` and row `y` comes from column `x + 3 * y` and row `x`
    let x := i.val % 5
    let y := i.val / 5
    rotateLeft (lane mixed (x + 3 * y) x) (lane rotations (x + 3 * y) x)
  let combined : State := Vector.ofFn fun i =>
    let x := i.val % 5
    let y := i.val / 5
    lane moved x y ^^^ (~~~ lane moved (x + 1) y &&& lane moved (x + 2) y)
  combined.set 0 (combined[0] ^^^ constant)

/-- The permutation: 24 rounds. -/
def permute (state : State) : State :=
  roundConstants.foldl round state

/-- The state with the given 200 bytes, eight to a lane, low byte first. -/
def ofBytes (bytes : ByteString) : State :=
  Vector.ofFn fun i : Fin 25 => UInt64.ofNat (ofLittleEndian ((bytes.drop (8 * i.val)).take 8))

end CoinLedger.Keccak

import CoinLedger.Bytes

/-! # The ristretto255 group

A group of prime order, built on the twisted Edwards curve `-x² + y² = 1 + d x² y²` over the field
of `2^255 - 19` elements. Each group element has exactly one encoding of 32 bytes, and decoding
refuses every other string.
-/

namespace CoinLedger

-- Powers are those of the core library, also where others are in scope.
attribute [local instance (high)] instPowNat

namespace Field25519

/-- The number of elements of the field. -/
def modulus : Nat := 2 ^ (255 : Nat) - 19

/-- Sum of two field elements. -/
def add (a b : Nat) : Nat := (a + b) % modulus

/-- Difference of two field elements. -/
def sub (a b : Nat) : Nat := (a + modulus - b % modulus) % modulus

/-- Product of two field elements. -/
def mul (a b : Nat) : Nat := (a * b) % modulus

/-- The additive inverse. -/
def neg (a : Nat) : Nat := sub 0 a

/-- The power `base ^ exponent`, for an exponent of at most `bits` bits. -/
def power (base : Nat) : (bits : Nat) → (exponent : Nat) → Nat
  | 0, _ => 1
  | bits + 1, exponent =>
      let half := power base bits (exponent / 2)
      let square := mul half half
      if exponent % 2 = 1 then mul square base else square

/-- An element is negative if its least representative is odd. -/
def isNegative (a : Nat) : Bool := a % modulus % 2 = 1

/-- The non-negative one of an element and its additive inverse. -/
def abs (a : Nat) : Nat := if isNegative a then neg a else a % modulus

/-- The non-negative square root of minus one. -/
def sqrtMinusOne : Nat := abs (power 2 255 ((modulus - 1) / 4))

/-- Whether `numerator / denominator` is a square, and the non-negative square root of it, or of it
times the square root of minus one. -/
def sqrtRatio (numerator denominator : Nat) : Bool × Nat :=
  let cube := mul (mul denominator denominator) denominator
  let seventh := mul (mul cube cube) denominator
  let root := mul (mul numerator cube) (power (mul numerator seventh) 255 ((modulus - 5) / 8))
  let check := mul denominator (mul root root)
  let correct := check = numerator % modulus
  let flipped := check = neg numerator
  let twisted := check = mul (neg numerator) sqrtMinusOne
  let root := if flipped ∨ twisted then mul root sqrtMinusOne else root
  (correct ∨ flipped, abs root)

end Field25519

/-- A curve point in extended coordinates: the point `(x / z, y / z)` with `x * y = z * t`. -/
structure CurvePoint where
  x : Nat
  y : Nat
  z : Nat
  t : Nat

namespace CurvePoint

open Field25519

/-- The curve constant `-121665 / 121666`. -/
def curveD : Nat :=
  37095705934669439343138083508754565189542113879843219016388785533085940283555

/-- The reciprocal of the square root of `-1 - d`, with the sign that the encoding fixes. -/
def inverseSqrtAMinusD : Nat :=
  54469307008909316920995813868745141605393597292927456921205312896311721017578

/-- The neutral element. -/
def identity : CurvePoint := ⟨0, 1, 1, 0⟩

/-- The base point, of order `2^252 + 27742317777372353535851937790883648493`. -/
def base : CurvePoint :=
  let x := 15112221349535400772501151409588531511454012693041857206046113283949847762202
  let y := 46316835694926478169428394003475163141307993866256225615783033603165251855960
  ⟨x, y, 1, mul x y⟩

/-- The group law, which holds for every pair of points. -/
def add (p q : CurvePoint) : CurvePoint :=
  let a := mul (sub p.y p.x) (sub q.y q.x)
  let b := mul (Field25519.add p.y p.x) (Field25519.add q.y q.x)
  let c := mul (mul (mul p.t 2) curveD) q.t
  let d := mul (mul p.z 2) q.z
  let e := sub b a
  let f := sub d c
  let g := Field25519.add d c
  let h := Field25519.add b a
  ⟨mul e f, mul g h, mul f g, mul e h⟩

/-- The inverse of a point. -/
def neg (p : CurvePoint) : CurvePoint := ⟨Field25519.neg p.x, p.y, p.z, Field25519.neg p.t⟩

/-- The multiple of a point by a scalar of at most `bits` bits. -/
def multiple (p : CurvePoint) : (bits : Nat) → (scalar : Nat) → CurvePoint
  | 0, _ => identity
  | bits + 1, scalar =>
      let half := multiple p bits (scalar / 2)
      let double := add half half
      if scalar % 2 = 1 then add double p else double

/-- The unique encoding of the group element that a point stands for. -/
def encode (p : CurvePoint) : FixedBytes 32 :=
  let u₁ := mul (Field25519.add p.z p.y) (sub p.z p.y)
  let u₂ := mul p.x p.y
  let inverseRoot := (sqrtRatio 1 (mul u₁ (mul u₂ u₂))).2
  let denominator₁ := mul inverseRoot u₁
  let denominator₂ := mul inverseRoot u₂
  let zInverse := mul (mul denominator₁ denominator₂) p.t
  let rotated := isNegative (mul p.t zInverse)
  let x := if rotated then mul p.y sqrtMinusOne else p.x
  let y := if rotated then mul p.x sqrtMinusOne else p.y
  let denominator := if rotated then mul denominator₁ inverseSqrtAMinusD else denominator₂
  let y := if isNegative (mul x zInverse) then Field25519.neg y else y
  let s := abs (mul denominator (sub p.z y))
  ⟨littleEndian 32 s, littleEndian_length 32 s⟩

/-- The group element with the given encoding, if there is one. -/
def decode? (encoding : FixedBytes 32) : Option CurvePoint :=
  let s := ofLittleEndian encoding.bytes
  if modulus ≤ s ∨ s % 2 = 1 then none
  else
    let square := mul s s
    let u₁ := sub 1 square
    let u₂ := Field25519.add 1 square
    let u₂Square := mul u₂ u₂
    let v := sub (Field25519.neg (mul curveD (mul u₁ u₁))) u₂Square
    let (wasSquare, inverseRoot) := sqrtRatio 1 (mul v u₂Square)
    let denominatorX := mul inverseRoot u₂
    let denominatorY := mul (mul inverseRoot denominatorX) v
    let x := abs (mul (mul 2 s) denominatorX)
    let y := mul u₁ denominatorY
    let t := mul x y
    if wasSquare = false ∨ isNegative t ∨ y = 0 then none else some ⟨x, y, 1, t⟩

end CurvePoint
end CoinLedger

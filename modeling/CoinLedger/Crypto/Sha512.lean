import CoinLedger.Bytes

/-! # SHA-512

The SHA-512 hash function, used to expand a signing seed.
-/

namespace CoinLedger.Sha512

/-- The eight words of the chaining value. -/
abbrev Chain := Vector UInt64 8

/-- The fractional parts of the square roots of the first eight primes. -/
def initialChain : Chain :=
  #v[0x6a09e667f3bcc908, 0xbb67ae8584caa73b, 0x3c6ef372fe94f82b, 0xa54ff53a5f1d36f1,
     0x510e527fade682d1, 0x9b05688c2b3e6c1f, 0x1f83d9abfb41bd6b, 0x5be0cd19137e2179]

/-- The fractional parts of the cube roots of the first eighty primes, one for each round. -/
def roundConstants : List UInt64 :=
  [0x428a2f98d728ae22, 0x7137449123ef65cd, 0xb5c0fbcfec4d3b2f, 0xe9b5dba58189dbbc,
   0x3956c25bf348b538, 0x59f111f1b605d019, 0x923f82a4af194f9b, 0xab1c5ed5da6d8118,
   0xd807aa98a3030242, 0x12835b0145706fbe, 0x243185be4ee4b28c, 0x550c7dc3d5ffb4e2,
   0x72be5d74f27b896f, 0x80deb1fe3b1696b1, 0x9bdc06a725c71235, 0xc19bf174cf692694,
   0xe49b69c19ef14ad2, 0xefbe4786384f25e3, 0x0fc19dc68b8cd5b5, 0x240ca1cc77ac9c65,
   0x2de92c6f592b0275, 0x4a7484aa6ea6e483, 0x5cb0a9dcbd41fbd4, 0x76f988da831153b5,
   0x983e5152ee66dfab, 0xa831c66d2db43210, 0xb00327c898fb213f, 0xbf597fc7beef0ee4,
   0xc6e00bf33da88fc2, 0xd5a79147930aa725, 0x06ca6351e003826f, 0x142929670a0e6e70,
   0x27b70a8546d22ffc, 0x2e1b21385c26c926, 0x4d2c6dfc5ac42aed, 0x53380d139d95b3df,
   0x650a73548baf63de, 0x766a0abb3c77b2a8, 0x81c2c92e47edaee6, 0x92722c851482353b,
   0xa2bfe8a14cf10364, 0xa81a664bbc423001, 0xc24b8b70d0f89791, 0xc76c51a30654be30,
   0xd192e819d6ef5218, 0xd69906245565a910, 0xf40e35855771202a, 0x106aa07032bbd1b8,
   0x19a4c116b8d2d0c8, 0x1e376c085141ab53, 0x2748774cdf8eeb99, 0x34b0bcb5e19b48a8,
   0x391c0cb3c5c95a63, 0x4ed8aa4ae3418acb, 0x5b9cca4f7763e373, 0x682e6ff3d6b2b8a3,
   0x748f82ee5defb2fc, 0x78a5636f43172f60, 0x84c87814a1f0ab72, 0x8cc702081a6439ec,
   0x90befffa23631e28, 0xa4506cebde82bde9, 0xbef9a3f7b2c67915, 0xc67178f2e372532b,
   0xca273eceea26619c, 0xd186b8c721c0c207, 0xeada7dd6cde0eb1e, 0xf57d4f7fee6ed178,
   0x06f067aa72176fba, 0x0a637dc5a2c898a6, 0x113f9804bef90dae, 0x1b710b35131c471b,
   0x28db77f523047d84, 0x32caab7b40c72493, 0x3c9ebe0a15c9bebc, 0x431d67c49c100d4c,
   0x4cc5d4becb3e42b6, 0x597f299cfc657e2a, 0x5fcb6fab3ad6faec, 0x6c44198c4a475817]

/-- Rotation of a word towards its low end. -/
def rotateRight (word distance : UInt64) : UInt64 :=
  (word >>> distance) ||| (word <<< (64 - distance))

/-- The next word of the message schedule, from the sixteen words before it, newest first. -/
def nextWord (recent : List UInt64) : UInt64 :=
  let back (distance : Nat) : UInt64 := recent.getD (distance - 1) 0
  let early := back 15
  let late := back 2
  let spreadEarly := rotateRight early 1 ^^^ rotateRight early 8 ^^^ (early >>> 7)
  let spreadLate := rotateRight late 19 ^^^ rotateRight late 61 ^^^ (late >>> 6)
  back 16 + spreadEarly + back 7 + spreadLate

/-- The message schedule, newest word first, extended by `count` words. -/
def extendSchedule : (count : Nat) → List UInt64 → List UInt64
  | 0, recent => recent
  | count + 1, recent => extendSchedule count (nextWord recent :: recent)

/-- One round of the compression function. -/
def round (work : Chain) (input : UInt64 × UInt64) : Chain :=
  let (constant, word) := input
  let a := work[0]
  let e := work[4]
  let spreadE := rotateRight e 14 ^^^ rotateRight e 18 ^^^ rotateRight e 41
  let choice := (e &&& work[5]) ^^^ (~~~ e &&& work[6])
  let first := work[7] + spreadE + choice + constant + word
  let spreadA := rotateRight a 28 ^^^ rotateRight a 34 ^^^ rotateRight a 39
  let majority := (a &&& work[1]) ^^^ (a &&& work[2]) ^^^ (work[1] &&& work[2])
  #v[first + spreadA + majority, a, work[1], work[2], work[3] + first, e, work[5], work[6]]

/-- Fold one block of 128 bytes into the chaining value. -/
def compress (chain : Chain) (block : ByteString) : Chain :=
  let words := (List.range 16).map fun i =>
    UInt64.ofNat (ofBigEndian ((block.drop (8 * i)).take 8))
  let schedule := (extendSchedule 64 words.reverse).reverse
  let work := (roundConstants.zip schedule).foldl round chain
  Vector.ofFn fun i : Fin 8 => chain[i] + work[i]

/-- Fold the first `blocks` blocks of a padded message into the chaining value. -/
def absorb : (blocks : Nat) → Chain → ByteString → Chain
  | 0, chain, _ => chain
  | blocks + 1, chain, rest => absorb blocks (compress chain (rest.take 128)) (rest.drop 128)

/-- A message followed by a one bit, zeros up to a whole number of blocks, and its length in
bits. -/
def pad (message : ByteString) : ByteString :=
  let zeros := (239 - message.length % 128) % 128
  message ++ 0x80 :: List.replicate zeros 0 ++ bigEndian 16 (8 * message.length)

/-- The 64-byte SHA-512 digest of a byte string. -/
def digest (message : ByteString) : FixedBytes 64 :=
  let padded := pad message
  let chain := absorb (padded.length / 128) initialChain padded
  ⟨List.ofFn fun i : Fin 64 => UInt8.ofNat (chain[i.val / 8].toNat >>> (56 - 8 * (i.val % 8))),
    List.length_ofFn⟩

end CoinLedger.Sha512

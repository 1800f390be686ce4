import CoinLedger.Crypto.Sha512
import CoinLedger.Identifier

/-! # BLAKE2b with a 256-bit digest

The unkeyed BLAKE2b hash function with 32 bytes of output: a chain of compressions over blocks of
128 bytes, the last of which is padded with zeros and flagged.
-/

namespace CoinLedger.Blake2b

-- Powers are those of the core library, also where others are in scope.
attribute [local instance (high)] instPowNat

open Sha512 (rotateRight)

/-- The eight words of the chaining value. -/
abbrev Chain := Vector UInt64 8

/-- The sixteen words of one message block. -/
abbrev Block := Vector UInt64 16

/-- The fractional parts of the square roots of the first eight primes, as in SHA-512. -/
def initialVector : Chain := Sha512.initialChain

/-- The order in which each of the twelve rounds takes the message words. -/
def schedule : List (Vector (Fin 16) 16) :=
  [#v[0, 1, 2, 3, 4, 5, 6, 7, 8, 9, 10, 11, 12, 13, 14, 15],
   #v[14, 10, 4, 8, 9, 15, 13, 6, 1, 12, 0, 2, 11, 7, 5, 3],
   #v[11, 8, 12, 0, 5, 2, 15, 13, 10, 14, 3, 6, 7, 1, 9, 4],
   #v[7, 9, 3, 1, 13, 12, 11, 14, 2, 6, 5, 10, 4, 0, 15, 8],
   #v[9, 0, 5, 7, 2, 4, 10, 15, 14, 1, 11, 12, 6, 8, 3, 13],
   #v[2, 12, 6, 10, 0, 11, 8, 3, 4, 13, 7, 5, 15, 14, 1, 9],
   #v[12, 5, 1, 15, 14, 13, 4, 10, 0, 7, 6, 3, 9, 2, 8, 11],
   #v[13, 11, 7, 14, 12, 1, 3, 9, 5, 0, 15, 4, 8, 6, 2, 10],
   #v[6, 15, 14, 9, 11, 3, 0, 8, 12, 2, 13, 7, 1, 4, 10, 5],
   #v[10, 2, 8, 4, 7, 6, 1, 5, 15, 11, 9, 14, 3, 12, 13, 0],
   #v[0, 1, 2, 3, 4, 5, 6, 7, 8, 9, 10, 11, 12, 13, 14, 15],
   #v[14, 10, 4, 8, 9, 15, 13, 6, 1, 12, 0, 2, 11, 7, 5, 3]]

/-- Flip the bits of one word that a mask has. -/
def flip {size : Nat} (words : Vector UInt64 size) (place : Fin size) (mask : UInt64) :
    Vector UInt64 size :=
  words.set place (words.get place ^^^ mask) place.isLt

/-- Mix two message words into four words of the working vector. -/
def mix (work : Vector UInt64 16) (a b c d : Fin 16) (x y : UInt64) : Vector UInt64 16 :=
  let wa := work[a] + work[b] + x
  let wd := rotateRight (work[d] ^^^ wa) 32
  let wc := work[c] + wd
  let wb := rotateRight (work[b] ^^^ wc) 24
  let wa := wa + wb + y
  let wd := rotateRight (wd ^^^ wa) 16
  let wc := wc + wd
  let wb := rotateRight (wb ^^^ wc) 63
  (((work.set a wa).set b wb).set c wc).set d wd

/-- One round: four column mixes and four diagonal mixes. -/
def round (message : Block) (work : Vector UInt64 16) (order : Vector (Fin 16) 16) :
    Vector UInt64 16 :=
  let word (i : Fin 16) : UInt64 := message[order[i]]
  let work := mix work 0 4 8 12 (word 0) (word 1)
  let work := mix work 1 5 9 13 (word 2) (word 3)
  let work := mix work 2 6 10 14 (word 4) (word 5)
  let work := mix work 3 7 11 15 (word 6) (word 7)
  let work := mix work 0 5 10 15 (word 8) (word 9)
  let work := mix work 1 6 11 12 (word 10) (word 11)
  let work := mix work 2 7 8 13 (word 12) (word 13)
  mix work 3 4 9 14 (word 14) (word 15)

/-- Fold one message block into the chaining value; `count` is the number of message bytes read so
far and `last` marks the final block. -/
def compress (chain : Chain) (message : Block) (count : Nat) (last : Bool) : Chain :=
  let start : Vector UInt64 16 := (chain ++ initialVector).cast rfl
  let start := flip start 12 (UInt64.ofNat (count % 2 ^ (64 : Nat)))
  let start := flip start 13 (UInt64.ofNat (count / 2 ^ (64 : Nat)))
  let start := if last then flip start 14 (~~~ 0) else start
  let work := schedule.foldl (round message) start
  Vector.ofFn fun i : Fin 8 => chain.get i ^^^ work.get (i.castAdd 8) ^^^ work.get (i.natAdd 8)

/-- The words of a block of at most 128 bytes, padded with zeros. -/
def blockOf (bytes : ByteString) : Block :=
  Vector.ofFn fun i : Fin 16 => UInt64.ofNat (ofLittleEndian ((bytes.drop (8 * i.val)).take 8))

/-- Absorb a message of `blocks + 1` blocks, `count` bytes having been absorbed before it. -/
def absorb : (blocks : Nat) → Chain → (count : Nat) → ByteString → Chain
  | 0, chain, count, rest => compress chain (blockOf rest) (count + rest.length) true
  | blocks + 1, chain, count, rest =>
      absorb blocks (compress chain (blockOf (rest.take 128)) (count + 128) false) (count + 128)
        (rest.drop 128)

/-- The chaining value before the first block: no key and 32 bytes of output. -/
def initialChain : Chain :=
  flip initialVector 0 0x01010020

/-- The 32-byte BLAKE2b digest of a byte string. -/
def digest (message : ByteString) : FixedBytes 32 :=
  let chain := absorb ((message.length - 1) / 128) initialChain 0 message
  ⟨List.ofFn fun i : Fin 32 => UInt8.ofNat (chain[i.val / 8].toNat >>> (8 * (i.val % 8))),
    List.length_ofFn⟩

/-- Coins are named by BLAKE2b digests. -/
instance : CoinHash := ⟨digest⟩

end CoinLedger.Blake2b

/-! # Byte strings

Byte strings are lists of octets. This module fixes the little-endian and big-endian readings of a
byte string as a natural number, and the byte strings whose length is part of their type.
-/

namespace CoinLedger

-- Powers are those of the core library, also where others are in scope.
attribute [local instance (high)] instPowNat

/-- A finite sequence of octets. -/
abbrev ByteString := List UInt8

/-- The `width` little-endian bytes of `value`; bits above `8 * width` are dropped. -/
def littleEndian : Nat → Nat → ByteString
  | 0, _ => []
  | width + 1, value => UInt8.ofNat (value % 256) :: littleEndian width (value / 256)

/-- The natural number whose little-endian bytes are given. -/
def ofLittleEndian : ByteString → Nat
  | [] => 0
  | byte :: rest => byte.toNat + 256 * ofLittleEndian rest

/-- The `width` big-endian bytes of `value`. -/
def bigEndian (width value : Nat) : ByteString :=
  (littleEndian width value).reverse

/-- The natural number whose big-endian bytes are given. -/
def ofBigEndian (bytes : ByteString) : Nat :=
  bytes.foldl (fun value byte => 256 * value + byte.toNat) 0

/-- The least number of bytes that hold `value`; one byte holds zero. -/
def byteLength (value : Nat) : Nat :=
  Nat.log2 value / 8 + 1

@[simp] theorem littleEndian_length (width value : Nat) :
    (littleEndian width value).length = width := by
  induction width generalizing value with
  | zero => rfl
  | succ width inductive_step => simp only [littleEndian, List.length_cons, inductive_step]

/-- Bytes stand for a number that fits in them. -/
theorem ofLittleEndian_lt (bytes : ByteString) : ofLittleEndian bytes < 256 ^ bytes.length := by
  induction bytes with
  | nil => decide
  | cons byte rest inductive_step =>
      have digit : byte.toNat < 256 := byte.toNat_lt
      simp only [ofLittleEndian, List.length_cons, Nat.pow_succ]
      omega

/-- A byte string whose length is fixed by its type. -/
@[ext] structure FixedBytes (size : Nat) where
  /-- The bytes themselves. -/
  bytes : ByteString
  /-- There are exactly `size` of them. -/
  length_bytes : bytes.length = size
  deriving DecidableEq

namespace FixedBytes

variable {size : Nat}

/-- The given bytes, if there are exactly `size` of them. -/
def ofBytes? (size : Nat) (bytes : ByteString) : Option (FixedBytes size) :=
  if fits : bytes.length = size then some ⟨bytes, fits⟩ else none

/-- The byte string of `size` zeros. -/
def zero (size : Nat) : FixedBytes size :=
  ⟨List.replicate size 0, List.length_replicate⟩

/-- The first `size` bytes, padded with zeros if there are fewer. -/
def truncate (size : Nat) (bytes : ByteString) : FixedBytes size :=
  ⟨(bytes ++ List.replicate size 0).take size, by simp⟩

instance : Inhabited (FixedBytes size) := ⟨zero size⟩

/-- Bytes are taken as a string of fixed size exactly when they have that size. -/
theorem ofBytes?_eq_some_iff {bytes : ByteString} {fixed : FixedBytes size} :
    ofBytes? size bytes = some fixed ↔ bytes = fixed.bytes := by
  unfold ofBytes?
  constructor
  · intro fits
    split at fits
    · cases fits
      rfl
    · cases fits
  · rintro rfl
    exact dif_pos fixed.length_bytes

/-- Byte strings of one length are ordered by their first differing byte. -/
instance : LT (FixedBytes size) := ⟨fun left right => left.bytes < right.bytes⟩

instance (left right : FixedBytes size) : Decidable (left < right) :=
  inferInstanceAs (Decidable (left.bytes < right.bytes))

end FixedBytes
end CoinLedger

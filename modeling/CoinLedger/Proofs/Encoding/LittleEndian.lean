import CoinLedger.Bytes
import Mathlib.Algebra.GroupWithZero.Nat
import Mathlib.Data.Nat.Log

/-! # Little-endian bytes and numbers

Writing a number and reading it back gives the number when the width holds it, and reading bytes
and writing them back gives the bytes. The bytes of a number in its own length end with a byte
other than zero, and they are the only such bytes (`CoinLedger.byteLength_ofLittleEndian`).
-/

namespace CoinLedger

-- Powers are those of the core library, also where others are in scope.
attribute [local instance (high)] instPowNat

@[simp] theorem ofLittleEndian_cons (byte : UInt8) (rest : ByteString) :
    ofLittleEndian (byte :: rest) = byte.toNat + 256 * ofLittleEndian rest := rfl

/-- The bytes of a number that a width holds read back as the number. -/
theorem ofLittleEndian_littleEndian {width value : Nat} (fits : value < 256 ^ width) :
    ofLittleEndian (littleEndian width value) = value := by
  induction width generalizing value with
  | zero =>
      rw [Nat.pow_zero, Nat.lt_one_iff] at fits
      rw [fits]
      rfl
  | succ width inductive_step =>
      have high : value / 256 < 256 ^ width := by
        rw [Nat.pow_succ] at fits
        exact Nat.div_lt_of_lt_mul (by rwa [Nat.mul_comm])
      have low : (UInt8.ofNat (value % 256)).toNat = value % 256 :=
        UInt8.toNat_ofNat_of_lt (Nat.mod_lt _ (by decide))
      rw [littleEndian, ofLittleEndian_cons, inductive_step high, low]
      exact Nat.mod_add_div value 256

/-- Bytes are what is written for the number that they stand for. -/
theorem littleEndian_ofLittleEndian (bytes : ByteString) :
    littleEndian bytes.length (ofLittleEndian bytes) = bytes := by
  induction bytes with
  | nil => rfl
  | cons byte rest inductive_step =>
      have digit : byte.toNat < 256 := byte.toNat_lt
      have low : (byte.toNat + 256 * ofLittleEndian rest) % 256 = byte.toNat := by omega
      have high : (byte.toNat + 256 * ofLittleEndian rest) / 256 = ofLittleEndian rest := by omega
      rw [List.length_cons, littleEndian, ofLittleEndian_cons, low, high, inductive_step,
        UInt8.ofNat_toNat]

/-- Byte strings of one length that spell the same number are equal. -/
theorem eq_of_ofLittleEndian_eq {left right : ByteString} (length : left.length = right.length)
    (same : ofLittleEndian left = ofLittleEndian right) : left = right := by
  rw [← littleEndian_ofLittleEndian left, ← littleEndian_ofLittleEndian right, length, same]

/-- The bytes of a number that a width holds are its lowest byte and the bytes of what is above. -/
theorem littleEndian_eq_cons (width value : Nat) (fits : value < 256 ^ (width + 1)) :
    ∃ (head : UInt8) (chunk : ByteString), littleEndian (width + 1) value = head :: chunk ∧
      chunk.length = width ∧ head.toNat + 256 * ofLittleEndian chunk = value :=
  ⟨UInt8.ofNat (value % 256), littleEndian width (value / 256), rfl, littleEndian_length _ _,
    ofLittleEndian_littleEndian fits⟩

/-- A number fits in as many bytes as it has. -/
theorem lt_pow_byteLength (value : Nat) : value < 256 ^ byteLength value := by
  rw [byteLength, show 256 = 2 ^ 8 from rfl, ← Nat.pow_mul]
  exact Nat.lt_of_lt_of_le Nat.lt_log2_self (Nat.pow_le_pow_right (by decide) (by omega))

/-- A number that is not below a power of 256 takes more bytes than the exponent. -/
theorem lt_byteLength {value width : Nat} (large : 256 ^ width ≤ value) :
    width < byteLength value := by
  have exceeds : 256 ^ width < 256 ^ byteLength value :=
    Nat.lt_of_le_of_lt large (lt_pow_byteLength value)
  exact (Nat.pow_lt_pow_iff_right (by decide)).mp exceeds

/-- A number below a power of 256 takes at most as many bytes as the exponent, and at least one. -/
theorem byteLength_le {value width : Nat} (positive : 0 < width) (fits : value < 256 ^ width) :
    byteLength value ≤ width := by
  rcases Nat.eq_zero_or_pos value with zero | nonzero
  · subst zero
    exact positive
  · have bits : Nat.log2 value < 8 * width := by
      rw [Nat.log2_lt (Nat.ne_of_gt nonzero), Nat.pow_mul]
      exact fits
    rw [byteLength]
    omega

/-- The last byte of a byte string counts for the power of 256 of its position. -/
theorem pow_le_ofLittleEndian {bytes : ByteString} (nonempty : bytes ≠ [])
    (last : bytes.getLast? ≠ some 0) : 256 ^ (bytes.length - 1) ≤ ofLittleEndian bytes := by
  induction bytes with
  | nil => exact absurd rfl nonempty
  | cons byte rest inductive_step =>
      cases rest with
      | nil =>
          have nonzero : byte ≠ 0 := fun zero => last (by rw [zero]; rfl)
          have positive : 0 < byte.toNat :=
            Nat.pos_of_ne_zero fun zero => nonzero (UInt8.toNat_inj.mp zero)
          rw [ofLittleEndian_cons]
          exact Nat.le_add_right_of_le positive
      | cons next rest =>
          rw [List.getLast?_cons_cons] at last
          have tail := inductive_step (List.cons_ne_nil _ _) last
          rw [ofLittleEndian_cons]
          simp only [List.length_cons, Nat.add_sub_cancel, Nat.pow_succ] at tail ⊢
          omega

/-- Bytes that end with another byte than zero have the length of the number that they spell. -/
theorem byteLength_ofLittleEndian {bytes : ByteString} (nonempty : bytes ≠ [])
    (last : bytes.getLast? ≠ some 0) : byteLength (ofLittleEndian bytes) = bytes.length := by
  have positive : 0 < bytes.length := List.length_pos_iff.mpr nonempty
  apply Nat.le_antisymm
  · exact byteLength_le positive (ofLittleEndian_lt bytes)
  · have longer := lt_byteLength (pow_le_ofLittleEndian nonempty last)
    omega

/-- The bytes of a positive number in its own length end with another byte than zero. -/
theorem getLast?_littleEndian_byteLength {value : Nat} (positive : 0 < value) :
    (littleEndian (byteLength value) value).getLast? ≠ some 0 := by
  intro ends
  obtain ⟨front, split⟩ := List.getLast?_eq_some_iff.mp ends
  have length : front.length + 1 = byteLength value := by
    have total := congrArg List.length split
    simpa using total.symm
  have spelled : ofLittleEndian (front ++ [0]) = ofLittleEndian front := by
    clear split length ends
    induction front with
    | nil => rfl
    | cons byte rest inductive_step =>
        rw [List.cons_append, ofLittleEndian_cons, inductive_step, ofLittleEndian_cons]
  -- The zero adds nothing, so that one byte less would do.
  have shorter : value < 256 ^ front.length := by
    have bound := ofLittleEndian_lt front
    rwa [← spelled, ← split, ofLittleEndian_littleEndian (lt_pow_byteLength value)] at bound
  rcases Nat.eq_zero_or_pos front.length with none | some
  · rw [none, Nat.pow_zero, Nat.lt_one_iff] at shorter
    exact Nat.ne_of_gt positive shorter
  · have bound := byteLength_le some shorter
    omega

end CoinLedger

import CoinLedger.Amount
import CoinLedger.Proofs.Encoding.Canonical
import CoinLedger.Proofs.Encoding.LittleEndian

/-! # Compact integers are canonical

The first byte of a compact form announces how many bytes follow. What is read is put together from
the first byte and those bytes, and it is refused unless the form is the shortest
(`CoinLedger.Decoder.compact_of_cons`). The accepted forms are those that `Compact.encode` writes,
one for each integer up to `Compact.max` (`CoinLedger.Compact.canonical`), and none of them
continues another one (`CoinLedger.Compact.prefix_code`).
-/

namespace CoinLedger

-- Powers are those of the core library, also where others are in scope.
attribute [local instance (high)] instPowNat

namespace Compact

theorem mode_cases (head : Nat) : head % 4 = 0 ∨ head % 4 = 1 ∨ head % 4 = 2 ∨ head % 4 = 3 := by
  omega

/-- The number of bytes that a first byte announces. -/
def announced (head : Nat) : Nat :=
  match head % 4 with
  | 0 => 0
  | 1 => 1
  | 2 => 3
  | _ => head / 4 + 4

/-- The integer that a first byte and the bytes after it stand for. -/
def valueOf (head : Nat) (chunk : ByteString) : Nat :=
  match head % 4 with
  | 3 => ofLittleEndian chunk
  | _ => (head + 256 * ofLittleEndian chunk) / 4

/-- No shorter form than that of a first byte and the bytes after it holds the integer. -/
def shortest (head : Nat) (chunk : ByteString) : Bool :=
  match head % 4 with
  | 0 => true
  | 1 => 2 ^ (6 : Nat) ≤ valueOf head chunk
  | 2 => 2 ^ (14 : Nat) ≤ valueOf head chunk
  | _ => 2 ^ (30 : Nat) ≤ valueOf head chunk ∧ chunk.getLast? ≠ some 0

/-- The integers with a compact form are those of at most 67 bytes. -/
theorem le_max_iff {value : Nat} : value ≤ max ↔ value < 256 ^ (67 : Nat) := by
  have power (bits count : Nat) (eight : bits = 8 * count) : 2 ^ bits = 256 ^ count := by
    rw [eight, Nat.pow_mul]
  rw [max, power 536 67 rfl]
  omega

theorem encode_of_lt_byte {value : Nat} (small : value < 2 ^ (6 : Nat)) :
    encode value = littleEndian 1 (4 * value) := if_pos small

theorem encode_of_lt_two_bytes {value : Nat} (large : 2 ^ (6 : Nat) ≤ value)
    (small : value < 2 ^ (14 : Nat)) :
    encode value = littleEndian 2 (4 * value + 1) := by
  rw [encode, if_neg (Nat.not_lt.mpr large), if_pos small]

theorem encode_of_lt_four_bytes {value : Nat} (large : 2 ^ (14 : Nat) ≤ value)
    (small : value < 2 ^ (30 : Nat)) :
    encode value = littleEndian 4 (4 * value + 2) := by
  rw [encode, if_neg (by omega), if_neg (Nat.not_lt.mpr large), if_pos small]

/-- Larger integers are written in as many bytes as they have, behind one that tells their
number. -/
theorem encode_of_le {value : Nat} (large : 2 ^ (30 : Nat) ≤ value) :
    encode value =
      littleEndian 1 (4 * (byteLength value - 4) + 3) ++ littleEndian (byteLength value) value := by
  rw [encode, if_neg (by omega), if_neg (by omega), if_neg (Nat.not_lt.mpr large)]

/-- A form with the announced number of bytes that is the shortest is what is written for its
integer. -/
theorem encode_valueOf {head : UInt8} {chunk : ByteString}
    (length : chunk.length = announced head.toNat) (short : shortest head.toNat chunk = true) :
    valueOf head.toNat chunk ≤ max ∧ encode (valueOf head.toNat chunk) = head :: chunk := by
  have spelled := littleEndian_ofLittleEndian (head :: chunk)
  have bound := ofLittleEndian_lt chunk
  have digit : head.toNat < 256 := head.toNat_lt
  rw [ofLittleEndian_cons, List.length_cons] at spelled
  unfold announced at length
  unfold shortest at short
  rw [le_max_iff]
  unfold valueOf at short ⊢
  rcases mode_cases head.toNat with mode | mode | mode | mode
  all_goals simp only [mode, decide_eq_true_eq] at length short ⊢
  · obtain rfl := List.eq_nil_of_length_eq_zero length
    have written : 4 * ((head.toNat + 256 * ofLittleEndian []) / 4) =
        head.toNat + 256 * ofLittleEndian [] := by
      rw [ofLittleEndian]
      omega
    refine ⟨by rw [ofLittleEndian]; omega, ?_⟩
    rw [encode_of_lt_byte (by rw [ofLittleEndian]; omega), written]
    exact spelled
  · rw [length] at bound spelled
    have written : 4 * ((head.toNat + 256 * ofLittleEndian chunk) / 4) + 1 =
        head.toNat + 256 * ofLittleEndian chunk := by omega
    refine ⟨by omega, ?_⟩
    rw [encode_of_lt_two_bytes short (by omega), written]
    exact spelled
  · rw [length] at bound spelled
    have written : 4 * ((head.toNat + 256 * ofLittleEndian chunk) / 4) + 2 =
        head.toNat + 256 * ofLittleEndian chunk := by omega
    refine ⟨by omega, ?_⟩
    rw [encode_of_lt_four_bytes short (by omega), written]
    exact spelled
  · -- The count in the first byte is that of the integer, as the last byte is not zero.
    obtain ⟨large, last⟩ := short
    have nonempty : chunk ≠ [] := fun empty => by
      rw [empty] at length
      exact absurd length (by simp)
    have width := byteLength_ofLittleEndian nonempty last
    have lead : 4 * (chunk.length - 4) + 3 = head.toNat := by omega
    have head_eq : littleEndian 1 head.toNat = [head] :=
      littleEndian_ofLittleEndian [head]
    constructor
    · exact Nat.lt_of_lt_of_le bound (Nat.pow_le_pow_right (by decide) (by omega))
    · rw [encode_of_le large, width, lead, littleEndian_ofLittleEndian, head_eq]
      rfl

/-- What is written for an integer is a form that is the shortest. -/
theorem encode_eq_cons {value : Nat} (fits : value ≤ max) :
    ∃ (head : UInt8) (chunk : ByteString), encode value = head :: chunk ∧
      chunk.length = announced head.toNat ∧ shortest head.toNat chunk = true ∧
      valueOf head.toNat chunk = value := by
  rcases Nat.lt_or_ge value (2 ^ (6 : Nat)) with small | large
  · obtain ⟨head, chunk, form, length, number⟩ :=
      littleEndian_eq_cons 0 (4 * value) (by omega)
    refine ⟨head, chunk, by rw [encode_of_lt_byte small, form], ?_⟩
    have mode : head.toNat % 4 = 0 := by omega
    simp only [announced, shortest, valueOf, mode]
    exact ⟨length, trivial, by omega⟩
  · rcases Nat.lt_or_ge value (2 ^ (14 : Nat)) with small | large'
    · obtain ⟨head, chunk, form, length, number⟩ :=
        littleEndian_eq_cons 1 (4 * value + 1) (by omega)
      refine ⟨head, chunk, by rw [encode_of_lt_two_bytes large small, form], ?_⟩
      have mode : head.toNat % 4 = 1 := by omega
      simp only [announced, shortest, valueOf, mode, decide_eq_true_eq]
      exact ⟨length, by omega, by omega⟩
    · rcases Nat.lt_or_ge value (2 ^ (30 : Nat)) with small | large''
      · obtain ⟨head, chunk, form, length, number⟩ :=
          littleEndian_eq_cons 3 (4 * value + 2) (by omega)
        refine ⟨head, chunk, by rw [encode_of_lt_four_bytes large' small, form], ?_⟩
        have mode : head.toNat % 4 = 2 := by omega
        simp only [announced, shortest, valueOf, mode, decide_eq_true_eq]
        exact ⟨length, by omega, by omega⟩
      · have positive : 0 < value := by omega
        have lower : 3 < byteLength value := lt_byteLength (by omega)
        have upper : byteLength value ≤ 67 := byteLength_le (by decide) (le_max_iff.mp fits)
        obtain ⟨head, chunk, form, length, number⟩ :=
          littleEndian_eq_cons 0 (4 * (byteLength value - 4) + 3) (by omega)
        obtain rfl := List.eq_nil_of_length_eq_zero length
        rw [ofLittleEndian] at number
        refine ⟨head, littleEndian (byteLength value) value, ?_, ?_⟩
        · rw [encode_of_le large'', form, List.singleton_append]
        · have mode : head.toNat % 4 = 3 := by omega
          have read := ofLittleEndian_littleEndian (lt_pow_byteLength value)
          simp only [announced, shortest, valueOf, mode, decide_eq_true_eq, littleEndian_length,
            read]
          exact ⟨by omega, ⟨large'', getLast?_littleEndian_byteLength positive⟩, trivial⟩

end Compact

namespace Decoder

variable {cursor : Cursor} {head : UInt8} {tail : ByteString}

/-- At the end of the bytes no byte is read. -/
theorem byte_of_nil (inside : cursor.Inside) (ahead : cursor.ahead = []) :
    byte cursor = (.error (.endOfInput 1 cursor.offset 0), cursor) := by
  have short : take 1 cursor = (.error (.endOfInput 1 cursor.offset 0), cursor) := by
    rw [take_eq inside, ahead]
    rfl
  rw [byte, bind_of_error short]

/-- Ahead of a byte that byte is read. -/
theorem byte_of_cons (inside : cursor.Inside) (ahead : cursor.ahead = head :: tail) :
    byte cursor = (.ok head, cursor.advance 1) := by
  have enough : take 1 cursor = (.ok [head], cursor.advance 1) := by
    rw [take_eq inside, ahead]
    rfl
  rw [byte, bind_of_ok enough]
  rfl

/-- A number of some width is read if there are as many bytes ahead, and otherwise it is told how
many there are. -/
theorem unsigned_eq (inside : cursor.Inside) (width : Nat) :
    unsigned width cursor =
      if width ≤ cursor.ahead.length then
        (.ok (ofLittleEndian (cursor.ahead.take width)), cursor.advance width)
      else (.error (.endOfInput width cursor.offset cursor.ahead.length), cursor) := by
  rw [unsigned]
  split
  · rename_i enough
    rw [bind_of_ok (by rw [take_eq inside, if_pos enough]), pure_apply]
  · rename_i short
    rw [bind_of_error (by rw [take_eq inside, if_neg short])]

/-- A form that is not the shortest is refused with what it stands for. -/
theorem canonical_apply (value : Nat) (shortest : Bool) (cursor : Cursor) :
    canonical value shortest cursor =
      (if shortest then .ok value else .error (.nonCanonical value), cursor) := by
  unfold canonical
  cases shortest <;> rfl

theorem compact_of_nil (inside : cursor.Inside) (ahead : cursor.ahead = []) :
    compact cursor = (.error (.endOfInput 1 cursor.offset 0), cursor) := by
  rw [compact, bind_of_error (byte_of_nil inside ahead)]

/-- A compact integer is read from its first byte and the bytes that this one announces. -/
theorem compact_of_cons (inside : cursor.Inside) (ahead : cursor.ahead = head :: tail) :
    compact cursor =
      if Compact.announced head.toNat ≤ tail.length then
        (if Compact.shortest head.toNat (tail.take (Compact.announced head.toNat)) then
            .ok (Compact.valueOf head.toNat (tail.take (Compact.announced head.toNat)))
          else .error (.nonCanonical
            (Compact.valueOf head.toNat (tail.take (Compact.announced head.toNat)))),
          cursor.advance (1 + Compact.announced head.toNat))
      else
        (.error (.endOfInput (Compact.announced head.toNat) (cursor.offset + 1) tail.length),
          cursor.advance 1) := by
  have inside' := inside.advance 1
  have ahead' : (cursor.advance 1).ahead = tail := by
    rw [inside.ahead_advance, ahead]
    rfl
  have offset' : (cursor.advance 1).offset = cursor.offset + 1 := inside.offset_advance 1
  rw [compact, bind_of_ok (byte_of_cons inside ahead)]
  unfold Compact.announced Compact.shortest Compact.valueOf
  rcases Compact.mode_cases head.toNat with mode | mode | mode | mode
  · simp only [mode]
    simp [ofLittleEndian]
  · simp only [mode]
    by_cases enough : 1 ≤ tail.length
    · rw [bind_of_ok (by rw [unsigned_eq inside', ahead', if_pos enough])]
      rw [canonical_apply, if_pos enough, inside.advance_advance]
    · rw [bind_of_error (by rw [unsigned_eq inside', ahead', if_neg enough]), if_neg enough,
        offset']
  · simp only [mode]
    by_cases enough : 3 ≤ tail.length
    · rw [bind_of_ok (by rw [unsigned_eq inside', ahead', if_pos enough])]
      rw [canonical_apply, if_pos enough, inside.advance_advance]
    · rw [bind_of_error (by rw [unsigned_eq inside', ahead', if_neg enough]), if_neg enough,
        offset']
  · simp only [mode]
    by_cases enough : head.toNat / 4 + 4 ≤ tail.length
    · rw [bind_of_ok (by rw [take_eq inside', ahead', if_pos enough])]
      rw [canonical_apply, if_pos enough, inside.advance_advance]
    · rw [bind_of_error (by rw [take_eq inside', ahead', if_neg enough]), if_neg enough,
        offset']

end Decoder

/-- **Compact integers are canonical.** The accepted forms are those that are written, one for each
integer up to the largest. -/
theorem Compact.canonical : Decoder.Canonical Decoder.compact Compact.encode (· ≤ Compact.max) where
  reads {cursor value rest} inside fits ahead := by
    obtain ⟨head, chunk, form, length, short, same⟩ := Compact.encode_eq_cons fits
    rw [form, List.cons_append] at ahead
    have enough : Compact.announced head.toNat ≤ (chunk ++ rest).length := by
      rw [List.length_append]
      omega
    have taken : (chunk ++ rest).take (Compact.announced head.toNat) = chunk := by
      rw [← length, List.take_left]
    rw [Decoder.compact_of_cons inside ahead, if_pos enough, taken, if_pos short, same, form,
      List.length_cons, length, Nat.add_comm]
  faithful {cursor value moved} inside run := by
    rcases ahead : cursor.ahead with _ | ⟨head, tail⟩
    · rw [Decoder.compact_of_nil inside ahead] at run
      cases run
    · rw [Decoder.compact_of_cons inside ahead] at run
      split at run
      · rename_i enough
        have length : (tail.take (Compact.announced head.toNat)).length =
            Compact.announced head.toNat := by
          rw [List.length_take, Nat.min_eq_left enough]
        split at run
        · rename_i short
          cases run
          obtain ⟨fits, form⟩ := Compact.encode_valueOf length short
          refine ⟨fits, ?_, ?_⟩
          · rw [form]
            exact List.cons_prefix_cons.mpr ⟨rfl, List.take_prefix _ _⟩
          · rw [form, List.length_cons, length, Nat.add_comm]
        · cases run
      · cases run
  refuses {cursor error moved} inside run := by
    rcases ahead : cursor.ahead with _ | ⟨head, tail⟩
    · rw [Decoder.compact_of_nil inside ahead] at run
      cases run
      exact fun same => nomatch same
    · rw [Decoder.compact_of_cons inside ahead] at run
      split at run
      · split at run
        · cases run
        · cases run
          exact fun same => nomatch same
      · cases run
        exact fun same => nomatch same

namespace Compact

/-- Exactly the integers from zero to the largest have a compact form. -/
theorem encode_eq_ok_iff {value : Int} {form : ByteString} :
    IntegerForm.compact.encode value = .ok form ↔
      0 ≤ value ∧ value.toNat ≤ max ∧ form = encode value.toNat := by
  have range : 0 ≤ value ∧ value ≤ (IntegerForm.compact.max : Nat) ↔
      0 ≤ value ∧ value.toNat ≤ max := by
    rw [IntegerForm.max]
    omega
  rw [IntegerForm.encode]
  by_cases inside : 0 ≤ value ∧ value ≤ (IntegerForm.compact.max : Nat)
  · rw [if_pos inside, Except.ok.injEq, ← and_assoc, ← range, and_iff_right inside, eq_comm]
  · rw [if_neg inside, ← and_assoc, ← range]
    exact ⟨(fun same => nomatch same), (fun both => absurd both.1 inside)⟩

/-- An integer is read from the start of a byte string exactly when its form stands there, and then
it takes up the form. -/
theorem decode_eq_ok_iff {data : ByteString} {value size : Nat} :
    decode data = .ok (value, size) ↔
      value ≤ max ∧ encode value <+: data ∧ size = (encode value).length := by
  have start := Cursor.inside_ofBytes data
  have place (count : Nat) : ((Cursor.ofBytes data).advance count).offset.toNat = count := by
    rw [start.offset_advance]
    change ((0 : Int) + count).toNat = count
    omega
  constructor
  · intro read
    rcases run : Decoder.compact (Cursor.ofBytes data) with ⟨error | found, moved⟩
    · rw [decode, run] at read
      cases read
    · obtain ⟨fits, ahead, rfl⟩ := canonical.faithful start run
      rw [decode, run] at read
      obtain ⟨rfl, rfl⟩ := Prod.mk.inj (Except.ok.inj read)
      exact ⟨fits, ahead, place _⟩
  · rintro ⟨fits, ⟨rest, rfl⟩, rfl⟩
    rw [decode, canonical.reads start fits rfl]
    exact congrArg (fun count => Except.ok (value, count)) (place _)

/-- Decoding does not start before the first byte. -/
theorem decode_ne_beforeInput (data : ByteString) : decode data ≠ .error .beforeInput := by
  rcases run : Decoder.compact (Cursor.ofBytes data) with ⟨error | found, moved⟩
  · rw [decode, run]
    exact fun same =>
      canonical.refuses (Cursor.inside_ofBytes data) run (Except.error.inj same)
  · rw [decode, run]
    exact fun same => nomatch same

/-- **Compact integers are a canonical prefix code.** The integers from zero to the largest have a
form, which is read back with its length from the start of every byte string that starts with it.
Whatever is read from the start of a byte string is such an integer, and the bytes that it takes up
are its form; a byte string from which nothing is read is refused by the decoder. So there is one
accepted form for each integer, and no form continues another one. -/
theorem prefix_code :
    (∀ value : Int, 0 ≤ value → value ≤ (2 ^ (536 : Nat) - 1 : Nat) →
      ∃ form, IntegerForm.compact.encode value = .ok form ∧
        ∀ rest, decode (form ++ rest) = .ok (value.toNat, form.length)) ∧
    (∀ data value size, decode data = .ok (value, size) →
      value ≤ 2 ^ (536 : Nat) - 1 ∧ IntegerForm.compact.encode value = .ok (data.take size) ∧
        (data.take size).length = size) ∧
    (∀ data, (∀ value size, decode data ≠ .ok (value, size)) →
      ∃ error, decode data = .error error ∧ error ≠ .beforeInput) ∧
    (∀ value : Nat, value ≤ 2 ^ (536 : Nat) - 1 → ∃! form, decode form = .ok (value, form.length)) ∧
    ∀ (left right : Int) (shorter longer : ByteString),
      IntegerForm.compact.encode left = .ok shorter →
      IntegerForm.compact.encode right = .ok longer →
      shorter <+: longer → left = right ∧ shorter = longer := by
  refine ⟨?_, ?_, ?_, ?_, ?_⟩
  · intro value positive fits
    have small : value.toNat ≤ max := by
      rw [max]
      omega
    refine ⟨encode value.toNat, encode_eq_ok_iff.mpr ⟨positive, small, rfl⟩, fun rest => ?_⟩
    exact decode_eq_ok_iff.mpr ⟨small, List.prefix_append _ rest, rfl⟩
  · intro data value size read
    obtain ⟨fits, ⟨rest, rfl⟩, rfl⟩ := decode_eq_ok_iff.mp read
    have written := encode_eq_ok_iff.mpr ⟨Int.natCast_nonneg value, fits, rfl⟩
    rw [max] at fits
    rw [List.take_left]
    exact ⟨fits, written, rfl⟩
  · intro data unread
    rcases read : decode data with error | ⟨value, size⟩
    · exact ⟨error, rfl, fun same => decode_ne_beforeInput data (same ▸ read)⟩
    · exact absurd read (unread value size)
  · intro value fits
    rw [← max] at fits
    refine ⟨encode value, decode_eq_ok_iff.mpr ⟨fits, List.prefix_rfl, rfl⟩, ?_⟩
    intro form read
    obtain ⟨_, shorter, length⟩ := decode_eq_ok_iff.mp read
    exact (shorter.eq_of_length length.symm).symm
  · intro left right shorter longer written writtenToo continues
    obtain ⟨leftPositive, leftFits, rfl⟩ := encode_eq_ok_iff.mp written
    obtain ⟨rightPositive, rightFits, rfl⟩ := encode_eq_ok_iff.mp writtenToo
    have same := canonical.eq_of_prefix leftFits rightFits continues
    exact ⟨by omega, congrArg encode same⟩

/-- The first integer in the long form is read back before another byte, and its form without the
last byte is refused. -/
theorem first_long_form :
    IntegerForm.compact.encode (2 ^ (30 : Nat) : Nat) = .ok [3, 0, 0, 0, 64] ∧
      decode ([3, 0, 0, 0, 64] ++ [7]) = .ok (2 ^ (30 : Nat), 5) ∧
      ∃ error, decode [3, 0, 0, 0] = .error error ∧ error ≠ .beforeInput := by
  obtain ⟨reads, _, refuses, _, _⟩ := prefix_code
  have written : IntegerForm.compact.encode (2 ^ (30 : Nat) : Nat) = .ok [3, 0, 0, 0, 64] := by
    decide +kernel
  have small : 2 ^ (30 : Nat) ≤ max := le_max_iff.mpr (by decide)
  rw [max] at small
  obtain ⟨form, same, read⟩ :=
    reads (2 ^ (30 : Nat) : Nat) (Int.natCast_nonneg _) (Int.ofNat_le.mpr small)
  rw [written] at same
  cases same
  refine ⟨written, read [7], refuses _ fun value size found => ?_⟩
  have short : decode [3, 0, 0, 0] = .error (.endOfInput 4 1 3) := by decide +kernel
  rw [short] at found
  cases found

end Compact
end CoinLedger

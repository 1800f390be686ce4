import CoinLedger.Cursor
import Mathlib.Data.List.Basic

/-! # Canonical decoders

A decoder is canonical for an encoding when it reads every encoding of a valid value, wherever it
stands and whatever follows, and reads nothing else (`CoinLedger.Decoder.Canonical`). Canonical
decoders can be run one after another and repeated, and a canonical decoder that has to take up a
whole byte string accepts exactly the encodings of valid values
(`CoinLedger.Decoder.Canonical.whole_eq_ok_iff`).

All of this is about cursors that are not before the first byte.
-/

namespace CoinLedger

namespace Cursor

/-- The cursor is not before the first byte. -/
def Inside (cursor : Cursor) : Prop := 0 ≤ cursor.offset

theorem inside_ofBytes (data : ByteString) : (ofBytes data).Inside := Int.le_refl 0

@[simp] theorem ahead_ofBytes (data : ByteString) : (ofBytes data).ahead = data := rfl

variable {cursor : Cursor}

/-- What remains is as long as what is ahead. -/
theorem Inside.remaining_eq (inside : cursor.Inside) : cursor.remaining = cursor.ahead.length := by
  unfold Inside at inside
  rw [remaining, cursor.ahead_eq, List.length_drop]
  omega

/-- A cursor that is moved on stays inside. -/
theorem Inside.advance (inside : cursor.Inside) (size : Nat) : (cursor.advance size).Inside := by
  unfold Inside at *
  rw [Cursor.advance, dif_pos inside]
  exact Int.add_nonneg inside (Int.natCast_nonneg size)

/-- Moving on by a size drops that many bytes of what is ahead. -/
theorem Inside.ahead_advance (inside : cursor.Inside) (size : Nat) :
    (cursor.advance size).ahead = cursor.ahead.drop size := by
  unfold Inside at inside
  rw [Cursor.advance, dif_pos inside]

theorem Inside.offset_advance (inside : cursor.Inside) (size : Nat) :
    (cursor.advance size).offset = cursor.offset + size := by
  unfold Inside at inside
  rw [Cursor.advance, dif_pos inside]

/-- The place and the whole byte string determine a cursor. -/
theorem eq_of_offset_eq {left right : Cursor} (data : left.data = right.data)
    (offset : left.offset = right.offset) : left = right := by
  obtain ⟨leftData, leftOffset, leftAhead, leftEq⟩ := left
  obtain ⟨rightData, rightOffset, rightAhead, rightEq⟩ := right
  cases data
  cases offset
  cases leftEq
  cases rightEq
  rfl

theorem data_advance (cursor : Cursor) (size : Nat) : (cursor.advance size).data = cursor.data := by
  unfold Cursor.advance
  split <;> rfl

/-- Moving on twice is moving on by the sum. -/
theorem Inside.advance_advance (inside : cursor.Inside) (first second : Nat) :
    (cursor.advance first).advance second = cursor.advance (first + second) := by
  apply eq_of_offset_eq
  · simp only [data_advance]
  · rw [(inside.advance first).offset_advance, inside.offset_advance, inside.offset_advance,
      Int.natCast_add, Int.add_assoc]

/-- Moving on by nothing changes nothing. -/
theorem Inside.advance_zero (inside : cursor.Inside) : cursor.advance 0 = cursor := by
  apply eq_of_offset_eq
  · exact data_advance cursor 0
  · rw [inside.offset_advance]
    exact Int.add_zero _

end Cursor

namespace Decoder

variable {α β : Type} {cursor moved : Cursor}

theorem bind_of_ok {first : Decoder α} {next : α → Decoder β} {value : α}
    (run : first cursor = (.ok value, moved)) : (first >>= next) cursor = next value moved := by
  change andThen first next cursor = _
  rw [andThen, run]

theorem bind_of_error {first : Decoder α} {next : α → Decoder β} {error : DecodeError}
    (run : first cursor = (.error error, moved)) :
    (first >>= next) cursor = (.error error, moved) := by
  change andThen first next cursor = _
  rw [andThen, run]

@[simp] theorem pure_apply (value : α) (cursor : Cursor) :
    (pure value : Decoder α) cursor = (.ok value, cursor) := rfl

/-- Bytes are read exactly when there are enough of them. -/
theorem take_eq (inside : cursor.Inside) (size : Nat) :
    take size cursor =
      if size ≤ cursor.ahead.length then (.ok (cursor.ahead.take size), cursor.advance size)
      else (.error (.endOfInput size cursor.offset cursor.ahead.length), cursor) := by
  rw [take, Cursor.next?, if_pos (show 0 ≤ cursor.offset from inside)]
  by_cases enough : size ≤ cursor.ahead.length
  · simp only [List.length_take, Nat.min_eq_left enough, ↓reduceIte, enough]
  · have short : min size cursor.ahead.length ≠ size := by omega
    simp only [List.length_take, short, enough, ↓reduceIte, inside.remaining_eq]

/-- A value that is read from a whole byte string stands if no bytes are left. -/
theorem whole_of_ok {decoder : Decoder α} {data : ByteString} {value : α}
    (run : decoder (Cursor.ofBytes data) = (.ok value, moved)) (inside : moved.Inside) :
    whole decoder data =
      if moved.ahead = [] then .ok value else .error (.trailing moved.ahead.length) := by
  rw [whole]
  simp only [bind_of_ok run]
  by_cases nothing : moved.ahead = []
  · have ends : finish moved = (.ok (), moved) := by
      rw [finish, inside.remaining_eq, nothing]
      rfl
    rw [bind_of_ok ends, pure_apply, if_pos nothing]
  · have ends : finish moved = (.error (.trailing moved.ahead.length), moved) := by
      rw [finish, inside.remaining_eq, if_neg (mt List.length_eq_zero_iff.mp nothing)]
    rw [bind_of_error ends, if_neg nothing]

/-- If reading fails, so does reading bytes to their end. -/
theorem whole_of_error {decoder : Decoder α} {data : ByteString} {error : DecodeError}
    (run : decoder (Cursor.ofBytes data) = (.error error, moved)) :
    whole decoder data = .error error := by
  rw [whole]
  simp only [bind_of_error run]

/-- The decoder reads the encodings of valid values and nothing else. -/
structure Canonical (decoder : Decoder α) (encode : α → ByteString) (Valid : α → Prop) : Prop where
  /-- An encoding ahead is read to its end. -/
  reads : ∀ {cursor value rest}, cursor.Inside → Valid value → cursor.ahead = encode value ++ rest →
    decoder cursor = (.ok value, cursor.advance (encode value).length)
  /-- What is read is a valid value whose encoding was ahead. -/
  faithful : ∀ {cursor value moved}, cursor.Inside → decoder cursor = (.ok value, moved) →
    Valid value ∧ encode value <+: cursor.ahead ∧ moved = cursor.advance (encode value).length
  /-- A failing read did not start before the first byte. -/
  refuses : ∀ {cursor error moved}, cursor.Inside → decoder cursor = (.error error, moved) →
    error ≠ .beforeInput

namespace Canonical

variable {decoder : Decoder α} {encode : α → ByteString} {Valid : α → Prop}

/-- A canonical decoder has the law of any equal encoding and any equivalent validity. -/
theorem congr (canonical : Canonical decoder encode Valid) {encode' : α → ByteString}
    {Valid' : α → Prop} (encodings : ∀ value, encode value = encode' value)
    (validity : ∀ value, Valid value ↔ Valid' value) : Canonical decoder encode' Valid' := by
  obtain rfl : encode = encode' := funext encodings
  obtain rfl : Valid = Valid' := funext fun value => propext (validity value)
  exact canonical

/-- A value that is written as nothing is read from nothing. -/
theorem pure {value : α} (silent : encode value = []) :
    Canonical (Pure.pure value) encode (· = value) where
  reads inside valid _ := by
    cases valid
    rw [pure_apply, silent, List.length_nil, inside.advance_zero]
  faithful inside run := by
    rw [pure_apply] at run
    cases run
    rw [silent, List.length_nil, inside.advance_zero]
    exact ⟨rfl, List.nil_prefix, rfl⟩
  refuses _ run := by cases run

/-- Taking bytes reads strings of that length, each written as it is. -/
theorem take (size : Nat) : Canonical (Decoder.take size) id (·.length = size) where
  reads {cursor value rest} inside valid ahead := by
    have enough : size ≤ cursor.ahead.length := by
      rw [ahead, List.length_append, id, valid]
      exact Nat.le_add_right _ _
    rw [take_eq inside, if_pos enough, ahead, id, ← valid, List.take_left]
  faithful {cursor value moved} inside run := by
    rw [take_eq inside] at run
    split at run
    · rename_i enough
      cases run
      have length : (cursor.ahead.take size).length = size := by
        rw [List.length_take, Nat.min_eq_left enough]
      exact ⟨length, List.take_prefix _ _, by rw [id, length]⟩
    · cases run
  refuses {cursor error moved} inside run := by
    rw [take_eq inside] at run
    split at run
    · cases run
    · cases run
      exact fun same => nomatch same

/-- **Sequencing.** A canonical decoder followed by one that is canonical after every valid value
of the first is canonical for the encodings that consist of the two, one after the other. -/
theorem bind {first : Decoder α} {next : α → Decoder β} {encodeFirst : α → ByteString}
    {encodeRest : α → β → ByteString} {encodeBoth : β → ByteString} {ValidFirst : α → Prop}
    {ValidRest : α → β → Prop} {ValidBoth : β → Prop}
    (leads : Canonical first encodeFirst ValidFirst)
    (follows : ∀ value, ValidFirst value →
      Canonical (next value) (encodeRest value) (ValidRest value))
    (joins : ∀ value result, ValidFirst value → ValidRest value result →
      ValidBoth result ∧ encodeBoth result = encodeFirst value ++ encodeRest value result)
    (splits : ∀ result, ValidBoth result → ∃ value, ValidFirst value ∧ ValidRest value result) :
    Canonical (first >>= next) encodeBoth ValidBoth where
  reads {cursor result rest} inside valid ahead := by
    obtain ⟨value, validFirst, validRest⟩ := splits result valid
    obtain ⟨_, joined⟩ := joins value result validFirst validRest
    rw [joined, List.append_assoc] at ahead
    rw [bind_of_ok (leads.reads inside validFirst ahead)]
    have ahead' : (cursor.advance (encodeFirst value).length).ahead =
        encodeRest value result ++ rest := by
      rw [inside.ahead_advance, ahead, List.drop_left]
    rw [(follows value validFirst).reads (inside.advance _) validRest ahead',
      inside.advance_advance, joined, List.length_append]
  faithful {cursor result moved} inside run := by
    rcases firstRun : first cursor with ⟨error | value, middle⟩
    · rw [bind_of_error firstRun] at run
      cases run
    · -- What the second decoder reads lies ahead once the first encoding is taken off.
      obtain ⟨validFirst, ⟨rest, ahead⟩, rfl⟩ := leads.faithful inside firstRun
      rw [bind_of_ok firstRun] at run
      obtain ⟨validRest, ⟨rest', ahead'⟩, rfl⟩ :=
        (follows value validFirst).faithful (inside.advance _) run
      obtain ⟨valid, joined⟩ := joins value result validFirst validRest
      rw [inside.ahead_advance, ← ahead, List.drop_left] at ahead'
      refine ⟨valid, ⟨rest', ?_⟩, ?_⟩
      · rw [joined, List.append_assoc, ahead', ahead]
      · rw [inside.advance_advance, joined, List.length_append]
  refuses {cursor error moved} inside run := by
    rcases firstRun : first cursor with ⟨failure | value, middle⟩
    · rw [bind_of_error firstRun] at run
      cases run
      exact leads.refuses inside firstRun
    · obtain ⟨validFirst, _, rfl⟩ := leads.faithful inside firstRun
      rw [bind_of_ok firstRun] at run
      exact (follows value validFirst).refuses (inside.advance _) run

/-- A canonical decoder of the parts of a value is one of the value that is made of them. -/
theorem map (canonical : Canonical decoder encode Valid) (make : α → β)
    {encodeMade : β → ByteString} {ValidMade : β → Prop}
    (joins : ∀ value, Valid value → ValidMade (make value) ∧ encodeMade (make value) = encode value)
    (splits : ∀ result, ValidMade result → ∃ value, Valid value ∧ result = make value) :
    Canonical (decoder >>= fun value => Pure.pure (make value)) encodeMade ValidMade := by
  have gives (value : α) : Canonical (Pure.pure (make value)) (fun _ => []) (· = make value) :=
    Canonical.pure rfl
  refine canonical.bind (fun value _ => gives value) ?_ splits
  intro value result valid made
  obtain ⟨validMade, encoded⟩ := joins value valid
  rw [made, encoded, List.append_nil]
  exact ⟨validMade, rfl⟩

/-- A canonical decoder that is repeated is canonical for lists of the given length. -/
theorem repeated (canonical : Canonical decoder encode Valid) (count : Nat) :
    Canonical (Decoder.repeated decoder count) (List.flatMap encode)
      (fun values => values.length = count ∧ ∀ value ∈ values, Valid value) := by
  induction count with
  | zero =>
      refine (Canonical.pure List.flatMap_nil).congr (fun _ => rfl) (fun values => ?_)
      constructor
      · rintro rfl
        exact ⟨rfl, fun value member => absurd member List.not_mem_nil⟩
      · exact fun valid => List.eq_nil_of_length_eq_zero valid.1
  | succ count inductive_step =>
      have cons (head : α) : Canonical
          (Decoder.repeated decoder count >>= fun tail => Pure.pure (head :: tail))
          (fun values => values.tail.flatMap encode)
          (fun values => ∃ tail, (tail.length = count ∧ ∀ value ∈ tail, Valid value) ∧
            values = head :: tail) :=
        inductive_step.map (head :: ·) (fun tail valid => ⟨⟨tail, valid, rfl⟩, rfl⟩)
          (fun values valid => valid)
      refine canonical.bind (fun head _ => cons head) ?_ ?_
      · rintro head values validHead ⟨tail, ⟨length, validTail⟩, rfl⟩
        refine ⟨⟨congrArg Nat.succ length, ?_⟩, List.flatMap_cons⟩
        intro value member
        rcases List.mem_cons.mp member with rfl | later
        · exact validHead
        · exact validTail value later
      · rintro values ⟨length, valid⟩
        obtain ⟨head, tail, rfl⟩ := List.exists_cons_of_length_eq_add_one length
        exact ⟨head, valid head List.mem_cons_self, tail, ⟨Nat.succ.inj length,
          fun value member => valid value (List.mem_cons_of_mem _ member)⟩, rfl⟩

/-- What is read from a whole byte string is the valid value that it encodes. -/
theorem whole_eq_ok_iff (canonical : Canonical decoder encode Valid) {data : ByteString}
    {value : α} :
    whole decoder data = .ok value ↔ Valid value ∧ encode value = data := by
  have start := Cursor.inside_ofBytes data
  constructor
  · intro read
    rcases run : decoder (Cursor.ofBytes data) with ⟨error | found, moved⟩
    · rw [whole_of_error run] at read
      cases read
    · obtain ⟨valid, ⟨rest, ahead⟩, rfl⟩ := canonical.faithful start run
      rw [whole_of_ok run (start.advance _), start.ahead_advance, ← ahead, List.drop_left] at read
      split at read
      · rename_i nothing
        cases read
        rw [nothing, List.append_nil] at ahead
        exact ⟨valid, ahead⟩
      · cases read
  · rintro ⟨valid, rfl⟩
    have run := canonical.reads start valid (List.append_nil (encode value)).symm
    rw [whole_of_ok run (start.advance _), start.ahead_advance, Cursor.ahead_ofBytes,
      if_pos List.drop_length]

/-- A byte string that is not read is refused for another reason than a place before its first
byte. -/
theorem whole_ne_beforeInput (canonical : Canonical decoder encode Valid) (data : ByteString) :
    whole decoder data ≠ .error .beforeInput := by
  have start := Cursor.inside_ofBytes data
  rcases run : decoder (Cursor.ofBytes data) with ⟨error | found, moved⟩
  · rw [whole_of_error run]
    exact fun same => canonical.refuses start run (Except.error.inj same)
  · obtain ⟨_, _, rfl⟩ := canonical.faithful start run
    rw [whole_of_ok run (start.advance _)]
    split
    · exact fun same => nomatch same
    · exact fun same => nomatch Except.error.inj same

/-- No encoding of a valid value continues an encoding of another one. -/
theorem eq_of_prefix (canonical : Canonical decoder encode Valid) {left right : α}
    (leftValid : Valid left) (rightValid : Valid right) (shorter : encode left <+: encode right) :
    left = right := by
  obtain ⟨rest, ahead⟩ := shorter
  have start := Cursor.inside_ofBytes (encode right)
  -- From the start of the longer encoding either value is read.
  have one := canonical.reads start leftValid ahead.symm
  have other := canonical.reads start rightValid (List.append_nil (encode right)).symm
  rw [one] at other
  exact Except.ok.inj (congrArg Prod.fst other)

end Canonical
end Decoder
end CoinLedger

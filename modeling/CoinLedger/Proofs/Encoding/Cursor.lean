import CoinLedger.Proofs.Encoding.Compact

/-! # Cursors stay inside

What a reading step comes to is a matter of the byte string and the place alone: it reads an answer
whose encoding stands at the place, and goes on behind it, or it fails for want of bytes or of a
canonical form (`CoinLedger.ReadStep.Comes`). A cursor takes the steps in just this way, from place
to place, and goes on after each failure from where it was left
(`CoinLedger.ReadStep.performAll_runs`). So unless it is moved back it keeps between the first byte
and the end and never turns around (`CoinLedger.ReadStep.cursor_stays_inside`).
-/

namespace CoinLedger

/-- The cursor at a place of a byte string. -/
def Cursor.atPlace (data : ByteString) (place : Nat) : Cursor := (Cursor.ofBytes data).moveTo place

namespace Cursor

variable {data : ByteString} {place : Nat}

theorem inside_atPlace : (atPlace data place).Inside := Int.natCast_nonneg place

theorem offset_atPlace : (atPlace data place).offset = place := rfl

theorem ahead_atPlace : (atPlace data place).ahead = data.drop place := rfl

/-- Moving on from a place leads to a later one. -/
theorem advance_atPlace (size : Nat) :
    (atPlace data place).advance size = atPlace data (place + size) := by
  apply eq_of_offset_eq
  · exact data_advance _ _
  · rw [inside_atPlace.offset_advance, offset_atPlace, offset_atPlace, Int.natCast_add]

theorem remaining_atPlace : (atPlace data place).remaining = data.length - place := by
  rw [inside_atPlace.remaining_eq, ahead_atPlace, List.length_drop]

end Cursor

namespace ReadStep

/-- A step that does not move back. -/
def Forward : ReadStep → Prop
  | bytes size => 0 ≤ size
  | _ => True

instance (step : ReadStep) : Decidable step.Forward := by
  cases step <;> unfold Forward <;> infer_instance

/-- The number of bytes that a step reads, unless the bytes themselves tell. -/
def size? : ReadStep → Option Nat
  | bytes size => some size.toNat
  | u64 => some 8
  | u128 => some 16
  | _ => none

/-- A step reads some bytes, which are the encoding of its answer. -/
inductive Reads : ReadStep → ReadAnswer → ByteString → Prop where
  | bytes (chunk : ByteString) : Reads (.bytes chunk.length) (.bytes chunk) chunk
  | u64 {value : Nat} {form : ByteString} (written : IntegerForm.u64.encode value = .ok form) :
      Reads .u64 (.number value) form
  | u128 {value : Nat} {form : ByteString} (written : IntegerForm.u128.encode value = .ok form) :
      Reads .u128 (.number value) form
  | compact {value : Nat} {form : ByteString}
      (written : IntegerForm.compact.encode value = .ok form) :
      Reads .compact (.number value) form

/-- What a step comes to at a place of a byte string, and the place where it leaves off. -/
inductive Comes (data : ByteString) (place : Nat) :
    ReadStep → Except DecodeError ReadAnswer → Nat → Prop where
  /-- The bytes from one place to the other are the encoding of the answer. -/
  | answered {step : ReadStep} {answer : ReadAnswer} {next : Nat} (forward : place ≤ next)
      (inside : next ≤ data.length) (reads : step.Reads answer ((data.take next).drop place)) :
      Comes data place step (.ok answer) next
  /-- There are fewer bytes than a step of some size needs. -/
  | short {step : ReadStep} {size : Nat} (sized : step.size? = some size)
      (lacking : data.length - place < size) :
      Comes data place step (.error (.endOfInput size place (data.length - place))) place
  /-- Nothing is left to be the first byte of a compact integer. -/
  | exhausted (ends : place = data.length) :
      Comes data place .compact (.error (.endOfInput 1 place 0)) place
  /-- There are fewer bytes than the first byte of a compact integer announces. -/
  | cut {head : UInt8} (first : data[place]? = some head)
      (lacking : data.length - (place + 1) < Compact.announced head.toNat) :
      Comes data place .compact
        (.error (.endOfInput (Compact.announced head.toNat) (place + 1 : Nat)
          (data.length - (place + 1)))) (place + 1)
  /-- The bytes that are announced are there, and with the first one they are no canonical form. -/
  | nonCanonical {head : UInt8} {next : Nat} (first : data[place]? = some head)
      (announced : next = place + 1 + Compact.announced head.toNat) (inside : next ≤ data.length)
      (foreign : ∀ value : Int,
        IntegerForm.compact.encode value ≠ .ok ((data.take next).drop place)) :
      Comes data place .compact (.error (.nonCanonical
        (Compact.valueOf head.toNat ((data.take next).drop (place + 1))))) next
  | finished (ends : place = data.length) : Comes data place .finish (.ok .done) place
  /-- Bytes are left over. -/
  | trailing (goes : place < data.length) :
      Comes data place .finish (.error (.trailing (data.length - place))) place
  | counted : Comes data place .remaining (.ok (.number (data.length - place))) place

/-- What steps come to, one after another, each at the place where the one before it left off. -/
inductive Runs (data : ByteString) :
    Nat → List ReadStep → List (Except DecodeError ReadAnswer × Nat) → Prop where
  | nil {place : Nat} : Runs data place [] []
  | cons {place next : Nat} {step : ReadStep} {steps : List ReadStep}
      {outcome : Except DecodeError ReadAnswer}
      {outcomes : List (Except DecodeError ReadAnswer × Nat)}
      (here : Comes data place step outcome next) (later : Runs data next steps outcomes) :
      Runs data place (step :: steps) ((outcome, next) :: outcomes)

variable {data : ByteString} {place next : Nat} {step : ReadStep}
  {outcome : Except DecodeError ReadAnswer}

/-- No step goes back. -/
theorem Comes.forward (comes : Comes data place step outcome next) : place ≤ next := by
  cases comes <;> omega

/-- No step goes beyond the end. -/
theorem Comes.inside (comes : Comes data place step outcome next) (inside : place ≤ data.length) :
    next ≤ data.length := by
  cases comes with
  | cut first _ => exact (List.getElem?_eq_some_iff.mp first).1
  | _ => omega

/-- **Steps that begin inside stay inside.** -/
theorem Runs.inside {steps : List ReadStep}
    {outcomes : List (Except DecodeError ReadAnswer × Nat)} (runs : Runs data place steps outcomes)
    (inside : place ≤ data.length) : ∀ answered ∈ outcomes, answered.2 ≤ data.length := by
  induction runs with
  | nil => exact fun _ member => nomatch member
  | cons here _ inductive_step =>
      have within := here.inside inside
      exact List.forall_mem_cons.mpr ⟨within, inductive_step within⟩

/-- **The places of steps never decrease.** -/
theorem Runs.forward {steps : List ReadStep}
    {outcomes : List (Except DecodeError ReadAnswer × Nat)}
    (runs : Runs data place steps outcomes) :
    (place :: outcomes.map Prod.snd).Pairwise (· ≤ ·) := by
  induction runs with
  | nil => exact List.pairwise_singleton _ _
  | cons here _ inductive_step =>
      refine List.pairwise_cons.mpr ⟨fun later member => ?_, inductive_step⟩
      rcases List.mem_cons.mp member with rfl | further
      · exact here.forward
      · exact Nat.le_trans here.forward ((List.pairwise_cons.mp inductive_step).1 _ further)

/-- The bytes between two places are the first of those that are ahead. -/
theorem slice_eq (data : ByteString) (place size : Nat) :
    (data.take (place + size)).drop place = (data.drop place).take size := by
  rw [List.drop_take, Nat.add_sub_cancel_left]

/-- The bytes of a number of fixed width are its encoding. -/
theorem encode_ofLittleEndian {form : IntegerForm} {width : Nat} {chunk : ByteString}
    (greatest : form.max = 256 ^ width - 1)
    (written : ∀ value : Nat, value ≤ form.max → form.encode value = .ok (littleEndian width value))
    (length : chunk.length = width) : form.encode (ofLittleEndian chunk) = .ok chunk := by
  subst length
  have fits : ofLittleEndian chunk ≤ form.max := by
    rw [greatest]
    exact Nat.le_sub_one_of_lt (ofLittleEndian_lt chunk)
  rw [written _ fits, littleEndian_ofLittleEndian]

/-- Eight bytes are the encoding of a number of 64 bits. -/
theorem reads_u64 {chunk : ByteString} (length : chunk.length = 8) :
    Reads .u64 (.number (ofLittleEndian chunk)) chunk :=
  .u64 (encode_ofLittleEndian rfl
    (fun _ fits => if_pos ⟨Int.natCast_nonneg _, Int.ofNat_le.mpr fits⟩) length)

/-- Sixteen bytes are the encoding of a number of 128 bits. -/
theorem reads_u128 {chunk : ByteString} (length : chunk.length = 16) :
    Reads .u128 (.number (ofLittleEndian chunk)) chunk :=
  .u128 (encode_ofLittleEndian rfl
    (fun _ fits => if_pos ⟨Int.natCast_nonneg _, Int.ofNat_le.mpr fits⟩) length)

/-- A decoder of some size makes a step that reads as many of the bytes ahead, or leaves the cursor
where it is. -/
theorem comes_of_size {α : Type} {decoder : Decoder α} {size : Nat} (value : ByteString → α)
    {make : α → ReadAnswer} (inside : place ≤ data.length)
    (run : decoder (.atPlace data place) =
      if size ≤ (data.drop place).length then
        (.ok (value ((data.drop place).take size)), .atPlace data (place + size))
      else (.error (.endOfInput size place (data.drop place).length), .atPlace data place))
    (sized : step.size? = some size)
    (reads : ∀ chunk : ByteString, chunk.length = size → step.Reads (make (value chunk)) chunk) :
    ∃ outcome next,
      (decoder >>= fun value => pure (make value)) (.atPlace data place) =
        (outcome, .atPlace data next) ∧
      Comes data place step outcome next := by
  rw [List.length_drop] at run
  by_cases enough : size ≤ data.length - place
  · rw [if_pos enough] at run
    refine ⟨_, _, Decoder.bind_of_ok run, .answered (Nat.le_add_right _ _) (by omega) ?_⟩
    rw [slice_eq]
    refine reads _ ?_
    rw [List.length_take, List.length_drop, Nat.min_eq_left enough]
  · rw [if_neg enough] at run
    exact ⟨_, _, Decoder.bind_of_error run, .short sized (Nat.not_le.mp enough)⟩

/-- The bytes of a canonical form are taken apart in one way. -/
theorem encode_eq_ok_cons_iff {head : UInt8} {chunk : ByteString}
    (length : chunk.length = Compact.announced head.toNat) {value : Int} :
    IntegerForm.compact.encode value = .ok (head :: chunk) ↔
      Compact.shortest head.toNat chunk = true ∧ value = Compact.valueOf head.toNat chunk := by
  rw [Compact.encode_eq_ok_iff]
  constructor
  · rintro ⟨positive, fits, form⟩
    obtain ⟨other, others, same, _, short, read⟩ := Compact.encode_eq_cons fits
    rw [same] at form
    cases form
    exact ⟨short, by omega⟩
  · rintro ⟨short, rfl⟩
    obtain ⟨fits, form⟩ := Compact.encode_valueOf length short
    exact ⟨Int.natCast_nonneg _, fits, form.symm⟩

/-- Inside, a cursor reads a compact form as the step is to come to. -/
theorem compact_comes (inside : place ≤ data.length) :
    ∃ outcome next, perform .compact (.atPlace data place) = (outcome, .atPlace data next) ∧
      Comes data place .compact outcome next := by
  have performed : ∀ {outcome : Except DecodeError Nat} {moved : Cursor},
      Decoder.compact (.atPlace data place) = (outcome, moved) →
        perform .compact (.atPlace data place) = (outcome.map .number, moved) := by
    rintro (error | value) moved run
    · exact Decoder.bind_of_error run
    · exact Decoder.bind_of_ok run
  rcases ahead : data.drop place with _ | ⟨head, tail⟩
  · have ends : place = data.length :=
      Nat.le_antisymm inside (List.drop_eq_nil_iff.mp ahead)
    exact ⟨_, _, performed (Decoder.compact_of_nil Cursor.inside_atPlace ahead), .exhausted ends⟩
  · have first : data[place]? = some head := by
      rw [← List.head?_drop, ahead]
      rfl
    have rest : tail.length = data.length - (place + 1) := by
      have total := congrArg List.length ahead
      rw [List.length_drop, List.length_cons] at total
      omega
    have run := Decoder.compact_of_cons Cursor.inside_atPlace ahead
    rw [Cursor.advance_atPlace, Cursor.advance_atPlace, Cursor.offset_atPlace] at run
    split at run
    · rename_i enough
      have length : (tail.take (Compact.announced head.toNat)).length =
          Compact.announced head.toNat := by
        rw [List.length_take, Nat.min_eq_left enough]
      have slice : (data.take (place + (1 + Compact.announced head.toNat))).drop place =
          head :: tail.take (Compact.announced head.toNat) := by
        rw [slice_eq, ahead, Nat.add_comm 1, List.take_succ_cons]
      have within : place + (1 + Compact.announced head.toNat) ≤ data.length := by
        have start := (List.getElem?_eq_some_iff.mp first).1
        omega
      refine ⟨_, _, performed run, ?_⟩
      split
      · rename_i short
        refine .answered (Nat.le_add_right _ _) within ?_
        rw [slice]
        exact .compact ((encode_eq_ok_cons_iff length).mpr ⟨short, rfl⟩)
      · rename_i long
        have chunk : tail.take (Compact.announced head.toNat) =
            (data.take (place + (1 + Compact.announced head.toNat))).drop (place + 1) := by
          rw [← List.drop_drop, slice]
          rfl
        rw [chunk]
        refine .nonCanonical first (by omega) within fun value written => long ?_
        rw [slice] at written
        exact ((encode_eq_ok_cons_iff length).mp written).1
    · rename_i lacking
      rw [rest] at lacking run
      exact ⟨_, _, performed run, .cut first (Nat.not_le.mp lacking)⟩

/-- **A cursor takes a step as the bytes at its place have it.** -/
theorem perform_comes (forward : step.Forward) (inside : place ≤ data.length) :
    ∃ outcome next, step.perform (.atPlace data place) = (outcome, .atPlace data next) ∧
      Comes data place step outcome next := by
  have taken (size : Nat) := Decoder.take_eq (@Cursor.inside_atPlace data place) size
  have number (width : Nat) := Decoder.unsigned_eq (@Cursor.inside_atPlace data place) width
  simp only [Cursor.advance_atPlace, Cursor.ahead_atPlace, Cursor.offset_atPlace] at taken number
  cases step with
  | bytes size =>
      obtain ⟨count, rfl⟩ := Int.eq_ofNat_of_zero_le forward
      have performed : perform (.bytes count) =
          (Decoder.take count >>= fun chunk => pure (.bytes chunk)) := by
        rw [perform, if_neg (Int.not_lt.mpr forward)]
        rfl
      have sized : size? (.bytes count) = some count := rfl
      rw [performed]
      refine comes_of_size id inside (taken count) sized ?_
      rintro chunk rfl
      exact .bytes chunk
  | u64 => exact comes_of_size ofLittleEndian inside (number 8) rfl fun _ => reads_u64
  | u128 => exact comes_of_size ofLittleEndian inside (number 16) rfl fun _ => reads_u128
  | compact => exact compact_comes inside
  | finish =>
      by_cases ends : place = data.length
      · refine ⟨_, _, ?_, .finished ends⟩
        have finished : Decoder.finish (.atPlace data place) = (.ok (), .atPlace data place) := by
          rw [Decoder.finish, Cursor.remaining_atPlace, if_pos (by omega)]
        exact Decoder.bind_of_ok finished
      · refine ⟨_, _, ?_, .trailing (by omega)⟩
        have refused : Decoder.finish (.atPlace data place) =
            (.error (.trailing (data.length - place)), .atPlace data place) := by
          rw [Decoder.finish, Cursor.remaining_atPlace, if_neg (by omega)]
        exact Decoder.bind_of_error refused
  | remaining =>
      refine ⟨_, _, ?_, .counted⟩
      rw [← Cursor.remaining_atPlace]
      rfl

/-- **A cursor takes steps one after another, each from where the one before it left off, also if
that failed.** -/
theorem performAll_runs {steps : List ReadStep} (forward : ∀ step ∈ steps, step.Forward)
    (inside : place ≤ data.length) :
    ∃ outcomes, performAll steps (.atPlace data place) =
        outcomes.map (fun answered => (answered.1, .atPlace data answered.2)) ∧
      Runs data place steps outcomes := by
  induction steps generalizing place with
  | nil => exact ⟨[], rfl, .nil⟩
  | cons step steps inductive_step =>
      obtain ⟨here, others⟩ := List.forall_mem_cons.mp forward
      obtain ⟨outcome, next, performed, comes⟩ := perform_comes here inside
      obtain ⟨outcomes, run, runs⟩ := inductive_step others (comes.inside inside)
      refine ⟨(outcome, next) :: outcomes, ?_, .cons comes runs⟩
      rw [performAll, performed, run]
      rfl

/-- **A cursor never leaves its byte string.** Let steps be taken from the start of a byte string,
none of which moves back, and go on after those that fail. Then the cursor is always somewhere from
the first byte to the end, and it never turns around. What a step comes to is a matter of the bytes
and the place: it reads exactly the bytes that are the encoding of its answer; a step of some size
and the one that refuses bytes that are left over stay at the place if they fail; and a compact
integer that fails stays only where nothing is left, has taken the first byte if fewer bytes follow
than that announces, and has taken them all if they are no canonical form. -/
theorem cursor_stays_inside (data : ByteString) {steps : List ReadStep}
    (forward : ∀ step ∈ steps, step.Forward) :
    ∃ outcomes : List (Except DecodeError ReadAnswer × Nat),
      performAll steps (.ofBytes data) =
        outcomes.map (fun answered => (answered.1, (Cursor.ofBytes data).moveTo answered.2)) ∧
      Runs data 0 steps outcomes ∧ (∀ answered ∈ outcomes, answered.2 ≤ data.length) ∧
      (0 :: outcomes.map Prod.snd).Pairwise (· ≤ ·) := by
  obtain ⟨outcomes, performed, runs⟩ := performAll_runs forward (Nat.zero_le data.length)
  exact ⟨outcomes, performed, runs, runs.inside (Nat.zero_le _), runs.forward⟩

/-- A compact integer that is not in its shortest form, a number of eight bytes where one is left,
that byte, a compact integer that is cut off, and the end. -/
theorem script_goes_on_after_failures :
    let script : List ReadStep := [.compact, .u64, .bytes 1, .compact, .finish]
    (∀ step ∈ script, step.Forward) ∧ ∃ outcomes,
      Runs [2, 0, 0, 0, 7, 1] 0 script outcomes ∧ outcomes.map Prod.snd = [4, 4, 5, 6, 6] := by
  intro script
  have forward : ∀ step ∈ script, step.Forward := by decide
  obtain ⟨outcomes, performed, runs, _, _⟩ := cursor_stays_inside [2, 0, 0, 0, 7, 1] forward
  refine ⟨forward, outcomes, runs, ?_⟩
  have places : (performAll script (.ofBytes [2, 0, 0, 0, 7, 1])).map (fun answered =>
      answered.2.offset.toNat) = [4, 4, 5, 6, 6] := by decide +kernel
  rw [performed, List.map_map] at places
  exact places

end ReadStep
end CoinLedger

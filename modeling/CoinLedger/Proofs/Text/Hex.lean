import CoinLedger.Config.Scalar
import CoinLedger.Proofs.Steps
import Mathlib.Data.List.Forall2

/-! # The grammar of hexadecimal text

A text spells bytes when it is pairs of digits with blanks before, between and after them, behind a
mark or none (`CoinLedger.Hex.Spells`). Reading accepts these texts and no others
(`CoinLedger.Hex.decode_eq_ok_iff`). Among the spellings of a byte string there is one that is
marked, in lower case and without blanks, and it is the one that is written
(`CoinLedger.Hex.eq_encode_of_normal`); the texts of public keys are brought into this form.
-/

namespace CoinLedger

namespace Text

/-- A text without lone surrogates is not changed by replacing them. -/
theorem CodePoint.replacedText_ofText (text : String) :
    CodePoint.replacedText (CodePoint.ofText text) = text := by
  rw [CodePoint.replacedText, CodePoint.ofText, List.map_map]
  exact (congrArg String.ofList (List.map_id _)).trans String.ofList_toList

/-- Texts with the same code points are the same. -/
theorem CodePoint.ofText_inj {left right : String}
    (same : CodePoint.ofText left = CodePoint.ofText right) : left = right := by
  have found := congrArg CodePoint.text? same
  rw [CodePoint.text?_ofText, CodePoint.text?_ofText] at found
  exact Option.some.inj found

/-- A raw text with the code points of a text is that text. -/
theorem Raw.replaced_of_points {raw : Raw} {text : String}
    (same : raw.points = CodePoint.ofText text) : raw.replaced = text := by
  cases raw with
  | text value => exact CodePoint.ofText_inj same
  | illFormed points =>
      rw [Raw.points] at same
      rw [replaced, same, CodePoint.replacedText_ofText]

end Text

namespace Hex

/-- The digits in lower case, each at the position of its value. -/
def lowerDigits : List Char :=
  ['0', '1', '2', '3', '4', '5', '6', '7', '8', '9', 'a', 'b', 'c', 'd', 'e', 'f']

/-- The digits in upper case, each at the position of its value. -/
def upperDigits : List Char :=
  ['0', '1', '2', '3', '4', '5', '6', '7', '8', '9', 'A', 'B', 'C', 'D', 'E', 'F']

/-- The blanks of ASCII. -/
def blanks : List Char := [' ', '\t', '\n', '\x0b', '\x0c', '\r']

/-- A character is the digit of a value, in lower or in upper case. -/
def IsDigit (c : Char) (value : Nat) : Prop :=
  lowerDigits[value]? = some c ∨ upperDigits[value]? = some c

/-- Two digits and the blanks after them. -/
structure Pair where
  high : Char
  low : Char
  gap : List Char

/-- How a pair is written. -/
def Pair.text (pair : Pair) : List Char := pair.high :: pair.low :: pair.gap

/-- A pair of digits spells a byte, and nothing but blanks follows it. -/
def Pair.Spells (pair : Pair) (byte : UInt8) : Prop :=
  (∃ high low, IsDigit pair.high high ∧ IsDigit pair.low low ∧ byte.toNat = 16 * high + low) ∧
    ∀ c ∈ pair.gap, c ∈ blanks

/-- Characters spell bytes: they are blanks, and then a pair for each byte. -/
def SpellsBare (text : List Char) (bytes : ByteString) : Prop :=
  ∃ (front : List Char) (pairs : List Pair), (∀ c ∈ front, c ∈ blanks) ∧
    List.Forall₂ Pair.Spells pairs bytes ∧ text = front ++ pairs.flatMap Pair.text

/-- A text spells bytes: behind one mark or none its characters do. -/
def Spells (text : String) (bytes : ByteString) : Prop :=
  ∃ mark ∈ ["", "0x", "0X"], ∃ rest : List Char,
    text = mark ++ String.ofList rest ∧ SpellsBare rest bytes

/-- A text in normal form: it is marked, and it has no upper-case letter and no blank. -/
structure IsNormal (text : String) : Prop where
  marked : "0x".toList <+: text.toList
  lower : ∀ c ∈ text.toList, c.isUpper = false
  solid : ∀ c ∈ text.toList, c ∉ blanks

/-- What a list is tested for holds of its members. A test is a computation over the list, where a
quantifier over characters may be decided by going through all there are. -/
theorem mem_all {p : Char → Prop} [DecidablePred p] {text : List Char} {c : Char}
    (every : text.all (fun d => decide (p d)) = true) (member : c ∈ text) : p c :=
  of_decide_eq_true (List.all_eq_true.mp every c member)

/-- The test for blanks tells the blanks of ASCII. -/
theorem isBlank_iff {c : Char} : isBlank c = true ↔ c ∈ blanks := by
  constructor
  · intro blank
    rw [isBlank, Bool.or_eq_true, decide_eq_true_eq, Bool.and_eq_true, decide_eq_true_eq,
      decide_eq_true_eq] at blank
    rcases blank with rfl | ⟨above, below⟩
    · exact List.mem_cons_self
    · have least : 9 ≤ c.toNat := UInt32.le_iff_toNat_le.mp (Char.le_def.mp above)
      have greatest : c.toNat ≤ 13 := UInt32.le_iff_toNat_le.mp (Char.le_def.mp below)
      have every : ∀ n < 14, 9 ≤ n → Char.ofNat n ∈ blanks := by decide
      rw [← Char.ofNat_toNat c]
      exact every _ (by omega) least
  · have every : blanks.all isBlank = true := by decide
    exact List.all_eq_true.mp every c

/-- A digit is worth less than sixteen. -/
theorem IsDigit.lt {c : Char} {value : Nat} (digit : IsDigit c value) : value < 16 := by
  rcases digit with lower | upper
  · exact (List.getElem?_eq_some_iff.mp lower).1
  · exact (List.getElem?_eq_some_iff.mp upper).1

/-- The value of a character is read exactly when the character is the digit of that value. -/
theorem digitValue_eq_some_iff {c : Char} {value : Nat} :
    digitValue c = some value ↔ IsDigit c value := by
  constructor
  · intro read
    -- The three ranges of digits are stretches of the two lists.
    have figures : ∀ n < 58, 48 ≤ n → lowerDigits[n - 48]? = some (Char.ofNat n) := by decide
    have small : ∀ n < 103, 97 ≤ n → lowerDigits[n - 97 + 10]? = some (Char.ofNat n) := by decide
    have capital : ∀ n < 71, 65 ≤ n → upperDigits[n - 65 + 10]? = some (Char.ofNat n) := by decide
    have range {least greatest : Char} (inside : least ≤ c ∧ c ≤ greatest) :
        least.toNat ≤ c.toNat ∧ c.toNat < greatest.toNat + 1 :=
      ⟨UInt32.le_iff_toNat_le.mp (Char.le_def.mp inside.1),
        Nat.lt_succ_of_le (UInt32.le_iff_toNat_le.mp (Char.le_def.mp inside.2))⟩
    have named := Char.ofNat_toNat c
    unfold digitValue at read
    split at read
    · rename_i inside
      cases read
      exact .inl ((figures _ (range inside).2 (range inside).1).trans (congrArg some named))
    · split at read
      · rename_i inside
        cases read
        exact .inl ((small _ (range inside).2 (range inside).1).trans (congrArg some named))
      · split at read
        · rename_i inside
          cases read
          exact .inr ((capital _ (range inside).2 (range inside).1).trans (congrArg some named))
        · cases read
  · intro digit
    have lower : ∀ n < 16, lowerDigits[n]?.bind digitValue = some n := by decide
    have upper : ∀ n < 16, upperDigits[n]?.bind digitValue = some n := by decide
    rcases digit with found | found
    · have value := lower value (IsDigit.lt (.inl found))
      rwa [found] at value
    · have value := upper value (IsDigit.lt (.inr found))
      rwa [found] at value

/-- A digit is not a blank. -/
theorem IsDigit.not_isBlank {c : Char} {value : Nat} (digit : IsDigit c value) :
    isBlank c = false := by
  have lower : lowerDigits.all (isBlank · = false) = true := by decide
  have upper : upperDigits.all (isBlank · = false) = true := by decide
  exact digit.elim (fun found => mem_all lower (List.mem_of_getElem? found))
    fun found => mem_all upper (List.mem_of_getElem? found)

/-- A digit is a character of ASCII. -/
theorem IsDigit.ascii {c : Char} {value : Nat} (digit : IsDigit c value) : c.toNat < 128 := by
  have lower : lowerDigits.all (·.toNat < 128) = true := by decide
  have upper : upperDigits.all (·.toNat < 128) = true := by decide
  exact digit.elim (fun found => mem_all lower (List.mem_of_getElem? found))
    fun found => mem_all upper (List.mem_of_getElem? found)

theorem SpellsBare.nil : SpellsBare [] [] :=
  ⟨[], [], List.forall_mem_nil _, .nil, rfl⟩

/-- A blank in front spells nothing. -/
theorem SpellsBare.blank {c : Char} {text : List Char} {bytes : ByteString} (blank : c ∈ blanks)
    (spelled : SpellsBare text bytes) : SpellsBare (c :: text) bytes := by
  obtain ⟨front, pairs, gap, each, rfl⟩ := spelled
  exact ⟨c :: front, pairs, List.forall_mem_cons.mpr ⟨blank, gap⟩, each, rfl⟩

/-- Two digits in front spell a byte. -/
theorem SpellsBare.pair {c d : Char} {high low : Nat} {text : List Char} {bytes : ByteString}
    (first : IsDigit c high) (second : IsDigit d low) (spelled : SpellsBare text bytes) :
    SpellsBare (c :: d :: text) (UInt8.ofNat (16 * high + low) :: bytes) := by
  obtain ⟨front, pairs, gap, each, rfl⟩ := spelled
  have fits : 16 * high + low < 2 ^ 8 := by
    have := first.lt
    have := second.lt
    omega
  have byte : (UInt8.ofNat (16 * high + low)).toNat = 16 * high + low :=
    UInt8.toNat_ofNat_of_lt fits
  exact ⟨[], ⟨c, d, front⟩ :: pairs, List.forall_mem_nil _,
    .cons ⟨⟨high, low, first, second, byte⟩, gap⟩ each, rfl⟩

section

variable {position : Nat} {c d : Char} {text : List Char}

theorem readPairs_blank (blank : c ∈ blanks) :
    readPairs position (c :: text) = readPairs (position + 1) text := by
  rw [readPairs.eq_def]
  exact if_pos (isBlank_iff.mpr blank)

/-- Reading takes two digits for a byte and goes on behind them. -/
theorem readPairs_pair {high low : Nat} (first : IsDigit c high) (second : IsDigit d low) :
    readPairs position (c :: d :: text) =
      (readPairs (position + 2) text).map (UInt8.ofNat (16 * high + low) :: ·) := by
  rw [readPairs.eq_4 _ _ _ _ _ (digitValue_eq_some_iff.mpr first), first.not_isBlank,
    digitValue_eq_some_iff.mpr second]
  rfl

/-- Reading passes over any number of blanks. -/
theorem readPairs_blanks {front : List Char} (gap : ∀ c ∈ front, c ∈ blanks) :
    readPairs position (front ++ text) = readPairs (position + front.length) text := by
  induction front generalizing position with
  | nil => rfl
  | cons c front inductive_step =>
      obtain ⟨blank, others⟩ := List.forall_mem_cons.mp gap
      rw [List.cons_append, readPairs_blank blank, inductive_step others, List.length_cons,
        Nat.add_right_comm, Nat.add_assoc]

end

/-- **Pairs of digits are read exactly where they are.** -/
theorem readPairs_eq_ok_iff {position : Nat} {text : List Char} {bytes : ByteString} :
    readPairs position text = .ok bytes ↔ SpellsBare text bytes := by
  constructor
  · intro read
    induction position, text using readPairs.induct generalizing bytes with
    | case1 position =>
        cases read
        exact .nil
    | case2 position c rest blank inductive_step =>
        rw [readPairs_blank (isBlank_iff.mp blank)] at read
        exact .blank (isBlank_iff.mp blank) (inductive_step read)
    | case3 position c rest solid value =>
        rw [readPairs.eq_def] at read
        simp only [solid, value] at read
        cases read
    | case4 position c solid high value =>
        rw [readPairs.eq_def] at read
        simp only [solid, value] at read
        cases read
    | case5 position c solid high d rest first second =>
        rw [readPairs.eq_def] at read
        simp only [solid, first, second] at read
        cases read
    | case6 position c solid high d rest first low second inductive_step =>
        have digit := digitValue_eq_some_iff.mp first
        have other := digitValue_eq_some_iff.mp second
        rw [readPairs_pair digit other] at read
        obtain ⟨others, later, rfl⟩ := map_eq_ok_iff.mp read
        exact .pair digit other (inductive_step later)
  · rintro ⟨front, pairs, gap, each, rfl⟩
    rw [readPairs_blanks gap]
    generalize position + front.length = position
    induction each generalizing position with
    | nil => rfl
    | cons spelled _ inductive_step =>
        obtain ⟨⟨high, low, first, second, value⟩, gap⟩ := spelled
        rw [List.flatMap_cons, Pair.text, List.cons_append, List.cons_append,
          readPairs_pair first second, readPairs_blanks gap, inductive_step, ← value,
          UInt8.ofNat_toNat]
        rfl

/-- Whatever spells bytes is in ASCII. -/
theorem SpellsBare.ascii {text : List Char} {bytes : ByteString} (spelled : SpellsBare text bytes) :
    ∀ c ∈ text, c.toNat < 128 := by
  have blank : blanks.all (·.toNat < 128) = true := by decide
  obtain ⟨front, pairs, gap, each, rfl⟩ := spelled
  rw [List.forall_mem_append]
  refine ⟨fun c member => mem_all blank (gap c member), ?_⟩
  induction each with
  | nil => exact List.forall_mem_nil _
  | cons spelled _ inductive_step =>
      obtain ⟨⟨_, _, first, second, _⟩, gap⟩ := spelled
      rw [List.flatMap_cons, List.forall_mem_append, Pair.text, List.forall_mem_cons,
        List.forall_mem_cons]
      exact
        ⟨⟨first.ascii, second.ascii, fun c member => mem_all blank (gap c member)⟩, inductive_step⟩

/-- **Behind the mark, characters are read as the bytes that they spell.** -/
theorem decodeBare_eq_ok_iff {text : List Char} {bytes : ByteString} :
    decodeBare text = .ok bytes ↔ SpellsBare text bytes := by
  unfold decodeBare
  constructor
  · intro read
    split at read
    · cases read
    · exact readPairs_eq_ok_iff.mp read
  · intro spelled
    have ascii : text.findIdx? (fun c => 128 ≤ c.toNat) = none := by
      rw [List.findIdx?_eq_none_iff]
      exact fun c member => decide_eq_false (Nat.not_le.mpr (spelled.ascii c member))
    rw [ascii]
    exact readPairs_eq_ok_iff.mpr spelled

/-- What is spelled does not start with the letter of a mark behind another digit. -/
theorem SpellsBare.not_marked {letter : Char} {rest : List Char} {bytes : ByteString}
    (foreign : digitValue letter = none) : ¬ SpellsBare ('0' :: letter :: rest) bytes := by
  intro spelled
  have read := (@readPairs_eq_ok_iff 0 _ _).mpr spelled
  have zero : isBlank '0' = false ∧ digitValue '0' = some 0 := by decide
  rw [readPairs.eq_def] at read
  simp only [zero, foreign] at read
  cases read

/-- **A text is read exactly when it spells what it is read as.** -/
theorem decode_eq_ok_iff {text : String} {bytes : ByteString} :
    decode text = .ok bytes ↔ Spells text bytes := by
  have marked {mark : String} {rest : List Char} (front : text.toList = mark.toList ++ rest) :
      text = mark ++ String.ofList rest := by
    apply String.toList_injective
    rw [front, String.toList_append, String.toList_ofList]
  rw [decode, decodeBare_eq_ok_iff]
  constructor
  · intro spelled
    unfold dropMark at spelled
    split at spelled
    · rename_i rest front
      exact ⟨"0x", by decide, rest, marked front, spelled⟩
    · rename_i rest front
      exact ⟨"0X", by decide, rest, marked front, spelled⟩
    · exact ⟨"", by decide, text.toList, marked rfl, spelled⟩
  · rintro ⟨mark, known, rest, same, spelled⟩
    rw [same, String.toList_append, String.toList_ofList]
    simp only [List.mem_cons, List.not_mem_nil, or_false] at known
    rcases known with rfl | rfl | rfl
    · change SpellsBare (dropMark rest) bytes
      unfold dropMark
      split
      · exact absurd spelled (SpellsBare.not_marked (by decide))
      · exact absurd spelled (SpellsBare.not_marked (by decide))
      · exact spelled
    · exact spelled
    · exact spelled

/-- A digit that is not in upper case is the one that is written for its value. -/
theorem IsDigit.eq_digitOf {c : Char} {value : Nat} (digit : IsDigit c value)
    (lower : c.isUpper = false) : c = digitOf value := by
  have small : ∀ n < 16, lowerDigits[n]? = some (digitOf n) := by decide
  have capital : ∀ n < 16, upperDigits[n]?.all
      (fun d => d.isUpper || d = digitOf n) = true := by decide
  rcases digit with found | found
  · have same := small value (IsDigit.lt (.inl found))
    rw [found] at same
    exact Option.some.inj same
  · have same := capital value (IsDigit.lt (.inr found))
    rw [found, Option.all_some, lower, Bool.false_or, decide_eq_true_eq] at same
    exact same

/-- What is written for bytes is in normal form. -/
theorem isNormal_encode (bytes : ByteString) : IsNormal (encode bytes) := by
  have chars : (encode bytes).toList = '0' :: 'x' :: digits bytes := String.toList_ofList
  have lower : ∀ n < 16, (Nat.digitChar n).isUpper = false ∧ Nat.digitChar n ∉ blanks := by decide
  have each : ∀ c ∈ digits bytes, c.isUpper = false ∧ c ∉ blanks := by
    induction bytes with
    | nil => exact List.forall_mem_nil _
    | cons byte rest inductive_step =>
        rw [digits, List.forall_mem_cons, List.forall_mem_cons]
        exact ⟨lower _ (Nat.mod_lt _ (by decide)), lower _ (Nat.mod_lt _ (by decide)),
          inductive_step (String.toList_ofList)⟩
  have all : ∀ c ∈ (encode bytes).toList, c.isUpper = false ∧ c ∉ blanks := by
    rw [chars, List.forall_mem_cons, List.forall_mem_cons]
    exact ⟨by decide, by decide, each⟩
  refine ⟨?_, fun c member => (all c member).1, fun c member => (all c member).2⟩
  rw [chars]
  exact List.prefix_append ['0', 'x'] _

/-- Without blanks and upper-case letters, only the written digits spell the bytes. -/
theorem SpellsBare.eq_digits {text : List Char} {bytes : ByteString}
    (spelled : SpellsBare text bytes) (lower : ∀ c ∈ text, c.isUpper = false)
    (solid : ∀ c ∈ text, c ∉ blanks) : text = digits bytes := by
  have none {gap : List Char} (blank : ∀ c ∈ gap, c ∈ blanks) (solid : ∀ c ∈ gap, c ∉ blanks) :
      gap = [] :=
    List.eq_nil_iff_forall_not_mem.mpr fun c member => solid c member (blank c member)
  obtain ⟨front, pairs, gap, each, rfl⟩ := spelled
  rw [List.forall_mem_append] at lower solid
  rw [none gap solid.1, List.nil_append]
  replace lower := lower.2
  replace solid := solid.2
  induction each with
  | nil => rfl
  | @cons pair byte _ _ spelled _ inductive_step =>
      obtain ⟨⟨high, low, first, second, value⟩, gap⟩ := spelled
      rw [List.flatMap_cons, List.forall_mem_append, Pair.text, List.forall_mem_cons,
        List.forall_mem_cons] at lower solid
      have small := second.lt
      have upperHalf : digitOf high = digitOf (byte.toNat / 16) := congrArg digitOf (by omega)
      have lowerHalf : digitOf low = digitOf byte.toNat := by
        rw [digitOf, digitOf]
        congr 1
        omega
      rw [List.flatMap_cons, Pair.text, none gap solid.1.2.2, inductive_step lower.2 solid.2,
        first.eq_digitOf lower.1.1, second.eq_digitOf lower.1.2.1, upperHalf, lowerHalf]
      rfl

/-- **The normal form of a spelling is what is written.** -/
theorem eq_encode_of_normal {text : String} {bytes : ByteString} (normal : IsNormal text)
    (read : decode text = .ok bytes) : text = encode bytes := by
  obtain ⟨rest, front⟩ := normal.marked
  have chars : text.toList = '0' :: 'x' :: rest := front.symm
  have lower := normal.lower
  have solid := normal.solid
  rw [chars, List.forall_mem_cons, List.forall_mem_cons] at lower solid
  rw [decode, chars] at read
  have spelled : SpellsBare rest bytes := decodeBare_eq_ok_iff.mp read
  apply String.toList_injective
  rw [chars, spelled.eq_digits lower.2.2 solid.2.2]
  exact String.toList_ofList.symm

/-- A text that is read as bytes is in ASCII. -/
theorem ascii_of_decode {text : String} {bytes : ByteString} (read : decode text = .ok bytes) :
    ∀ c ∈ text.toList, c.toNat < 128 := by
  have marks : ∀ mark ∈ ["", "0x", "0X"], mark.toList.all (·.toNat < 128) = true := by decide
  obtain ⟨mark, known, rest, rfl, spelled⟩ := decode_eq_ok_iff.mp read
  rw [String.toList_append, String.toList_ofList, List.forall_mem_append]
  exact ⟨fun c => mem_all (marks mark known), spelled.ascii⟩

/-- A text is read from its code points exactly when all of them are characters. -/
theorem decodePoints?_eq_some_iff {points : List Text.CodePoint} {bytes : ByteString} :
    decodePoints? points = some bytes ↔
      ∃ text : String, points = Text.CodePoint.ofText text ∧ decode text = .ok bytes := by
  unfold decodePoints?
  constructor
  · intro taken
    obtain ⟨text, spelled, read⟩ := Option.bind_eq_some_iff.mp taken
    refine ⟨text, (Text.CodePoint.ofText_of_text? spelled).symm, ?_⟩
    cases decoded : decode text with
    | error reason =>
        rw [decoded] at read
        cases read
    | ok found =>
        rw [decoded] at read
        cases read
        rfl
  · rintro ⟨text, rfl, decoded⟩
    refine Option.bind_eq_some_iff.mpr ⟨text, Text.CodePoint.text?_ofText text, ?_⟩
    rw [decoded]
    rfl

/-- Nor is a text read with replacements, because the replacement character is no digit. -/
theorem decode_replaced_eq_ok_iff {raw : Text.Raw} {bytes : ByteString} :
    decode raw.replaced = .ok bytes ↔
      ∃ text : String, raw.points = Text.CodePoint.ofText text ∧ decode text = .ok bytes := by
  constructor
  · intro read
    refine ⟨raw.replaced, ?_, read⟩
    cases raw with
    | text value => rfl
    | illFormed points =>
        have ascii := ascii_of_decode read
        rw [Text.Raw.replaced, Text.CodePoint.replacedText, String.toList_ofList,
          List.forall_mem_map] at ascii
        have each : ∀ point ∈ points, (Text.CodePoint.character ∘
            fun point => point.character?.getD '\ufffd') point = id point := by
          intro point member
          cases point with
          | character c => rfl
          | surrogate unit =>
              have large : ¬ '\ufffd'.toNat < 128 := by decide
              exact absurd (ascii _ member) large
        rw [Text.Raw.replaced, Text.CodePoint.replacedText, Text.CodePoint.ofText,
          String.toList_ofList, List.map_map, List.map_congr_left each, List.map_id]
        rfl
  · rintro ⟨text, same, read⟩
    rwa [Text.Raw.replaced_of_points same]

end Hex

namespace PublicKey

/-- Code points are read as a public key exactly when they are read as its bytes. -/
theorem ofPoints_eq_ok_iff {points : List Text.CodePoint} {key : PublicKey} :
    PublicKey.ofPoints points = .ok key ↔ Hex.decodePoints? points = some key.bytes := by
  unfold PublicKey.ofPoints
  constructor
  · intro taken
    split at taken
    · cases taken
    · rename_i bytes decoded
      split at taken
      · rename_i fits
        cases taken
        rw [decoded, FixedBytes.ofBytes?_eq_some_iff.mp fits]
      · cases taken
  · intro decoded
    rw [decoded]
    dsimp only
    rw [FixedBytes.ofBytes?_eq_some_iff.mpr rfl]

/-- The text of a public key is brought into normal form exactly when it gives 32 bytes. -/
theorem normalText_eq_ok_iff {text normal : String} :
    normalText text = .ok normal ↔
      ∃ bytes, Hex.decode text = .ok bytes ∧ bytes.length = 32 ∧ normal = Hex.encode bytes := by
  simp only [normalText, map_eq_ok_iff, ofPoints_eq_ok_iff, Hex.decodePoints?_eq_some_iff]
  constructor
  · rintro ⟨key, ⟨other, same, read⟩, rfl⟩
    cases Text.CodePoint.ofText_inj same
    exact ⟨key.bytes, read, key.length_bytes, rfl⟩
  · rintro ⟨bytes, read, length, rfl⟩
    exact ⟨⟨bytes, length⟩, ⟨text, rfl, read⟩, rfl⟩

end PublicKey

namespace Hex

/-- **Hexadecimal text is read by its grammar and written in one form.** A text is read as bytes
exactly when it spells them: behind one mark or none come pairs of digits of either case, one for
each byte, and blanks only before, between and after pairs. Any other text is refused, also one in
which a code point is no character. What is written for bytes is read as the bytes, and of all that
is read as them it alone is marked, in lower case and without blanks. The text of a public key is
brought into this form if it spells 32 bytes, which leaves a text as it is that is in this form, and
is refused otherwise. -/
theorem reads_its_grammar :
    (∀ text bytes, decode text = .ok bytes ↔ Spells text bytes) ∧
    (∀ text, (∀ bytes, ¬ Spells text bytes) → ∃ error, decode text = .error error) ∧
    (∀ (raw : Text.Raw) (bytes : ByteString),
      (decode raw.replaced = .ok bytes ↔
        ∃ text : String, raw.points = Text.CodePoint.ofText text ∧ Spells text bytes) ∧
      (decodePoints? raw.points = some bytes ↔
        ∃ text : String, raw.points = Text.CodePoint.ofText text ∧ Spells text bytes)) ∧
    (∀ bytes, decode (encode bytes) = .ok bytes ∧ IsNormal (encode bytes) ∧
      ∀ text, IsNormal text → decode text = .ok bytes → text = encode bytes) ∧
    (∀ text normal, PublicKey.normalText text = .ok normal ↔
      ∃ bytes, Spells text bytes ∧ bytes.length = 32 ∧ normal = encode bytes) ∧
    ∀ text normal, PublicKey.normalText text = .ok normal →
      PublicKey.normalText normal = .ok normal := by
  refine ⟨fun _ _ => decode_eq_ok_iff, ?_, ?_, ?_, ?_, ?_⟩
  · intro text foreign
    cases read : decode text with
    | error error => exact ⟨error, rfl⟩
    | ok bytes => exact absurd (decode_eq_ok_iff.mp read) (foreign bytes)
  · intro raw bytes
    simp only [← decode_eq_ok_iff]
    exact ⟨decode_replaced_eq_ok_iff, decodePoints?_eq_some_iff⟩
  · exact fun bytes => ⟨decode_encode bytes, isNormal_encode bytes, fun _ => eq_encode_of_normal⟩
  · intro text normal
    simp only [← decode_eq_ok_iff]
    exact PublicKey.normalText_eq_ok_iff
  · intro text normal brought
    obtain ⟨bytes, _, length, rfl⟩ := PublicKey.normalText_eq_ok_iff.mp brought
    exact PublicKey.normalText_eq_ok_iff.mpr ⟨bytes, decode_encode bytes, length, rfl⟩

/-- Two bytes with a mark, digits of either case and blanks, and two bytes with a blank inside a
pair. -/
theorem blanks_between_pairs_only :
    Spells "0XaB\t0c " [0xab, 0x0c] ∧ ∃ error, decode "0XaB0\tc " = .error error := by
  obtain ⟨reads, refuses, _⟩ := reads_its_grammar
  refine ⟨(reads _ _).mp (by decide +kernel), refuses _ fun bytes spelled => ?_⟩
  have read := (reads _ _).mpr spelled
  have refused : decode "0XaB0\tc " = .error ⟨3⟩ := by decide +kernel
  rw [refused] at read
  cases read

end Hex
end CoinLedger

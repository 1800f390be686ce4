import CoinLedger.Text.Integer
import Mathlib.Data.List.TakeDrop
import Mathlib.Data.List.TakeWhile

/-! # Decimal numerals

The decimal digits of a positive number do not start with zero, and digits that do not are those of
the number that they stand for (`CoinLedger.Text.toDigits_of_ne_zero`). So the numeral of a positive
number consists of its digits and nothing else (`CoinLedger.Text.numeralOf_eq_ok_iff`).
-/

namespace CoinLedger.Text

theorem isDigit_iff {c : Char} : c.isDigit = true ↔ 48 ≤ c.toNat ∧ c.toNat ≤ 57 := by
  simp [Char.isDigit, UInt32.le_iff_toNat_le]

/-- A decimal digit is worth less than ten. -/
theorem value_lt_ten {c : Char} (digit : c.isDigit = true) : c.toNat - '0'.toNat < 10 := by
  have range := isDigit_iff.mp digit
  change c.toNat - 48 < 10
  omega

/-- The digit for the value of a digit is that digit. -/
theorem digitChar_of_isDigit {c : Char} (digit : c.isDigit = true) :
    Nat.digitChar (c.toNat - '0'.toNat) = c := by
  have range := isDigit_iff.mp digit
  apply Char.toNat_inj.mp
  rw [Nat.toNat_digitChar_of_lt_ten (value_lt_ten digit)]
  change 48 + (c.toNat - 48) = c.toNat
  omega

/-- A number is written in decimal digits. -/
theorem isDigit_of_mem {number : Nat} : ∀ c ∈ Nat.toDigits 10 number, c.isDigit = true :=
  fun _ member => Nat.isDigit_of_mem_toDigits (by decide) (by decide) member

/-- Digits behind a positive number continue its digits. -/
theorem toDigits_ofDigitChars {number : Nat} (positive : 0 < number) {digits : List Char}
    (every : ∀ c ∈ digits, c.isDigit = true) :
    Nat.toDigits 10 (Nat.ofDigitChars 10 digits number) = Nat.toDigits 10 number ++ digits := by
  induction digits generalizing number with
  | nil => exact (List.append_nil _).symm
  | cons c digits inductive_step =>
      obtain ⟨digit, others⟩ := List.forall_mem_cons.mp every
      have small := value_lt_ten digit
      have here : Nat.toDigits 10 (10 * number + (c.toNat - '0'.toNat)) =
          Nat.toDigits 10 number ++ [c] := by
        rw [← Nat.toDigits_append_toDigits (by decide) positive small,
          Nat.toDigits_of_lt_base small, digitChar_of_isDigit digit]
      calc Nat.toDigits 10 (Nat.ofDigitChars 10 (c :: digits) number)
          = Nat.toDigits 10 (Nat.ofDigitChars 10 digits
              (10 * number + (c.toNat - '0'.toNat))) := rfl
        _ = Nat.toDigits 10 (10 * number + (c.toNat - '0'.toNat)) ++ digits :=
          inductive_step (by omega) others
        _ = Nat.toDigits 10 number ++ c :: digits := by
          rw [here, List.append_assoc, List.singleton_append]

/-- Digits of which the first is not zero are those of the number that they stand for. -/
theorem toDigits_of_ne_zero {c : Char} {digits : List Char} (first : c ≠ '0')
    (every : ∀ d ∈ c :: digits, d.isDigit = true) :
    Nat.toDigits 10 (Nat.ofDigitChars 10 (c :: digits) 0) = c :: digits := by
  obtain ⟨digit, others⟩ := List.forall_mem_cons.mp every
  have range := isDigit_iff.mp digit
  have nonzero : c.toNat ≠ 48 := fun same => first (Char.toNat_inj.mp same)
  have positive : 0 < c.toNat - '0'.toNat := by
    change 0 < c.toNat - 48
    omega
  have small := value_lt_ten digit
  have leads : Nat.ofDigitChars 10 (c :: digits) 0 =
      Nat.ofDigitChars 10 digits (c.toNat - '0'.toNat) := by
    rw [Nat.ofDigitChars_cons, Nat.mul_zero, Nat.zero_add]
  rw [leads, toDigits_ofDigitChars positive others, Nat.toDigits_of_lt_base small,
    digitChar_of_isDigit digit]
  rfl

/-- The digits of a positive number do not start with zero. -/
theorem toDigits_ne_zero_cons {number : Nat} (positive : 0 < number) (rest : List Char) :
    Nat.toDigits 10 number ≠ '0' :: rest := by
  induction number using Nat.strongRecOn generalizing rest with
  | ind number inductive_step =>
      rw [Nat.toDigits_eq_if (by decide)]
      split
      · rename_i small
        intro same
        exact Nat.ne_of_gt positive (Nat.digitChar_eq_zero.mp (List.cons.inj same).1)
      · rename_i large
        have earlier := inductive_step (number / 10) (by omega) (by omega)
        cases written : Nat.toDigits 10 (number / 10) with
        | nil => exact absurd written Nat.toDigits_ne_nil
        | cons c front =>
            intro same
            cases same
            exact earlier front written

/-- A positive number is written with a first digit that is not zero. -/
theorem exists_toDigits_eq_cons {number : Nat} (positive : 0 < number) :
    ∃ c digits, Nat.toDigits 10 number = c :: digits ∧ c ≠ '0' ∧ c.isDigit = true := by
  cases written : Nat.toDigits 10 number with
  | nil => exact absurd written Nat.toDigits_ne_nil
  | cons c digits =>
      refine ⟨c, digits, rfl, ?_, isDigit_of_mem c (written ▸ List.mem_cons_self)⟩
      rintro rfl
      exact toDigits_ne_zero_cons positive digits written

/-- Different numbers have different digits. -/
theorem toDigits_injective {left right : Nat}
    (same : Nat.toDigits 10 left = Nat.toDigits 10 right) :
    left = right :=
  calc left = Nat.ofDigitChars 10 (Nat.toDigits 10 left) 0 := Nat.ofDigitChars_ten_toDigits.symm
    _ = Nat.ofDigitChars 10 (Nat.toDigits 10 right) 0 := by rw [same]
    _ = right := Nat.ofDigitChars_ten_toDigits

/-- A sum of digits is the same among integers. -/
theorem foldl_natCast (digits : List Char) (start : Nat) :
    digits.foldl (fun (value : Int) c => 10 * value + (c.toNat - '0'.toNat : Nat)) start =
      (Nat.ofDigitChars 10 digits start : Nat) := by
  induction digits generalizing start with
  | nil => rfl
  | cons c digits inductive_step =>
      have step : (10 * (start : Int) + (c.toNat - '0'.toNat : Nat)) =
          (10 * start + (c.toNat - '0'.toNat) : Nat) := by omega
      rw [List.foldl_cons, Nat.ofDigitChars_cons, step, inductive_step]

/-- A text that is read as a numeral has a sign, is zero or consists of the digits of a positive
number. -/
theorem numeralOf_eq_ok {text : List Char} {value : Int} (read : numeralOf text = .ok value) :
    (∃ rest, text = '-' :: rest ∧ value ≤ 0) ∨ (text = ['0'] ∧ value = 0) ∨
      ∃ number : Nat, 0 < number ∧ value = number ∧ text = Nat.toDigits 10 number ∧
        text.length ≤ maxIntegerDigits := by
  unfold numeralOf at read
  rw [List.span_eq_takeWhile_dropWhile] at read
  generalize signed : text.takeWhile (· = '-') = sign at read
  generalize unsigned : text.dropWhile (· = '-') = rest at read
  have whole : sign ++ rest = text := by
    rw [← signed, ← unsigned, List.takeWhile_append_dropWhile]
  dsimp only at read
  split at read
  · cases read
  rename_i starts
  split at read
  · cases read
  rename_i fits
  split at read
  · cases read
  rename_i complete
  have all : rest.takeWhile Char.isDigit = rest :=
    (List.takeWhile_prefix _).eq_of_length
      (Nat.le_antisymm (List.takeWhile_prefix _).length_le (Nat.not_lt.mp complete))
  have size := foldl_natCast rest 0
  rw [all] at starts fits read
  rw [show ((0 : Nat) : Int) = 0 from rfl] at size
  rw [size, Except.ok.injEq] at read
  cases sign with
  | cons mark others =>
      have marked : mark ∈ text.takeWhile (· = '-') := signed ▸ List.mem_cons_self
      have minus := List.mem_takeWhile_imp marked
      rw [decide_eq_true_eq] at minus
      rw [List.isEmpty_cons, if_neg Bool.false_ne_true] at read
      refine .inl ⟨others ++ rest, ?_, by omega⟩
      rw [← whole, minus, List.cons_append]
  | nil =>
      rw [List.isEmpty_nil, if_pos rfl] at read
      rw [List.nil_append] at whole
      subst whole
      rw [not_or, Bool.not_eq_false] at starts
      cases rest with
      | nil => exact absurd starts.2 Bool.false_ne_true
      | cons c digits =>
          have every : ∀ d ∈ c :: digits, d.isDigit = true := List.takeWhile_eq_self_iff.mp all
          by_cases first : c = '0'
          · subst first
            have alone := starts.2
            rw [startsNumeral] at alone
            simp only [ne_eq, not_true_eq_false, decide_false, Bool.false_or,
              List.isEmpty_iff] at alone
            subst alone
            exact .inr (.inl ⟨rfl, read.symm⟩)
          · have digits := toDigits_of_ne_zero first every
            refine .inr (.inr ⟨_, Nat.pos_of_ne_zero fun zero => ?_, read.symm, digits.symm,
              Nat.not_lt.mp fits⟩)
            rw [zero] at digits
            exact first (List.cons.inj digits).1.symm

/-- **The numeral of a positive integer consists of its digits.** -/
theorem numeralOf_eq_ok_iff {text : List Char} {number : Nat} (positive : 0 < number) :
    numeralOf text = .ok number ↔
      text = Nat.toDigits 10 number ∧ text.length ≤ maxIntegerDigits := by
  constructor
  · intro read
    obtain ⟨-, -, below⟩ | ⟨-, zero⟩ | ⟨written, -, same, digits, fits⟩ := numeralOf_eq_ok read
    · omega
    · omega
    · rw [Int.natCast_inj] at same
      exact ⟨same ▸ digits, fits⟩
  · rintro ⟨rfl, fits⟩
    have all : (Nat.toDigits 10 number).takeWhile Char.isDigit = Nat.toDigits 10 number :=
      List.takeWhile_eq_self_iff.mpr isDigit_of_mem
    have size := foldl_natCast (Nat.toDigits 10 number) 0
    rw [Nat.ofDigitChars_ten_toDigits, show ((0 : Nat) : Int) = 0 from rfl] at size
    obtain ⟨c, digits, written, nonzero, digit⟩ := exists_toDigits_eq_cons positive
    have unsigned : c ≠ '-' := by
      rintro rfl
      cases digit
    have starts : startsNumeral (Nat.toDigits 10 number) = true := by
      rw [written, startsNumeral, decide_eq_true nonzero, Bool.true_or]
    have sign : (Nat.toDigits 10 number).takeWhile (· = '-') = [] ∧
        (Nat.toDigits 10 number).dropWhile (· = '-') = Nat.toDigits 10 number := by
      rw [written]
      simp [unsigned]
    unfold numeralOf
    rw [List.span_eq_takeWhile_dropWhile, sign.1, sign.2]
    dsimp only
    rw [all, starts, size, if_neg (by simp), if_neg (Nat.not_lt.mpr fits),
      if_neg (Nat.lt_irrefl _)]
    rfl

end CoinLedger.Text

import CoinLedger.Proofs.Text.Decimal

/-! # The plain grammar of positive integers

A positive integer is spelled by its decimal digits with single underscores between them. In front
may stand a zero with further zeros and underscores, and a plus sign before that; behind may stand a
point and zeros; and blanks may surround it all (`CoinLedger.Text.SpellsPositive`). Tidying a text
gives the digits of the integer that it spells, and the text is read as this integer and no other
one (`CoinLedger.Text.plainIntegerOf_eq_ok_iff`).
-/

namespace CoinLedger.Text

/-- A text is made of digits by single underscores between them. -/
inductive Joined : (text digits : List Char) → Prop where
  | last {c : Char} (solid : c ≠ '_') : Joined [c] [c]
  | next {c : Char} {text digits : List Char} (solid : c ≠ '_') (more : Joined text digits) :
      Joined (c :: text) (c :: digits)
  | joint {c : Char} {text digits : List Char} (solid : c ≠ '_') (more : Joined text digits) :
      Joined (c :: '_' :: text) (c :: digits)

/-- What may stand before the digits that count: nothing, or a zero and then zeros and
underscores. -/
def IsLead (lead : List Char) : Prop :=
  lead = [] ∨ ∃ zeros, lead = '0' :: zeros ∧ ∀ c ∈ zeros, c = '0' ∨ c = '_'

/-- What may stand behind the digits: nothing, or a point and zeros, at least one. -/
def IsFraction (fraction : List Char) : Prop :=
  fraction = [] ∨ ∃ count, fraction = '.' :: List.replicate (count + 1) '0'

/-- A text spells a positive integer. -/
def SpellsPositive (text : List Char) (number : Nat) : Prop :=
  ∃ front sign lead body fraction back : List Char,
    text = front ++ (sign ++ (lead ++ (body ++ fraction))) ++ back ∧
    (∀ c ∈ front, isBlank c = true) ∧ (sign = [] ∨ sign = ['+']) ∧ IsLead lead ∧
    Joined body (Nat.toDigits 10 number) ∧ IsFraction fraction ∧ ∀ c ∈ back, isBlank c = true

theorem Joined.ne_nil {text digits : List Char} (joined : Joined text digits) : text ≠ [] := by
  cases joined <;> exact List.cons_ne_nil _ _

/-- The first digit is the first character. -/
theorem Joined.eq_cons {text digits : List Char} {c : Char} (joined : Joined text (c :: digits)) :
    ∃ rest, text = c :: rest ∧ c ≠ '_' := by
  cases joined with
  | last solid => exact ⟨_, rfl, solid⟩
  | next solid _ => exact ⟨_, rfl, solid⟩
  | joint solid _ => exact ⟨_, rfl, solid⟩

/-- A joined text has nothing but its digits and underscores. -/
theorem Joined.mem {text digits : List Char} (joined : Joined text digits) :
    ∀ c ∈ text, c = '_' ∨ c ∈ digits := by
  induction joined with
  | last _ => exact fun c member => .inr member
  | next _ _ inductive_step =>
      refine List.forall_mem_cons.mpr ⟨.inr List.mem_cons_self, fun c member => ?_⟩
      exact (inductive_step c member).imp_right (List.mem_cons_of_mem _)
  | joint _ _ inductive_step =>
      refine List.forall_mem_cons.mpr ⟨.inr List.mem_cons_self,
        List.forall_mem_cons.mpr ⟨.inl rfl, fun c member => ?_⟩⟩
      exact (inductive_step c member).imp_right (List.mem_cons_of_mem _)

/-- Behind a first digit comes nothing, or a joined text, or one behind an underscore. -/
theorem joined_cons_iff {c : Char} {rest digits : List Char} (solid : c ≠ '_') :
    Joined (c :: rest) digits ↔
      ∃ others, c :: others = digits ∧ ((rest = [] ∧ others = []) ∨ Joined rest others ∨
        ∃ more, rest = '_' :: more ∧ Joined more others) := by
  constructor
  · intro joined
    cases joined with
    | last _ => exact ⟨[], rfl, .inl ⟨rfl, rfl⟩⟩
    | next _ more => exact ⟨_, rfl, .inr (.inl more)⟩
    | joint _ more => exact ⟨_, rfl, .inr (.inr ⟨_, rfl, more⟩)⟩
  · rintro ⟨others, rfl, ⟨rfl, rfl⟩ | more | ⟨more, rfl, joined⟩⟩
    · exact .last solid
    · exact .next solid more
    · exact .joint solid joined

/-- Underscores can be dropped where they are joints. Behind a digit nothing or a joint may come. -/
theorem dropJoints_eq_some_iff_both (text digits : List Char) :
    (dropJoints false text = some digits ↔ Joined text digits) ∧
      (dropJoints true text = some digits ↔ (text = [] ∧ digits = []) ∨ Joined text digits ∨
        ∃ more, text = '_' :: more ∧ Joined more digits) := by
  induction text generalizing digits with
  | nil =>
      constructor
      · rw [dropJoints, if_neg Bool.false_ne_true]
        exact ⟨fun dropped => absurd dropped (Option.some_ne_none digits).symm,
          fun joined => absurd rfl joined.ne_nil⟩
      · rw [dropJoints, if_pos rfl, Option.some.injEq]
        constructor
        · exact fun same => .inl ⟨rfl, same.symm⟩
        · rintro (⟨-, same⟩ | joined | ⟨more, same, -⟩)
          · exact same.symm
          · exact absurd rfl joined.ne_nil
          · cases same
  | cons c rest inductive_step =>
      by_cases joint : c = '_'
      · subst joint
        have unjoined : ¬ Joined ('_' :: rest) digits := by
          intro joined
          cases joined with
          | last solid => exact solid rfl
          | next solid _ => exact solid rfl
          | joint solid _ => exact solid rfl
        constructor
        · rw [dropJoints, if_pos rfl, if_neg Bool.false_ne_true]
          exact ⟨fun dropped => absurd dropped (Option.some_ne_none digits).symm,
            fun joined => absurd joined unjoined⟩
        · rw [dropJoints, if_pos rfl, if_pos rfl, (inductive_step digits).1]
          constructor
          · exact fun joined => .inr (.inr ⟨rest, rfl, joined⟩)
          · rintro (⟨same, -⟩ | joined | ⟨more, same, joined⟩)
            · cases same
            · exact absurd joined unjoined
            · cases same
              exact joined
      · have here : ∀ before, dropJoints before (c :: rest) = some digits ↔
            Joined (c :: rest) digits := by
          intro before
          rw [dropJoints, if_neg joint, Option.map_eq_some_iff, joined_cons_iff joint]
          refine exists_congr fun others => ?_
          rw [(inductive_step others).2, and_comm]
        refine ⟨here false, (here true).trans ⟨fun joined => .inr (.inl joined), ?_⟩⟩
        rintro (⟨same, -⟩ | joined | ⟨more, same, -⟩)
        · cases same
        · exact joined
        · cases same
          exact absurd rfl joint

/-- The underscores can be dropped exactly when the digits are joined by them. -/
theorem dropJoints_eq_some_iff {text digits : List Char} :
    dropJoints false text = some digits ↔ Joined text digits :=
  (dropJoints_eq_some_iff_both text digits).1

/-- Nothing is dropped of a text without characters to drop. -/
theorem dropWhile_of_forall_not {test : Char → Bool} {text : List Char}
    (every : ∀ c ∈ text, test c = false) : text.dropWhile test = text := by
  cases text with
  | nil => rfl
  | cons c rest =>
      rw [List.dropWhile_cons, every c List.mem_cons_self, if_neg Bool.false_ne_true]

/-- What trimming takes away are blanks at both ends. -/
theorem exists_eq_append_trim (text : List Char) :
    ∃ front back, text = front ++ trim text ++ back ∧ (∀ c ∈ front, isBlank c = true) ∧
      ∀ c ∈ back, isBlank c = true := by
  refine ⟨text.takeWhile isBlank,
    ((text.dropWhile isBlank).reverse.takeWhile isBlank).reverse, ?_, ?_, ?_⟩
  · rw [trim, List.append_assoc, ← List.reverse_append, List.takeWhile_append_dropWhile,
      List.reverse_reverse, List.takeWhile_append_dropWhile]
  · exact fun c member => List.mem_takeWhile_imp member
  · exact fun c member => List.mem_takeWhile_imp (List.mem_reverse.mp member)

/-- Trimming takes the blanks around solid characters off. -/
theorem trim_append {front text back : List Char} (before : ∀ c ∈ front, isBlank c = true)
    (solid : ∀ c ∈ text, isBlank c = false) (behind : ∀ c ∈ back, isBlank c = true)
    (something : text ≠ []) : trim (front ++ text ++ back) = text := by
  have started : (text ++ back).dropWhile isBlank = text ++ back := by
    cases text with
    | nil => exact absurd rfl something
    | cons c rest =>
        rw [List.cons_append, List.dropWhile_cons, solid c List.mem_cons_self,
          if_neg Bool.false_ne_true]
  rw [trim, List.append_assoc, List.dropWhile_append_of_pos before, started, List.reverse_append,
    List.dropWhile_append_of_pos fun c member => behind c (List.mem_reverse.mp member),
    dropWhile_of_forall_not fun c member => solid c (List.mem_reverse.mp member),
    List.reverse_reverse]

/-- The zeros in front of a part that counts, up to it. -/
theorem dropZeros_eq_some_iff {last c : Char} {text rest : List Char}
    (zero : last = '0' ∨ last = '_') (counts : startsPart c = true) :
    dropZeros last text = some (c :: rest) ↔
      ∃ zeros, text = zeros ++ c :: rest ∧ ∀ d ∈ zeros, d = '0' ∨ d = '_' := by
  have other : ¬ (c = '0' ∨ c = '_') := by
    rintro (rfl | rfl) <;> cases counts
  induction text generalizing last with
  | nil =>
      rw [dropZeros, Option.some.injEq]
      constructor
      · intro same
        cases same
        exact absurd zero other
      · rintro ⟨zeros, same, -⟩
        exact absurd same.symm (List.append_ne_nil_of_right_ne_nil _ (List.cons_ne_nil _ _))
  | cons d text inductive_step =>
      rw [dropZeros]
      by_cases skipped : d = '0' ∨ d = '_'
      · rw [if_pos skipped]
        refine (inductive_step skipped).trans ⟨?_, ?_⟩
        · rintro ⟨zeros, rfl, every⟩
          exact ⟨d :: zeros, rfl, List.forall_mem_cons.mpr ⟨skipped, every⟩⟩
        · rintro ⟨zeros, same, every⟩
          cases zeros with
          | nil =>
              cases same
              exact absurd skipped other
          | cons z zeros =>
              cases same
              exact ⟨zeros, rfl, (List.forall_mem_cons.mp every).2⟩
      · have front : (∃ zeros, d :: text = zeros ++ c :: rest ∧ ∀ z ∈ zeros, z = '0' ∨ z = '_') ↔
            d :: text = c :: rest := by
          constructor
          · rintro ⟨zeros, same, every⟩
            cases zeros with
            | nil => exact same
            | cons z zeros =>
                cases same
                exact absurd (every d List.mem_cons_self) skipped
          · exact fun same => ⟨[], same, List.forall_mem_nil _⟩
        rw [if_neg skipped, front]
        split
        · rename_i point
          subst point
          rw [Option.some.injEq]
          constructor
          · intro same
            cases same
            exact absurd zero other
          · intro same
            cases same
            cases counts
        · split
          · rw [Option.some.injEq]
          · rename_i unfit
            refine ⟨fun none => ?_, fun same => ?_⟩
            · cases none
            · cases same
              exact absurd counts unfit

/-- The part of a text that counts stands behind zeros. -/
theorem dropLeadingZeros_eq_some_iff {c : Char} {text rest : List Char}
    (counts : startsPart c = true) :
    dropLeadingZeros text = some (c :: rest) ↔ ∃ lead, IsLead lead ∧ text = lead ++ c :: rest := by
  cases text with
  | nil =>
      constructor
      · intro none
        cases none
      · rintro ⟨lead, -, same⟩
        exact absurd same.symm (List.append_ne_nil_of_right_ne_nil _ (List.cons_ne_nil _ _))
  | cons d text =>
      rw [dropLeadingZeros]
      by_cases zero : d = '0'
      · subst zero
        rw [if_pos rfl, dropZeros_eq_some_iff (.inl rfl) counts]
        constructor
        · rintro ⟨zeros, rfl, every⟩
          exact ⟨'0' :: zeros, .inr ⟨zeros, rfl, every⟩, rfl⟩
        · rintro ⟨lead, rfl | ⟨zeros, rfl, every⟩, same⟩
          · cases same
            cases counts
          · cases same
            exact ⟨zeros, rfl, every⟩
      · rw [if_neg zero]
        have front : (∃ lead, IsLead lead ∧ d :: text = lead ++ c :: rest) ↔
            d :: text = c :: rest := by
          constructor
          · rintro ⟨lead, rfl | ⟨zeros, rfl, -⟩, same⟩
            · exact same
            · cases same
              exact absurd rfl zero
          · exact fun same => ⟨[], .inl rfl, same⟩
        rw [front]
        split
        · rw [Option.some.injEq]
        · rename_i unfit
          refine ⟨fun none => ?_, fun same => ?_⟩
          · cases none
          · cases same
            exact absurd counts unfit

/-- What is dropped behind the digits is a fraction of zeros. -/
theorem exists_eq_dropZeroFraction_append (text : List Char) :
    ∃ fraction, IsFraction fraction ∧ text = dropZeroFraction text ++ fraction := by
  rw [dropZeroFraction, List.span_eq_takeWhile_dropWhile]
  dsimp only
  split
  · rename_i zeros
    refine ⟨text.dropWhile (· ≠ '.'), .inr ?_, List.takeWhile_append_dropWhile.symm⟩
    obtain ⟨long, every⟩ := zeros
    cases behind : text.dropWhile (· ≠ '.') with
    | nil =>
        rw [behind] at long
        exact absurd long (by decide)
    | cons point rest =>
        have stop := List.head?_dropWhile_not (fun c : Char => decide (c ≠ '.')) text
        rw [behind] at stop
        have stop : point = '.' := not_not.mp (of_decide_eq_false stop)
        rw [behind, List.drop_succ_cons, List.drop_zero, List.all_eq_true] at every
        rw [behind, List.length_cons] at long
        refine ⟨rest.length - 1, ?_⟩
        rw [stop, Nat.sub_add_cancel (by omega),
          List.eq_replicate_iff.mpr ⟨rfl, fun c member => of_decide_eq_true (every c member)⟩,
          List.length_replicate]
  · exact ⟨[], .inl rfl, (List.append_nil _).symm⟩

/-- A fraction of zeros behind a text without a point is dropped. -/
theorem dropZeroFraction_append {body fraction : List Char} (whole : '.' ∉ body)
    (zeros : IsFraction fraction) : dropZeroFraction (body ++ fraction) = body := by
  have before : ∀ c ∈ body, decide (c ≠ '.') = true := by
    intro c member
    refine decide_eq_true ?_
    rintro rfl
    exact whole member
  rw [dropZeroFraction, List.span_eq_takeWhile_dropWhile,
    List.takeWhile_append_of_pos before, List.dropWhile_append_of_pos before]
  obtain rfl | ⟨count, rfl⟩ := zeros
  · simp
  · simp

/-- **Tidying what follows the sign gives the digits of a number.** -/
theorem tidiedDigits_eq_some_iff {text : List Char} {number : Nat} (positive : 0 < number) :
    tidiedDigits text = some (Nat.toDigits 10 number) ↔
      ∃ lead body fraction, text = lead ++ (body ++ fraction) ∧ IsLead lead ∧
        Joined body (Nat.toDigits 10 number) ∧ IsFraction fraction := by
  obtain ⟨c, digits, written, nonzero, digit⟩ := exists_toDigits_eq_cons positive
  have counts : startsPart c = true := by
    rw [startsPart, digit, decide_eq_true nonzero, Bool.and_self, Bool.or_true]
  refine Option.bind_eq_some_iff.trans ⟨?_, ?_⟩
  · rintro ⟨counting, led, joined⟩
    rw [dropJoints_eq_some_iff] at joined
    obtain ⟨fraction, zeros, whole⟩ := exists_eq_dropZeroFraction_append counting
    obtain ⟨rest, begun, -⟩ := Joined.eq_cons (written ▸ joined)
    have starts : counting = c :: (rest ++ fraction) := by
      rw [whole, begun, List.cons_append]
    rw [starts, dropLeadingZeros_eq_some_iff counts] at led
    obtain ⟨lead, leading, rfl⟩ := led
    refine ⟨lead, dropZeroFraction counting, fraction, ?_, leading, joined, zeros⟩
    rw [← whole, starts]
  · rintro ⟨lead, body, fraction, rfl, leading, joined, zeros⟩
    obtain ⟨rest, begun, -⟩ := Joined.eq_cons (written ▸ joined)
    have whole : '.' ∉ body := by
      intro member
      obtain same | inside := joined.mem _ member
      · cases same
      · cases isDigit_of_mem _ inside
    refine ⟨body ++ fraction, ?_, ?_⟩
    · rw [begun, List.cons_append, dropLeadingZeros_eq_some_iff counts]
      exact ⟨lead, leading, rfl⟩
    · rw [dropZeroFraction_append whole zeros, dropJoints_eq_some_iff]
      exact joined

/-- What spells a number without its sign starts with a digit. -/
theorem exists_digit_cons {lead body digits : List Char} {c : Char} (fraction : List Char)
    (leading : IsLead lead) (joined : Joined body (c :: digits)) (digit : c.isDigit = true) :
    ∃ d rest, lead ++ (body ++ fraction) = d :: rest ∧ d.isDigit = true := by
  obtain rfl | ⟨zeros, rfl, -⟩ := leading
  · obtain ⟨rest, rfl, -⟩ := joined.eq_cons
    exact ⟨c, rest ++ fraction, rfl, digit⟩
  · exact ⟨'0', zeros ++ (body ++ fraction), rfl, rfl⟩

/-- A decimal digit is not a blank. -/
theorem isBlank_of_isDigit {c : Char} (digit : c.isDigit = true) : isBlank c = false := by
  have range := isDigit_iff.mp digit
  simp only [isBlank, Bool.or_eq_false_iff, Bool.and_eq_false_imp, decide_eq_true_eq,
    decide_eq_false_iff_not]
  omega

/-- No blank stands between the sign and the end of a spelling. -/
theorem solid_of_spelled {sign lead body digits fraction : List Char}
    (signed : sign = [] ∨ sign = ['+']) (leading : IsLead lead) (joined : Joined body digits)
    (every : ∀ c ∈ digits, c.isDigit = true) (zeros : IsFraction fraction) :
    ∀ c ∈ sign ++ (lead ++ (body ++ fraction)), isBlank c = false := by
  simp only [List.forall_mem_append]
  refine ⟨?_, ?_, ?_, ?_⟩
  · obtain rfl | rfl := signed
    · exact List.forall_mem_nil _
    · exact List.forall_mem_singleton.mpr rfl
  · obtain rfl | ⟨zeros, rfl, all⟩ := leading
    · exact List.forall_mem_nil _
    · refine List.forall_mem_cons.mpr ⟨rfl, fun c member => ?_⟩
      obtain rfl | rfl := all c member <;> rfl
  · intro c member
    obtain rfl | inside := joined.mem c member
    · rfl
    · exact isBlank_of_isDigit (every c inside)
  · obtain rfl | ⟨count, rfl⟩ := zeros
    · exact List.forall_mem_nil _
    · refine List.forall_mem_cons.mpr ⟨rfl, fun c member => ?_⟩
      rw [List.eq_of_mem_replicate member]
      rfl

/-- What is left of a text without its plus sign is not signed. -/
theorem dropPlus_eq_some_iff {text unsigned : List Char} {c : Char} (unlike : c ≠ '+' ∧ c ≠ '-') :
    dropPlus text = some (c :: unsigned) ↔
      ∃ sign, (sign = [] ∨ sign = ['+']) ∧ text = sign ++ c :: unsigned := by
  constructor
  · intro dropped
    unfold dropPlus at dropped
    split at dropped
    · cases dropped
    · cases dropped
      exact ⟨['+'], .inr rfl, rfl⟩
    · cases dropped
      exact ⟨[], .inl rfl, rfl⟩
  · rintro ⟨sign, rfl | rfl, rfl⟩
    · unfold dropPlus
      split
      · rename_i same
        cases same
        exact absurd rfl unlike.1
      · rename_i same
        cases same
        exact absurd rfl unlike.1
      · rfl
    · unfold dropPlus
      split
      · rename_i same
        cases same
        exact absurd rfl unlike.2
      · rename_i same
        cases same
        rfl
      · rename_i other
        exact absurd rfl (other _)

/-- **A text that spells a positive integer is tidied into its digits.** -/
theorem tidiedNumeral_eq_some_iff {text : List Char} {number : Nat} (positive : 0 < number) :
    tidiedNumeral text = some (Nat.toDigits 10 number) ↔ SpellsPositive text number := by
  obtain ⟨c, digits, written, nonzero, digit⟩ := exists_toDigits_eq_cons positive
  have every : ∀ c ∈ Nat.toDigits 10 number, c.isDigit = true := isDigit_of_mem
  refine Option.bind_eq_some_iff.trans ⟨?_, ?_⟩
  · rintro ⟨unsigned, dropped, tidied⟩
    split at tidied
    · -- A minus sign would stay.
      obtain ⟨others, -, same⟩ := Option.map_eq_some_iff.mp tidied
      rw [written] at same
      cases same
      cases digit
    · rw [tidiedDigits_eq_some_iff positive] at tidied
      obtain ⟨lead, body, fraction, rfl, leading, joined, zeros⟩ := tidied
      obtain ⟨d, rest, starts, leads⟩ :=
        exists_digit_cons fraction leading (written ▸ joined) digit
      have unlike : d ≠ '+' ∧ d ≠ '-' := by
        constructor <;> rintro rfl <;> cases leads
      rw [starts, dropPlus_eq_some_iff unlike, ← starts] at dropped
      obtain ⟨sign, signed, trimmed⟩ := dropped
      obtain ⟨front, back, whole, before, behind⟩ := exists_eq_append_trim text
      rw [trimmed] at whole
      exact ⟨front, sign, lead, body, fraction, back, whole, before, signed, leading, joined,
        zeros, behind⟩
  · rintro ⟨front, sign, lead, body, fraction, back, rfl, before, signed, leading, joined, zeros,
      behind⟩
    obtain ⟨d, rest, starts, leads⟩ :=
      exists_digit_cons fraction leading (written ▸ joined) digit
    have unlike : d ≠ '+' ∧ d ≠ '-' := by
      constructor <;> rintro rfl <;> cases leads
    have solid := solid_of_spelled signed leading joined every zeros
    have something : sign ++ (lead ++ (body ++ fraction)) ≠ [] := by
      rw [starts]
      exact List.append_ne_nil_of_right_ne_nil _ (List.cons_ne_nil _ _)
    refine ⟨lead ++ (body ++ fraction), ?_, ?_⟩
    · rw [trim_append before solid behind something, starts]
      exact (dropPlus_eq_some_iff unlike).mpr ⟨sign, signed, rfl⟩
    · split
      · rename_i same
        rw [starts] at same
        exact absurd (List.cons.inj same).1 unlike.2
      · exact (tidiedDigits_eq_some_iff positive).mpr
          ⟨lead, body, fraction, rfl, leading, joined, zeros⟩

/-- The decimal digits of a number spell it. -/
theorem spellsPositive_toDigits {number : Nat} :
    SpellsPositive (Nat.toDigits 10 number) number := by
  have joined : ∀ digits : List Char, digits ≠ [] → (∀ c ∈ digits, c.isDigit = true) →
      Joined digits digits := by
    intro digits something every
    induction digits with
    | nil => exact absurd rfl something
    | cons c digits inductive_step =>
        obtain ⟨digit, others⟩ := List.forall_mem_cons.mp every
        have solid : c ≠ '_' := by
          rintro rfl
          cases digit
        cases digits with
        | nil => exact .last solid
        | cons d digits => exact .next solid (inductive_step (List.cons_ne_nil _ _) others)
  refine ⟨[], [], [], Nat.toDigits 10 number, [], [], ?_, List.forall_mem_nil _, .inl rfl, .inl rfl,
    joined _ Nat.toDigits_ne_nil isDigit_of_mem, .inl rfl, List.forall_mem_nil _⟩
  rw [List.nil_append, List.nil_append, List.nil_append, List.append_nil, List.append_nil]

/-- **A text spells one positive integer at most.** -/
theorem SpellsPositive.unique {text : List Char} {left right : Nat} (first : 0 < left)
    (second : 0 < right) (one : SpellsPositive text left) (other : SpellsPositive text right) :
    left = right := by
  have tidied := (tidiedNumeral_eq_some_iff first).mpr one
  rw [(tidiedNumeral_eq_some_iff second).mpr other, Option.some.injEq] at tidied
  exact (toDigits_injective tidied).symm

/-- A spelling that starts with a digit that counts has nothing in front. -/
theorem SpellsPositive.eq_of_digit {c : Char} {rest : List Char} {number : Nat}
    (spelled : SpellsPositive (c :: rest) number) (digit : c.isDigit = true) (nonzero : c ≠ '0') :
    ∃ body fraction back, c :: rest = body ++ (fraction ++ back) ∧
      Joined body (Nat.toDigits 10 number) ∧ IsFraction fraction ∧
        ∀ d ∈ back, isBlank d = true := by
  obtain ⟨front, sign, lead, body, fraction, back, whole, before, signed, leading, joined, zeros,
    behind⟩ := spelled
  cases front with
  | cons blank front =>
      cases whole
      have blank := before c List.mem_cons_self
      rw [isBlank_of_isDigit digit] at blank
      cases blank
  | nil =>
      obtain rfl | rfl := signed
      · obtain rfl | ⟨others, rfl, -⟩ := leading
        · refine ⟨body, fraction, back, ?_, joined, zeros, behind⟩
          rw [whole, List.nil_append, List.nil_append, List.nil_append, List.append_assoc]
        · cases whole
          exact absurd rfl nonzero
      · cases whole
        cases digit

/-- A spelling of a positive integer does not start with a minus sign. -/
theorem SpellsPositive.ne_minus {c : Char} {rest : List Char} {number : Nat}
    (spelled : SpellsPositive (c :: rest) number) : c ≠ '-' := by
  obtain ⟨front, sign, lead, body, fraction, back, whole, before, signed, leading, joined, -, -⟩ :=
    spelled
  rintro rfl
  cases front with
  | cons blank front =>
      cases whole
      cases before '-' List.mem_cons_self
  | nil =>
      obtain rfl | rfl := signed
      · obtain rfl | ⟨others, rfl, -⟩ := leading
        · cases body with
          | nil => exact joined.ne_nil rfl
          | cons d body =>
              cases whole
              obtain same | inside := joined.mem '-' List.mem_cons_self
              · cases same
              · cases isDigit_of_mem _ inside
        · cases whole
      · cases whole

/-- A spelling has no more digits in front than the number has. -/
theorem Joined.length_takeWhile_le {body digits rest : List Char} (joined : Joined body digits)
    (ended : rest.takeWhile Char.isDigit = []) :
    ((body ++ rest).takeWhile Char.isDigit).length ≤ digits.length := by
  induction joined with
  | last _ =>
      rw [List.singleton_append, List.takeWhile_cons, ended]
      split
      · exact Nat.le_refl _
      · exact Nat.zero_le _
  | next _ _ inductive_step =>
      rw [List.cons_append, List.takeWhile_cons]
      split
      · exact Nat.succ_le_succ inductive_step
      · exact Nat.zero_le _
  | joint _ _ _ =>
      rw [List.cons_append, List.cons_append, List.takeWhile_cons]
      split
      · exact Nat.succ_le_succ (Nat.zero_le _)
      · exact Nat.zero_le _

/-- A fraction with blanks behind it does not begin with a digit. -/
theorem takeWhile_isDigit_of_ended {fraction back : List Char} (zeros : IsFraction fraction)
    (behind : ∀ c ∈ back, isBlank c = true) : (fraction ++ back).takeWhile Char.isDigit = [] := by
  obtain rfl | ⟨count, rfl⟩ := zeros
  · cases back with
    | nil => rfl
    | cons c back =>
        have other : c.isDigit = false := by
          refine Bool.eq_false_iff.mpr fun digit => ?_
          have blank := behind c List.mem_cons_self
          rw [isBlank_of_isDigit digit] at blank
          cases blank
        rw [List.nil_append, List.takeWhile_cons, other, if_neg Bool.false_ne_true]
  · rfl

/-- A text is too large only if the number that it spells is. -/
theorem SpellsPositive.not_oversized {text : List Char} {number : Nat}
    (spelled : SpellsPositive text number)
    (fits : (Nat.toDigits 10 number).length ≤ maxIntegerDigits) :
    numeralOf text ≠ .error .oversized := by
  have unsigned : text.takeWhile (· = '-') = [] ∧ text.dropWhile (· = '-') = text := by
    cases text with
    | nil => exact ⟨rfl, rfl⟩
    | cons c rest =>
        rw [List.takeWhile_cons, List.dropWhile_cons, decide_eq_false spelled.ne_minus,
          if_neg Bool.false_ne_true, if_neg Bool.false_ne_true]
        exact ⟨rfl, rfl⟩
  unfold numeralOf
  rw [List.span_eq_takeWhile_dropWhile, unsigned.1, unsigned.2]
  dsimp only
  split
  · intro same
    cases same
  rename_i starts
  split
  · rename_i large
    exfalso
    rw [not_or, Bool.not_eq_false] at starts
    -- So many digits do not start with zero, so nothing stands before the digits of the number.
    cases text with
    | nil => exact absurd large (by decide)
    | cons c rest =>
        rw [List.takeWhile_cons] at starts large
        split at large
        · rename_i digit
          rw [if_pos digit, startsNumeral] at starts
          have nonzero : c ≠ '0' := by
            rintro rfl
            simp only [ne_eq, not_true_eq_false, decide_false, Bool.false_or,
              List.isEmpty_iff] at starts
            rw [starts.2] at large
            exact absurd large (by decide)
          obtain ⟨body, fraction, back, whole, joined, zeros, behind⟩ :=
            spelled.eq_of_digit digit nonzero
          have few := joined.length_takeWhile_le (takeWhile_isDigit_of_ended zeros behind)
          rw [← whole, List.takeWhile_cons, if_pos digit] at few
          omega
        · exact absurd large (by decide)
  · split <;> intro same <;> cases same

/-- **A text is read as a positive integer just if it spells it**, and the integer does not have too
many digits. -/
theorem plainIntegerOf_eq_ok_iff {text : String} {number : Nat} (positive : 0 < number) :
    plainIntegerOf text = .ok (number : Int) ↔
      SpellsPositive text.toList number ∧
        (Nat.toDigits 10 number).length ≤ maxIntegerDigits := by
  constructor
  · intro read
    unfold plainIntegerOf at read
    split at read
    · split at read
      · rename_i value tidied
        cases read
        obtain ⟨numeral, written, read⟩ := Option.map_eq_some_iff.mp tidied
        obtain ⟨rfl, fits⟩ := (numeralOf_eq_ok_iff positive).mp read
        exact ⟨(tidiedNumeral_eq_some_iff positive).mp written, fits⟩
      · cases read
    · obtain ⟨written, fits⟩ := (numeralOf_eq_ok_iff positive).mp read
      rw [written] at fits ⊢
      exact ⟨spellsPositive_toDigits, fits⟩
  · rintro ⟨spelled, fits⟩
    have tidied := (tidiedNumeral_eq_some_iff positive).mpr spelled
    have numeral := (numeralOf_eq_ok_iff positive).mpr ⟨rfl, fits⟩
    unfold plainIntegerOf
    cases read : numeralOf text.toList with
    | error problem =>
        cases problem with
        | malformed =>
            dsimp only
            rw [tidied, Option.map_some, numeral]
        | oversized => exact absurd read (spelled.not_oversized fits)
    | ok value =>
        dsimp only
        obtain ⟨rest, signed, -⟩ | ⟨zero, -⟩ | ⟨other, counts, rfl, written, -⟩ :=
          numeralOf_eq_ok read
        · rw [signed] at spelled
          exact absurd rfl spelled.ne_minus
        · rw [zero, show tidiedNumeral ['0'] = some ['0'] from rfl, Option.some.injEq] at tidied
          exact absurd tidied.symm (toDigits_ne_zero_cons positive [])
        · rw [written] at spelled
          rw [spellsPositive_toDigits.unique counts positive spelled]

end CoinLedger.Text

import CoinLedger.Json.Parser
import CoinLedger.Json.Printer
import CoinLedger.Proofs.Storage.TableFile
import CoinLedger.Proofs.Text.Decimal
import CoinLedger.Text.ControlSequence

/-! # Indented text is read back

Documents made of texts that need no escapes, of natural numbers, and of arrays and objects of these
are read back from their indented lines (`CoinLedger.Json.parse_indentedLines`).
-/

namespace CoinLedger.Json

/-- The characters of lines, one under the other. -/
def spelled (lines : List String) : List Char :=
  List.intercalate ['\n'] (lines.map String.toList)

/-- Lines are spelled with a line feed after the first. -/
theorem spelled_cons (line : String) {lines : List String} (more : lines ≠ []) :
    spelled (line :: lines) = line.toList ++ '\n' :: spelled lines := by
  cases lines with
  | nil => exact absurd rfl more
  | cons next lines => simp [spelled, List.intercalate]

/-- Lines and more lines are spelled one after the other, with a line feed between them. -/
theorem spelled_append {first second : List String} (some : first ≠ []) (more : second ≠ []) :
    spelled (first ++ second) = spelled first ++ '\n' :: spelled second := by
  induction first with
  | nil => exact absurd rfl some
  | cons line first inductive_step =>
      cases first with
      | nil =>
          rw [List.singleton_append, spelled_cons line more]
          simp [spelled, List.intercalate]
      | cons next first =>
          rw [List.cons_append, spelled_cons line (List.cons_ne_nil _ _),
            spelled_cons line (by simp), inductive_step (List.cons_ne_nil _ _)]
          simp

/-- What is put before the first line is spelled first. -/
theorem spelled_beforeFirst (lead : String) (lines : List String) :
    spelled (beforeFirst lead lines) = lead.toList ++ spelled lines := by
  cases lines with
  | nil => simp [beforeFirst, spelled, List.intercalate]
  | cons line lines =>
      cases lines <;> simp [beforeFirst, spelled, List.intercalate]

/-- What is put after the last line is spelled last. -/
theorem spelled_afterLast (trail : String) (lines : List String) :
    spelled (afterLast trail lines) = spelled lines ++ trail.toList := by
  induction lines with
  | nil => simp [afterLast, spelled, List.intercalate]
  | cons line lines inductive_step =>
      cases lines with
      | nil => simp [afterLast, spelled, List.intercalate]
      | cons next lines =>
          have some : afterLast trail (next :: lines) ≠ [] := by
            cases lines <;> simp [afterLast]
          rw [afterLast, spelled_cons line some, inductive_step, spelled_cons line (by simp)]
          · simp
          · simp

/-- What follows a value on its line: nothing, a comma or the next line. -/
def Ended (rest : List Char) : Prop := ∀ c ∈ rest.head?, c = ',' ∨ c = '\n'

/-- Reading digits stops where they end. -/
theorem spanDigits_append {digits rest : List Char} (every : ∀ c ∈ digits, c.isDigit = true)
    (ended : Ended rest) : spanDigits (digits ++ rest) = (digits, rest) := by
  have stops : spanDigits rest = ([], rest) := by
    cases rest with
    | nil => rfl
    | cons c rest => rcases ended c rfl with rfl | rfl <;> rfl
  obtain ⟨none, all⟩ := Prod.mk.inj stops
  rw [spanDigits, List.takeWhile_append_of_pos every, List.dropWhile_append_of_pos every, none, all,
    List.append_nil]

theorem naturalOfDigits_toDigits (number : Nat) :
    naturalOfDigits (Nat.toDigits 10 number) = number := by
  rw [naturalOfDigits, ← Nat.ofDigitChars_eq_foldl, Nat.ofDigitChars_ten_toDigits]

/-- **A natural number is read back from its digits.** -/
theorem readNumber_toDigits {number : Nat}
    (short : (Nat.toDigits 10 number).length ≤ Text.maxIntegerDigits) {rest : List Char}
    (ended : Ended rest) :
    readNumber false (Nat.toDigits 10 number ++ rest) = .ok (natural number, rest) := by
  have fraction : readFraction rest = (none, rest) := by
    cases rest with
    | nil => rfl
    | cons c rest => rcases ended c rfl with rfl | rfl <;> rfl
  have exponent : readExponent rest = (none, rest) := by
    cases rest with
    | nil => rfl
    | cons c rest => rcases ended c rfl with rfl | rfl <;> rfl
  rcases Nat.eq_zero_or_pos number with rfl | positive
  · change readNumber false ('0' :: rest) = _
    simp only [readNumber, fraction, exponent]
    rfl
  · have every : ∀ c ∈ Nat.toDigits 10 number, c.isDigit = true :=
      fun c member => Nat.isDigit_of_mem_toDigits (by decide) (by decide) member
    have some : (Nat.toDigits 10 number).isEmpty = false :=
      List.isEmpty_eq_false_iff.mpr Nat.toDigits_ne_nil
    rw [readNumber, spanDigits_append every ended]
    · simp only [some, fraction, exponent, if_neg (Nat.not_lt.mpr short), naturalOfDigits_toDigits]
      rfl
    · intro tail same
      cases written : Nat.toDigits 10 number with
      | nil => exact Nat.toDigits_ne_nil written
      | cons c front =>
          rw [written] at same
          cases same
          exact Text.toDigits_ne_zero_cons positive front written

/-- A value that starts with a digit is read as a number. -/
theorem readValue_digit {c : Char} (digit : c.isDigit = true) (fuel depth : Nat)
    (rest : List Char) : readValue (fuel + 1) depth (c :: rest) = readNumber false (c :: rest) := by
  unfold readValue
  split
  all_goals first | rfl | (rename_i same; cases same; cases digit)

/-- A character with which the text of a value may begin. -/
def Opening (c : Char) : Prop := c = '"' ∨ c = '[' ∨ c = '{' ∨ c.isDigit = true

/-- What opens a value is no blank. -/
theorem skipBlanks_opening {c : Char} (opening : Opening c) (rest : List Char) :
    skipBlanks (c :: rest) = c :: rest := by
  rw [skipBlanks, if_neg]
  rintro (rfl | rfl | rfl | rfl) <;> exact absurd opening (by unfold Opening; decide)

/-- Blanks in front of a text are skipped. -/
theorem skipBlanks_replicate (column : Nat) (text : List Char) :
    skipBlanks (List.replicate column ' ' ++ text) = skipBlanks text := by
  induction column with
  | zero => rfl
  | succ column inductive_step => exact inductive_step

section

variable {fuel depth : Nat} {text after rest more : List Char}

/-- An item before the closing bracket is the last one. -/
theorem readItems_last {item : Json} (read : readValue fuel depth text = .ok (item, after))
    (closed : skipBlanks after = ']' :: rest) :
    readItems (fuel + 1) depth text = .ok ([item], rest) := by
  rw [readItems, read]
  simp only [bind, Except.bind, closed]
  rfl

/-- An item before a comma is followed by others. -/
theorem readItems_more {item : Json} {items : List Json}
    (read : readValue fuel depth text = .ok (item, after))
    (separated : skipBlanks after = ',' :: more)
    (later : readItems fuel depth (skipBlanks more) = .ok (items, rest)) :
    readItems (fuel + 1) depth text = .ok (item :: items, rest) := by
  rw [readItems, read]
  simp only [bind, Except.bind, separated, later]
  rfl

/-- A member before the closing brace is the last one. -/
theorem readMembers_last {name : String} (unescaped : ∀ c ∈ name.toList, Unescaped c) {value : Json}
    (read : readValue fuel depth (skipBlanks text) = .ok (value, after))
    (closed : skipBlanks after = '}' :: rest) :
    readMembers (fuel + 1) depth ('"' :: (name.toList ++ '"' :: ':' :: text)) =
      .ok ([(.text name, value)], rest) := by
  have colon : skipBlanks (':' :: text) = ':' :: text := rfl
  rw [readMembers]
  simp only [readString_stringText unescaped, bind, Except.bind, colon, read, closed,
    Text.Raw.ofPoints_ofText]
  rfl

/-- A member before a comma is followed by others. -/
theorem readMembers_more {name : String} (unescaped : ∀ c ∈ name.toList, Unescaped c) {value : Json}
    {members : List (Text.Raw × Json)}
    (read : readValue fuel depth (skipBlanks text) = .ok (value, after))
    (separated : skipBlanks after = ',' :: more)
    (later : readMembers fuel depth (skipBlanks more) = .ok (members, rest)) :
    readMembers (fuel + 1) depth ('"' :: (name.toList ++ '"' :: ':' :: text)) =
      .ok ((.text name, value) :: members, rest) := by
  have colon : skipBlanks (':' :: text) = ':' :: text := rfl
  rw [readMembers]
  simp only [readString_stringText unescaped, bind, Except.bind, colon, read, separated, later,
    Text.Raw.ofPoints_ofText]
  rfl

/-- No value starts with the bracket that ends an array. -/
theorem readItems_closing (fuel depth : Nat) (tail : List Char) :
    readItems fuel depth (']' :: tail) = .error .malformed := by
  rcases fuel with _ | _ | fuel <;> rfl

/-- Items after an opening bracket are an array. -/
theorem readValue_items {items : List Json}
    (read : readItems fuel depth (skipBlanks text) = .ok (items, rest)) :
    readValue (fuel + 1) (depth + 1) ('[' :: text) = .ok (array items, rest) := by
  have other : ∀ tail, skipBlanks text ≠ ']' :: tail := by
    intro tail closing
    rw [closing, readItems_closing] at read
    cases read
  rw [readValue.eq_11 _ _ _ other, read]
  rfl

theorem readMembers_closing (fuel depth : Nat) (tail : List Char) :
    readMembers fuel depth ('}' :: tail) = .error .malformed := by
  cases fuel <;> rfl

/-- Members after an opening brace are an object, if no name stands twice. -/
theorem readValue_members {members : List (Text.Raw × Json)}
    (distinct : (members.map Prod.fst).Nodup)
    (read : readMembers fuel depth (skipBlanks text) = .ok (members, rest)) :
    readValue (fuel + 1) (depth + 1) ('{' :: text) = .ok (object members, rest) := by
  have other : ∀ tail, skipBlanks text ≠ '}' :: tail := by
    intro tail closing
    rw [closing, readMembers_closing] at read
    cases read
  have kept : (([] ++ members).map Prod.fst).Nodup := distinct
  rw [readValue.eq_14 _ _ _ other, read]
  change Except.ok (object _, rest) = _
  rw [foldl_setMember kept, List.nil_append]

end

/-- A name whose characters stand for themselves between quotes. -/
def PlainName : Text.Raw → Prop
  | .text name => ∀ c ∈ name.toList, Unescaped c
  | .illFormed _ => False

instance : DecidablePred PlainName
  | .text name => List.decidableBAll Unescaped name.toList
  | .illFormed _ => .isFalse id

/-- Names of members: they need no escapes, and none occurs twice. -/
def PlainNames (names : List Text.Raw) : Prop := (∀ name ∈ names, PlainName name) ∧ names.Nodup

instance (names : List Text.Raw) : Decidable (PlainNames names) :=
  inferInstanceAs (Decidable ((∀ name ∈ names, PlainName name) ∧ names.Nodup))

/-- A document of texts that need no escapes, of natural numbers, and of arrays and objects, of
which at most a given number are inside one another. -/
inductive Plain : (depth : Nat) → Json → Prop where
  | string {depth : Nat} {value : String} (unescaped : ∀ c ∈ value.toList, Unescaped c) :
      Plain depth (string value)
  | natural {depth number : Nat}
      (short : (Nat.toDigits 10 number).length ≤ Text.maxIntegerDigits) :
      Plain depth (natural number)
  | array {depth : Nat} {items : List Json} (plain : ∀ item ∈ items, Plain depth item) :
      Plain (depth + 1) (array items)
  | object {depth : Nat} {members : List (Text.Raw × Json)}
      (names : PlainNames (members.map Prod.fst))
      (plain : ∀ member ∈ members, Plain depth member.2) : Plain (depth + 1) (object members)

/-- The indented text of a value from a column on. -/
def indentedText (column : Nat) (value : Json) : List Char := spelled (indentedLines column value)

theorem beforeFirst_ne_nil (lead : String) (lines : List String) : beforeFirst lead lines ≠ [] := by
  cases lines <;> simp [beforeFirst]

theorem afterLast_ne_nil (trail : String) (lines : List String) : afterLast trail lines ≠ [] := by
  rcases lines with _ | ⟨line, _ | ⟨next, lines⟩⟩ <;> simp [afterLast]

/-- An array that has items has lines for them. -/
theorem itemLines_ne_nil (column : Nat) (item : Json) (items : List Json) :
    itemLines column (item :: items) ≠ [] := by
  cases items with
  | nil => exact beforeFirst_ne_nil _ _
  | cons next items => simp [itemLines, afterLast_ne_nil]

/-- An object that has members has lines for them. -/
theorem memberLines_ne_nil (column : Nat) (member : Text.Raw × Json)
    (members : List (Text.Raw × Json)) : memberLines column (member :: members) ≠ [] := by
  cases members with
  | nil => exact beforeFirst_ne_nil _ _
  | cons next members => simp [memberLines, afterLast_ne_nil]

theorem toList_indented (column : Nat) (text : String) :
    (indented column text).toList = List.replicate column ' ' ++ text.toList := by
  simp [indented]

/-- A string without escapes is written between quotation marks. -/
theorem indentedText_string (column : Nat) {value : String}
    (unescaped : ∀ c ∈ value.toList, Unescaped c) :
    indentedText column (string value) = '"' :: (value.toList ++ ['"']) := by
  simp [indentedText, indentedLines, spelled, compactText, toList_stringText unescaped]

/-- A number is written by its decimal digits. -/
theorem indentedText_natural (column number : Nat) :
    indentedText column (natural number) = Nat.toDigits 10 number := by
  have written : toString (number : Int) = String.ofList (Nat.toDigits 10 number) :=
    Nat.repr_eq_ofList_toDigits
  simp [indentedText, indentedLines, spelled, compactText, natural, written]

/-- The items of an array stand on lines of their own, two columns further in, between brackets. -/
theorem indentedText_array (column : Nat) (item : Json) (items : List Json) :
    indentedText column (array (item :: items)) =
      '[' :: '\n' :: (spelled (itemLines (column + 2) (item :: items)) ++
        '\n' :: (List.replicate column ' ' ++ [']'])) := by
  have some := itemLines_ne_nil (column + 2) item items
  rw [indentedText, indentedLines, List.cons_append, spelled_cons _ (by simp),
    spelled_append some (List.cons_ne_nil _ _)]
  simp [spelled, toList_indented]

/-- The members of an object stand on lines of their own, two columns further in, between braces. -/
theorem indentedText_object (column : Nat) (member : Text.Raw × Json)
    (members : List (Text.Raw × Json)) :
    indentedText column (object (member :: members)) =
      '{' :: '\n' :: (spelled (memberLines (column + 2) (member :: members)) ++
        '\n' :: (List.replicate column ' ' ++ ['}'])) := by
  have some := memberLines_ne_nil (column + 2) member members
  rw [indentedText, indentedLines, List.cons_append, spelled_cons _ (by simp),
    spelled_append some (List.cons_ne_nil _ _)]
  simp [spelled, toList_indented]

/-- The last item is written without a comma. -/
theorem spelled_itemLines_singleton (column : Nat) (item : Json) :
    spelled (itemLines column [item]) = List.replicate column ' ' ++ indentedText column item := by
  rw [itemLines, spelled_beforeFirst, toList_indented]
  simp [indentedText]

/-- An item before others is written with a comma and a line feed after it. -/
theorem spelled_itemLines_cons (column : Nat) (item next : Json) (items : List Json) :
    spelled (itemLines column (item :: next :: items)) =
      List.replicate column ' ' ++ (indentedText column item ++
        ',' :: '\n' :: spelled (itemLines column (next :: items))) := by
  rw [itemLines, spelled_append (afterLast_ne_nil _ _) (itemLines_ne_nil _ _ _), spelled_afterLast,
    spelled_beforeFirst, toList_indented]
  · simp [indentedText]
  · simp

/-- The last member is written without a comma. -/
theorem spelled_memberLines_singleton (column : Nat) {name : String}
    (unescaped : ∀ c ∈ name.toList, Unescaped c) (value : Json) :
    spelled (memberLines column [(.text name, value)]) =
      List.replicate column ' ' ++ '"' :: (name.toList ++ '"' :: ':' :: ' ' ::
        indentedText column value) := by
  rw [memberLines, spelled_beforeFirst, toList_indented]
  have named : (nameText name).toList = '"' :: (name.toList ++ ['"']) := toList_stringText unescaped
  simp [indentedText, named]

/-- A member before others is written with a comma and a line feed after it. -/
theorem spelled_memberLines_cons (column : Nat) {name : String}
    (unescaped : ∀ c ∈ name.toList, Unescaped c) (value : Json) (next : Text.Raw × Json)
    (members : List (Text.Raw × Json)) :
    spelled (memberLines column ((.text name, value) :: next :: members)) =
      List.replicate column ' ' ++ '"' :: (name.toList ++ '"' :: ':' :: ' ' ::
        (indentedText column value ++
          ',' :: '\n' :: spelled (memberLines column (next :: members)))) := by
  rw [memberLines, spelled_append (afterLast_ne_nil _ _) (memberLines_ne_nil _ _ _),
    spelled_afterLast, spelled_beforeFirst, toList_indented]
  · have named : (nameText name).toList = '"' :: (name.toList ++ ['"']) :=
      toList_stringText unescaped
    simp [indentedText, named]
  · simp

/-- A plain value starts with a character that opens a value. -/
theorem Plain.exists_opening {depth : Nat} {value : Json} (plain : Plain depth value)
    (column : Nat) : ∃ c text, indentedText column value = c :: text ∧ Opening c := by
  cases plain with
  | string unescaped => exact ⟨_, _, indentedText_string column unescaped, .inl rfl⟩
  | @natural _ number short =>
      rw [indentedText_natural]
      cases written : Nat.toDigits 10 number with
      | nil => exact absurd written Nat.toDigits_ne_nil
      | cons c text =>
          refine ⟨c, text, rfl, .inr (.inr (.inr ?_))⟩
          have member : c ∈ Nat.toDigits 10 number := written ▸ List.mem_cons_self
          exact Nat.isDigit_of_mem_toDigits (by decide) (by decide) member
  | @array _ items plain =>
      cases items with
      | nil => exact ⟨'[', [']'], rfl, .inr (.inl rfl)⟩
      | cons item items => exact ⟨_, _, indentedText_array column item items, .inr (.inl rfl)⟩
  | @object _ members names plain =>
      cases members with
      | nil => exact ⟨'{', ['}'], rfl, .inr (.inr (.inl rfl))⟩
      | cons member members =>
          exact ⟨_, _, indentedText_object column member members, .inr (.inr (.inl rfl))⟩

/-- There are no blanks in front of a plain value to be skipped. -/
theorem Plain.skipBlanks_eq {depth : Nat} {value : Json} (plain : Plain depth value)
    (column : Nat) (rest : List Char) :
    skipBlanks (indentedText column value ++ rest) = indentedText column value ++ rest := by
  obtain ⟨c, text, written, opening⟩ := plain.exists_opening column
  rw [written]
  exact skipBlanks_opening opening _

/-- The indented text of a value is read back as the value, whatever comes on its line or the
next. -/
def ReadBack (depth : Nat) (value : Json) : Prop :=
  ∀ (column fuel : Nat) (rest : List Char), (indentedText column value).length < fuel →
    Ended rest → readValue fuel depth (indentedText column value ++ rest) = .ok (value, rest)

/-- **The lines of items are read back as the items**, if each item is. -/
theorem readItems_itemLines {depth column outer : Nat} {items : List Json} (some : items ≠ [])
    (plain : ∀ item ∈ items, Plain depth item) (reads : ∀ item ∈ items, ReadBack depth item)
    {fuel : Nat} (enough : (spelled (itemLines column items)).length + 1 < fuel)
    (rest : List Char) :
    readItems fuel depth (skipBlanks (spelled (itemLines column items) ++
      '\n' :: (List.replicate outer ' ' ++ ']' :: rest))) = .ok (items, rest) := by
  induction items generalizing fuel with
  | nil => exact absurd rfl some
  | cons item items inductive_step =>
      obtain ⟨plainHere, plainLater⟩ := List.forall_mem_cons.mp plain
      obtain ⟨readHere, readLater⟩ := List.forall_mem_cons.mp reads
      obtain ⟨fuel, rfl⟩ := Nat.exists_eq_add_one_of_ne_zero (Nat.ne_zero_of_lt enough)
      cases items with
      | nil =>
          rw [spelled_itemLines_singleton] at enough ⊢
          rw [List.length_append] at enough
          rw [List.append_assoc, skipBlanks_replicate, plainHere.skipBlanks_eq]
          refine readItems_last (readHere column fuel _ (by omega) ?_) ?_
          · exact fun c same => .inr (Option.some.inj same).symm
          · exact skipBlanks_replicate outer _
      | cons next items =>
          rw [spelled_itemLines_cons] at enough ⊢
          simp only [List.length_append, List.length_cons] at enough
          have later := inductive_step (List.cons_ne_nil _ _) plainLater readLater
            (show (spelled (itemLines column (next :: items))).length + 1 < fuel by omega)
          rw [List.append_assoc, List.append_assoc, skipBlanks_replicate, plainHere.skipBlanks_eq]
          refine readItems_more (readHere column fuel _ (by omega) ?_) rfl later
          exact fun c same => .inl (Option.some.inj same).symm

/-- **The lines of members are read back as the members**, if each value is. -/
theorem readMembers_memberLines {depth column outer : Nat} {members : List (Text.Raw × Json)}
    (some : members ≠ []) (names : ∀ name ∈ members.map Prod.fst, PlainName name)
    (plain : ∀ member ∈ members, Plain depth member.2)
    (reads : ∀ member ∈ members, ReadBack depth member.2)
    {fuel : Nat} (enough : (spelled (memberLines column members)).length + 1 < fuel)
    (rest : List Char) :
    readMembers fuel depth (skipBlanks (spelled (memberLines column members) ++
      '\n' :: (List.replicate outer ' ' ++ '}' :: rest))) = .ok (members, rest) := by
  induction members generalizing fuel with
  | nil => exact absurd rfl some
  | cons member members inductive_step =>
      obtain ⟨namedHere, namedLater⟩ := List.forall_mem_cons.mp names
      obtain ⟨plainHere, plainLater⟩ := List.forall_mem_cons.mp plain
      obtain ⟨readHere, readLater⟩ := List.forall_mem_cons.mp reads
      obtain ⟨fuel, rfl⟩ := Nat.exists_eq_add_one_of_ne_zero (Nat.ne_zero_of_lt enough)
      obtain ⟨name | _, value⟩ := member
      · have read : ∀ after, Ended after → (indentedText column value).length < fuel →
            readValue fuel depth (skipBlanks (' ' :: (indentedText column value ++ after))) =
              .ok (value, after) := by
          intro after ended short
          refine (congrArg _ (plainHere.skipBlanks_eq column after)).trans ?_
          exact readHere column fuel after short ended
        cases members with
        | nil =>
            rw [spelled_memberLines_singleton _ namedHere] at enough ⊢
            simp only [List.length_append, List.length_cons] at enough
            rw [List.append_assoc, skipBlanks_replicate, List.cons_append, List.append_assoc]
            refine readMembers_last namedHere (read _ ?_ (by omega)) (skipBlanks_replicate outer _)
            exact fun c same => .inr (Option.some.inj same).symm
        | cons next members =>
            rw [spelled_memberLines_cons _ namedHere] at enough ⊢
            simp only [List.length_append, List.length_cons] at enough
            have later := inductive_step (List.cons_ne_nil _ _) namedLater plainLater readLater
              (show (spelled (memberLines column (next :: members))).length + 1 < fuel by omega)
            rw [List.append_assoc, skipBlanks_replicate, List.cons_append, List.append_assoc]
            simp only [List.cons_append, List.append_assoc]
            refine readMembers_more namedHere (read _ ?_ (by omega)) rfl later
            exact fun c same => .inl (Option.some.inj same).symm
      · exact namedHere.elim

/-- **The indented text of a plain document is read back**, if the fuel exceeds its length. -/
theorem Plain.readBack {depth : Nat} {value : Json} (plain : Plain depth value) :
    ReadBack depth value := by
  induction plain with
  | string unescaped =>
      intro column fuel rest enough _
      obtain ⟨fuel, rfl⟩ := Nat.exists_eq_add_one_of_ne_zero (Nat.ne_zero_of_lt enough)
      rw [indentedText_string column unescaped, List.cons_append, List.append_assoc]
      exact readValue_stringText unescaped fuel _ rest
  | @natural _ number short =>
      intro column fuel rest enough ended
      obtain ⟨fuel, rfl⟩ := Nat.exists_eq_add_one_of_ne_zero (Nat.ne_zero_of_lt enough)
      rw [indentedText_natural]
      have read := readNumber_toDigits short ended
      cases written : Nat.toDigits 10 number with
      | nil => exact absurd written Nat.toDigits_ne_nil
      | cons c text =>
          have member : c ∈ Nat.toDigits 10 number := written ▸ List.mem_cons_self
          rw [written] at read
          exact (readValue_digit (Nat.isDigit_of_mem_toDigits (by decide) (by decide) member)
            fuel _ _).trans read
  | @array depth items plain inductive_step =>
      intro column fuel rest enough _
      obtain ⟨fuel, rfl⟩ := Nat.exists_eq_add_one_of_ne_zero (Nat.ne_zero_of_lt enough)
      cases items with
      | nil => rfl
      | cons item items =>
          rw [indentedText_array] at enough ⊢
          simp only [List.length_cons, List.length_append] at enough
          simp only [List.cons_append, List.append_assoc]
          exact readValue_items (readItems_itemLines (List.cons_ne_nil _ _) plain inductive_step
            (by omega) rest)
  | @object depth members names plain inductive_step =>
      intro column fuel rest enough _
      obtain ⟨fuel, rfl⟩ := Nat.exists_eq_add_one_of_ne_zero (Nat.ne_zero_of_lt enough)
      cases members with
      | nil => rfl
      | cons member members =>
          rw [indentedText_object] at enough ⊢
          simp only [List.length_cons, List.length_append] at enough
          simp only [List.cons_append, List.append_assoc]
          exact readValue_members names.2 (readMembers_memberLines (List.cons_ne_nil _ _) names.1
            plain inductive_step (by omega) rest)

theorem indentedLines_ne_nil (column : Nat) (value : Json) : indentedLines column value ≠ [] := by
  rcases value with _ | _ | _ | _ | _ | _ | _ | _ <;> try exact List.cons_ne_nil _ _
  all_goals rename_i entries; cases entries <;> exact List.cons_ne_nil _ _

/-- Lines that are printed one after another are spelled with a line feed at the end. -/
theorem toList_join_lines {lines : List String} (some : lines ≠ []) :
    (String.join (lines.map (· ++ "\n"))).toList = spelled lines ++ ['\n'] := by
  induction lines with
  | nil => exact absurd rfl some
  | cons line lines inductive_step =>
      cases lines with
      | nil => simp [spelled]
      | cons next lines =>
          have later := inductive_step (List.cons_ne_nil _ _)
          rw [spelled_cons _ (List.cons_ne_nil _ _), List.map_cons, String.join_cons,
            String.toList_append, later]
          simp

/-- **A plain document is parsed from its indented lines.** -/
theorem parse_indentedLines {value : Json} (plain : Plain maxDepth value) :
    parse (String.join ((indentedLines 0 value).map (· ++ "\n"))) = .ok value := by
  have text := toList_join_lines (indentedLines_ne_nil 0 value)
  have read := plain.readBack 0 ((indentedText 0 value ++ ['\n']).length + 1) ['\n']
    (by rw [List.length_append]; omega) fun c same => .inr (Option.some.inj same).symm
  unfold parse
  dsimp only
  rw [text]
  change (readValue ((indentedText 0 value ++ ['\n']).length + 1) maxDepth
    (skipBlanks (indentedText 0 value ++ ['\n'])) >>= _) = _
  rw [plain.skipBlanks_eq, read]
  rfl

/-- What a document's text has besides names and values is not the escape character. -/
theorem escape_ne : Text.escape ≠ '"' ∧ Text.escape ≠ ',' ∧ Text.escape ≠ ':' ∧
    Text.escape ≠ ' ' ∧ Text.escape ≠ '\n' ∧ Text.escape ≠ '[' ∧ Text.escape ≠ ']' ∧
    Text.escape ≠ '{' ∧ Text.escape ≠ '}' := by decide

/-- The escape character does not stand for itself in a string. -/
theorem escape_not_mem_of_unescaped {text : List Char} (unescaped : ∀ c ∈ text, Unescaped c) :
    Text.escape ∉ text := fun member => absurd (unescaped _ member) (by decide)

theorem escape_not_mem_replicate (column : Nat) : Text.escape ∉ List.replicate column ' ' :=
  fun member => absurd (List.eq_of_mem_replicate member) (by decide)

/-- The lines of items hold no escape character if the items hold none. -/
theorem escape_not_mem_itemLines {items : List Json}
    (absent : ∀ item ∈ items, ∀ column, Text.escape ∉ indentedText column item) (column : Nat) :
    Text.escape ∉ spelled (itemLines column items) := by
  have margin := escape_not_mem_replicate column
  induction items with
  | nil => exact List.not_mem_nil
  | cons item items inductive_step =>
      obtain ⟨here, later⟩ := List.forall_mem_cons.mp absent
      cases items with
      | nil =>
          rw [spelled_itemLines_singleton]
          simp [margin, here column]
      | cons next items =>
          rw [spelled_itemLines_cons]
          simp [margin, here column, inductive_step later, escape_ne]

/-- The lines of members hold no escape character if the values hold none. -/
theorem escape_not_mem_memberLines {members : List (Text.Raw × Json)}
    (names : ∀ name ∈ members.map Prod.fst, PlainName name)
    (absent : ∀ member ∈ members, ∀ column, Text.escape ∉ indentedText column member.2)
    (column : Nat) : Text.escape ∉ spelled (memberLines column members) := by
  have margin := escape_not_mem_replicate column
  induction members with
  | nil => exact List.not_mem_nil
  | cons member members inductive_step =>
      obtain ⟨namedHere, namedLater⟩ := List.forall_mem_cons.mp names
      obtain ⟨here, later⟩ := List.forall_mem_cons.mp absent
      obtain ⟨name | _, value⟩ := member
      · have title := escape_not_mem_of_unescaped namedHere
        cases members with
        | nil =>
            rw [spelled_memberLines_singleton _ namedHere]
            simp [margin, title, here column, escape_ne]
        | cons next members =>
            rw [spelled_memberLines_cons _ namedHere]
            simp [margin, title, here column, inductive_step namedLater later, escape_ne]
      · exact namedHere.elim

/-- A plain value is written without the escape character. -/
theorem Plain.escape_not_mem {depth : Nat} {value : Json} (plain : Plain depth value)
    (column : Nat) : Text.escape ∉ indentedText column value := by
  induction plain generalizing column with
  | string unescaped =>
      have inside := escape_not_mem_of_unescaped unescaped
      rw [indentedText_string column unescaped]
      simp [inside, escape_ne]
  | natural short =>
      rw [indentedText_natural]
      intro member
      exact absurd (Nat.isDigit_of_mem_toDigits (by decide) (by decide) member) (by decide)
  | @array _ items plain inductive_step =>
      cases items with
      | nil => exact (by decide : Text.escape ∉ ['[', ']'])
      | cons item items =>
          have inside := escape_not_mem_itemLines inductive_step (column + 2)
          have margin := escape_not_mem_replicate column
          rw [indentedText_array]
          simp [inside, margin, escape_ne]
  | @object _ members names plain inductive_step =>
      cases members with
      | nil => exact (by decide : Text.escape ∉ ['{', '}'])
      | cons member members =>
          have inside := escape_not_mem_memberLines names.1 inductive_step (column + 2)
          have margin := escape_not_mem_replicate column
          rw [indentedText_object]
          simp [inside, margin, escape_ne]

/-- The characters of each line are among those of the whole. -/
theorem mem_spelled {c : Char} {line : String} {lines : List String} (listed : line ∈ lines)
    (member : c ∈ line.toList) : c ∈ spelled lines := by
  induction lines with
  | nil => cases listed
  | cons first lines inductive_step =>
      rcases List.mem_cons.mp listed with rfl | later
      · cases lines with
        | nil => simpa [spelled] using member
        | cons next lines =>
            rw [spelled_cons _ (List.cons_ne_nil _ _)]
            exact List.mem_append_left _ member
      · rw [spelled_cons _ (List.ne_nil_of_mem later)]
        exact List.mem_append_right _ (List.mem_cons_of_mem _ (inductive_step later))

/-- **A terminal shows the lines of a plain document as they are.** -/
theorem withoutControls_indentedLines {depth : Nat} {value : Json} (plain : Plain depth value)
    {column : Nat} {line : String} (listed : line ∈ indentedLines column value) :
    Text.withoutControls line = line := by
  have absent : Text.escape ∉ line.toList :=
    fun member => plain.escape_not_mem column (mem_spelled listed member)
  rw [Text.withoutControls, Text.uncontrolled_of_not_mem absent, String.ofList_toList]

end CoinLedger.Json

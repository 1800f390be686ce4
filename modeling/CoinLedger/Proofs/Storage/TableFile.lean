import CoinLedger.Proofs.Storage.SortedMap
import CoinLedger.Storage.TableFile

/-! # What a table's file holds

The text of a table is an object of hexadecimal names and values, which need no escapes. Reading it
finds the members that were written, in their order, so the table that is read back is the one that
was written, as far as it lies outside open transactions (`CoinLedger.TableFile.decode_encode`).
-/

namespace CoinLedger

namespace Json

open Text

/-- A character that stands for itself between quotes. -/
def Unescaped (c : Char) : Prop := 0x20 ≤ c.toNat ∧ c.toNat < 0x7f ∧ c ≠ '"' ∧ c ≠ '\\'

instance (c : Char) : Decidable (Unescaped c) :=
  inferInstanceAs (Decidable (0x20 ≤ c.toNat ∧ c.toNat < 0x7f ∧ c ≠ '"' ∧ c ≠ '\\'))

/-- A character that needs no escape is written as itself. -/
theorem characterText_of_unescaped {c : Char} (unescaped : Unescaped c) :
    characterText c = String.singleton c := by
  obtain ⟨printable, ascii, unquoted, forward⟩ := unescaped
  have visible : ∀ other : Char, other.toNat < 0x20 → c ≠ other := by
    rintro other control rfl
    omega
  rw [characterText, if_neg unquoted, if_neg forward, if_neg (visible '\n' (by decide)),
    if_neg (visible '\r' (by decide)), if_neg (visible '\t' (by decide)),
    if_neg (visible '\x08' (by decide)), if_neg (visible '\x0c' (by decide)),
    if_pos ⟨printable, ascii⟩]

/-- A string that needs no escapes is written between quotes as it is. -/
theorem toList_stringText {value : String} (unescaped : ∀ c ∈ value.toList, Unescaped c) :
    (stringText value).toList = '"' :: (value.toList ++ ['"']) := by
  have inside : (value.toList.map CodePoint.character).flatMap (fun point =>
      (pointText point).toList) = value.toList := by
    rw [List.flatMap_map]
    refine (List.flatMap_congr fun c member => ?_).trans (List.flatMap_singleton' value.toList)
    rw [pointText, characterText_of_unescaped (unescaped c member), String.toList_singleton]
  rw [stringText, pointsText, CodePoint.ofText, String.toList_append, String.toList_append,
    String.toList_join, List.flatMap_map, inside]
  rfl

/-- Reading a string takes characters without escapes up to the quote. -/
theorem readString_unescaped {text rest : List Char} (unescaped : ∀ c ∈ text, Unescaped c)
    {fuel : Nat} (enough : text.length < fuel) (reversed : List CodePoint) :
    readString fuel reversed (text ++ '"' :: rest) =
      .ok (reversed.reverse ++ text.map .character, rest) := by
  induction text generalizing fuel reversed with
  | nil =>
      obtain ⟨fuel, rfl⟩ := Nat.exists_eq_add_one_of_ne_zero (Nat.ne_of_gt enough)
      rw [List.nil_append, readString, List.map_nil, List.append_nil]
  | cons c text inductive_step =>
      obtain ⟨fuel, rfl⟩ :=
        Nat.exists_eq_add_one_of_ne_zero (Nat.ne_of_gt (Nat.zero_lt_of_lt enough))
      obtain ⟨⟨printable, _, unquoted, forward⟩, others⟩ := List.forall_mem_cons.mp unescaped
      have later := inductive_step others (Nat.lt_of_succ_lt_succ enough) (.character c :: reversed)
      have ordinary : ¬ (c.toNat < 0x20 ∨ c = '\\') := by
        rintro (control | escape)
        · omega
        · exact forward escape
      rw [List.cons_append, readString.eq_6 _ _ _ _ unquoted (fun _ same => absurd same forward)
        (fun _ _ same _ => forward same), if_neg ordinary, later, List.reverse_cons,
        List.append_assoc]
      rfl

/-- The member with a given name and a string as its value. -/
def stringMember (entry : String × String) : Text.Raw × Json := (entry.1, string entry.2)

/-- Neither the name nor the value of a member needs escapes. -/
def UnescapedEntry (entry : String × String) : Prop :=
  (∀ c ∈ entry.1.toList, Unescaped c) ∧ ∀ c ∈ entry.2.toList, Unescaped c

/-- What stands between the quotes of a string is read as the string. -/
theorem readString_stringText {value : String} (unescaped : ∀ c ∈ value.toList, Unescaped c)
    (rest : List Char) :
    readString ((value.toList ++ '"' :: rest).length + 1) [] (value.toList ++ '"' :: rest) =
      .ok (CodePoint.ofText value, rest) := by
  refine readString_unescaped unescaped ?_ []
  rw [List.length_append]
  omega

/-- What is written for a string without escapes is read as the string. -/
theorem readValue_stringText {value : String} (unescaped : ∀ c ∈ value.toList, Unescaped c)
    (fuel depth : Nat) (rest : List Char) :
    readValue (fuel + 1) depth ('"' :: (value.toList ++ '"' :: rest)) =
      .ok (string value, rest) := by
  rw [readValue, readString_stringText unescaped]
  change Except.ok (ofPoints (CodePoint.ofText value), rest) = _
  rw [ofPoints, Raw.ofPoints_ofText, ofRaw]

/-- The text of a member with something after it. -/
def memberText (entry : String × String) (rest : List Char) : List Char :=
  '"' :: (entry.1.toList ++ '"' :: ':' :: ' ' :: '"' :: (entry.2.toList ++ '"' :: rest))

theorem memberText_append (entry : String × String) (middle rest : List Char) :
    memberText entry middle ++ rest = memberText entry (middle ++ rest) := by
  simp [memberText]

/-- Members are written one after another with a comma in between. -/
theorem toList_membersText_cons {entry : String × String} (unescaped : UnescapedEntry entry)
    (entries : List (String × String)) :
    (membersText ((entry :: entries).map stringMember)).toList =
      memberText entry (match entries with
        | [] => []
        | next :: others =>
            ',' :: ' ' :: (membersText ((next :: others).map stringMember)).toList) := by
  have name : (nameText entry.1).toList = '"' :: (entry.1.toList ++ ['"']) :=
    toList_stringText unescaped.1
  have value : (compactText (string entry.2)).toList = '"' :: (entry.2.toList ++ ['"']) := by
    rw [compactText]
    exact toList_stringText unescaped.2
  cases entries with
  | nil => simp [stringMember, membersText, memberText, name, value]
  | cons next others => simp [stringMember, membersText, memberText, name, value]

/-- The text of members is at least as long as there are members. -/
theorem length_le_membersText {entries : List (String × String)}
    (unescaped : ∀ entry ∈ entries, UnescapedEntry entry) :
    entries.length ≤ (membersText (entries.map stringMember)).toList.length := by
  induction entries with
  | nil => exact Nat.zero_le _
  | cons entry entries inductive_step =>
      obtain ⟨here, others⟩ := List.forall_mem_cons.mp unescaped
      have later := inductive_step others
      rw [toList_membersText_cons here, memberText]
      cases entries with
      | nil => simp
      | cons next entries =>
          simp only [List.length_cons, List.length_append] at later ⊢
          omega

/-- A member that is written is read, and then what follows it. -/
theorem readMembers_memberText {entry : String × String} (unescaped : UnescapedEntry entry)
    (fuel depth : Nat) (rest : List Char) :
    readMembers (fuel + 2) depth (memberText entry rest) =
      match skipBlanks rest with
      | ',' :: rest => do
          let (members, rest) ← readMembers (fuel + 1) depth (skipBlanks rest)
          pure (stringMember entry :: members, rest)
      | '}' :: rest => pure ([stringMember entry], rest)
      | _ => .error .malformed := by
  have colon (text : List Char) : skipBlanks (':' :: text) = ':' :: text := rfl
  have quote (text : List Char) : skipBlanks (' ' :: '"' :: text) = '"' :: text := rfl
  rw [memberText, readMembers]
  simp only [readString_stringText unescaped.1, bind, Except.bind, colon, quote,
    readValue_stringText unescaped.2, Raw.ofPoints_ofText]
  rfl

/-- Members that are written are read. -/
theorem readMembers_membersText {entries : List (String × String)} (some : entries ≠ [])
    (unescaped : ∀ entry ∈ entries, UnescapedEntry entry) {fuel : Nat}
    (enough : entries.length < fuel) (depth : Nat) (rest : List Char) :
    readMembers fuel depth ((membersText (entries.map stringMember)).toList ++ '}' :: rest) =
      .ok (entries.map stringMember, rest) := by
  induction entries generalizing fuel with
  | nil => exact absurd rfl some
  | cons entry entries inductive_step =>
      obtain ⟨here, others⟩ := List.forall_mem_cons.mp unescaped
      rw [List.length_cons] at enough
      obtain ⟨fuel, rfl⟩ : ∃ more, fuel = more + 2 := ⟨fuel - 2, by omega⟩
      rw [toList_membersText_cons here, memberText_append, readMembers_memberText here]
      cases entries with
      | nil => rfl
      | cons next entries =>
          have later := @inductive_step (List.cons_ne_nil _ _) others (fuel + 1) (by omega)
          have quoted : skipBlanks (' ' ::
              ((membersText ((next :: entries).map stringMember)).toList ++ '}' :: rest)) =
              (membersText ((next :: entries).map stringMember)).toList ++ '}' :: rest := by
            rw [toList_membersText_cons (others next List.mem_cons_self), memberText_append]
            rfl
          change (readMembers (fuel + 1) depth (skipBlanks (' ' ::
            ((membersText ((next :: entries).map stringMember)).toList ++ '}' :: rest))) >>=
              fun (members, rest) => pure (stringMember entry :: members, rest)) = _
          rw [quoted, later]
          rfl

/-- A member with a new name goes to the end. -/
theorem setMember_of_not_mem {members : List (Text.Raw × Json)} {name : Text.Raw}
    (absent : name ∉ members.map Prod.fst) (value : Json) :
    setMember members name value = members ++ [(name, value)] := by
  induction members with
  | nil => rfl
  | cons member members inductive_step =>
      rw [List.map_cons, List.mem_cons, not_or] at absent
      rw [setMember, if_neg (Ne.symm absent.1), inductive_step absent.2]
      rfl

/-- Members with distinct names are kept as they are written. -/
theorem foldl_setMember {members kept : List (Text.Raw × Json)}
    (distinct : ((kept ++ members).map Prod.fst).Nodup) :
    members.foldl (fun all (name, value) => setMember all name value) kept = kept ++ members := by
  induction members generalizing kept with
  | nil => exact (List.append_nil kept).symm
  | cons member members inductive_step =>
      obtain ⟨name, value⟩ := member
      have fresh : name ∉ kept.map Prod.fst := by
        rw [List.map_append, List.map_cons] at distinct
        exact fun earlier =>
          (List.nodup_append.mp distinct).2.2 _ earlier _ List.mem_cons_self rfl
      rw [List.append_cons] at distinct ⊢
      refine Eq.trans ?_ (inductive_step distinct)
      rw [← setMember_of_not_mem fresh value]
      rfl

/-- What is written for an object of strings with distinct names is read as the object. -/
theorem readValue_object {entries : List (String × String)}
    (unescaped : ∀ entry ∈ entries, UnescapedEntry entry)
    (distinct : (entries.map Prod.fst).Nodup) {fuel : Nat} (enough : entries.length < fuel)
    (depth : Nat) (rest : List Char) :
    readValue (fuel + 1) (depth + 1)
        ('{' :: ((membersText (entries.map stringMember)).toList ++ '}' :: rest)) =
      .ok (object (entries.map stringMember), rest) := by
  cases entries with
  | nil => rfl
  | cons entry entries =>
      have read :=
        readMembers_membersText (List.cons_ne_nil entry entries) unescaped enough depth rest
      have names : (([] ++ (entry :: entries).map stringMember).map Prod.fst).Nodup := by
        have named := distinct.map (f := Text.Raw.text) fun _ _ => Text.Raw.text.inj
        rw [List.map_map] at named
        rwa [List.nil_append, List.map_map]
      rw [toList_membersText_cons (unescaped entry List.mem_cons_self), memberText_append] at read ⊢
      change (readMembers fuel depth (memberText entry _) >>= fun (members, rest) =>
        pure
          (object (members.foldl (fun all (name, value) => setMember all name value) []), rest)) = _
      rw [read]
      change Except.ok (object _, rest) = _
      rw [foldl_setMember names, List.nil_append]

/-- **An object of strings that need no escapes is read as it was written.** -/
theorem parse_compactText {entries : List (String × String)}
    (unescaped : ∀ entry ∈ entries, UnescapedEntry entry)
    (distinct : (entries.map Prod.fst).Nodup) :
    parse (object (entries.map stringMember)).compactText =
      .ok (object (entries.map stringMember)) := by
  have text : (object (entries.map stringMember)).compactText.toList =
      '{' :: ((membersText (entries.map stringMember)).toList ++ ['}']) := by
    rw [compactText, String.toList_append, String.toList_append]
    rfl
  have enough : entries.length < (object (entries.map stringMember)).compactText.toList.length := by
    have short := length_le_membersText unescaped
    rw [text, List.length_cons]
    simp only [List.length_append]
    omega
  have begun : skipBlanks (object (entries.map stringMember)).compactText.toList =
      (object (entries.map stringMember)).compactText.toList := by
    rw [text]
    rfl
  have read := readValue_object unescaped distinct enough (maxDepth - 1) []
  rw [← text] at read
  unfold parse
  dsimp only
  rw [begun]
  change (readValue _ (maxDepth - 1 + 1) _ >>= _) = _
  rw [read]
  rfl

end Json

namespace TableFile

open Json

/-- The name and the value of a row. -/
def texts (row : ByteString × ByteString) : String × String := (Hex.encode row.1, Hex.encode row.2)

/-- Hexadecimal text needs no escapes. -/
theorem unescaped_of_mem_encode (bytes : ByteString) :
    ∀ c ∈ (Hex.encode bytes).toList, Unescaped c := by
  have digit (value : Nat) : Unescaped (Hex.digitOf value) := by
    have every : ∀ digit < 16, Unescaped (Nat.digitChar digit) := by decide
    exact every _ (Nat.mod_lt _ (by decide))
  have digits : ∀ c ∈ Hex.digits bytes, Unescaped c := by
    induction bytes with
    | nil => exact fun _ member => nomatch member
    | cons byte rest inductive_step =>
        exact List.forall_mem_cons.mpr ⟨digit _, List.forall_mem_cons.mpr ⟨digit _, inductive_step⟩⟩
  rw [Hex.encode, String.toList_ofList]
  exact List.forall_mem_cons.mpr ⟨by decide, List.forall_mem_cons.mpr ⟨by decide, digits⟩⟩

/-- Different bytes have different hexadecimal texts. -/
theorem encode_injective : Function.Injective Hex.encode := by
  intro left right same
  have read := Hex.decode_encode left
  rw [same, Hex.decode_encode] at read
  exact (Except.ok.inj read).symm

theorem decodeRow_texts (row : ByteString × ByteString) :
    decodeRow (stringMember (texts row)) = some row := by
  rw [decodeRow, stringMember, texts]
  simp [Text.Raw.replaced, Hex.decode_encode, Except.toOption]

/-- The texts of rows are read as the rows. -/
theorem mapM_decodeRow (rows : List (ByteString × ByteString)) :
    ((rows.map texts).map stringMember).mapM decodeRow = some rows := by
  induction rows with
  | nil => rfl
  | cons row rows inductive_step =>
      rw [List.map_cons, List.map_cons, List.mapM_cons, decodeRow_texts, inductive_step]
      rfl

/-- **A table that is written to a file is read back as it is outside every transaction.** -/
theorem decode_encode (store : SnapshotStore) :
    decode (encode store) = some (.ofMap store.rows) := by
  have distinct : ((store.rows.entries.map texts).map Prod.fst).Nodup := by
    have named := store.rows.nodup_keys.map encode_injective
    rwa [List.map_map] at named ⊢
  have unescaped : ∀ entry ∈ store.rows.entries.map texts, UnescapedEntry entry := by
    intro entry member
    obtain ⟨row, _, rfl⟩ := List.mem_map.mp member
    exact ⟨unescaped_of_mem_encode row.1, unescaped_of_mem_encode row.2⟩
  have written : encode store =
      (object ((store.rows.entries.map texts).map stringMember)).compactText := by
    rw [encode, List.map_map]
    rfl
  rw [decode, written, parse_compactText unescaped distinct]
  dsimp only
  rw [mapM_decodeRow, Option.map_some, SortedMap.ofList_entries]

end TableFile
end CoinLedger

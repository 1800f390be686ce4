import CoinLedger.Proofs.Chain.Configured
import CoinLedger.Proofs.Config
import CoinLedger.Proofs.Text.Integer
import Mathlib.Algebra.Field.Rat
import Mathlib.Algebra.Order.Ring.Rat

/-! # The normal form of a configuration

A configuration can be written in many ways, and a check sees in a value no more than what it
spells: the positive integer (`CoinLedger.Json.looseInteger_eq_ok_iff`), the bytes, the log level
(`CoinLedger.Config.checkLogLevel_eq_ok_iff`) or the directory. So objects whose values spell the
same member by member are accepted as the same configuration
(`CoinLedger.Config.Alike.ofDocument_iff`). One way of writing is the normal form, which is the one
in which configurations are given out (`CoinLedger.Config.isNormalConfig_iff`), and it is accepted
as the same configuration again (`CoinLedger.Config.ofDocument_toDocument`).
-/

namespace CoinLedger

namespace Binary64

/-- A number that is not negative is whole exactly when it is a natural number. -/
theorem truncate_eq_iff {significand : Nat} {exponent whole : Int} :
    truncate false significand exponent = (whole, true) ↔
      ∃ number : Nat, whole = number ∧ (significand : ℚ) * 2 ^ exponent = number := by
  unfold truncate
  cases exponent with
  | ofNat power =>
      rw [if_pos (show 0 ≤ Int.ofNat power from Int.natCast_nonneg power)]
      simp only [Int.ofNat_eq_natCast, zpow_natCast, Int.toNat_natCast, Prod.mk.injEq, and_true,
        Bool.false_eq_true, if_false]
      constructor
      · rintro rfl
        exact ⟨_, rfl, by push_cast; rfl⟩
      · rintro ⟨number, rfl, same⟩
        exact_mod_cast same
  | negSucc power =>
      have positive : (2 : ℚ) ^ (power + 1) ≠ 0 := pow_ne_zero _ two_ne_zero
      have below : 0 < 2 ^ (power + 1) := Nat.two_pow_pos _
      rw [if_neg (by omega)]
      simp only [Int.natAbs_negSucc, zpow_negSucc, Prod.mk.injEq, beq_iff_eq, Bool.false_eq_true,
        if_false, Nat.succ_eq_add_one]
      constructor
      · rintro ⟨rfl, exact⟩
        refine ⟨_, rfl, ?_⟩
        rw [mul_inv_eq_iff_eq_mul₀ positive]
        exact_mod_cast (Nat.div_mul_cancel (Nat.dvd_of_mod_eq_zero exact)).symm
      · rintro ⟨number, rfl, same⟩
        rw [mul_inv_eq_iff_eq_mul₀ positive] at same
        have same : significand = number * 2 ^ (power + 1) := by exact_mod_cast same
        rw [same, Nat.mul_div_cancel _ below, Nat.mul_mod_left]
        exact ⟨rfl, rfl⟩

end Binary64

namespace Json

/-- A value spells a positive integer: it is the integer, the truth value that stands for one, a
number that is whole and not too large, or a text. -/
inductive SpellsPositive : Json → Nat → Prop where
  | integer {number : Nat} (positive : 0 < number) : SpellsPositive (.integer number) number
  | boolean : SpellsPositive (.boolean true) 1
  | real {significand number : Nat} {exponent : Int} (positive : 0 < number)
      (whole : (significand : ℚ) * 2 ^ exponent = number) (small : number < realIntegerBound) :
      SpellsPositive (.real (.finite false significand exponent)) number
  | string {text : String} {number : Nat} (positive : 0 < number)
      (spelled : Text.SpellsPositive text.toList number)
      (fits : (Nat.toDigits 10 number).length ≤ Text.maxIntegerDigits) :
      SpellsPositive (.string text) number

/-- **A value is taken for a positive integer exactly when it spells it.** -/
theorem looseInteger_eq_ok_iff {document : Json} {number : Nat} (positive : 0 < number) :
    document.looseInteger = .ok (number : Int) ↔ document.SpellsPositive number := by
  constructor
  · intro taken
    unfold looseInteger at taken
    split at taken
    · cases taken
      exact .integer positive
    · rename_i value
      rw [Except.ok.injEq] at taken
      cases value with
      | false => exact absurd taken (by rw [if_neg Bool.false_ne_true]; omega)
      | true =>
          rw [if_pos rfl] at taken
          have one : number = 1 := by omega
          rw [one]
          exact .boolean
    · rename_i negative significand exponent
      split at taken
      · rename_i whole truncated
        split at taken
        · rename_i small
          cases taken
          cases negative with
          | true =>
              -- A negative number is no positive integer.
              rw [Binary64.truncate, Prod.mk.injEq, if_pos rfl] at truncated
              omega
          | false =>
              obtain ⟨_, same, whole⟩ := Binary64.truncate_eq_iff.mp truncated
              cases Int.natCast_inj.mp same
              exact .real positive whole small
        · cases taken
      · cases taken
    · cases taken
    · split at taken
      · rename_i read
        cases taken
        obtain ⟨spelled, fits⟩ := (Text.plainIntegerOf_eq_ok_iff positive).mp read
        exact .string positive spelled fits
      · cases taken
      · cases taken
    · cases taken
    · cases taken
  · intro spelled
    cases spelled with
    | integer _ => rfl
    | boolean => rfl
    | real _ whole small =>
        rw [looseInteger, Binary64.truncate_eq_iff.mpr ⟨number, rfl, whole⟩]
        exact if_pos small
    | string _ spelled fits =>
        rw [looseInteger, (Text.plainIntegerOf_eq_ok_iff positive).mpr ⟨spelled, fits⟩]

/-- A positive number that is spelled is not zero. -/
theorem SpellsPositive.positive {document : Json} {number : Nat}
    (spelled : document.SpellsPositive number) : 0 < number := by
  cases spelled with
  | integer positive => exact positive
  | boolean => exact Nat.one_pos
  | real positive _ _ => exact positive
  | string positive _ _ => exact positive

/-- A value spells bytes: it is a text that does in hexadecimal. -/
def SpellsBytes (document : Json) (bytes : ByteString) : Prop :=
  ∃ text : String, document.text = .ok (Text.CodePoint.ofText text) ∧ Hex.Spells text bytes

/-- A value is a text with a given upper-case form. -/
def SpellsUpper (document : Json) (upper : String) : Prop :=
  ∃ text : String, document.text = .ok (Text.CodePoint.ofText text) ∧ Text.upperCase text = upper

/-- A document spells a key exactly when it spells its bytes. -/
theorem spellsKey_iff_spellsBytes {document : Json} {key : PublicKey} :
    document.SpellsKey key ↔ document.SpellsBytes key.bytes := by
  simp only [SpellsKey, SpellsBytes, Hex.decode_eq_ok_iff]

/-- A value has one text. -/
theorem text_unique {document : Json} {left right : String}
    (first : document.text = .ok (Text.CodePoint.ofText left))
    (second : document.text = .ok (Text.CodePoint.ofText right)) : left = right := by
  rw [first, Except.ok.injEq] at second
  exact Text.CodePoint.ofText_inj second

/-- A document spells one byte string at most. -/
theorem SpellsBytes.unique {document : Json} {left right : ByteString}
    (first : document.SpellsBytes left) (second : document.SpellsBytes right) : left = right := by
  obtain ⟨text, given, one⟩ := first
  obtain ⟨other, again, two⟩ := second
  cases text_unique given again
  rw [← Hex.decode_eq_ok_iff] at one two
  rw [one, Except.ok.injEq] at two
  exact two

/-- A document spells one text in capitals at most. -/
theorem SpellsUpper.unique {document : Json} {left right : String}
    (first : document.SpellsUpper left) (second : document.SpellsUpper right) : left = right := by
  obtain ⟨text, given, rfl⟩ := first
  obtain ⟨other, again, rfl⟩ := second
  cases text_unique given again
  rfl

/-- A text names the directory that it spells. -/
theorem optionalPath_ofPoints (points : List Text.CodePoint) :
    (Json.ofPoints points).optionalPath = .ok (some (.ofPoints points)) := by
  have spelled := Text.Raw.points_ofPoints points
  rw [ofPoints]
  cases given : Text.Raw.ofPoints points with
  | text value =>
      rw [given, Text.Raw.points] at spelled
      rw [← spelled]
      rfl
  | illFormed others =>
      rw [given, Text.Raw.points] at spelled
      rw [← spelled]
      rfl

end Json

namespace LogLevel

/-- A level is found among all levels by its name. -/
theorem find?_all_eq_some_iff {upper : String} {level : LogLevel} :
    (LogLevel.all.find? fun level => level.name = upper) = some level ↔ upper = level.name := by
  constructor
  · intro found
    have named := List.find?_some found
    exact (of_decide_eq_true named).symm
  · rintro rfl
    cases level <;> decide

/-- **A text names a level exactly when its capitals are the level's name.** -/
theorem ofPoints_eq_ok_iff {points : List Text.CodePoint} {level : LogLevel} :
    ofPoints points = .ok level ↔
      ∃ text, points = Text.CodePoint.ofText text ∧ Text.upperCase text = level.name := by
  unfold ofPoints
  constructor
  · intro read
    split at read
    · cases read
    · rename_i text spelled
      split at read
      · rename_i found
        cases read
        exact ⟨text, (Text.CodePoint.ofText_of_text? spelled).symm, find?_all_eq_some_iff.mp found⟩
      · cases read
  · rintro ⟨text, rfl, upper⟩
    rw [Text.CodePoint.text?_ofText]
    dsimp only
    rw [find?_all_eq_some_iff.mpr upper]

end LogLevel

namespace Config

/-- A longevity is accepted exactly when it is an integer between one and the largest. -/
theorem checkLongevity_eq_ok_iff {document : Json} {longevity : Nat} :
    checkLongevity document = .ok longevity ↔
      document.looseInteger = .ok (longevity : Int) ∧ 1 ≤ longevity ∧ longevity ≤ maxLongevity := by
  rw [checkLongevity, Checked.ofProblem_eq_ok_iff, map_eq_ok_iff]
  constructor
  · rintro ⟨bounded, given, rfl⟩
    exact ⟨Json.integerBetween_eq_ok_iff.mp given, bounded.2⟩
  · rintro ⟨given, bounds⟩
    exact ⟨⟨longevity, bounds⟩, Json.integerBetween_eq_ok_iff.mpr given, rfl⟩

/-- **A value is checked to be a log level exactly when its upper-case form is the name.** -/
theorem checkLogLevel_eq_ok_iff {document : Json} {level : LogLevel} :
    checkLogLevel document = .ok level ↔ document.SpellsUpper level.name := by
  rw [checkLogLevel, Checked.ofProblem_eq_ok_iff]
  refine bind_eq_ok_iff.trans ?_
  simp only [LogLevel.ofPoints_eq_ok_iff, Json.SpellsUpper]
  constructor
  · rintro ⟨_, given, text, rfl, upper⟩
    exact ⟨text, given, upper⟩
  · rintro ⟨text, given, upper⟩
    exact ⟨_, given, text, rfl, upper⟩

/-- A directory is accepted exactly when it is a path or nothing. -/
theorem checkDirectory_eq_ok_iff {document : Json} {directory : Option PathName} :
    checkDirectory document = .ok directory ↔ document.optionalPath = .ok directory := by
  rw [checkDirectory, Checked.ofProblem_eq_ok_iff]

end Config

/-- Items that are related one by one pass a check with the same values. -/
theorem forall₂_congr_left {α β : Type} {related : α → α → Prop} {passes : α → β → Prop}
    (agree : ∀ left right, related left right → ∀ value, passes left value ↔ passes right value)
    {items others : List α} (pairs : List.Forall₂ related items others) {values : List β} :
    List.Forall₂ passes items values ↔ List.Forall₂ passes others values := by
  induction pairs generalizing values with
  | nil => exact Iff.rfl
  | cons here _ inductive_step =>
      rw [List.forall₂_cons_left_iff, List.forall₂_cons_left_iff]
      simp only [agree _ _ here, inductive_step]

namespace Json

/-- Two values are the same, or spell the same. -/
def Alike {α : Type} (spells : Json → α → Prop) (left right : Json) : Prop :=
  left = right ∨ ∃ value, spells left value ∧ spells right value

/-- Two values are the same, or lists whose items are related one by one. -/
def AlikeLists (related : Json → Json → Prop) (left right : Json) : Prop :=
  left = right ∨ ∃ items others, left = .array items ∧ right = .array others ∧
    List.Forall₂ related items others

/-- Two objects both lack a member, or the values that they give it are related. -/
def AlikeMembers (related : Json → Json → Prop) (members others : List (Text.Raw × Json))
    (name : String) : Prop :=
  Option.Rel related (member? members name) (member? others name)

/-- Two values are the same, or objects that spell the same amount and the same key. -/
def AlikeCoins (left right : Json) : Prop :=
  left = right ∨ ∃ members others, left = .object members ∧ right = .object others ∧
    AlikeMembers (Alike SpellsPositive) members others "value" ∧
    AlikeMembers (Alike SpellsBytes) members others "pubkey"

section

variable {related : Json → Json → Prop} {members others : List (Text.Raw × Json)} {name : String}

/-- A member is missing from both of two alike objects or from neither. -/
theorem AlikeMembers.eq_none_iff (alike : AlikeMembers related members others name) :
    member? members name = none ↔ member? others name = none := by
  unfold AlikeMembers at alike
  generalize member? members name = left at alike ⊢
  generalize member? others name = right at alike ⊢
  cases alike with
  | none => exact Iff.rfl
  | some _ => simp only [reduceCtorEq]

/-- A member of one object has a property exactly when that of the other object has it. -/
theorem AlikeMembers.exists_iff {passes : Json → Prop}
    (alike : AlikeMembers related members others name)
    (agree : ∀ left right, related left right → (passes left ↔ passes right)) :
    (∃ document, member? members name = some document ∧ passes document) ↔
      ∃ document, member? others name = some document ∧ passes document := by
  unfold AlikeMembers at alike
  generalize member? members name = left at alike ⊢
  generalize member? others name = right at alike ⊢
  cases alike with
  | none => exact Iff.rfl
  | some here => simp only [Option.some.injEq, exists_eq_left', agree _ _ here]

end

/-- Documents that spell the same positive numbers are read as the same integer. -/
theorem Alike.looseInteger_eq {left right : Json} (alike : Alike SpellsPositive left right) :
    left.looseInteger = right.looseInteger := by
  obtain rfl | ⟨number, first, second⟩ := alike
  · rfl
  · rw [(looseInteger_eq_ok_iff first.positive).mpr first,
      (looseInteger_eq_ok_iff first.positive).mpr second]

/-- What two values that are alike spell is the same. -/
theorem Alike.spells_iff {α : Type} {spells : Json → α → Prop} {left right : Json}
    (alike : Alike spells left right)
    (unique : ∀ document first second, spells document first → spells document second →
      first = second) (value : α) :
    spells left value ↔ spells right value := by
  obtain rfl | ⟨common, first, second⟩ := alike
  · exact Iff.rfl
  · constructor
    · intro spelled
      rw [unique _ _ _ spelled first]
      exact second
    · intro spelled
      rw [unique _ _ _ spelled second]
      exact first

/-- Documents that spell the same bytes spell the same keys. -/
theorem Alike.spellsKey_iff {left right : Json} (alike : Alike SpellsBytes left right)
    (key : PublicKey) : left.SpellsKey key ↔ right.SpellsKey key := by
  rw [spellsKey_iff_spellsBytes, spellsKey_iff_spellsBytes]
  exact alike.spells_iff (fun _ _ _ => SpellsBytes.unique) key.bytes

end Json

namespace Config

variable {α : Type} {related : Json → Json → Prop} {check : Json → Checked α}
  {members others : List (Text.Raw × Json)}

/-- Values that are related pass a check with the same results. -/
def Respects (check : Json → Checked α) (related : Json → Json → Prop) : Prop :=
  ∀ left right, related left right → ∀ value, check left = .ok value ↔ check right = .ok value

/-- A required member is accepted from both of two alike objects, with the same value. -/
theorem Respects.requiredMember {name : String} (respects : Respects check related)
    (alike : Json.AlikeMembers related members others name) (value : α) :
    requiredMember name check members = .ok value ↔
      requiredMember name check others = .ok value := by
  rw [requiredMember_eq_ok_iff, requiredMember_eq_ok_iff]
  exact alike.exists_iff fun left right here => respects left right here value

/-- An optional member is accepted from both of two alike objects, with the same value. -/
theorem Respects.optionalMember {name : String} {default : α} (respects : Respects check related)
    (alike : Json.AlikeMembers related members others name) (value : α) :
    optionalMember name default check members = .ok value ↔
      optionalMember name default check others = .ok value := by
  rw [optionalMember_eq_ok_iff, optionalMember_eq_ok_iff, alike.eq_none_iff,
    alike.exists_iff fun left right here => respects left right here value]

/-- A check of each item is a check of lists that are alike item by item. -/
theorem Respects.checkedList (respects : Respects check related) :
    Respects (checkedList check) (Json.AlikeLists related) := by
  intro left right alike values
  obtain rfl | ⟨items, others, rfl, rfl, pairs⟩ := alike
  · exact Iff.rfl
  · simp only [checkedList_eq_ok_iff, Json.array.injEq, exists_eq_left',
      forall₂_congr_left respects pairs]

/-- Amounts are checked by the numbers that are spelled. -/
theorem checkAmount_respects : Respects checkAmount (Json.Alike Json.SpellsPositive) := by
  intro left right alike value
  rw [checkAmount_eq_ok_iff, checkAmount_eq_ok_iff, alike.looseInteger_eq]

/-- Longevities are checked by the numbers that are spelled. -/
theorem checkLongevity_respects : Respects checkLongevity (Json.Alike Json.SpellsPositive) := by
  intro left right alike value
  rw [checkLongevity_eq_ok_iff, checkLongevity_eq_ok_iff, alike.looseInteger_eq]

/-- Owners are checked by the bytes that are spelled. -/
theorem checkOwner_respects : Respects checkOwner (Json.Alike Json.SpellsBytes) := by
  intro left right alike key
  rw [checkOwner_eq_ok_iff, checkOwner_eq_ok_iff]
  exact alike.spellsKey_iff key

/-- Levels are checked by the capitals that are spelled. -/
theorem checkLogLevel_respects : Respects checkLogLevel (Json.Alike Json.SpellsUpper) := by
  intro left right alike level
  rw [checkLogLevel_eq_ok_iff, checkLogLevel_eq_ok_iff]
  exact alike.spells_iff (fun _ _ _ => Json.SpellsUpper.unique) level.name

/-- Coins are checked member by member. -/
theorem checkCoin_respects : Respects checkCoin Json.AlikeCoins := by
  intro left right alike coin
  obtain rfl | ⟨members, others, rfl, rfl, amounts, owners⟩ := alike
  · exact Iff.rfl
  rw [checkCoin, checkCoin, map_eq_ok_iff, map_eq_ok_iff]
  simp only [Checked.both_eq_ok_iff, checkAmount_respects.requiredMember amounts,
    checkOwner_respects.requiredMember owners]

/-- Authorities are checked one by one. -/
theorem checkAuthorities_respects :
    Respects checkAuthorities (Json.AlikeLists (Json.Alike Json.SpellsBytes)) := by
  intro left right alike keys
  obtain rfl | ⟨items, others, rfl, rfl, pairs⟩ := alike
  · exact Iff.rfl
  · simp only [checkAuthorities_eq_ok_iff, Json.array.injEq, exists_eq_left',
      forall₂_congr_left (fun _ _ alike => Json.Alike.spellsKey_iff alike) pairs]

/-- The members of two configurations differ only in how an integer is spelled, in the mark, the
case and the blanks of hexadecimal texts and in the case of the log level. Members that are not
known do not matter, and neither does the order. -/
structure Alike (members others : List (Text.Raw × Json)) : Prop where
  genesis : Json.AlikeMembers (Json.AlikeLists Json.AlikeCoins) members others "genesis"
  authorities :
    Json.AlikeMembers (Json.AlikeLists (Json.Alike Json.SpellsBytes)) members others "authorities"
  longevity : Json.AlikeMembers (Json.Alike Json.SpellsPositive) members others "longevity"
  logLevel : Json.AlikeMembers (Json.Alike Json.SpellsUpper) members others "log_level"
  logDirectory : Json.member? members "log_dir" = Json.member? others "log_dir"
  dataDirectory : Json.member? members "data_dir" = Json.member? others "data_dir"

/-- **Objects that are alike are accepted as the same configuration.** -/
theorem Alike.ofDocument_iff (alike : Alike members others) (config : Config) :
    ofDocument (.object members) = .ok config ↔ ofDocument (.object others) = .ok config := by
  have directory {name : String} (same : Json.member? members name = Json.member? others name) :
      optionalMember name none checkDirectory members =
        optionalMember name none checkDirectory others := by
    rw [optionalMember, optionalMember, same]
  simp only [ofDocument_eq_ok_iff, Json.object.injEq, exists_eq_left',
    checkCoin_respects.checkedList.optionalMember alike.genesis,
    checkAuthorities_respects.optionalMember alike.authorities,
    checkLongevity_respects.optionalMember alike.longevity,
    checkLogLevel_respects.optionalMember alike.logLevel,
    directory alike.logDirectory, directory alike.dataDirectory]

end Config

/-- Items that are all written for values of some kind are written for a list of such values. -/
theorem exists_map_eq {α β : Type} {kind : α → Prop} {write : α → β} {items : List β}
    (every : ∀ item ∈ items, ∃ value, kind value ∧ write value = item) :
    ∃ values : List α, (∀ value ∈ values, kind value) ∧ values.map write = items := by
  induction items with
  | nil => exact ⟨[], List.forall_mem_nil _, rfl⟩
  | cons item items inductive_step =>
      obtain ⟨⟨value, right, rfl⟩, others⟩ := List.forall_mem_cons.mp every
      obtain ⟨values, all, rfl⟩ := inductive_step others
      exact ⟨value :: values, List.forall_mem_cons.mpr ⟨right, all⟩, rfl⟩

namespace Json

/-- The text of a public key in normal form. -/
def IsNormalKey (document : Json) : Prop :=
  ∃ text bytes, document = .string text ∧ Hex.IsNormal text ∧ Hex.Spells text bytes ∧
    bytes.length = 32

/-- A coin in normal form: its amount as an integer and the key of its owner in normal form. -/
def IsNormalCoin (document : Json) : Prop :=
  ∃ value owner, document = .object [("value", .natural value), ("pubkey", owner)] ∧
    1 ≤ value ∧ value ≤ 2 ^ 128 - 1 ∧ owner.IsNormalKey

/-- A directory in normal form: none, or the text of a path name. -/
def IsNormalDirectory (document : Json) : Prop :=
  document = .null ∨ ∃ path : PathName, document = .ofPoints path.points

/-- A configuration in normal form. -/
def IsNormalConfig (document : Json) : Prop :=
  ∃ (coins authorities : List Json) (longevity : Nat) (level : String) (log data : Json),
    document = .object [("genesis", .array coins), ("authorities", .array authorities),
      ("longevity", .natural longevity), ("log_level", .string level), ("log_dir", log),
      ("data_dir", data)] ∧
    (∀ coin ∈ coins, coin.IsNormalCoin) ∧ (∀ key ∈ authorities, key.IsNormalKey) ∧
    (1 ≤ longevity ∧ longevity ≤ 2 ^ 64 - 1) ∧
    level ∈ ["DEBUG", "INFO", "WARNING", "ERROR", "CRITICAL"] ∧
    log.IsNormalDirectory ∧ data.IsNormalDirectory

/-- A key in normal form is the hexadecimal text of some key. -/
theorem isNormalKey_iff {document : Json} :
    document.IsNormalKey ↔ ∃ key : PublicKey, string (Hex.encode key.bytes) = document := by
  constructor
  · rintro ⟨text, bytes, rfl, normal, spelled, length⟩
    have written := Hex.eq_encode_of_normal normal (Hex.decode_eq_ok_iff.mpr spelled)
    exact ⟨⟨bytes, length⟩, congrArg string written.symm⟩
  · rintro ⟨key, rfl⟩
    exact ⟨_, key.bytes, rfl, Hex.isNormal_encode key.bytes,
      Hex.decode_eq_ok_iff.mp (Hex.decode_encode key.bytes), key.length_bytes⟩

/-- A coin in normal form is the document of some coin that is worth something. -/
theorem isNormalCoin_iff {document : Json} :
    document.IsNormalCoin ↔ ∃ coin : Output, 1 ≤ coin.value.toNat ∧ coin.toDocument = document := by
  constructor
  · rintro ⟨value, owner, rfl, positive, bound, normal⟩
    obtain ⟨key, rfl⟩ := isNormalKey_iff.mp normal
    have fits : value < amountBound := Nat.lt_of_le_sub_one (by decide) bound
    exact ⟨⟨⟨value, fits⟩, key⟩, positive, rfl⟩
  · rintro ⟨coin, positive, rfl⟩
    exact ⟨_, _, rfl, positive, Nat.le_sub_one_of_lt coin.value.toNat_lt,
      isNormalKey_iff.mpr ⟨coin.owner, rfl⟩⟩

/-- The hexadecimal text of a key spells it. -/
theorem spellsKey_encode (key : PublicKey) : (string (Hex.encode key.bytes)).SpellsKey key :=
  ⟨_, rfl, Hex.decode_encode key.bytes⟩

end Json

namespace Config

/-- The document of a coin that is worth something is accepted as this coin. -/
theorem checkCoin_toDocument {coin : Output} (positive : 1 ≤ coin.value.toNat) :
    checkCoin coin.toDocument = .ok coin :=
  checkCoin_eq_ok_iff.mpr ⟨⟨[("value", .natural coin.value.toNat),
    ("pubkey", .string (Hex.encode coin.owner.bytes))], _, _, rfl, rfl, rfl, rfl,
    Json.spellsKey_encode coin.owner⟩, positive⟩

/-- The document of a directory is accepted as this directory. -/
theorem checkDirectory_directoryDocument (directory : Option PathName) :
    checkDirectory (directoryDocument directory) = .ok directory := by
  rw [checkDirectory_eq_ok_iff]
  cases directory with
  | none => rfl
  | some path =>
      rw [directoryDocument, Option.map_some, Option.getD_some, Json.optionalPath_ofPoints,
        PathName.ofPoints_points]

/-- A directory in normal form is the document of some directory. -/
theorem isNormalDirectory_iff {document : Json} :
    document.IsNormalDirectory ↔ ∃ directory, directoryDocument directory = document := by
  constructor
  · rintro (rfl | ⟨path, rfl⟩)
    · exact ⟨none, rfl⟩
    · exact ⟨some path, rfl⟩
  · rintro ⟨directory, rfl⟩
    cases directory with
    | none => exact .inl rfl
    | some path => exact .inr ⟨path, rfl⟩

/-- The names in normal form are those of the levels. -/
theorem mem_names_iff {name : String} :
    name ∈ ["DEBUG", "INFO", "WARNING", "ERROR", "CRITICAL"] ↔
      ∃ level : LogLevel, level.name = name := by
  constructor
  · intro member
    have named : name ∈ LogLevel.all.map LogLevel.name := member
    obtain ⟨level, _, same⟩ := List.mem_map.mp named
    exact ⟨level, same⟩
  · rintro ⟨level, rfl⟩
    cases level <;> decide

/-- What an accepted configuration has that a configuration need not have: every coin has some
value, and the longevity is within its bounds. -/
structure Valid (config : Config) : Prop where
  positive : ∀ coin ∈ config.genesis, 1 ≤ coin.value.toNat
  least : 1 ≤ config.longevity
  greatest : config.longevity ≤ maxLongevity

/-- What is accepted is valid. -/
theorem valid_of_ofDocument {document : Json} {config : Config}
    (accepted : ofDocument document = .ok config) : config.Valid := by
  obtain ⟨members, rfl, _, _, longevity, _⟩ := ofDocument_eq_ok_iff.mp accepted
  have bounds : 1 ≤ config.longevity ∧ config.longevity ≤ maxLongevity := by
    obtain ⟨-, same⟩ | ⟨document, -, checked⟩ := optionalMember_eq_ok_iff.mp longevity
    · rw [same]
      exact ⟨by decide, Nat.le_refl _⟩
    · exact (checkLongevity_eq_ok_iff.mp checked).2
  exact ⟨(spelled_of_ofDocument accepted).2, bounds.1, bounds.2⟩

/-- **The normal form of a configuration is accepted as the configuration.** -/
theorem ofDocument_toDocument {config : Config} (valid : config.Valid) :
    ofDocument config.toDocument = .ok config := by
  refine ofDocument_eq_ok_iff.mpr ⟨_, rfl, ?_⟩
  simp only [optionalMember_eq_ok_iff]
  refine ⟨.inr ⟨_, rfl, ?_⟩, .inr ⟨_, rfl, ?_⟩, .inr ⟨_, rfl, ?_⟩, .inr ⟨_, rfl, ?_⟩,
    .inr ⟨_, rfl, checkDirectory_directoryDocument _⟩,
    .inr ⟨_, rfl, checkDirectory_directoryDocument _⟩⟩
  · rw [checkedList_eq_ok_iff]
    refine ⟨_, rfl, List.forall₂_map_left_iff.mpr (List.forall₂_same.mpr ?_)⟩
    exact fun coin member => checkCoin_toDocument (valid.positive coin member)
  · rw [checkAuthorities_eq_ok_iff]
    refine ⟨_, rfl, List.forall₂_map_left_iff.mpr (List.forall₂_same.mpr ?_)⟩
    exact fun key _ => Json.spellsKey_encode key
  · exact checkLongevity_eq_ok_iff.mpr ⟨rfl, valid.least, valid.greatest⟩
  · rw [checkLogLevel_eq_ok_iff]
    refine ⟨_, rfl, ?_⟩
    cases config.logLevel <;> decide

/-- **The documents in normal form are those that are given out for valid configurations.** -/
theorem isNormalConfig_iff {document : Json} :
    document.IsNormalConfig ↔ ∃ config : Config, config.Valid ∧ config.toDocument = document := by
  constructor
  · rintro ⟨coins, authorities, longevity, name, log, data, rfl, normalCoins, normalKeys,
      ⟨least, greatest⟩, named, logs, keeps⟩
    simp only [Json.isNormalCoin_iff] at normalCoins
    obtain ⟨genesis, positive, rfl⟩ := exists_map_eq normalCoins
    have written : ∀ document ∈ authorities,
        ∃ key : PublicKey, True ∧ Json.string (Hex.encode key.bytes) = document := by
      simpa only [true_and, ← Json.isNormalKey_iff] using normalKeys
    obtain ⟨keys, _, rfl⟩ := exists_map_eq written
    obtain ⟨level, rfl⟩ := mem_names_iff.mp named
    obtain ⟨logDirectory, rfl⟩ := isNormalDirectory_iff.mp logs
    obtain ⟨dataDirectory, rfl⟩ := isNormalDirectory_iff.mp keeps
    exact ⟨⟨genesis, keys, longevity, level, logDirectory, dataDirectory⟩,
      ⟨positive, least, greatest⟩, rfl⟩
  · rintro ⟨config, valid, rfl⟩
    refine ⟨_, _, _, _, _, _, rfl, List.forall_mem_map.mpr ?_, List.forall_mem_map.mpr ?_,
      ⟨valid.least, valid.greatest⟩, mem_names_iff.mpr ⟨config.logLevel, rfl⟩,
      isNormalDirectory_iff.mpr ⟨_, rfl⟩, isNormalDirectory_iff.mpr ⟨_, rfl⟩⟩
    · exact fun coin member => Json.isNormalCoin_iff.mpr ⟨coin, valid.positive coin member, rfl⟩
    · exact fun key _ => Json.isNormalKey_iff.mpr ⟨key, rfl⟩

/-- **Acceptance brings configurations into a normal form.** What is given out for an accepted
configuration is accepted as the same configuration. In it every key is a text in normal form that
spells 32 bytes, every amount and the longevity are integers within their bounds, and the log level
is one of the five names; and every document of this form is accepted and given out again as it is.
If the members of two objects differ only in the mark, the case and the blanks of hexadecimal texts,
in how an integer is spelled and in the case of the log level, then both are accepted or neither is,
and what they are accepted as is the same configuration, with the same genesis outputs and authority
keys. -/
theorem validation_normalises :
    (∀ document config, ofDocument document = .ok config →
      ofDocument config.toDocument = .ok config ∧ config.toDocument.IsNormalConfig) ∧
    (∀ document : Json, document.IsNormalConfig →
      ∃ config, ofDocument document = .ok config ∧ config.toDocument = document) ∧
    ∀ members others, Alike members others →
      ((∃ first, ofDocument (.object members) = .ok first) ↔
        ∃ second, ofDocument (.object others) = .ok second) ∧
      ∀ first second, ofDocument (.object members) = .ok first →
        ofDocument (.object others) = .ok second →
        first = second ∧ ∃ outputs keys,
          first.genesisOutputs = .ok outputs ∧ second.genesisOutputs = .ok outputs ∧
          first.authorityKeys = .ok keys ∧ second.authorityKeys = .ok keys := by
  refine ⟨fun document config accepted => ?_, fun document normal => ?_,
    fun members others alike => ⟨?_, ?_⟩⟩
  · have valid := valid_of_ofDocument accepted
    exact ⟨ofDocument_toDocument valid, isNormalConfig_iff.mpr ⟨config, valid, rfl⟩⟩
  · obtain ⟨config, valid, rfl⟩ := isNormalConfig_iff.mp normal
    exact ⟨config, ofDocument_toDocument valid, rfl⟩
  · exact exists_congr alike.ofDocument_iff
  · intro first second accepted again
    rw [alike.ofDocument_iff, again, Except.ok.injEq] at accepted
    subst accepted
    exact ⟨rfl, _, _, second.genesisOutputs_eq, second.genesisOutputs_eq, second.authorityKeys_eq,
      second.authorityKeys_eq⟩

end Config

/-- One configuration in two spellings. The path name of its directory has a normal form of its
own. -/
theorem Config.spelled_in_two_ways :
    let key : PublicKey := ⟨List.replicate 32 0xab, by decide⟩
    let spaced : String := "0X" ++ String.join (List.replicate 32 " Ab")
    let members : List (Text.Raw × Json) :=
      [("genesis", .array [.object [("value", .string " +0_1_0.0"), ("pubkey", .string spaced)]]),
        ("authorities", .array [.string spaced]), ("longevity", .boolean true),
        ("log_level", .string "ınfo"), ("data_dir", .string "/a//./b/")]
    let others : List (Text.Raw × Json) :=
      [("data_dir", .string "/a//./b/"), ("log_level", .string "INFO"),
        ("longevity", .real (.finite false 4 (-2))),
        ("authorities", .array [.string (Hex.encode key.bytes)]),
        ("genesis", .array [.object [("pubkey", .string (Hex.encodeBare key.bytes)),
          ("value", .integer 10)]])]
    let config : Config :=
      { genesis := [⟨⟨10, by decide⟩, key⟩], authorities := [key], longevity := 1
        logLevel := .info, logDirectory := none, dataDirectory := some (.ofText "/a/b") }
    ofDocument (.object members) = .ok config ∧ ofDocument (.object others) = .ok config ∧
    ofDocument config.toDocument = .ok config ∧ config.toDocument.IsNormalConfig := by
  intro key spaced members others config
  have accepted : ofDocument (.object members) = .ok config := by decide +kernel
  have hex : Json.Alike Json.SpellsBytes (.string spaced) (.string (Hex.encode key.bytes)) :=
    .inr ⟨key.bytes, ⟨_, rfl, Hex.decode_eq_ok_iff.mp (by decide +kernel)⟩,
      _, rfl, Hex.decode_eq_ok_iff.mp (Hex.decode_encode key.bytes)⟩
  have bare : Json.Alike Json.SpellsBytes (.string spaced) (.string (Hex.encodeBare key.bytes)) :=
    .inr ⟨key.bytes, ⟨_, rfl, Hex.decode_eq_ok_iff.mp (by decide +kernel)⟩,
      _, rfl, Hex.decode_eq_ok_iff.mp (by decide +kernel)⟩
  have amount : Json.Alike Json.SpellsPositive (.string " +0_1_0.0") (.integer 10) :=
    .inr ⟨10, (Json.looseInteger_eq_ok_iff (by decide)).mp (by decide +kernel),
      .integer (by decide)⟩
  have one : Json.Alike Json.SpellsPositive (.boolean true) (.real (.finite false 4 (-2))) :=
    .inr ⟨1, .boolean, (Json.looseInteger_eq_ok_iff (by decide)).mp (by decide +kernel)⟩
  have level : Json.Alike Json.SpellsUpper (.string "ınfo") (.string "INFO") :=
    .inr ⟨"INFO", ⟨_, rfl, by decide⟩, _, rfl, by decide⟩
  have alike : Alike members others :=
    { genesis := .some (.inr ⟨_, _, rfl, rfl,
        .cons (.inr ⟨_, _, rfl, rfl, .some amount, .some bare⟩) .nil⟩)
      authorities := .some (.inr ⟨_, _, rfl, rfl, .cons hex .nil⟩)
      longevity := .some one
      logLevel := .some level
      logDirectory := rfl
      dataDirectory := rfl }
  obtain ⟨normalises, _, unites⟩ := validation_normalises
  obtain ⟨both, same⟩ := unites members others alike
  obtain ⟨second, again⟩ := both.mp ⟨config, accepted⟩
  obtain ⟨rfl, _⟩ := same config second accepted again
  exact ⟨accepted, again, normalises _ config accepted⟩

end CoinLedger

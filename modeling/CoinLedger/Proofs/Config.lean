import CoinLedger.Config.Load
import CoinLedger.Proofs.Text.Hex
import CoinLedger.Proofs.Validation

/-! # What a loaded configuration guarantees

Checks are passed by parts, and a part passes its check exactly when it spells what comes of it: an
integer in any of its forms, a hexadecimal text in any of its forms, or an object or a list of parts
that do (`CoinLedger.Config.checkCoin_eq_ok_iff`, `CoinLedger.Config.checkAuthorities_eq_ok_iff`).
So a document that is accepted spells the coins and the authorities of its configuration
(`CoinLedger.Config.spelled_of_ofDocument`), and the coins that a loaded configuration starts with
have some value (`CoinLedger.Config.positive_of_load`).
-/

namespace CoinLedger

namespace Json

/-- A value spells a public key: it is a text that gives the bytes of the key. -/
def SpellsKey (document : Json) (key : PublicKey) : Prop :=
  ∃ text : String, document.text = .ok (Text.CodePoint.ofText text) ∧
    Hex.decode text = .ok key.bytes

/-- A value spells a coin: it is an object that gives the amount and spells the key of the owner. -/
def SpellsCoin (document : Json) (coin : Output) : Prop :=
  ∃ members value owner, document = .object members ∧
    member? members "value" = some value ∧ value.looseInteger = .ok coin.value.toNat ∧
    member? members "pubkey" = some owner ∧ owner.SpellsKey coin.owner

/-- A member of an object spells values: it is a list whose items spell them one by one, or absent,
and then there are none. -/
def MemberSpells {α : Type} (spells : Json → α → Prop) (members : List (Text.Raw × Json))
    (name : String) (values : List α) : Prop :=
  (member? members name = none ∧ values = []) ∨
    ∃ items, member? members name = some (.array items) ∧ List.Forall₂ spells items values

end Json

namespace Checked

variable {α β : Type}

theorem both_eq_ok_iff {first : Checked α} {second : Checked β} {pair : α × β} :
    both first second = .ok pair ↔ first = .ok pair.1 ∧ second = .ok pair.2 := by
  rcases first with faults | left <;> rcases second with others | right <;>
    simp [both, Prod.ext_iff]

theorem within_eq_ok_iff {step : DocumentStep} {check : Checked α} {value : α} :
    within step check = .ok value ↔ check = .ok value := by
  cases check <;> simp [within]

/-- A check that stops at one problem is passed as before when problems are collected. -/
theorem ofProblem_eq_ok_iff {outcome : Except Problem α} {value : α} :
    ofProblem outcome = .ok value ↔ outcome = .ok value := by
  cases outcome <;> simp [ofProblem]

/-- Items pass a check exactly when each of them does. -/
theorem allFrom_eq_ok_iff {check : β → Checked α} {index : Nat} {items : List β}
    {values : List α} :
    allFrom index check items = .ok values ↔
      List.Forall₂ (fun item value => check item = .ok value) items values := by
  induction items generalizing index values with
  | nil =>
      rw [allFrom, List.forall₂_nil_left_iff]
      exact ⟨fun same => (Except.ok.inj same).symm, fun same => congrArg Except.ok same.symm⟩
  | cons item items inductive_step =>
      rw [allFrom, List.forall₂_cons_left_iff]
      constructor
      · intro checked
        split at checked
        · rename_i value others passed
          cases checked
          obtain ⟨here, later⟩ := both_eq_ok_iff.mp passed
          exact ⟨value, others, within_eq_ok_iff.mp here, inductive_step.mp later, rfl⟩
        · cases checked
      · rintro ⟨value, others, here, later, rfl⟩
        have passed : both (within (.item index) (check item)) (allFrom (index + 1) check items) =
            .ok (value, others) :=
          both_eq_ok_iff.mpr ⟨within_eq_ok_iff.mpr here, inductive_step.mpr later⟩
        rw [passed]

end Checked

/-- A document is an integer between bounds exactly when it gives one in any of its forms. -/
theorem Json.integerBetween_eq_ok_iff {least greatest : Nat} {document : Json}
    {bounded : { value : Nat // least ≤ value ∧ value ≤ greatest }} :
    document.integerBetween least greatest = .ok bounded ↔
      document.looseInteger = .ok bounded.1 := by
  obtain ⟨value, above, below⟩ := bounded
  unfold integerBetween
  constructor
  · intro taken
    split at taken
    · cases taken
    · rename_i integer given
      split at taken
      · cases taken
      · split at taken
        · cases taken
        · cases taken
          rw [given, Int.toNat_of_nonneg (by omega)]
  · intro given
    rw [given]
    dsimp only
    rw [dif_neg (by omega), dif_neg (by omega)]
    rfl

/-- A document spells a key exactly when its code points are read as the key. -/
theorem Json.spellsKey_iff {document : Json} {key : PublicKey} :
    document.SpellsKey key ↔
      ∃ points, document.text = .ok points ∧ PublicKey.ofPoints points = .ok key := by
  simp only [SpellsKey, PublicKey.ofPoints_eq_ok_iff, Hex.decodePoints?_eq_some_iff]
  constructor
  · rintro ⟨text, given, decoded⟩
    exact ⟨_, given, text, rfl, decoded⟩
  · rintro ⟨_, given, text, rfl, decoded⟩
    exact ⟨text, given, decoded⟩

namespace Config

/-- A document passes as an amount exactly when it gives a positive integer that is one. -/
theorem checkAmount_eq_ok_iff {document : Json} {amount : Amount} :
    checkAmount document = .ok amount ↔
      document.looseInteger = .ok amount.toNat ∧ 1 ≤ amount.toNat := by
  have bound := amount.toNat_lt
  unfold checkAmount
  constructor
  · intro checked
    split at checked
    · rename_i value bounds given
      cases checked
      exact ⟨Json.integerBetween_eq_ok_iff.mp given, bounds.1⟩
    · cases checked
  · rintro ⟨given, positive⟩
    have within : 1 ≤ amount.toNat ∧ amount.toNat ≤ amountBound - 1 := by omega
    rw [(@Json.integerBetween_eq_ok_iff _ _ _ ⟨amount.toNat, within⟩).mpr given]

/-- A required member passes exactly when it is there and passes its check. -/
theorem requiredMember_eq_ok_iff {α : Type} {name : String} {check : Json → Checked α}
    {members : List (Text.Raw × Json)} {value : α} :
    requiredMember name check members = .ok value ↔
      ∃ document, Json.member? members name = some document ∧ check document = .ok value := by
  unfold requiredMember
  cases Json.member? members name with
  | none => simp
  | some document => simp [Checked.within_eq_ok_iff]

/-- An optional member passes exactly when it is absent, with its default, or passes its check. -/
theorem optionalMember_eq_ok_iff {α : Type} {name : String} {default value : α}
    {check : Json → Checked α} {members : List (Text.Raw × Json)} :
    optionalMember name default check members = .ok value ↔
      (Json.member? members name = none ∧ value = default) ∨
        ∃ document, Json.member? members name = some document ∧ check document = .ok value := by
  unfold optionalMember
  cases Json.member? members name with
  | none => simp [eq_comm]
  | some document => simp [Checked.within_eq_ok_iff]

/-- A document passes as a list exactly when it is one and its items pass. -/
theorem checkedList_eq_ok_iff {α : Type} {check : Json → Checked α} {document : Json}
    {values : List α} :
    checkedList check document = .ok values ↔ ∃ items, document = .array items ∧
      List.Forall₂ (fun item value => check item = .ok value) items values := by
  cases document <;> simp [checkedList, Checked.allFrom_eq_ok_iff]

/-- A document passes as an owner exactly when it spells the key. -/
theorem checkOwner_eq_ok_iff {document : Json} {key : PublicKey} :
    checkOwner document = .ok key ↔ document.SpellsKey key := by
  rw [checkOwner, Checked.ofProblem_eq_ok_iff, Json.spellsKey_iff]
  exact bind_eq_ok_iff

/-- **A document is checked to be a coin exactly when it spells one of some value.** -/
theorem checkCoin_eq_ok_iff {document : Json} {coin : Output} :
    checkCoin document = .ok coin ↔ document.SpellsCoin coin ∧ 1 ≤ coin.value.toNat := by
  constructor
  · intro checked
    unfold checkCoin at checked
    split at checked
    · rename_i members
      obtain ⟨⟨amount, key⟩, passed, rfl⟩ := map_eq_ok_iff.mp checked
      obtain ⟨amounts, owners⟩ := Checked.both_eq_ok_iff.mp passed
      obtain ⟨value, given, taken⟩ := requiredMember_eq_ok_iff.mp amounts
      obtain ⟨owner, named, spelled⟩ := requiredMember_eq_ok_iff.mp owners
      obtain ⟨integer, positive⟩ := checkAmount_eq_ok_iff.mp taken
      exact ⟨⟨members, value, owner, rfl, given, integer, named, checkOwner_eq_ok_iff.mp spelled⟩,
        positive⟩
    · cases checked
  · rintro ⟨⟨members, value, owner, rfl, given, integer, named, spelled⟩, positive⟩
    refine map_eq_ok_iff.mpr ⟨(coin.value, coin.owner), Checked.both_eq_ok_iff.mpr ⟨?_, ?_⟩, rfl⟩
    · exact requiredMember_eq_ok_iff.mpr
        ⟨value, given, checkAmount_eq_ok_iff.mpr ⟨integer, positive⟩⟩
    · exact requiredMember_eq_ok_iff.mpr ⟨owner, named, checkOwner_eq_ok_iff.mpr spelled⟩

/-- Texts are read as public keys exactly when each is read as its own. -/
theorem publicKeys_eq_ok_iff {texts : List (List Text.CodePoint)} {keys : List PublicKey} :
    publicKeys texts = .ok keys ↔
      List.Forall₂ (fun text key => PublicKey.ofPoints text = .ok key) texts keys := by
  induction texts generalizing keys with
  | nil =>
      rw [publicKeys, List.forall₂_nil_left_iff]
      exact ⟨fun same => (Except.ok.inj same).symm, fun same => congrArg Except.ok same.symm⟩
  | cons text texts inductive_step =>
      rw [publicKeys, List.forall₂_cons_left_iff]
      cases PublicKey.ofPoints text with
      | error problem => simp
      | ok key =>
          dsimp only
          rw [map_eq_ok_iff]
          simp only [inductive_step, Except.ok.injEq, exists_and_left, exists_eq_left', eq_comm]

/-- Items are related through others one by one. -/
theorem forall₂_exists_iff {α β γ : Type} {First : α → β → Prop} {Second : β → γ → Prop}
    {items : List α} {values : List γ} :
    List.Forall₂ (fun item value => ∃ middle, First item middle ∧ Second middle value)
        items values ↔
      ∃ middles, List.Forall₂ First items middles ∧ List.Forall₂ Second middles values := by
  constructor
  · intro related
    induction related with
    | nil => exact ⟨[], .nil, .nil⟩
    | cons here _ inductive_step =>
        obtain ⟨middle, first, second⟩ := here
        obtain ⟨middles, firsts, seconds⟩ := inductive_step
        exact ⟨middle :: middles, .cons first firsts, .cons second seconds⟩
  · rintro ⟨middles, firsts, seconds⟩
    induction firsts generalizing values with
    | nil =>
        cases seconds
        exact .nil
    | cons first _ inductive_step =>
        cases seconds with
        | cons second later => exact .cons ⟨_, first, second⟩ (inductive_step later)

/-- **A document is checked to be a list of authorities exactly when its items spell their
keys.** -/
theorem checkAuthorities_eq_ok_iff {document : Json} {keys : List PublicKey} :
    checkAuthorities document = .ok keys ↔
      ∃ items, document = .array items ∧ List.Forall₂ Json.SpellsKey items keys := by
  have passes : checkAuthorities document = .ok keys ↔
      ∃ texts, checkedList (fun item => Checked.ofProblem item.text) document = .ok texts ∧
        publicKeys texts = .ok keys := by
    unfold checkAuthorities
    cases checkedList (fun item => Checked.ofProblem item.text) document with
    | error faults => simp
    | ok texts => simp [Checked.ofProblem_eq_ok_iff]
  have spelled (items : List Json) : List.Forall₂ Json.SpellsKey items keys ↔
      ∃ texts, List.Forall₂ (fun item text => item.text = .ok text) items texts ∧
        publicKeys texts = .ok keys := by
    simp only [publicKeys_eq_ok_iff, ← forall₂_exists_iff, ← Json.spellsKey_iff]
  simp only [passes, checkedList_eq_ok_iff, Checked.ofProblem_eq_ok_iff, spelled]
  constructor
  · rintro ⟨texts, ⟨items, rfl, given⟩, named⟩
    exact ⟨items, rfl, texts, given, named⟩
  · rintro ⟨items, rfl, texts, given, named⟩
    exact ⟨texts, ⟨items, rfl, given⟩, named⟩

/-- A document is accepted exactly when it is an object of which every member passes its check. -/
theorem ofDocument_eq_ok_iff {document : Json} {config : Config} :
    ofDocument document = .ok config ↔ ∃ members, document = .object members ∧
      optionalMember "genesis" [] (checkedList checkCoin) members = .ok config.genesis ∧
      optionalMember "authorities" [] checkAuthorities members = .ok config.authorities ∧
      optionalMember "longevity" maxLongevity checkLongevity members = .ok config.longevity ∧
      optionalMember "log_level" .info checkLogLevel members = .ok config.logLevel ∧
      optionalMember "log_dir" none checkDirectory members = .ok config.logDirectory ∧
      optionalMember "data_dir" none checkDirectory members = .ok config.dataDirectory := by
  have passed (members : List (Text.Raw × Json)) :
      ofDocument (.object members) = .ok config ↔ ofMembers members = .ok config := by
    rw [ofDocument]
    cases ofMembers members <;> simp [Except.mapError]
  constructor
  · intro accepted
    cases document with
    | object members =>
        obtain ⟨parts, checks, rfl⟩ := map_eq_ok_iff.mp ((passed members).mp accepted)
        simp only [Checked.both_eq_ok_iff] at checks
        exact ⟨members, rfl, checks⟩
    | _ => cases accepted
  · rintro ⟨members, rfl, checks⟩
    refine (passed members).mpr (map_eq_ok_iff.mpr ⟨(config.genesis, config.authorities,
      config.longevity, config.logLevel, config.logDirectory, config.dataDirectory), ?_, rfl⟩)
    simp only [Checked.both_eq_ok_iff]
    exact checks

/-- **A document that is accepted spells the coins and the authorities of its configuration**, and
every coin has some value. -/
theorem spelled_of_ofDocument {document : Json} {config : Config}
    (accepted : ofDocument document = .ok config) :
    (∃ members, document = .object members ∧
      Json.MemberSpells Json.SpellsCoin members "genesis" config.genesis ∧
      Json.MemberSpells Json.SpellsKey members "authorities" config.authorities) ∧
    ∀ coin ∈ config.genesis, 1 ≤ coin.value.toNat := by
  obtain ⟨members, rfl, coins, keys, _⟩ := ofDocument_eq_ok_iff.mp accepted
  have spelled : Json.MemberSpells Json.SpellsKey members "authorities" config.authorities :=
    (optionalMember_eq_ok_iff.mp keys).imp_right fun ⟨document, given, checked⟩ => by
      obtain ⟨items, rfl, named⟩ := checkAuthorities_eq_ok_iff.mp checked
      exact ⟨items, given, named⟩
  rcases optionalMember_eq_ok_iff.mp coins with ⟨absent, none⟩ | ⟨document, given, checked⟩
  · rw [none]
    exact ⟨⟨members, rfl, .inl ⟨absent, rfl⟩, spelled⟩, fun _ member => nomatch member⟩
  · obtain ⟨items, rfl, listed⟩ := checkedList_eq_ok_iff.mp checked
    have each : List.Forall₂ (fun coin item => 1 ≤ coin.value.toNat ∧ item.SpellsCoin coin)
        config.genesis items :=
      (listed.imp fun _ _ passed => (checkCoin_eq_ok_iff.mp passed).symm).flip
    obtain ⟨positive, described⟩ := (List.forall₂_and_left config.genesis items).mp each
    exact ⟨⟨members, rfl, .inr ⟨items, given, described.flip⟩, spelled⟩, positive⟩

/-- **Every coin that a loaded configuration starts with has some value.** -/
theorem positive_of_load {text : Option String} {environment : Environment}
    {environmentFile : String} {config : Config}
    (loaded : load text environment environmentFile = .ok config) :
    ∀ coin ∈ config.genesis, coin.value.toNat ≠ 0 := by
  unfold load at loaded
  simp only [bind_eq_ok_iff] at loaded
  obtain ⟨_, _, _, _, _, _, document, _, built⟩ := loaded
  split at built
  · rename_i accepted
    cases built
    obtain ⟨_, positive⟩ := spelled_of_ofDocument accepted
    exact fun coin member => Nat.one_le_iff_ne_zero.mp (positive coin member)
  · cases built

end Config
end CoinLedger

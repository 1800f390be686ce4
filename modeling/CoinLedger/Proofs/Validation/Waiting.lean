import CoinLedger.Crypto.Blake2b
import CoinLedger.Proofs.Validation.Verdict

/-! # What a pool of waiting transactions decides

A pool waits for the coins that are missing, and it looks at the sums last and only if nothing is
missing. It keeps a transaction exactly when this keeps all rules that it asks, and otherwise it
reports the first of them that is broken (`CoinLedger.poolValidity_eq_ok_iff`,
`CoinLedger.poolValidity_eq_error`). Where no coin is missing it agrees with validation, up to the
place of the sums (`CoinLedger.pool_agrees_with_validation`).
-/

namespace CoinLedger

section

variable {verify : Verifier} {coins : Outpoint → Option Output}

/-- Inputs are divided exactly when those with a coin are signed, into the outpoints without a coin
and the coins. -/
theorem divideInputs_eq_ok_iff {image : ByteString} (index : Nat) {inputs : List Input}
    {result : List Outpoint × List Output} :
    divideInputs verify (.ofMap coins) image index inputs = .ok result ↔
      (∀ input ∈ inputs, Signed verify coins image input) ∧
        result = ((inputs.map Input.outpoint).filter fun outpoint => coins outpoint = none,
          inputs.filterMap fun input => coins input.outpoint) := by
  induction inputs generalizing index result with
  | nil => simp [divideInputs, eq_comm]
  | cons input inputs inductive_step =>
      rw [List.forall_mem_cons, divideInputs, CoinView.ofMap]
      cases there : coins input.outpoint with
      | none =>
          constructor
          · intro divided
            dsimp only at divided
            split at divided
            · cases divided
            · rename_i later
              cases divided
              obtain ⟨rest, same⟩ := (inductive_step _).mp later
              cases same
              exact ⟨⟨signed_of_eq_none there, rest⟩, by simp [there]⟩
          · rintro ⟨⟨_, rest⟩, rfl⟩
            have later := (inductive_step (index + 1)).mpr ⟨rest, rfl⟩
            simp [there, later]
      | some coin =>
          rw [signed_iff_of_eq_some there]
          constructor
          · intro divided
            dsimp only at divided
            split at divided
            · rename_i signed
              split at divided
              · cases divided
              · rename_i later
                cases divided
                obtain ⟨rest, same⟩ := (inductive_step _).mp later
                cases same
                exact ⟨⟨signed, rest⟩, by simp [there]⟩
            · cases divided
          · rintro ⟨⟨signed, rest⟩, rfl⟩
            have later := (inductive_step (index + 1)).mpr ⟨rest, rfl⟩
            simp [there, signed, later]

/-- Dividing inputs fails with the first that has a coin and is not signed by its owner. -/
theorem divideInputs_eq_error {image : ByteString} {index : Nat} {inputs : List Input}
    {error : LedgerError}
    (failed : divideInputs verify (.ofMap coins) image index inputs = .error error) :
    ∃ offset input, error = .rejected (.invalidSignature (index + offset)) ∧
      FirstFault (fun _ input => ¬ Signed verify coins image input) inputs offset input := by
  induction inputs generalizing index with
  | nil => cases failed
  | cons first rest inductive_step =>
      -- Behind a first input that is signed, the rest fails.
      have behind (signed : Signed verify coins image first)
          (later : divideInputs verify (.ofMap coins) image (index + 1) rest = .error error) :
          ∃ offset input, error = .rejected (.invalidSignature (index + offset)) ∧
            FirstFault (fun _ input => ¬ Signed verify coins image input) (first :: rest) offset
              input := by
        obtain ⟨offset, input, rfl, fault⟩ := inductive_step later
        refine ⟨offset + 1, input, ?_, .tail (not_not_intro signed) fault⟩
        rw [Nat.add_right_comm, Nat.add_assoc]
      rw [divideInputs] at failed
      cases there : coins first.outpoint with
      | none =>
          simp only [CoinView.ofMap, there] at failed
          split at failed
          · rename_i later
            cases failed
            exact behind (signed_of_eq_none there) later
          · cases failed
      | some coin =>
          simp only [CoinView.ofMap, there] at failed
          split at failed
          · rename_i signed
            split at failed
            · rename_i later
              cases failed
              exact behind ((signed_iff_of_eq_some there).mpr signed) later
            · cases failed
          · rename_i unsigned
            cases failed
            exact ⟨0, first, rfl, .head (mt (signed_iff_of_eq_some there).mp unsigned) rest⟩

end

namespace RejectionKind

/-- The place of a rule in a pool, which looks at the keys of the outputs before the sums. -/
def turn : RejectionKind → Nat
  | outputAlreadyExists => 7
  | overflow => 8
  | negativeFee => 9
  | kind => kind.code

theorem turn_injective : Function.Injective turn := by
  intro left right same
  cases left <;> cases right <;> first | rfl | cases same

/-- Only the keys of the outputs move ahead in a pool, and only of the sums. -/
theorem code_lt_of_turn_lt {left right : RejectionKind} (less : left.turn < right.turn) :
    left.code < right.code ∨
      left = outputAlreadyExists ∧ (right = overflow ∨ right = negativeFee) := by
  cases left <;> cases right <;> first
    | exact .inl (by decide)
    | exact .inr (by decide)
    | exact absurd less (by decide)

end RejectionKind

/-- The outpoints without a coin, in the order of the inputs. -/
def Transaction.missing (coins : Outpoint → Option Output) (tx : Transaction) : List Outpoint :=
  tx.outpoints.filter fun outpoint => coins outpoint = none

/-- Whether a pool asks a rule: it waits for coins that are missing, and sums wait with them. -/
def Asked (coins : Outpoint → Option Output) (tx : Transaction) : RejectionKind → Prop
  | .missingInput => False
  | .overflow | .negativeFee => tx.missing coins = []
  | _ => True

section

variable {coins : Outpoint → Option Output} {tx : Transaction}

/-- Nothing is missing exactly when each outpoint has a coin. -/
theorem missing_eq_nil_iff :
    tx.missing coins = [] ↔ ∀ outpoint ∈ tx.outpoints, coins outpoint ≠ none := by
  simp [Transaction.missing, List.filter_eq_nil_iff]

/-- A pool asks the four rules that need no look-up. -/
theorem asked_of_code_lt {rule : RejectionKind} (less : rule.code < 5) : Asked coins tx rule := by
  cases rule with
  | empty | duplicateInput | duplicateOutput | zeroOutputValue => trivial
  | _ => exact absurd less (by decide)

end

section

variable [CoinHash] (verify : Verifier) (coins : Outpoint → Option Output) (tx : Transaction)

/-- All rules that a pool asks before a turn are kept. -/
def KeptBefore (turn : Nat) : Prop :=
  ∀ rule : RejectionKind, rule.turn < turn → Asked coins tx rule → Keeps verify coins tx rule

/-- A reason belongs to the broken rule that a pool asks first and names its first fault. -/
structure EarliestAsked (reason : Rejection) : Prop where
  asked : Asked coins tx reason.kind
  broken : ¬ Keeps verify coins tx reason.kind
  before : KeptBefore verify coins tx reason.kind.turn
  blames : Blames verify coins tx reason

/-- What a pool is told of a transaction that it keeps. -/
def Transaction.tags (longevity : Int) : Validity where
  requires := tx.missing coins
  provides := tx.derivedKeys
  priority :=
    if tx.missing coins = [] then (tx.spentAmounts coins).sum - tx.createdAmounts.sum else 0
  longevity := longevity
  propagate := true

end

section

variable [CoinHash] {verify : Verifier} {coins : Outpoint → Option Output} {tx : Transaction}

/-- If the rules without look-ups are kept, so are all that a pool asks before the signatures. -/
theorem KeptBelow.keptBefore (below : KeptBelow verify coins tx 5) :
    KeptBefore verify coins tx 6 := by
  intro rule less asked
  cases rule with
  | missingInput => exact asked.elim
  | empty | duplicateInput | duplicateOutput | zeroOutputValue => exact below _ (by decide)
  | _ => exact absurd less (by decide)

/-- A kept rule joins those that are kept before its turn. -/
theorem KeptBefore.next (rule : RejectionKind) (before : KeptBefore verify coins tx rule.turn)
    (kept : Keeps verify coins tx rule) : KeptBefore verify coins tx (rule.turn + 1) := by
  intro other less asked
  rcases Nat.lt_succ_iff_lt_or_eq.mp less with earlier | same
  · exact before other earlier asked
  · rw [RejectionKind.turn_injective same]
    exact kept

/-- At most one reason is the earliest that a pool asks for. -/
theorem EarliestAsked.unique {left right : Rejection} (first : EarliestAsked verify coins tx left)
    (second : EarliestAsked verify coins tx right) : left = right := by
  refine Blames.unique_of_rank RejectionKind.turn_injective first.blames second.blames ?_ ?_
  · exact fun less => first.broken (second.before _ less first.asked)
  · exact fun greater => second.broken (first.before _ greater second.asked)

/-- The earliest broken rule is the first for a pool that asks it, unless it is about sums and a key
is taken. -/
theorem Earliest.earliestAsked {reason : Rejection} (earliest : Earliest verify coins tx reason)
    (asked : Asked coins tx reason.kind)
    (free : reason.kind = .overflow ∨ reason.kind = .negativeFee →
      Keeps verify coins tx .outputAlreadyExists) :
    EarliestAsked verify coins tx reason := by
  refine ⟨asked, earliest.broken, fun rule less _ => ?_, earliest.blames⟩
  rcases RejectionKind.code_lt_of_turn_lt less with earlier | ⟨rfl, sums⟩
  · exact earliest.before rule earlier
  · exact free sums

/-- A pool takes its steps one after another, of which only the fourth looks at what is missing. -/
theorem poolValidity_eq (longevity : Int) (view : CoinView) :
    poolValidity verify longevity view tx =
      (reject (checkStructure tx) >>= fun _ =>
        divideInputs verify view tx.signingImage 0 tx.inputs >>= fun divided =>
          checkFresh view tx >>= fun provides =>
            (if divided.1 = [] then reject (feeOf divided.2 tx.outputs) else pure 0) >>=
              fun priority => pure ⟨divided.1, provides, priority, longevity, true⟩) := by
  refine congrArg (reject (checkStructure tx) >>= ·) (funext fun _ => ?_)
  refine congrArg (divideInputs verify view tx.signingImage 0 tx.inputs >>= ·)
    (funext fun divided => congrArg (checkFresh view tx >>= ·) (funext fun provides => ?_))
  dsimp only
  split <;> rfl

/-- The priority is computed exactly when nothing is missing and the sums are in order, or something
is missing. -/
theorem priority_eq_ok_iff {priority : Nat} :
    (if tx.missing coins = [] then
        reject (feeOf (tx.inputs.filterMap fun input => coins input.outpoint) tx.outputs)
      else pure 0) = .ok priority ↔
      (tx.missing coins = [] →
        Keeps verify coins tx .overflow ∧ Keeps verify coins tx .negativeFee) ∧
      priority = (tx.tags coins 0).priority := by
  by_cases complete : tx.missing coins = []
  · have present := present_filterMap (missing_eq_nil_iff.mp complete)
    rw [if_pos complete, reject_eq_ok_iff, @Present.feeOf_eq_ok_iff _ verify _ _ _ present,
      Transaction.tags, if_pos complete]
    constructor
    · exact fun ⟨fits, covered, same⟩ => ⟨fun _ => ⟨fits, covered⟩, same⟩
    · exact fun ⟨sums, same⟩ => ⟨(sums complete).1, (sums complete).2, same⟩
  · rw [if_neg complete, Transaction.tags, if_neg complete]
    constructor
    · exact fun same => ⟨fun none => absurd none complete, (Except.ok.inj same).symm⟩
    · exact fun ⟨_, same⟩ => congrArg Except.ok same.symm

/-- A pool keeps a transaction exactly when this keeps all rules that it asks. -/
theorem poolValidity_eq_ok_iff (few : tx.outputs.length < 2 ^ 64) {longevity : Int}
    {validity : Validity} :
    poolValidity verify longevity (.ofMap coins) tx = .ok validity ↔
      (∀ rule, Asked coins tx rule → Keeps verify coins tx rule) ∧
        validity = tx.tags coins longevity := by
  rw [poolValidity_eq]
  simp only [bind_eq_ok_iff, reject_eq_ok_iff, divideInputs_eq_ok_iff, checkFresh_eq_ok_iff,
    Transaction.outputKeys_eq_derivedKeys few]
  constructor
  · rintro ⟨_, structured, _, ⟨signed, rfl⟩, _, ⟨⟨⟩, free⟩, priority, paid, ⟨⟩⟩
    obtain ⟨sums, same⟩ := (@priority_eq_ok_iff _ verify coins tx priority).mp paid
    have fifth : KeptBelow verify coins tx 5 := (checkStructure_eq_ok_iff.mp structured).keptBelow
    refine ⟨fun rule asked => ?_, by rw [same]; rfl⟩
    cases rule with
    | missingInput => exact asked.elim
    | invalidSignature => exact signed
    | overflow => exact (sums asked).1
    | negativeFee => exact (sums asked).2
    | outputAlreadyExists => exact fun key member => Except.ok.inj (free key member)
    | indexOverflow => trivial
    | _ => exact fifth _ (by decide)
  · rintro ⟨keeps, rfl⟩
    have fifth : KeptBelow verify coins tx 5 := fun rule less => keeps rule (asked_of_code_lt less)
    have free := keeps .outputAlreadyExists trivial
    refine ⟨(), checkStructure_eq_ok_iff.mpr fifth.wellStructured, _,
      ⟨keeps .invalidSignature trivial, rfl⟩, tx.derivedKeys,
      ⟨rfl, fun key member => congrArg Except.ok (free key member)⟩, _, ?_, rfl⟩
    exact (@priority_eq_ok_iff _ verify coins tx _).mpr
      ⟨fun complete => ⟨keeps .overflow complete, keeps .negativeFee complete⟩, rfl⟩

/-- A transaction that a pool does not keep is reported for the rule asked first that is broken. -/
theorem poolValidity_eq_error (few : tx.outputs.length < 2 ^ 64) {longevity : Int}
    {error : LedgerError}
    (failed : poolValidity verify longevity (.ofMap coins) tx = .error error) :
    ∃ reason, error = .rejected reason ∧ EarliestAsked verify coins tx reason := by
  rw [poolValidity_eq] at failed
  simp only [bind_eq_error_iff, reject_eq_error_iff, reject_eq_ok_iff, divideInputs_eq_ok_iff,
    checkFresh_eq_ok_iff, Transaction.outputKeys_eq_derivedKeys few] at failed
  rcases failed with ⟨reason, unstructured, rfl⟩ | ⟨_, structured, failed⟩
  · have earliest : Earliest verify coins tx reason := earliest_of_checkStructure unstructured
    have less := code_lt_of_checkStructure unstructured
    refine ⟨reason, rfl, earliest.earliestAsked (asked_of_code_lt less) ?_⟩
    rintro (kind | kind) <;> exact absurd less (by rw [kind]; decide)
  have sixth : KeptBefore verify coins tx 6 :=
    (checkStructure_eq_ok_iff.mp structured).keptBelow.keptBefore
  rcases failed with unsigned | ⟨_, ⟨signed, rfl⟩, failed⟩
  · obtain ⟨offset, input, rfl, fault⟩ := divideInputs_eq_error unsigned
    rw [Nat.zero_add]
    refine ⟨_, rfl, trivial, fun signed => ?_, sixth, input, fault⟩
    exact fault.faulty (signed input fault.mem)
  have seventh := sixth.next .invalidSignature signed
  rcases failed with taken | ⟨_, ⟨⟨⟩, free⟩, failed⟩
  · obtain ⟨index, key, rfl, fault⟩ := checkFresh_eq_error few taken
    refine ⟨_, rfl, trivial, fun free => ?_, seventh, index, key, rfl, fault⟩
    exact fault.faulty (free key fault.mem)
  have eighth := seventh.next .outputAlreadyExists
    fun key member => Except.ok.inj (free key member)
  rcases failed with unpaid | ⟨_, _, same⟩
  · split at unpaid
    · rename_i complete
      have complete : tx.missing coins = [] := complete
      have present := present_filterMap (missing_eq_nil_iff.mp complete)
      obtain ⟨reason, refused, rfl⟩ := reject_eq_error_iff.mp unpaid
      obtain ⟨broken, blames, kind | ⟨kind, fits⟩⟩ := present.feeOf_eq_error refused
      · exact ⟨reason, rfl, kind ▸ complete, broken, kind ▸ eighth, blames⟩
      · exact ⟨reason, rfl, kind ▸ complete, broken, kind ▸ eighth.next .overflow fits, blames⟩
    · cases unpaid
  · cases same

/-- A reason is about sums although the key of an output is taken. -/
def Overtaken (coins : Outpoint → Option Output) (tx : Transaction) (reason : Rejection) : Prop :=
  (reason.kind = .overflow ∨ reason.kind = .negativeFee) ∧
    ∃ key ∈ tx.derivedKeys, coins key ≠ none

/-- Where no coin is missing, a rule that is kept if it is asked is kept. -/
theorem keeps_of_asked (there : ∀ outpoint ∈ tx.outpoints, coins outpoint ≠ none)
    {rule : RejectionKind} (kept : Asked coins tx rule → Keeps verify coins tx rule) :
    Keeps verify coins tx rule := by
  cases rule with
  | missingInput => exact there
  | overflow | negativeFee => exact kept (missing_eq_nil_iff.mpr there)
  | _ => exact kept trivial

/-- Where no coin is missing, a transaction that validation rejects is rejected by a pool for the
first rule it asks. -/
theorem exists_earliestAsked (few : tx.outputs.length < 2 ^ 64) {longevity : Int}
    (there : ∀ outpoint ∈ tx.outpoints, coins outpoint ≠ none) {reason : Rejection}
    (earliest : Earliest verify coins tx reason) :
    ∃ given, poolValidity verify longevity (.ofMap coins) tx = .error (.rejected given) ∧
      EarliestAsked verify coins tx given := by
  cases outcome : poolValidity verify longevity (.ofMap coins) tx with
  | ok validity =>
      have keeps := ((poolValidity_eq_ok_iff few).mp outcome).1
      exact absurd (keeps_of_asked there (keeps _)) earliest.broken
  | error other =>
      obtain ⟨given, rfl, first⟩ := poolValidity_eq_error few outcome
      exact ⟨given, rfl, first⟩

namespace EarliestAsked

variable {reason given : Rejection} (first : EarliestAsked verify coins tx given)
  (earliest : Earliest verify coins tx reason)

include first earliest

/-- If validation stops at the sums although a key is taken, a pool gives the first such key. -/
theorem eq_outputAlreadyExists (overtaken : Overtaken coins tx reason) :
    ∃ index key, given = .outputAlreadyExists key.bytes ∧
      FirstFault (fun _ key => coins key ≠ none) tx.derivedKeys index key := by
  obtain ⟨sums, key, derived, taken⟩ := overtaken
  have notLater : ¬ RejectionKind.outputAlreadyExists.turn < given.kind.turn :=
    fun less => taken (first.before _ less trivial key derived)
  have less : given.kind.turn < reason.kind.turn := by
    refine Nat.lt_of_le_of_lt (Nat.le_of_not_lt notLater) ?_
    rcases sums with kind | kind <;> rw [kind] <;> decide
  rcases RejectionKind.code_lt_of_turn_lt less with earlier | ⟨kind, _⟩
  · exact absurd (earliest.before _ earlier) first.broken
  · have blames := first.blames
    cases given <;> try cases kind
    obtain ⟨index, key, rfl, fault⟩ := blames
    exact ⟨index, key, rfl, fault⟩

/-- Unless a taken key overtakes the sums, a pool gives the reason that validation gives. -/
theorem eq_of_not_overtaken (there : ∀ outpoint ∈ tx.outpoints, coins outpoint ≠ none)
    (agrees : ¬ Overtaken coins tx reason) : given = reason := by
  have asked : Asked coins tx reason.kind := by
    by_contra ignored
    exact earliest.broken (keeps_of_asked there fun asked => absurd asked ignored)
  refine first.unique (earliest.earliestAsked asked fun sums key derived => ?_)
  by_contra taken
  exact agrees ⟨sums, key, derived, taken⟩

end EarliestAsked

/-- **Where no coin is missing, a pool agrees with validation.** It keeps a transaction exactly when
this is accepted, and then it is told that the transaction is ready, which keys it creates and its
fee. Otherwise it gives the reason that validation gives, unless this is about sums and the key of
an output is taken: then it gives the first such key. -/
theorem pool_agrees_with_validation (verify : Verifier) (longevity : Int)
    (coins : Outpoint → Option Output) {tx : Transaction} (few : tx.outputs.length < 2 ^ 64)
    (there : ∀ outpoint ∈ tx.outpoints, coins outpoint ≠ none) :
    ((∃ validity, poolValidity verify longevity (.ofMap coins) tx = .ok validity) ↔
      ∃ fee, validate verify (.ofMap coins) tx = .ok fee) ∧
    (∀ validity, poolValidity verify longevity (.ofMap coins) tx = .ok validity →
      validity.requires = [] ∧ validity.isReady = true ∧ tx.outputKeys = .ok validity.provides ∧
        validate verify (.ofMap coins) tx = .ok validity.priority) ∧
    ∀ error, validate verify (.ofMap coins) tx = .error error →
      ∃ reason, error = .rejected reason ∧
        (Overtaken coins tx reason → ∃ index key,
          poolValidity verify longevity (.ofMap coins) tx =
              .error (.rejected (.outputAlreadyExists key.bytes)) ∧
            FirstFault (fun _ key => coins key ≠ none) tx.derivedKeys index key) ∧
        (¬ Overtaken coins tx reason →
          poolValidity verify longevity (.ofMap coins) tx = .error error) := by
  have complete : tx.missing coins = [] := missing_eq_nil_iff.mpr there
  refine ⟨⟨?_, ?_⟩, ?_, ?_⟩
  · rintro ⟨validity, kept⟩
    have keeps := ((poolValidity_eq_ok_iff few).mp kept).1
    exact ⟨_, (validate_eq_ok_iff_keeps few).mpr
      ⟨fun rule => keeps_of_asked there (keeps rule), rfl⟩⟩
  · rintro ⟨fee, accepted⟩
    have keeps := ((validate_eq_ok_iff_keeps few).mp accepted).1
    exact ⟨_, (poolValidity_eq_ok_iff few).mpr ⟨fun rule _ => keeps rule, rfl⟩⟩
  · intro validity kept
    obtain ⟨keeps, rfl⟩ := (poolValidity_eq_ok_iff few).mp kept
    refine ⟨complete, List.isEmpty_iff.mpr complete, Transaction.outputKeys_eq_derivedKeys few, ?_⟩
    exact (validate_eq_ok_iff_keeps few).mpr
      ⟨fun rule => keeps_of_asked there (keeps rule), if_pos complete⟩
  · intro error failed
    obtain ⟨reason, rfl, earliest⟩ := validate_eq_error few failed
    obtain ⟨given, refused, first⟩ := exists_earliestAsked few there earliest
    refine ⟨reason, rfl, fun overtaken => ?_, fun agrees => ?_⟩
    · obtain ⟨index, key, rfl, fault⟩ := first.eq_outputAlreadyExists earliest overtaken
      exact ⟨index, key, refused, fault⟩
    · rw [refused, first.eq_of_not_overtaken earliest there agrees]

end

/-- Where every key has a coin of one, a transaction that pays two has both faults; the pool gives
the key. -/
theorem taken_key_comes_before_sums :
    let owner : PublicKey := FixedBytes.zero 32
    let everywhere : Outpoint → Option Output := fun _ => some ⟨⟨1, by decide⟩, owner⟩
    let tx : Transaction :=
      ⟨[⟨FixedBytes.zero 32, emptySignature⟩], [⟨⟨2, by decide⟩, owner⟩]⟩
    let accept : Verifier := fun _ _ _ => true
    tx.outputs.length < 2 ^ 64 ∧ (∀ outpoint ∈ tx.outpoints, everywhere outpoint ≠ none) ∧
      validate accept (.ofMap everywhere) tx = .error (.rejected (.negativeFee 1 2)) ∧
      poolValidity accept 0 (.ofMap everywhere) tx =
        .error (.rejected (.outputAlreadyExists (deriveOutputKey tx.encode 0).bytes)) := by
  intro owner everywhere tx accept
  have few : tx.outputs.length < 2 ^ 64 := by decide
  have there : ∀ outpoint ∈ tx.outpoints, everywhere outpoint ≠ none :=
    fun _ _ => Option.some_ne_none _
  have refused : validate accept (.ofMap everywhere) tx =
      .error (.rejected (.negativeFee 1 2)) := by decide +kernel
  refine ⟨few, there, refused, ?_⟩
  have agrees := pool_agrees_with_validation accept 0 everywhere few there
  obtain ⟨reason, same, taken, _⟩ := agrees.2.2 _ refused
  cases same
  obtain ⟨index, key, given, fault⟩ :=
    taken ⟨.inr rfl, _, List.mem_cons_self, Option.some_ne_none _⟩
  cases List.mem_singleton.mp fault.mem
  exact given

end CoinLedger

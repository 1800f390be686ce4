import CoinLedger.Crypto.Blake2b
import CoinLedger.Proofs.Validation.Rules

/-! # What validation decides

A transaction is accepted exactly when it keeps all rules, and the fee is what the coins are worth
above the outputs. Otherwise the reason that is given belongs to the broken rule with the least
number and names the first fault in the order of the list
(`CoinLedger.validation_decides_the_rules`).
-/

namespace CoinLedger

/-- Two steps fail one after the other exactly when the first does, or the second from there. -/
theorem bind_eq_error_iff {ε α β : Type} {first : Except ε α} {next : α → Except ε β} {error : ε} :
    (first >>= next) = .error error ↔
      first = .error error ∨ ∃ middle, first = .ok middle ∧ next middle = .error error := by
  cases first with
  | ok middle => simp [bind, Except.bind]
  | error reason => simp [bind, Except.bind]

/-- An error that is put as a rejection tells of it. -/
theorem reject_eq_error_iff {α : Type} {outcome : Except Rejection α} {error : LedgerError} :
    reject outcome = .error error ↔
      ∃ reason, outcome = .error reason ∧ error = .rejected reason := by
  cases outcome with
  | ok value => simp [reject]
  | error reason => simp [reject, eq_comm]

/-- A sum is refused only when it does not fit, and it is told where. -/
theorem checkedTotal_eq_error {coins : List Output} {reason : Rejection}
    (failed : checkedTotal coins = .error reason) :
    ¬ (coins.map fun coin => coin.value.toNat).sum < amountBound ∧
      ∃ detail, reason = .overflow detail ∧
        Exceeds (coins.map fun coin => coin.value.toNat) detail := by
  constructor
  · intro fits
    rw [checkedTotal_eq_ok_iff.mpr ⟨fits, rfl⟩] at failed
    cases failed
  · have spelled : (coins.map fun coin => (coin.value.toNat : Int)) =
        (coins.map fun coin => coin.value.toNat).map Int.ofNat := by
      rw [List.map_map]
      rfl
    rw [checkedTotal, checkedSum, spelled] at failed
    obtain ⟨index, amount, fault, rfl⟩ := @checkedSumFrom_eq_error 0 _ _ failed
    refine ⟨_, rfl, index, amount, fault.congr ?_, ?_⟩
    · intro earlier amount _
      rw [Nat.zero_add]
    · rw [Nat.zero_add]

section

variable [CoinHash] {verify : Verifier} {coins : Outpoint → Option Output} {tx : Transaction}

namespace Present

variable {found : List Output} (present : Present coins tx.inputs found)

include present

/-- The fee is computed exactly when the sums fit and the outputs do not exceed the inputs. -/
theorem feeOf_eq_ok_iff {fee : Nat} :
    feeOf found tx.outputs = .ok fee ↔
      Keeps verify coins tx .overflow ∧ Keeps verify coins tx .negativeFee ∧
        fee = (tx.spentAmounts coins).sum - tx.createdAmounts.sum := by
  rw [CoinLedger.feeOf_eq_ok_iff, present.amounts_eq]
  change (tx.spentAmounts coins).sum < amountBound ∧ tx.createdAmounts.sum < amountBound ∧
    (tx.spentAmounts coins).sum = tx.createdAmounts.sum + fee ↔
      ((tx.spentAmounts coins).sum < amountBound ∧ tx.createdAmounts.sum < amountBound) ∧
        tx.createdAmounts.sum ≤ (tx.spentAmounts coins).sum ∧
        fee = (tx.spentAmounts coins).sum - tx.createdAmounts.sum
  omega

/-- A fee is refused for a broken rule about sums, and for the second of these only if the first is
kept. -/
theorem feeOf_eq_error {reason : Rejection} (failed : feeOf found tx.outputs = .error reason) :
    ¬ Keeps verify coins tx reason.kind ∧ Blames verify coins tx reason ∧
      (reason.kind = .overflow ∨ reason.kind = .negativeFee ∧ Keeps verify coins tx .overflow) := by
  have amounts := present.amounts_eq
  unfold feeOf at failed
  split at failed
  · rename_i summed
    cases failed
    obtain ⟨large, detail, rfl, exceeds⟩ := checkedTotal_eq_error summed
    rw [amounts] at large exceeds
    refine ⟨fun fits => large fits.1, ?_, .inl rfl⟩
    rwa [Blames, Transaction.spentAmounts, if_neg large]
  rename_i inputsSummed
  obtain ⟨inputsFit, rfl⟩ := checkedTotal_eq_ok_iff.mp inputsSummed
  rw [amounts] at inputsFit failed
  split at failed
  · rename_i summed
    cases failed
    obtain ⟨large, detail, rfl, exceeds⟩ := checkedTotal_eq_error summed
    refine ⟨fun fits => large fits.2, ?_, .inl rfl⟩
    rwa [Blames, Transaction.spentAmounts, if_pos inputsFit]
  rename_i outputsSummed
  obtain ⟨outputsFit, rfl⟩ := checkedTotal_eq_ok_iff.mp outputsSummed
  split at failed
  · rename_i short
    cases failed
    exact ⟨Nat.not_le_of_lt (Int.ofNat_lt.mp short), ⟨rfl, rfl⟩, .inr ⟨rfl, inputsFit, outputsFit⟩⟩
  · cases failed

end Present

/-- The keys of outputs are refused for the first under which there is a coin. -/
theorem checkFresh_eq_error (few : tx.outputs.length < 2 ^ 64) {error : LedgerError}
    (failed : checkFresh (.ofMap coins) tx = .error error) :
    ∃ index key, error = .rejected (.outputAlreadyExists key.bytes) ∧
      FirstFault (fun _ key => coins key ≠ none) tx.derivedKeys index key := by
  rw [checkFresh, Transaction.outputKeys_eq_derivedKeys few] at failed
  dsimp only at failed
  split at failed
  · rename_i taken
    cases failed
    exact checkKeys_eq_error taken
  · cases failed

omit [CoinHash] in
/-- Checking keys does not tell of an overflow. -/
theorem checkKeys_ne_overflow {view : CoinView} {keys : List Outpoint} {error : LedgerError}
    (failed : checkKeys view keys = .error error) (detail : String) :
    error ≠ .rejected (.overflow detail) := by
  induction keys with
  | nil => cases failed
  | cons key keys inductive_step =>
      rw [checkKeys] at failed
      split at failed
      · cases failed
        rintro ⟨⟩
      · cases failed
        rintro ⟨⟩
      · exact inductive_step failed

/-- Checking the keys of outputs does not tell of an overflow. -/
theorem checkFresh_ne_overflow {view : CoinView} {error : LedgerError}
    (failed : checkFresh view tx = .error error) (detail : String) :
    error ≠ .rejected (.overflow detail) := by
  unfold checkFresh at failed
  split at failed
  · cases failed
    rintro ⟨⟩
  · split at failed
    · rename_i taken
      cases failed
      exact checkKeys_ne_overflow taken detail
    · cases failed

/-- A transaction is in order with the coins of a map exactly when it keeps all rules. -/
theorem exists_admissible_iff (few : tx.outputs.length < 2 ^ 64) {fee : Nat} :
    (∃ found keys, Admissible verify (.ofMap coins) tx found keys fee) ↔
      (∀ rule, Keeps verify coins tx rule) ∧
        fee = (tx.spentAmounts coins).sum - tx.createdAmounts.sum := by
  constructor
  · rintro ⟨found, keys, admissible⟩
    have present : Present coins tx.inputs found := admissible.present
    have derived := admissible.derived
    rw [Transaction.outputKeys_eq_derivedKeys few] at derived
    cases derived
    have paid : feeOf found tx.outputs = .ok fee := CoinLedger.feeOf_eq_ok_iff.mpr
      ⟨admissible.inputsFit, admissible.outputsFit, admissible.balanced⟩
    obtain ⟨fits, covered, same⟩ := present.feeOf_eq_ok_iff.mp paid
    have fifth : KeptBelow verify coins tx 5 := admissible.toWellStructured.keptBelow
    refine ⟨fun rule => ?_, same⟩
    cases rule with
    | missingInput => exact present.ne_none
    | invalidSignature => exact (present.all_signed_iff _).mpr admissible.signed
    | overflow => exact fits
    | negativeFee => exact covered
    | outputAlreadyExists => exact fun key member => Except.ok.inj (admissible.free key member)
    | indexOverflow => trivial
    | _ => exact fifth _ (by decide)
  · rintro ⟨keeps, same⟩
    have present := present_filterMap (keeps .missingInput)
    have paid := present.feeOf_eq_ok_iff.mpr ⟨keeps .overflow, keeps .negativeFee, same⟩
    obtain ⟨inputsFit, outputsFit, balanced⟩ := CoinLedger.feeOf_eq_ok_iff.mp paid
    have fifth : KeptBelow verify coins tx 5 := fun rule _ => keeps rule
    refine ⟨_, tx.derivedKeys, fifth.wellStructured, present,
      (present.all_signed_iff _).mp (keeps .invalidSignature), inputsFit, outputsFit, balanced,
      Transaction.outputKeys_eq_derivedKeys few, ?_⟩
    exact fun key member => congrArg Except.ok (keeps .outputAlreadyExists key member)

/-- A transaction is accepted exactly when it keeps all rules. -/
theorem validate_eq_ok_iff_keeps (few : tx.outputs.length < 2 ^ 64) {fee : Nat} :
    validate verify (.ofMap coins) tx = .ok fee ↔
      (∀ rule, Keeps verify coins tx rule) ∧
        fee = (tx.spentAmounts coins).sum - tx.createdAmounts.sum :=
  validate_eq_ok_iff.trans (exists_admissible_iff few)

/-- A transaction that is refused is refused for the earliest rule that is broken, before keys are
looked at, or keeps all rules before that and fails there. -/
theorem validate_eq_error_cases {error : LedgerError}
    (failed : validate verify (.ofMap coins) tx = .error error) :
    (∃ reason, error = .rejected reason ∧ reason.kind.code < 9 ∧
        Earliest verify coins tx reason) ∨
      (KeptBelow verify coins tx 9 ∧ checkFresh (.ofMap coins) tx = .error error) := by
  unfold validate at failed
  simp only [bind_eq_error_iff, reject_eq_error_iff, reject_eq_ok_iff] at failed
  rcases failed with ⟨reason, unstructured, rfl⟩ | ⟨_, structured, failed⟩
  · have early := code_lt_of_checkStructure unstructured
    exact .inl ⟨reason, rfl, by omega, earliest_of_checkStructure unstructured⟩
  have fifth : KeptBelow verify coins tx 5 := (checkStructure_eq_ok_iff.mp structured).keptBelow
  rcases failed with missing | ⟨found, resolved, failed⟩
  · obtain ⟨index, outpoint, rfl, fault⟩ := resolve_eq_error missing
    refine .inl ⟨_, rfl, (by decide : 5 < 9), fun there => ?_, fifth, index, outpoint, rfl, fault⟩
    exact there outpoint fault.mem fault.faulty
  have present : Present coins tx.inputs found := resolve_eq_ok_iff.mp resolved
  have sixth := fifth.next .missingInput present.ne_none
  rcases failed with ⟨reason, unsigned, rfl⟩ | ⟨_, signed, failed⟩
  · obtain ⟨offset, pair, rfl, fault⟩ := checkSignatures_eq_error unsigned
    rw [Nat.zero_add]
    have unsigned := present.firstFault_of_zip fault
    refine .inl ⟨_, rfl, (by decide : 6 < 9), fun signed => ?_, sixth, pair.1, unsigned⟩
    exact unsigned.faulty (signed pair.1 unsigned.mem)
  have seventh := sixth.next .invalidSignature
    ((present.all_signed_iff _).mpr ((checkSignatures_eq_ok_iff 0).mp signed))
  rcases failed with ⟨reason, unpaid, rfl⟩ | ⟨fee, paid, failed⟩
  · obtain ⟨broken, blames, kind | ⟨kind, fits⟩⟩ := present.feeOf_eq_error unpaid
    · exact .inl ⟨reason, rfl, kind ▸ by decide, broken, kind ▸ seventh, blames⟩
    · exact .inl ⟨reason, rfl, kind ▸ by decide, broken, kind ▸ seventh.next .overflow fits, blames⟩
  obtain ⟨fits, covered, _⟩ := present.feeOf_eq_ok_iff.mp paid
  rcases failed with taken | ⟨_, _, same⟩
  · exact .inr ⟨(seventh.next .overflow fits).next .negativeFee covered, taken⟩
  · cases same

/-- A transaction that is refused is refused for the earliest rule that is broken. -/
theorem validate_eq_error (few : tx.outputs.length < 2 ^ 64) {error : LedgerError}
    (failed : validate verify (.ofMap coins) tx = .error error) :
    ∃ reason, error = .rejected reason ∧ Earliest verify coins tx reason := by
  rcases validate_eq_error_cases failed with ⟨reason, same, _, earliest⟩ | ⟨ninth, taken⟩
  · exact ⟨reason, same, earliest⟩
  · obtain ⟨index, key, rfl, fault⟩ := checkFresh_eq_error few taken
    refine ⟨_, rfl, fun free => ?_, ninth, index, key, rfl, fault⟩
    exact fault.faulty (free key fault.mem)

/-- A transaction that is refused for a key keeps all rules before, and one of its keys is taken. -/
theorem validate_eq_taken {bytes : ByteString}
    (failed : validate verify (.ofMap coins) tx =
      .error (.rejected (.outputAlreadyExists bytes))) :
    KeptBelow verify coins tx 9 ∧
      ∃ keys, tx.outputKeys = .ok keys ∧ ∃ key ∈ keys, coins key ≠ none := by
  rcases validate_eq_error_cases failed with ⟨reason, same, early, _⟩ | ⟨ninth, stopped⟩
  · cases same
    exact absurd early (by decide : ¬ 9 < 9)
  · unfold checkFresh at stopped
    split at stopped
    · cases stopped
    · rename_i keys derived
      split at stopped
      · rename_i taken
        obtain ⟨_, key, _, fault⟩ := checkKeys_eq_error taken
        exact ⟨ninth, keys, derived, key, fault.mem, fault.faulty⟩
      · cases stopped

/-- A transaction is refused for its sums exactly when one of these does not fit and all rules
before are kept, however many outputs there are. -/
theorem validate_eq_overflow_iff :
    (∃ detail, validate verify (.ofMap coins) tx = .error (.rejected (.overflow detail))) ↔
      KeptBelow verify coins tx 7 ∧ ¬ Keeps verify coins tx .overflow := by
  constructor
  · rintro ⟨detail, failed⟩
    rcases validate_eq_error_cases failed with ⟨reason, same, _, earliest⟩ | ⟨_, taken⟩
    · cases same
      exact ⟨earliest.before, earliest.broken⟩
    · exact absurd rfl (checkFresh_ne_overflow taken detail)
  · rintro ⟨seventh, large⟩
    cases outcome : validate verify (.ofMap coins) tx with
    | ok fee =>
        obtain ⟨found, _, admissible⟩ := validate_eq_ok_iff.mp outcome
        have present : Present coins tx.inputs found := admissible.present
        have paid := CoinLedger.feeOf_eq_ok_iff.mpr
          ⟨admissible.inputsFit, admissible.outputsFit, admissible.balanced⟩
        exact absurd (present.feeOf_eq_ok_iff.mp paid).1 large
    | error error =>
        rcases validate_eq_error_cases outcome with ⟨reason, rfl, _, earliest⟩ | ⟨ninth, _⟩
        · -- No rule before is broken, and this one is, so that no later one is reported.
          have notLess : ¬ reason.kind.code < 7 := fun less => earliest.broken (seventh _ less)
          have notGreater : ¬ 7 < reason.kind.code :=
            fun greater => large (earliest.before .overflow greater)
          have same : reason.kind = .overflow :=
            RejectionKind.code_injective (Nat.le_antisymm (Nat.le_of_not_lt notGreater)
              (Nat.le_of_not_lt notLess))
          cases reason <;> try cases same
          exact ⟨_, rfl⟩
        · exact absurd (ninth .overflow (by decide)) large

/-- **Validation decides the rules and reports the earliest that is broken.** Over any map of coins
and under any verifier, a transaction is accepted with a fee exactly when it keeps all rules and the
fee is what the coins are worth above the outputs. It is refused with an error exactly when the
error is the rejection for the broken rule with the least number, which tells the first fault in the
order of the list that the rule goes through. -/
theorem validation_decides_the_rules (verify : Verifier) (coins : Outpoint → Option Output)
    {tx : Transaction} (few : tx.outputs.length < 2 ^ 64) :
    (∀ fee, validate verify (.ofMap coins) tx = .ok fee ↔
      (∀ rule, Keeps verify coins tx rule) ∧
        fee = (tx.spentAmounts coins).sum - tx.createdAmounts.sum) ∧
    ∀ error, validate verify (.ofMap coins) tx = .error error ↔
      ∃ reason, error = .rejected reason ∧ Earliest verify coins tx reason := by
  refine ⟨fun fee => validate_eq_ok_iff_keeps few, fun error => ⟨validate_eq_error few, ?_⟩⟩
  rintro ⟨reason, rfl, earliest⟩
  -- There is an outcome, and no other reason is the earliest.
  cases outcome : validate verify (.ofMap coins) tx with
  | ok fee => exact absurd (((validate_eq_ok_iff_keeps few).mp outcome).1 _) earliest.broken
  | error other =>
      obtain ⟨given, rfl, found⟩ := validate_eq_error few outcome
      rw [found.unique earliest]

end

/-- Of two equal outputs without value, which spend a coin that is not there, the second is reported
as the repetition that it is. -/
theorem repetition_comes_before_zero_and_missing :
    let owner : PublicKey := FixedBytes.zero 32
    let nothing : Outpoint → Option Output := fun _ => none
    let tx : Transaction :=
      ⟨[⟨FixedBytes.zero 32, emptySignature⟩], [⟨.zero, owner⟩, ⟨.zero, owner⟩]⟩
    tx.outputs.length < 2 ^ 64 ∧
      validate (fun _ _ _ => false) (.ofMap nothing) tx =
        .error (.rejected (.duplicateOutput 1)) := by
  intro owner nothing tx
  have few : tx.outputs.length < 2 ^ 64 := by decide
  have decides := validation_decides_the_rules (fun _ _ _ => false) nothing few
  refine ⟨few, (decides.2 _).mpr ⟨_, rfl, ?_, ?_, ⟨.zero, owner⟩, rfl, ?_, ?_⟩⟩
  · have repeated : ¬ tx.outputs.Nodup := by decide
    exact repeated
  · intro rule less
    cases rule with
    | empty => exact ⟨List.cons_ne_nil _ _, List.cons_ne_nil _ _⟩
    | duplicateInput => exact List.nodup_singleton _
    | _ => exact absurd less (by decide)
  · exact List.mem_cons_self
  · intro earlier before other _ inside
    rw [Nat.lt_one_iff.mp before] at inside
    cases inside

end CoinLedger

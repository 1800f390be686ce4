import CoinLedger.Crypto.Blake2b
import CoinLedger.Proofs.Validation.Waiting

/-! # Waiting while coins arrive

A map of coins grows when coins are added to it and none is changed or taken away. Each rule that a
pool asks over a map and that is kept over what this grows into was kept before
(`CoinLedger.Grows.keeps`). So no coin that arrives cures a refusal of the pool, and a transaction
that will be accepted is waited for, with exactly its missing coins as what it requires
(`CoinLedger.refusals_outlast_growth`).
-/

namespace CoinLedger

/-- Every coin of a map is in another one, unchanged. -/
def Grows (coins later : Outpoint → Option Output) : Prop :=
  ∀ key coin, coins key = some coin → later key = some coin

section

variable {verify : Verifier} {coins later : Outpoint → Option Output} {tx : Transaction}

namespace Grows

variable (grows : Grows coins later)

include grows

theorem eq_of_ne_none {key : Outpoint} (there : coins key ≠ none) : later key = coins key := by
  obtain ⟨coin, shown⟩ := Option.ne_none_iff_exists'.mp there
  rw [shown, grows key coin shown]

theorem eq_none {key : Outpoint} (absent : later key = none) : coins key = none := by
  by_contra there
  exact there (grows.eq_of_ne_none there ▸ absent)

/-- An input that is signed by the later view was signed by the earlier one. -/
theorem signed {image : ByteString} {input : Input} (signed : Signed verify later image input) :
    Signed verify coins image input :=
  fun coin there => signed coin (grows input.outpoint coin there)

/-- If nothing is missing, the amounts of the inputs do not change. -/
theorem spentAmounts_eq (complete : tx.missing coins = []) :
    tx.spentAmounts later = tx.spentAmounts coins := by
  refine List.map_congr_left fun input member => congrArg amountOf (grows.eq_of_ne_none ?_)
  exact missing_eq_nil_iff.mp complete input.outpoint (List.mem_map_of_mem member)

/-- If nothing is missing, nothing is missing later. -/
theorem missing_eq_nil (complete : tx.missing coins = []) : tx.missing later = [] := by
  refine missing_eq_nil_iff.mpr fun outpoint member absent => ?_
  exact missing_eq_nil_iff.mp complete outpoint member (grows.eq_none absent)

variable [CoinHash]

/-- A rule that a pool asks and that is kept over a grown map was kept before. -/
theorem keeps {rule : RejectionKind} (asked : Asked coins tx rule)
    (kept : Asked later tx rule → Keeps verify later tx rule) : Keeps verify coins tx rule := by
  cases rule with
  | missingInput => exact asked.elim
  | invalidSignature => exact fun input member => grows.signed (kept trivial input member)
  | overflow =>
      have fits := kept (grows.missing_eq_nil asked)
      rwa [Keeps, grows.spentAmounts_eq asked] at fits
  | negativeFee =>
      have covered := kept (grows.missing_eq_nil asked)
      rwa [Keeps, grows.spentAmounts_eq asked] at covered
  | outputAlreadyExists => exact fun key member => grows.eq_none (kept trivial key member)
  | empty | duplicateInput | duplicateOutput | zeroOutputValue | indexOverflow =>
      exact kept trivial

/-- A transaction that keeps what a pool asks over a grown map was kept by the pool before. -/
theorem poolValidity_eq_ok (few : tx.outputs.length < 2 ^ 64) (longevity : Int)
    (keeps : ∀ rule, Asked later tx rule → Keeps verify later tx rule) :
    poolValidity verify longevity (.ofMap coins) tx = .ok (tx.tags coins longevity) :=
  (poolValidity_eq_ok_iff few).mpr ⟨fun rule asked => grows.keeps asked (keeps rule), rfl⟩

end Grows

/-- Resolving inputs fails with the first one that is missing. -/
theorem resolve_of_missing {inputs : List Input} {first : Outpoint} {rest : List Outpoint}
    (missing : ((inputs.map Input.outpoint).filter fun outpoint => coins outpoint = none) =
      first :: rest) :
    resolve (.ofMap coins) inputs = .error (.rejected (.missingInput first.bytes)) := by
  induction inputs with
  | nil => cases missing
  | cons input inputs inductive_step =>
      rw [List.map_cons, List.filter_cons] at missing
      rw [resolve, CoinView.ofMap]
      cases there : coins input.outpoint with
      | none =>
          rw [if_pos (decide_eq_true there)] at missing
          cases missing
          rfl
      | some coin =>
          rw [if_neg (by simp [there])] at missing
          rw [inductive_step missing]

variable [CoinHash]

/-- A transaction in which nothing but coins is missing is refused for the first of them. -/
theorem validate_of_missing (structured : WellStructured tx) {first : Outpoint}
    {rest : List Outpoint} (missing : tx.missing coins = first :: rest) :
    validate verify (.ofMap coins) tx = .error (.rejected (.missingInput first.bytes)) := by
  rw [validate, checkStructure_eq_ok_iff.mpr structured, resolve_of_missing missing]
  rfl

/-- **What a pool refuses stays refused while coins arrive, and what it waits for is exactly what is
missing.** Let a map of coins grow into another one. If the pool refuses a transaction over the
first, then it refuses it over the second, where validation refuses it too. So a transaction that
validation accepts over the second is kept over the first: it is told to wait for the outpoints that
have no coin there, in the order of the inputs and each once, all of which have one later, and it
is told the keys of its outputs. And while the pool waits for anything, it gives no priority, and
validation refuses the transaction for the first coin that is waited for. -/
theorem refusals_outlast_growth (verify : Verifier) {coins later : Outpoint → Option Output}
    (grows : Grows coins later) {tx : Transaction} (few : tx.outputs.length < 2 ^ 64)
    (longevity : Int) :
    (∀ error, poolValidity verify longevity (.ofMap coins) tx = .error error →
      (∃ other, poolValidity verify longevity (.ofMap later) tx = .error other) ∧
        ∃ other, validate verify (.ofMap later) tx = .error other) ∧
    (∀ fee, validate verify (.ofMap later) tx = .ok fee →
      ∃ validity, poolValidity verify longevity (.ofMap coins) tx = .ok validity ∧
        validity.requires = (tx.outpoints.filter fun outpoint => coins outpoint = none) ∧
        validity.requires.Nodup ∧ (∀ outpoint ∈ validity.requires, later outpoint ≠ none) ∧
        tx.outputKeys = .ok validity.provides) ∧
    ∀ validity, poolValidity verify longevity (.ofMap coins) tx = .ok validity →
      validity.requires ≠ [] →
      validity.priority = 0 ∧ ∃ first rest, validity.requires = first :: rest ∧
        validate verify (.ofMap coins) tx = .error (.rejected (.missingInput first.bytes)) := by
  refine ⟨fun error refused => ⟨?_, ?_⟩, fun fee accepted => ?_, fun validity kept waits => ?_⟩
  · cases outcome : poolValidity verify longevity (.ofMap later) tx with
    | error other => exact ⟨other, rfl⟩
    | ok validity =>
        have keeps := ((poolValidity_eq_ok_iff few).mp outcome).1
        rw [grows.poolValidity_eq_ok few longevity keeps] at refused
        cases refused
  · cases outcome : validate verify (.ofMap later) tx with
    | error other => exact ⟨other, rfl⟩
    | ok fee =>
        have keeps := ((validate_eq_ok_iff_keeps few).mp outcome).1
        rw [grows.poolValidity_eq_ok few longevity fun rule _ => keeps rule] at refused
        cases refused
  · have keeps := ((validate_eq_ok_iff_keeps few).mp accepted).1
    have once : tx.outpoints.Nodup := keeps .duplicateInput
    refine ⟨_, grows.poolValidity_eq_ok few longevity fun rule _ => keeps rule, rfl,
      once.filter _, fun outpoint member => ?_, Transaction.outputKeys_eq_derivedKeys few⟩
    exact keeps .missingInput outpoint (List.mem_of_mem_filter member)
  · obtain ⟨keeps, rfl⟩ := (poolValidity_eq_ok_iff few).mp kept
    have structured : WellStructured tx :=
      KeptBelow.wellStructured fun rule less => keeps rule (asked_of_code_lt less)
    obtain ⟨first, rest, missing⟩ := List.exists_cons_of_ne_nil waits
    exact ⟨if_neg waits, first, rest, missing, validate_of_missing structured missing⟩

end

/-- A transaction waits for its coin and is accepted when this has come. -/
theorem accepted_after_its_coin_has_come :
    let owner : PublicKey := FixedBytes.zero 32
    let outpoint : Outpoint := FixedBytes.zero 32
    let nothing : Outpoint → Option Output := fun _ => none
    let arrived : Outpoint → Option Output :=
      fun key => if key = outpoint then some ⟨⟨5, by decide⟩, owner⟩ else none
    let tx : Transaction := ⟨[⟨outpoint, emptySignature⟩], [⟨⟨4, by decide⟩, owner⟩]⟩
    let accept : Verifier := fun _ _ _ => true
    Grows nothing arrived ∧ tx.outputs.length < 2 ^ 64 ∧
      validate accept (.ofMap arrived) tx = .ok 1 ∧
      ∃ validity, poolValidity accept 7 (.ofMap nothing) tx = .ok validity ∧
        validity.requires = [outpoint] ∧ validity.priority = 0 ∧
        validate accept (.ofMap nothing) tx =
          .error (.rejected (.missingInput outpoint.bytes)) := by
  intro owner outpoint nothing arrived tx accept
  have grows : Grows nothing arrived := fun _ _ there => nomatch there
  have few : tx.outputs.length < 2 ^ 64 := by decide
  have accepted : validate accept (.ofMap arrived) tx = .ok 1 := by decide +kernel
  obtain ⟨_, waits, refuses⟩ := refusals_outlast_growth accept grows few 7
  obtain ⟨validity, kept, requires, _⟩ := waits 1 accepted
  have missing : validity.requires = [outpoint] := requires.trans rfl
  obtain ⟨priority, first, rest, spelled, refused⟩ :=
    refuses validity kept (missing ▸ List.cons_ne_nil _ _)
  rw [missing] at spelled
  cases spelled
  exact ⟨grows, few, accepted, validity, kept, missing, priority, refused⟩

end CoinLedger

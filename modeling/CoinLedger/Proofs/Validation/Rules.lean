import CoinLedger.Proofs.Validation.FirstFault

/-! # The nine rules and the earliest one that is broken

Over a map of coins each rule says one thing about a transaction (`CoinLedger.Keeps`), and each
reason for a rejection names the first item in the order of its list that breaks the rule
(`CoinLedger.Blames`). A transaction is accepted exactly when it keeps all rules; otherwise the
reason that is given belongs to the rule with the least number among those that are broken
(`CoinLedger.validation_decides_the_rules`).
-/

namespace CoinLedger

/-- The amount of a coin that may be there. -/
def amountOf : Option Output → Nat
  | none => 0
  | some coin => coin.value.toNat

/-- A text tells the first amount with which a sum no longer fits in 128 bits, and what it is added
to. -/
def Exceeds (amounts : List Nat) (detail : String) : Prop :=
  ∃ index amount,
    FirstFault (fun earlier amount => amountBound ≤ earlier.sum + amount) amounts index amount ∧
      detail = s!"u128 overflow: {(amounts.take index).sum} + {amount}"

/-- At most one text tells where a sum no longer fits. -/
theorem Exceeds.unique {amounts : List Nat} {left right : String} (first : Exceeds amounts left)
    (second : Exceeds amounts right) : left = right := by
  obtain ⟨_, _, first, rfl⟩ := first
  obtain ⟨_, _, second, rfl⟩ := second
  obtain ⟨rfl, rfl⟩ := first.unique second
  rfl

namespace Transaction

/-- The amounts of the coins that the inputs refer to. -/
def spentAmounts (coins : Outpoint → Option Output) (tx : Transaction) : List Nat :=
  tx.inputs.map fun input => amountOf (coins input.outpoint)

/-- The amounts of the outputs. -/
def createdAmounts (tx : Transaction) : List Nat := tx.outputs.map fun output => output.value.toNat

/-- The keys derived from the encoding and the positions of the outputs. -/
def derivedKeys [CoinHash] (tx : Transaction) : List Outpoint :=
  (List.range tx.outputs.length).map fun index => deriveOutputKey tx.encode (UInt64.ofNat index)

/-- As many outputs as have positions get the derived keys. -/
theorem outputKeys_eq_derivedKeys [CoinHash] {tx : Transaction}
    (few : tx.outputs.length < 2 ^ 64) : tx.outputKeys = .ok tx.derivedKeys := by
  rw [outputKeys_eq_ok_iff, derivedKeys, List.range_eq_range']
  exact ⟨.inr (Nat.le_of_lt few), rfl⟩

/-- The keys that outputs get are the derived ones. -/
theorem eq_derivedKeys [CoinHash] {tx : Transaction} {keys : List Outpoint}
    (derived : tx.outputKeys = .ok keys) : keys = tx.derivedKeys := by
  rw [derivedKeys, List.range_eq_range']
  exact (outputKeys_eq_ok_iff.mp derived).2

end Transaction

/-- If there is a coin that an input refers to, its owner has signed. -/
def Signed (verify : Verifier) (coins : Outpoint → Option Output) (image : ByteString)
    (input : Input) : Prop :=
  ∀ coin, coins input.outpoint = some coin → verify input.signature image coin.owner = true

/-- A map has a coin for each input. -/
def Present (coins : Outpoint → Option Output) (inputs : List Input) (found : List Output) : Prop :=
  List.Forall₂ (fun input coin => CoinView.ofMap coins input.outpoint = .ok (some coin))
    inputs found

section

variable {verify : Verifier} {coins : Outpoint → Option Output} {inputs : List Input}
  {found : List Output}

/-- An input whose coin is not in the map counts as signed. -/
theorem signed_of_eq_none {image : ByteString} {input : Input}
    (absent : coins input.outpoint = none) : Signed verify coins image input :=
  fun _ there => nomatch absent.symm.trans there

/-- An input whose coin is in the map is signed exactly when its signature is by the owner of the
coin. -/
theorem signed_iff_of_eq_some {image : ByteString} {input : Input} {coin : Output}
    (shown : coins input.outpoint = some coin) :
    Signed verify coins image input ↔ verify input.signature image coin.owner = true := by
  constructor
  · exact fun signed => signed coin shown
  · intro signed other there
    cases shown.symm.trans there
    exact signed

/-- A map has a coin for each input exactly when looking the inputs up gives these coins. -/
theorem present_iff :
    Present coins inputs found ↔
      inputs.map (fun input => coins input.outpoint) = found.map some := by
  rw [Present, ← List.forall₂_eq_eq_eq, List.forall₂_map_left_iff, List.forall₂_map_right_iff]
  simp only [CoinView.ofMap, Except.ok.injEq]

/-- Where no look-up fails, the map has the coins that the look-ups give. -/
theorem present_filterMap (there : ∀ outpoint ∈ inputs.map Input.outpoint, coins outpoint ≠ none) :
    Present coins inputs (inputs.filterMap fun input => coins input.outpoint) := by
  induction inputs with
  | nil => exact .nil
  | cons input inputs inductive_step =>
      rw [List.map_cons, List.forall_mem_cons] at there
      obtain ⟨coin, shown⟩ := Option.ne_none_iff_exists'.mp there.1
      have same : (input :: inputs).filterMap (fun input => coins input.outpoint) =
          coin :: inputs.filterMap fun input => coins input.outpoint :=
        List.filterMap_cons_some shown
      rw [same]
      exact .cons (congrArg Except.ok shown) (inductive_step there.2)

namespace Present

variable (present : Present coins inputs found)

include present

/-- No input whose coin was found is missing. -/
theorem ne_none : ∀ outpoint ∈ inputs.map Input.outpoint, coins outpoint ≠ none := by
  intro outpoint member
  obtain ⟨input, inside, rfl⟩ := List.mem_map.mp member
  have listed : coins input.outpoint ∈ found.map some := by
    rw [← present_iff.mp present]
    exact List.mem_map_of_mem inside
  obtain ⟨coin, _, same⟩ := List.mem_map.mp listed
  rw [← same]
  exact Option.some_ne_none coin

/-- The found coins have the amounts that the map has for the inputs. -/
theorem amounts_eq :
    found.map (fun coin => coin.value.toNat) =
      inputs.map fun input => amountOf (coins input.outpoint) := by
  have amounts := congrArg (List.map amountOf) (present_iff.mp present)
  rw [List.map_map, List.map_map] at amounts
  exact amounts.symm

theorem map_fst_zip : (inputs.zip found).map Prod.fst = inputs :=
  List.map_fst_zip (Nat.le_of_eq present.length_eq)

/-- An input is signed exactly when its signature is by the owner of the coin that is paired with
it. -/
theorem signed_iff {pair : Input × Output} (member : pair ∈ inputs.zip found)
    (image : ByteString) :
    Signed verify coins image pair.1 ↔ verify pair.1.signature image pair.2.owner = true :=
  signed_iff_of_eq_some (Except.ok.inj ((List.forall₂_iff_zip.mp present).2 member))

/-- All inputs are signed exactly when each signature is by the owner of the coin found for it. -/
theorem all_signed_iff (image : ByteString) :
    (∀ input ∈ inputs, Signed verify coins image input) ↔
      ∀ pair ∈ inputs.zip found, verify pair.1.signature image pair.2.owner = true := by
  constructor
  · intro signed pair member
    exact (present.signed_iff member image).mp (signed _ (List.of_mem_zip member).1)
  · intro signed input member
    rw [← present.map_fst_zip] at member
    obtain ⟨pair, paired, rfl⟩ := List.mem_map.mp member
    exact (present.signed_iff paired image).mpr (signed pair paired)

/-- The first signature that does not verify belongs to the first input that is not signed. -/
theorem firstFault_of_zip {image : ByteString} {index : Nat} {pair : Input × Output}
    (fault : FirstFault (fun _ pair => ¬ verify pair.1.signature image pair.2.owner = true)
      (inputs.zip found) index pair) :
    FirstFault (fun _ input => ¬ Signed verify coins image input) inputs index pair.1 := by
  have unsigned : FirstFault (fun _ pair => ¬ Signed verify coins image pair.1)
      (inputs.zip found) index pair :=
    fault.congr fun _ other member => not_congr (present.signed_iff member image).symm
  have mapped := @FirstFault.map _ _ _ _ _ Prod.fst
    (fun _ input => ¬ Signed verify coins image input) unsigned
  rwa [present.map_fst_zip] at mapped

end Present

end

section

variable [CoinHash] (verify : Verifier) (coins : Outpoint → Option Output) (tx : Transaction)

/-- What each rule asks of a transaction. How many outputs can be numbered is not asked here. -/
def Keeps : RejectionKind → Prop
  | .empty => tx.inputs ≠ [] ∧ tx.outputs ≠ []
  | .duplicateInput => tx.outpoints.Nodup
  | .duplicateOutput => tx.outputs.Nodup
  | .zeroOutputValue => ∀ output ∈ tx.outputs, 1 ≤ output.value.toNat
  | .missingInput => ∀ outpoint ∈ tx.outpoints, coins outpoint ≠ none
  | .invalidSignature => ∀ input ∈ tx.inputs, Signed verify coins tx.signingImage input
  | .overflow => (tx.spentAmounts coins).sum < amountBound ∧ tx.createdAmounts.sum < amountBound
  | .negativeFee => tx.createdAmounts.sum ≤ (tx.spentAmounts coins).sum
  | .outputAlreadyExists => ∀ key ∈ tx.derivedKeys, coins key = none
  | .indexOverflow => True

/-- What each reason says of a transaction. A list is blamed for its first item that is faulty. -/
def Blames : Rejection → Prop
  | .empty side => side = if tx.inputs = [] then "inputs" else "outputs"
  | .duplicateInput bytes => ∃ index outpoint, bytes = outpoint.bytes ∧
      FirstFault (fun earlier outpoint => outpoint ∈ earlier) tx.outpoints index outpoint
  | .duplicateOutput index => ∃ output,
      FirstFault (fun earlier output => output ∈ earlier) tx.outputs index output
  | .zeroOutputValue index => ∃ output,
      FirstFault (fun _ output => output.value.toNat = 0) tx.outputs index output
  | .missingInput bytes => ∃ index outpoint, bytes = outpoint.bytes ∧
      FirstFault (fun _ outpoint => coins outpoint = none) tx.outpoints index outpoint
  | .invalidSignature index => ∃ input,
      FirstFault (fun _ input => ¬ Signed verify coins tx.signingImage input) tx.inputs index input
  | .overflow detail =>
      Exceeds (if (tx.spentAmounts coins).sum < amountBound then tx.createdAmounts
        else tx.spentAmounts coins) detail
  | .negativeFee inputSum outputSum =>
      inputSum = (tx.spentAmounts coins).sum ∧ outputSum = tx.createdAmounts.sum
  | .outputAlreadyExists bytes => ∃ index key, bytes = key.bytes ∧
      FirstFault (fun _ key => coins key ≠ none) tx.derivedKeys index key
  | .indexOverflow _ => False

/-- All rules with smaller numbers are kept. -/
def KeptBelow (bound : Nat) : Prop :=
  ∀ rule : RejectionKind, rule.code < bound → Keeps verify coins tx rule

/-- A reason belongs to the broken rule with the least number and names its first fault. -/
structure Earliest (reason : Rejection) : Prop where
  broken : ¬ Keeps verify coins tx reason.kind
  before : KeptBelow verify coins tx reason.kind.code
  blames : Blames verify coins tx reason

end

theorem RejectionKind.code_injective : Function.Injective RejectionKind.code := by
  intro left right same
  cases left <;> cases right <;> first | rfl | cases same

/-- Only the first four rules need no look-up. -/
theorem code_lt_of_checkStructure {tx : Transaction} {reason : Rejection}
    (failed : checkStructure tx = .error reason) : reason.kind.code < 5 := by
  unfold checkStructure at failed
  repeat' split at failed
  all_goals cases failed
  all_goals exact Nat.le_of_ble_eq_true rfl

section

variable [CoinHash] {verify : Verifier} {coins : Outpoint → Option Output} {tx : Transaction}

theorem keptBelow_one : KeptBelow verify coins tx 1 := by
  intro rule less
  cases rule <;> exact absurd less (by decide)

/-- A kept rule joins the ones that are kept before it. -/
theorem KeptBelow.next (rule : RejectionKind) (below : KeptBelow verify coins tx rule.code)
    (kept : Keeps verify coins tx rule) : KeptBelow verify coins tx (rule.code + 1) := by
  intro other less
  rcases Nat.lt_succ_iff_lt_or_eq.mp less with earlier | same
  · exact below other earlier
  · rw [RejectionKind.code_injective same]
    exact kept

/-- Two reasons of one kind that both name the first fault are the same. -/
theorem Blames.unique {left right : Rejection} (kind : left.kind = right.kind)
    (first : Blames verify coins tx left) (second : Blames verify coins tx right) :
    left = right := by
  cases left <;> cases right <;> try cases kind
  case empty.empty => exact congrArg Rejection.empty (Eq.trans first (Eq.symm second))
  case duplicateInput.duplicateInput =>
    exact congrArg Rejection.duplicateInput (FirstFault.name_unique first second)
  case duplicateOutput.duplicateOutput =>
    exact congrArg Rejection.duplicateOutput (FirstFault.index_unique first second)
  case zeroOutputValue.zeroOutputValue =>
    exact congrArg Rejection.zeroOutputValue (FirstFault.index_unique first second)
  case missingInput.missingInput =>
    exact congrArg Rejection.missingInput (FirstFault.name_unique first second)
  case invalidSignature.invalidSignature =>
    exact congrArg Rejection.invalidSignature (FirstFault.index_unique first second)
  case overflow.overflow =>
    exact congrArg Rejection.overflow (Exceeds.unique first second)
  case negativeFee.negativeFee =>
    obtain ⟨rfl, rfl⟩ := first
    obtain ⟨rfl, rfl⟩ := second
    rfl
  case outputAlreadyExists.outputAlreadyExists =>
    exact congrArg Rejection.outputAlreadyExists (FirstFault.name_unique first second)
  case indexOverflow.indexOverflow => exact first.elim

/-- Two reasons that blame a transaction are the same if neither comes before the other. -/
theorem Blames.unique_of_rank {rank : RejectionKind → Nat} (injective : Function.Injective rank)
    {left right : Rejection} (first : Blames verify coins tx left)
    (second : Blames verify coins tx right) (notLess : ¬ rank left.kind < rank right.kind)
    (notGreater : ¬ rank right.kind < rank left.kind) : left = right := by
  have same : rank left.kind = rank right.kind :=
    Nat.le_antisymm (Nat.le_of_not_lt notGreater) (Nat.le_of_not_lt notLess)
  exact Blames.unique (injective same) first second

/-- **At most one reason is the earliest.** -/
theorem Earliest.unique {left right : Rejection} (first : Earliest verify coins tx left)
    (second : Earliest verify coins tx right) : left = right := by
  refine Blames.unique_of_rank RejectionKind.code_injective first.blames second.blames ?_ ?_
  · exact fun less => first.broken (second.before _ less)
  · exact fun greater => second.broken (first.before _ greater)

/-- A reason found without look-ups is the earliest. -/
theorem earliest_of_checkStructure {reason : Rejection}
    (failed : checkStructure tx = .error reason) : Earliest verify coins tx reason := by
  unfold checkStructure at failed
  split at failed
  · rename_i nothing
    cases failed
    exact ⟨fun kept => kept.1 nothing, keptBelow_one, (if_pos nothing).symm⟩
  rename_i spends
  split at failed
  · rename_i nothing
    cases failed
    exact ⟨fun kept => kept.2 nothing, keptBelow_one, (if_neg spends).symm⟩
  rename_i creates
  have second : KeptBelow verify coins tx 2 := keptBelow_one.next .empty ⟨spends, creates⟩
  split at failed
  · rename_i index outpoint found
    cases failed
    obtain ⟨offset, _, fault⟩ := firstRepeat?_eq_some found
    refine ⟨fun once => ?_, second, offset, outpoint, rfl, fault.congr (by simp)⟩
    rw [firstRepeat?_eq_none_iff.mpr ⟨once, fun _ _ => List.not_mem_nil⟩] at found
    cases found
  rename_i once
  have third : KeptBelow verify coins tx 3 :=
    second.next .duplicateInput (firstRepeat?_eq_none_iff.mp once).1
  split at failed
  · rename_i index output found
    cases failed
    obtain ⟨offset, position, fault⟩ := firstRepeat?_eq_some found
    rw [Nat.zero_add] at position
    subst position
    refine ⟨fun distinct => ?_, third, output, fault.congr (by simp)⟩
    rw [firstRepeat?_eq_none_iff.mpr ⟨distinct, fun _ _ => List.not_mem_nil⟩] at found
    cases found
  rename_i distinct
  have fourth : KeptBelow verify coins tx 4 :=
    third.next .duplicateOutput (firstRepeat?_eq_none_iff.mp distinct).1
  split at failed
  · rename_i index found
    cases failed
    obtain ⟨output, fault⟩ := findIdx?_eq_some found
    have zero : FirstFault (fun _ output => output.value.toNat = 0) tx.outputs index output :=
      fault.congr (by simp)
    refine ⟨fun positive => ?_, fourth, output, zero⟩
    have valued := positive output zero.mem
    rw [zero.faulty] at valued
    exact absurd valued (by decide)
  · cases failed

/-- A well-structured transaction keeps the four rules that need no look-up. -/
theorem WellStructured.keptBelow (structured : WellStructured tx) :
    KeptBelow verify coins tx 5 := by
  have positive : ∀ output ∈ tx.outputs, 1 ≤ output.value.toNat := fun output member =>
    Nat.one_le_iff_ne_zero.mpr (structured.positive output member)
  have second : KeptBelow verify coins tx 2 :=
    keptBelow_one.next .empty ⟨structured.spends, structured.creates⟩
  have third := second.next .duplicateInput structured.outpoints
  have fourth := third.next .duplicateOutput structured.outputs
  exact fourth.next .zeroOutputValue positive

/-- A transaction that keeps the first four rules is well-structured. -/
theorem KeptBelow.wellStructured (below : KeptBelow verify coins tx 5) : WellStructured tx := by
  have empty := below .empty (by decide)
  have positive := below .zeroOutputValue (by decide)
  refine ⟨empty.1, empty.2, below .duplicateInput (by decide), below .duplicateOutput (by decide),
    ?_⟩
  exact fun output member => Nat.one_le_iff_ne_zero.mp (positive output member)

end

end CoinLedger

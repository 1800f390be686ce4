import CoinLedger.Proofs.Encoding.Keys
import CoinLedger.Proofs.Steps
import CoinLedger.Validation

/-! # What validation accepts

Each rule of validation says one thing about a transaction and the coins that a view shows, and a
transaction is accepted with a fee exactly when all of them hold
(`CoinLedger.validate_eq_ok_iff`). The order of the rules decides only which reason is reported.
-/

namespace CoinLedger

/-- No repeat is found exactly when the items differ from each other and from the ones seen
before. -/
theorem firstRepeat?_eq_none_iff {α : Type} [DecidableEq α] {seen items : List α} {position : Nat} :
    firstRepeat? seen position items = none ↔ items.Nodup ∧ ∀ item ∈ items, item ∉ seen := by
  induction items generalizing seen position with
  | nil => simp [firstRepeat?]
  | cons item items inductive_step =>
      rw [firstRepeat?]
      by_cases repeated : item ∈ seen
      · simp [repeated]
      · rw [if_neg repeated, inductive_step, List.nodup_cons]
        constructor
        · rintro ⟨distinct, unseen⟩
          refine ⟨⟨fun member => unseen item member List.mem_cons_self, distinct⟩, ?_⟩
          intro other member
          rcases List.mem_cons.mp member with rfl | later
          · exact repeated
          · exact fun before => unseen other later (List.mem_cons_of_mem item before)
        · rintro ⟨⟨fresh, distinct⟩, unseen⟩
          refine ⟨distinct, fun other later before => ?_⟩
          rcases List.mem_cons.mp before with rfl | earlier
          · exact fresh later
          · exact unseen other (List.mem_cons_of_mem item later) earlier

/-- A transaction keeps the rules that need no look-up. -/
structure WellStructured (tx : Transaction) : Prop where
  /-- It spends something. -/
  spends : tx.inputs ≠ []
  /-- It creates something. -/
  creates : tx.outputs ≠ []
  /-- No coin is spent twice. -/
  outpoints : tx.outpoints.Nodup
  /-- No two outputs are equal. -/
  outputs : tx.outputs.Nodup
  /-- No output is without value. -/
  positive : ∀ output ∈ tx.outputs, output.value.toNat ≠ 0

theorem WellStructured.exists_outpoint {tx : Transaction} (structured : WellStructured tx) :
    ∃ outpoint, outpoint ∈ tx.outpoints :=
  List.exists_mem_of_ne_nil _ (mt List.map_eq_nil_iff.mp structured.spends)

/-- A transaction whose structure is in order can be written if its outputs have keys: its inputs
are distinct, and its outputs are numbered. -/
theorem WellStructured.writable [CoinHash] {tx : Transaction} {keys : List Outpoint}
    (structured : WellStructured tx) (derived : tx.outputKeys = .ok keys) : tx.Writable := by
  -- There are only so many outpoints, and only so many numbers of outputs.
  constructor
  · have few := FixedBytes.length_le_of_nodup structured.outpoints
    rw [Transaction.outpoints, List.length_map] at few
    exact Compact.le_max_iff.mpr
      (Nat.lt_of_le_of_lt few (Nat.pow_lt_pow_right (by decide) (by decide)))
  · have numbered := (Transaction.outputKeys_eq_ok_iff.mp derived).1
    have few : tx.outputs.length ≤ 256 ^ 8 := numbered.resolve_left structured.creates
    exact Compact.le_max_iff.mpr
      (Nat.lt_of_le_of_lt few (Nat.pow_lt_pow_right (by decide) (by decide)))

/-- **A transaction passes the checks without look-ups exactly when it is well-structured.** -/
theorem checkStructure_eq_ok_iff {tx : Transaction} :
    checkStructure tx = .ok () ↔ WellStructured tx := by
  unfold checkStructure
  constructor
  · intro accepted
    split at accepted
    · cases accepted
    · rename_i spends
      split at accepted
      · cases accepted
      · rename_i creates
        split at accepted
        · cases accepted
        · rename_i outpoints
          split at accepted
          · cases accepted
          · rename_i outputs
            split at accepted
            · cases accepted
            · rename_i positive
              refine ⟨spends, creates, (firstRepeat?_eq_none_iff.mp outpoints).1,
                (firstRepeat?_eq_none_iff.mp outputs).1, ?_⟩
              intro output member
              have valued := List.findIdx?_eq_none_iff.mp positive output member
              exact of_decide_eq_false valued
  · rintro ⟨spends, creates, outpoints, outputs, positive⟩
    have once : firstRepeat? [] 0 tx.outpoints = none :=
      firstRepeat?_eq_none_iff.mpr ⟨outpoints, fun _ _ => List.not_mem_nil⟩
    have distinct : firstRepeat? [] 0 tx.outputs = none :=
      firstRepeat?_eq_none_iff.mpr ⟨outputs, fun _ _ => List.not_mem_nil⟩
    have valued : (tx.outputs.findIdx? fun output => output.value.toNat = 0) = none :=
      List.findIdx?_eq_none_iff.mpr fun output member => decide_eq_false (positive output member)
    rw [if_neg spends, if_neg creates, once, distinct, valued]

/-- Inputs resolve to coins when the view shows each of these under the outpoint of its input. -/
theorem resolve_eq_ok_iff {view : CoinView} {inputs : List Input} {coins : List Output} :
    resolve view inputs = .ok coins ↔
      List.Forall₂ (fun input coin => view input.outpoint = .ok (some coin)) inputs coins := by
  induction inputs generalizing coins with
  | nil =>
      rw [resolve, List.forall₂_nil_left_iff]
      constructor
      · intro resolved
        cases resolved
        rfl
      · rintro rfl
        rfl
  | cons input inputs inductive_step =>
      rw [List.forall₂_cons_left_iff, resolve]
      constructor
      · intro resolved
        split at resolved
        · cases resolved
        · cases resolved
        · rename_i coin shown
          split at resolved
          · cases resolved
          · rename_i rest later
            cases resolved
            exact ⟨coin, rest, shown, inductive_step.mp later, rfl⟩
      · rintro ⟨coin, rest, shown, later, rfl⟩
        rw [shown, inductive_step.mpr later]

/-- The check of the signatures passes exactly when each is by the owner of its coin. -/
theorem checkSignatures_eq_ok_iff {verify : Verifier} {image : ByteString} (index : Nat)
    {pairs : List (Input × Output)} :
    checkSignatures verify image index pairs = .ok () ↔
      ∀ pair ∈ pairs, verify pair.1.signature image pair.2.owner = true := by
  induction pairs generalizing index with
  | nil => simp [checkSignatures]
  | cons pair pairs inductive_step =>
      obtain ⟨input, coin⟩ := pair
      rw [checkSignatures, List.forall_mem_cons, ← inductive_step (index + 1)]
      by_cases signed : verify input.signature image coin.owner = true
      · simp [signed]
      · simp [signed]

/-- Amounts have a checked sum when their sum fits in 128 bits, and then it is that. -/
theorem checkedSumFrom_eq_ok_iff {total : Nat} (fits : total < amountBound) (coins : List Output)
    (sum : Int) :
    checkedSumFrom total (coins.map fun coin => (coin.value.toNat : Int)) = .ok sum ↔
      total + (coins.map fun coin => coin.value.toNat).sum < amountBound ∧
        sum = (total + (coins.map fun coin => coin.value.toNat).sum : Nat) := by
  induction coins generalizing total with
  | nil =>
      rw [List.map_nil, checkedSumFrom, List.map_nil, List.sum_nil, Nat.add_zero]
      constructor
      · intro summed
        cases summed
        exact ⟨fits, rfl⟩
      · rintro ⟨_, rfl⟩
        rfl
  | cons coin coins inductive_step =>
      rw [List.map_cons, List.map_cons, List.sum_cons, ← Nat.add_assoc, checkedSumFrom, checkedAdd]
      by_cases next : total + coin.value.toNat < amountBound
      · have inside : (total : Int) + coin.value.toNat < amountBound := by omega
        rw [if_pos inside, ← inductive_step next]
        exact Iff.rfl
      · have outside : ¬ (total : Int) + coin.value.toNat < amountBound := by omega
        rw [if_neg outside]
        constructor
        · exact fun summed => nomatch summed
        · rintro ⟨inside, _⟩
          omega

/-- A sum of coins is computed exactly when it fits in 128 bits. -/
theorem checkedTotal_eq_ok_iff {coins : List Output} {sum : Int} :
    checkedTotal coins = .ok sum ↔
      (coins.map fun coin => coin.value.toNat).sum < amountBound ∧
        sum = ((coins.map fun coin => coin.value.toNat).sum : Nat) := by
  have nothing : 0 < amountBound := by decide
  have step := checkedSumFrom_eq_ok_iff nothing coins sum
  rw [Nat.zero_add] at step
  exact step

/-- A fee is what the coins are worth above the outputs, if both sums fit in 128 bits. -/
theorem feeOf_eq_ok_iff {coins outputs : List Output} {fee : Nat} :
    feeOf coins outputs = .ok fee ↔
      (coins.map fun coin => coin.value.toNat).sum < amountBound ∧
      (outputs.map fun coin => coin.value.toNat).sum < amountBound ∧
      (coins.map fun coin => coin.value.toNat).sum =
        (outputs.map fun coin => coin.value.toNat).sum + fee := by
  unfold feeOf
  constructor
  · intro left
    split at left
    · cases left
    · rename_i inputSum summedInputs
      split at left
      · cases left
      · rename_i outputSum summedOutputs
        split at left
        · cases left
        · rename_i enough
          cases left
          obtain ⟨inputsFit, rfl⟩ := checkedTotal_eq_ok_iff.mp summedInputs
          obtain ⟨outputsFit, rfl⟩ := checkedTotal_eq_ok_iff.mp summedOutputs
          refine ⟨inputsFit, outputsFit, ?_⟩
          omega
  · rintro ⟨inputsFit, outputsFit, balanced⟩
    rw [checkedTotal_eq_ok_iff.mpr ⟨inputsFit, rfl⟩, checkedTotal_eq_ok_iff.mpr ⟨outputsFit, rfl⟩]
    dsimp only
    rw [if_neg (by omega)]
    refine congrArg Except.ok ?_
    omega

/-- The check of keys passes exactly when the view shows no coin under any of them. -/
theorem checkKeys_eq_ok_iff {view : CoinView} {keys : List Outpoint} :
    checkKeys view keys = .ok () ↔ ∀ key ∈ keys, view key = .ok none := by
  induction keys with
  | nil => simp [checkKeys]
  | cons key keys inductive_step =>
      rw [checkKeys, List.forall_mem_cons]
      constructor
      · intro free
        split at free
        · cases free
        · cases free
        · rename_i nothing
          exact ⟨nothing, inductive_step.mp free⟩
      · rintro ⟨nothing, later⟩
        rw [nothing]
        exact inductive_step.mpr later

/-- The keys of the outputs are accepted exactly when the view shows no coin under any of them. -/
theorem checkFresh_eq_ok_iff [CoinHash] {view : CoinView} {tx : Transaction}
    {keys : List Outpoint} :
    checkFresh view tx = .ok keys ↔
      tx.outputKeys = .ok keys ∧ ∀ key ∈ keys, view key = .ok none := by
  unfold checkFresh
  constructor
  · intro fresh
    split at fresh
    · cases fresh
    · rename_i derived read
      split at fresh
      · cases fresh
      · rename_i free
        cases fresh
        exact ⟨read, checkKeys_eq_ok_iff.mp free⟩
  · rintro ⟨derived, free⟩
    rw [derived]
    dsimp only
    rw [checkKeys_eq_ok_iff.mpr free]

/-- A transaction keeps every rule: the coins that it spends are there, its owners have signed, what
goes in is what goes out and the fee, and the keys of its outputs are free. -/
structure Admissible [CoinHash] (verify : Verifier) (view : CoinView) (tx : Transaction)
    (coins : List Output) (keys : List Outpoint) (fee : Nat) : Prop extends WellStructured tx where
  /-- The view shows the coins that are spent. -/
  present : List.Forall₂ (fun input coin => view input.outpoint = .ok (some coin)) tx.inputs coins
  /-- Each input carries a signature of its coin's owner. -/
  signed : ∀ pair ∈ tx.inputs.zip coins,
    verify pair.1.signature tx.signingImage pair.2.owner = true
  /-- What goes in fits in 128 bits. -/
  inputsFit : (coins.map fun coin => coin.value.toNat).sum < amountBound
  /-- What goes out fits in 128 bits. -/
  outputsFit : tx.totalOutput < amountBound
  /-- What goes in is what goes out and the fee. -/
  balanced : (coins.map fun coin => coin.value.toNat).sum = tx.totalOutput + fee
  /-- The keys are those of the outputs. -/
  derived : tx.outputKeys = .ok keys
  /-- Nothing is under the keys. -/
  free : ∀ key ∈ keys, view key = .ok none

namespace Admissible

variable [CoinHash] {verify : Verifier} {view : CoinView} {tx : Transaction} {coins : List Output}
  {keys : List Outpoint} {fee : Nat}

theorem map_fst_spent (admissible : Admissible verify view tx coins keys fee) :
    (tx.outpoints.zip coins).map Prod.fst = tx.outpoints := by
  apply List.map_fst_zip
  rw [Transaction.outpoints, List.length_map, admissible.present.length_eq]

theorem map_snd_spent (admissible : Admissible verify view tx coins keys fee) :
    (tx.outpoints.zip coins).map Prod.snd = coins := by
  apply List.map_snd_zip
  rw [Transaction.outpoints, List.length_map, admissible.present.length_eq]

theorem map_fst_minted (admissible : Admissible verify view tx coins keys fee) :
    (keys.zip tx.outputs).map Prod.fst = keys :=
  List.map_fst_zip (Nat.le_of_eq (Transaction.length_outputKeys admissible.derived))

theorem map_snd_minted (admissible : Admissible verify view tx coins keys fee) :
    (keys.zip tx.outputs).map Prod.snd = tx.outputs :=
  List.map_snd_zip (Nat.le_of_eq (Transaction.length_outputKeys admissible.derived).symm)

theorem map_spent {β : Type} (admissible : Admissible verify view tx coins keys fee)
    (f : Output → β) : ((tx.outpoints.zip coins).map fun entry => f entry.2) = coins.map f :=
  calc ((tx.outpoints.zip coins).map fun entry => f entry.2)
      = ((tx.outpoints.zip coins).map Prod.snd).map f := List.map_map.symm
    _ = coins.map f := by rw [admissible.map_snd_spent]

theorem map_minted {β : Type} (admissible : Admissible verify view tx coins keys fee)
    (f : Output → β) : ((keys.zip tx.outputs).map fun entry => f entry.2) = tx.outputs.map f :=
  calc ((keys.zip tx.outputs).map fun entry => f entry.2)
      = ((keys.zip tx.outputs).map Prod.snd).map f := List.map_map.symm
    _ = tx.outputs.map f := by rw [admissible.map_snd_minted]

/-- An admissible transaction can be written. -/
theorem writable (admissible : Admissible verify view tx coins keys fee) : tx.Writable :=
  admissible.toWellStructured.writable admissible.derived

/-- Something that is spent is there. -/
theorem exists_coin (admissible : Admissible verify view tx coins keys fee) :
    ∃ outpoint ∈ tx.outpoints, ∃ coin, view outpoint = .ok (some coin) := by
  obtain ⟨first, rest, same⟩ := List.exists_cons_of_ne_nil admissible.spends
  have present := admissible.present
  rw [same, List.forall₂_cons_left_iff] at present
  obtain ⟨coin, _, there, _⟩ := present
  refine ⟨first.outpoint, ?_, coin, there⟩
  rw [Transaction.outpoints, same]
  exact List.mem_cons_self

/-- Each coin that is spent is shown under the outpoint of an input that its owner has signed. -/
theorem input_of_mem_spent (admissible : Admissible verify view tx coins keys fee)
    {entry : Outpoint × Output} (member : entry ∈ tx.outpoints.zip coins) :
    ∃ input ∈ tx.inputs, input.outpoint = entry.1 ∧ view entry.1 = .ok (some entry.2) ∧
      verify input.signature tx.signingImage entry.2.owner = true := by
  rw [Transaction.outpoints, List.zip_map_left] at member
  obtain ⟨⟨input, coin⟩, paired, rfl⟩ := List.mem_map.mp member
  exact ⟨input, (List.of_mem_zip paired).1, rfl,
    (List.forall₂_iff_zip.mp admissible.present).2 paired, admissible.signed _ paired⟩

end Admissible

/-- Putting a rejection in place of an error changes no success. -/
theorem reject_eq_ok_iff {α : Type} {outcome : Except Rejection α} {value : α} :
    reject outcome = .ok value ↔ outcome = .ok value := by
  cases outcome with
  | ok accepted =>
      exact ⟨fun same => congrArg Except.ok (Except.ok.inj same),
        fun same => congrArg Except.ok (Except.ok.inj same)⟩
  | error reason => exact ⟨(fun same => nomatch same), (fun same => nomatch same)⟩

/-- **A transaction is accepted with a fee exactly when it keeps every rule with that fee.** -/
theorem validate_eq_ok_iff [CoinHash] {verify : Verifier} {view : CoinView} {tx : Transaction}
    {fee : Nat} :
    validate verify view tx = .ok fee ↔ ∃ coins keys, Admissible verify view tx coins keys fee := by
  unfold validate
  simp only [bind_eq_ok_iff, reject_eq_ok_iff, resolve_eq_ok_iff, feeOf_eq_ok_iff,
    checkFresh_eq_ok_iff]
  constructor
  · rintro ⟨_, structured, coins, present, _, signed, _, ⟨inputsFit, outputsFit, balanced⟩,
      keys, ⟨derived, free⟩, same⟩
    cases same
    exact ⟨coins, keys, checkStructure_eq_ok_iff.mp structured, present,
      (checkSignatures_eq_ok_iff 0).mp signed, inputsFit, outputsFit, balanced, derived, free⟩
  · rintro
      ⟨coins, keys, structured, present, signed, inputsFit, outputsFit, balanced, derived, free⟩
    exact ⟨(), checkStructure_eq_ok_iff.mpr structured, coins, present, (),
      (checkSignatures_eq_ok_iff 0).mpr signed, fee, ⟨inputsFit, outputsFit, balanced⟩,
      keys, ⟨derived, free⟩, rfl⟩

end CoinLedger

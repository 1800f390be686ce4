import CoinLedger.Crypto.Blake2b
import CoinLedger.Proofs.Encoding.Document
import CoinLedger.Proofs.Signing.InTurn
import CoinLedger.Proofs.Validation

/-! # Honest payments

A transfer signs the image of the transaction without signatures, and this is also the image that is
checked once the signatures are in (`CoinLedger.Transaction.transfer_ok`). So whoever pays with
coins of their own, in order and not more than these are worth, makes a transaction that is accepted
with what is left as its fee, also when it was passed on as text
(`CoinLedger.Transaction.honest_payments_are_accepted`).
-/

namespace CoinLedger

/-- A payment in order: coins that a view shows, each with the pair of its owner, are paid to
recipients. -/
structure HonestPayment (scheme : SignatureScheme) (view : CoinView)
    (coins : List (Outpoint × scheme.Pair)) (spent recipients : List Output) : Prop where
  /-- Something is paid with. -/
  spends : coins ≠ []
  /-- No coin is paid with twice. -/
  once : (coins.map Prod.fst).Nodup
  /-- The view shows the coins, and they belong to the pairs. -/
  owned : List.Forall₂ (fun coin output => view coin.1 = .ok (some output) ∧
    output.owner = scheme.publicKey coin.2) coins spent
  /-- Somebody is paid. -/
  pays : recipients ≠ []
  /-- Nobody is paid the same amount twice. -/
  distinct : recipients.Nodup
  /-- Nobody is paid nothing. -/
  positive : ∀ output ∈ recipients, output.value.toNat ≠ 0
  /-- What the coins are worth fits in 128 bits. -/
  spentFits : (spent.map fun output => output.value.toNat).sum < amountBound
  /-- What is paid fits in 128 bits. -/
  paidFits : (recipients.map fun output => output.value.toNat).sum < amountBound
  /-- The coins are worth what is paid, or more. -/
  enough : (recipients.map fun output => output.value.toNat).sum ≤
    (spent.map fun output => output.value.toNat).sum

namespace Transaction

/-- A transaction transfers coins to recipients: it spends the coins, signed by their pairs over its
own image, each with the random bytes for its place. -/
structure Transfers (scheme : SignatureScheme) (coins : List (Outpoint × scheme.Pair))
    (recipients : List Output) (entropyAt : Nat → Entropy) (tx : Transaction) : Prop where
  /-- The coins are spent, in order. -/
  outpoints : tx.outpoints = coins.map Prod.fst
  /-- The recipients are paid, in order. -/
  outputs : tx.outputs = recipients
  /-- The pairs of the coins have signed. -/
  signatures : tx.signatures = coins.mapIdx fun place coin =>
    scheme.sign coin.2 tx.signingImage (entropyAt place)

section

variable {scheme : SignatureScheme}

/-- **A transfer succeeds, and its result transfers the coins to the recipients.** -/
theorem transfer_ok (coins : List (Outpoint × scheme.Pair)) (recipients : List Output)
    (entropyAt : Nat → Entropy) :
    ∃ tx, transfer scheme coins recipients entropyAt = .ok tx ∧
      tx.Transfers scheme coins recipients entropyAt := by
  let unsigned : Transaction :=
    ⟨coins.map fun coin => ⟨coin.1, emptySignature⟩, recipients⟩
  have length : (coins.map Prod.snd).length = unsigned.inputs.length := by
    rw [List.length_map, List.length_map]
  obtain ⟨tx, made⟩ : ∃ tx, unsigned.signInputs scheme (coins.map Prod.snd) entropyAt = .ok tx :=
    exists_signInputs_iff.mpr length
  obtain ⟨outpoints, outputs, signatures⟩ := signInputs_ok made
  refine ⟨tx, made, ?_, outputs, ?_⟩
  · rw [outpoints, Transaction.outpoints, List.map_map]
    rfl
  · -- What was signed is the image without signatures, which is that of the result as well.
    rw [signatures, signingImage_signInputs made]
    refine List.ext_getElem? fun place => ?_
    rw [List.getElem?_mapIdx, List.getElem?_mapIdx, List.getElem?_map, Option.map_map]
    rfl

/-- Outpoints and outputs may be handed over as bytes and integers. -/
theorem transferOfLoose_eq (coins : List (Outpoint × scheme.Pair)) (recipients : List Output)
    (entropyAt : Nat → Entropy) :
    transferOfLoose scheme (coins.map fun coin => (.bytes coin.1.bytes, coin.2))
        (recipients.map fun output => (.bytes output.owner.bytes, .integer output.value.toNat))
        entropyAt =
      transfer scheme coins recipients entropyAt := by
  obtain ⟨tx, made, _⟩ := transfer_ok coins recipients entropyAt
  rw [made, transferOfLoose]
  simp only [bind_eq_ok_iff, mapM_eq_ok_iff, List.forall₂_map_left_iff]
  refine ⟨coins, ?_, recipients, ?_, made⟩
  · refine List.forall₂_same.mpr fun coin _ => ?_
    rw [Loose.toFixedBytes_bytes]
  · refine List.forall₂_same.mpr fun output _ => ?_
    rw [Output.ofLoose_bytes]

namespace Transfers

variable {view : CoinView} {coins : List (Outpoint × scheme.Pair)} {spent recipients : List Output}
  {entropyAt : Nat → Entropy} {tx : Transaction}

/-- Each input spends the coin at its place, with a signature that verifies under the public key of
the coin's pair. -/
theorem input (transfers : tx.Transfers scheme coins recipients entropyAt)
    (correct : scheme.Correct) {place : Nat} {input : Input}
    (placed : tx.inputs[place]? = some input) :
    ∃ coin, coins[place]? = some coin ∧ input.outpoint = coin.1 ∧
      scheme.verify input.signature tx.signingImage (scheme.publicKey coin.2) = true := by
  have spent : tx.outpoints[place]? = some input.outpoint := by
    rw [Transaction.outpoints, List.getElem?_map, placed]
    rfl
  have signed : tx.signatures[place]? = some input.signature := by
    rw [Transaction.signatures, List.getElem?_map, placed]
    rfl
  rw [transfers.outpoints, List.getElem?_map] at spent
  obtain ⟨coin, paired, same⟩ := Option.map_eq_some_iff.mp spent
  rw [transfers.signatures, List.getElem?_mapIdx, paired] at signed
  refine ⟨coin, paired, same.symm, ?_⟩
  rw [← Option.some.inj signed]
  exact correct coin.2 tx.signingImage (entropyAt place)

/-- A transaction that transfers an honest payment is well structured. -/
theorem wellStructured (transfers : tx.Transfers scheme coins recipients entropyAt)
    (payment : HonestPayment scheme view coins spent recipients) : WellStructured tx where
  spends := by
    intro none
    have outpoints := transfers.outpoints
    rw [Transaction.outpoints, none, List.map_nil] at outpoints
    exact payment.spends (List.map_eq_nil_iff.mp outpoints.symm)
  creates := by
    rw [transfers.outputs]
    exact payment.pays
  outpoints := by
    rw [transfers.outpoints]
    exact payment.once
  outputs := by
    rw [transfers.outputs]
    exact payment.distinct
  positive := by
    rw [transfers.outputs]
    exact payment.positive

/-- Each input spends the coin that the view shows for it, and its owner has signed. -/
theorem spending (transfers : tx.Transfers scheme coins recipients entropyAt)
    (correct : scheme.Correct) (payment : HonestPayment scheme view coins spent recipients) :
    List.Forall₂ (fun input output => view input.outpoint = .ok (some output) ∧
      scheme.verify input.signature tx.signingImage output.owner = true) tx.inputs spent := by
  have size : tx.inputs.length = spent.length := by
    rw [← payment.owned.length_eq, ← List.length_map Input.outpoint, ← Transaction.outpoints,
      transfers.outpoints, List.length_map]
  refine List.forall₂_iff_get.mpr ⟨size, fun place here there => ?_⟩
  obtain ⟨coin, paired, named, valid⟩ :=
    transfers.input correct (List.getElem?_eq_getElem here)
  obtain ⟨inside, rfl⟩ := List.getElem?_eq_some_iff.mp paired
  obtain ⟨shown, owned⟩ := payment.owned.get inside there
  refine ⟨?_, ?_⟩
  · exact (congrArg view named).trans shown
  · rw [owned]
    exact valid

/-- A transaction that transfers an honest payment keeps every rule, if the keys of its outputs are
free. -/
theorem admissible [CoinHash] (transfers : tx.Transfers scheme coins recipients entropyAt)
    (correct : scheme.Correct) (payment : HonestPayment scheme view coins spent recipients)
    {keys : List Outpoint} (derived : tx.outputKeys = .ok keys)
    (free : ∀ key ∈ keys, view key = .ok none) :
    Admissible scheme.verify view tx spent keys
      ((spent.map fun output => output.value.toNat).sum -
        (recipients.map fun output => output.value.toNat).sum) := by
  have spending := transfers.spending correct payment
  have paid : tx.totalOutput = (recipients.map fun output => output.value.toNat).sum := by
    rw [totalOutput, transfers.outputs]
  refine ⟨transfers.wellStructured payment, ?_, ?_, payment.spentFits, ?_, ?_, derived, free⟩
  · exact spending.imp fun _ _ both => both.1
  · exact fun pair member => ((List.forall₂_iff_zip.mp spending).2 member).2
  · rw [paid]
    exact payment.paidFits
  · rw [paid]
    have enough := payment.enough
    omega

end Transfers

end

/-- **Honest payments are accepted.** Under a scheme whose signatures verify, let somebody pay with
coins that a view shows, each once and with the pair of its owner, to recipients of some amount
each, of which no two are the same, and let both sums fit in 128 bits and the coins be worth what is
paid. Then, whatever random bytes its signatures are made with, there is a transfer of these coins
to these recipients. If the keys of its outputs are free, it is accepted with what the coins are
worth above what is paid as its fee, and it is read back as it is from its hexadecimal text and from
its document. -/
theorem honest_payments_are_accepted [CoinHash] {scheme : SignatureScheme}
    (correct : scheme.Correct)
    {view : CoinView} {coins : List (Outpoint × scheme.Pair)} {spent recipients : List Output}
    (payment : HonestPayment scheme view coins spent recipients) (entropyAt : Nat → Entropy) :
    ∃ tx, transferOfLoose scheme (coins.map fun coin => (.bytes coin.1.bytes, coin.2))
        (recipients.map fun output => (.bytes output.owner.bytes, .integer output.value.toNat))
          entropyAt = .ok tx ∧
      tx.outpoints = coins.map Prod.fst ∧ tx.outputs = recipients ∧
      (recipients.length ≤ 2 ^ 64 → ∃ keys, tx.outputKeys = .ok keys) ∧
      ∀ keys, tx.outputKeys = .ok keys → (∀ key ∈ keys, view key = .ok none) →
        validate scheme.verify view tx =
          .ok ((spent.map fun output => output.value.toNat).sum -
            (recipients.map fun output => output.value.toNat).sum) ∧
        ofHex tx.toHex = .ok tx ∧ ofDocument tx.toDocument = .ok tx := by
  obtain ⟨tx, made, transfers⟩ := transfer_ok coins recipients entropyAt
  refine ⟨tx, (transferOfLoose_eq coins recipients entropyAt).trans made, transfers.outpoints,
    transfers.outputs, ?_, ?_⟩
  · intro few
    rw [← transfers.outputs] at few
    exact ⟨_, outputKeys_eq_ok_iff.mpr ⟨.inr few, rfl⟩⟩
  · intro keys derived free
    have admissible := transfers.admissible correct payment derived free
    exact ⟨validate_eq_ok_iff.mpr ⟨spent, keys, admissible⟩, ofHex_toHex admissible.writable,
      tx.ofDocument_toDocument⟩

/-- A view shows a coin of five and nothing else. Its owner pays three to somebody and one back,
which is accepted with a fee of one. -/
theorem payment_with_change_is_accepted :
    let scheme := SignatureScheme.plain
    let payer : PublicKey := FixedBytes.zero 32
    let payee : PublicKey := ⟨List.replicate 32 1, rfl⟩
    let outpoint : Outpoint := FixedBytes.zero 32
    let five : Output := ⟨⟨5, by decide⟩, payer⟩
    let view : CoinView := fun key => .ok (if key = outpoint then some five else none)
    ∃ tx, transferOfLoose scheme [(.bytes outpoint.bytes, payer)]
        [(.bytes payee.bytes, .integer 3), (.bytes payer.bytes, .integer 1)]
          (fun _ => payee) = .ok tx ∧
      validate scheme.verify view tx = .ok 1 ∧ ofHex tx.toHex = .ok tx ∧
      ofDocument tx.toDocument = .ok tx := by
  intro scheme payer payee outpoint five view
  let recipients : List Output := [⟨⟨3, by decide⟩, payee⟩, ⟨⟨1, by decide⟩, payer⟩]
  have payment : HonestPayment scheme view [(outpoint, payer)] [five] recipients :=
    { spends := List.cons_ne_nil _ _
      once := List.nodup_singleton _
      owned := .cons ⟨congrArg Except.ok (if_pos rfl), rfl⟩ .nil
      pays := List.cons_ne_nil _ _
      distinct := by decide
      positive := by decide
      spentFits := by decide
      paidFits := by decide
      enough := by decide }
  obtain ⟨tx, made, _, _, derivable, accepted⟩ :=
    honest_payments_are_accepted SignatureScheme.plain_correct payment fun _ => payee
  obtain ⟨keys, derived⟩ := derivable (by decide)
  have free : ∀ key ∈ keys, view key = .ok none := by
    cases made
    rw [(outputKeys_eq_ok_iff.mp derived).2]
    decide +kernel
  obtain ⟨valid, fromHex, fromDocument⟩ := accepted keys derived free
  exact ⟨tx, made, valid, fromHex, fromDocument⟩

end Transaction
end CoinLedger

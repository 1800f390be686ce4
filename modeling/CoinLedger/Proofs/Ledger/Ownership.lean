import CoinLedger.Crypto.Blake2b
import CoinLedger.Proofs.Ledger.Run

/-! # Coins move only by their owners

A coin that is stored stays as it is until a transaction is accepted that spends it, with a
signature of its owner, and then it is gone (`CoinLedger.Ledger.advance_coin`). So the coins of an
owner under whose key nothing verifies stay forever, and the owner's balance never falls
(`CoinLedger.Ledger.coins_move_by_owners_only`). Nothing is assumed of the hash function: no coin
is ever stored in the place of another one.
-/

namespace CoinLedger

open HostState

/-- Among inputs that spend no coin twice, an outpoint belongs to one. -/
theorem Input.filter_eq_singleton {inputs : List Input}
    (once : (inputs.map Input.outpoint).Nodup) {input : Input} (member : input ∈ inputs) :
    (inputs.filter fun other => other.outpoint = input.outpoint) = [input] := by
  induction inputs with
  | nil => cases member
  | cons first rest inductive_step =>
      rw [List.map_cons] at once
      obtain ⟨fresh, once⟩ := List.nodup_cons.mp once
      rcases List.mem_cons.mp member with rfl | later
      · have others : (rest.filter fun other => other.outpoint = input.outpoint) = [] := by
          rw [List.filter_eq_nil_iff]
          intro other inside same
          exact fresh (of_decide_eq_true same ▸ List.mem_map_of_mem inside)
        rw [List.filter_cons, if_pos (decide_eq_true rfl), others]
      · have different : ¬ decide (first.outpoint = input.outpoint) = true := by
          intro same
          exact fresh (of_decide_eq_true same ▸ List.mem_map_of_mem later)
        rw [List.filter_cons, if_neg different]
        exact inductive_step once later

namespace HostState

theorem WellFormed.balanceOf_le {left right : HostState} (leftValid : left.WellFormed)
    (rightValid : right.WellFormed) {owner : PublicKey}
    (kept : ∀ outpoint coin, coin.owner = owner → left.coin? outpoint = .ok (some coin) →
      right.coin? outpoint = .ok (some coin)) :
    ∃ before after, left.balanceOf owner.bytes = .ok before ∧
      right.balanceOf owner.bytes = .ok after ∧ before ≤ after := by
  refine ⟨_, _, leftValid.balanceOf_eq owner.bytes, rightValid.balanceOf_eq owner.bytes, ?_⟩
  apply worth_le_worth
  intro cell bytes coin marked stored read matters
  -- Coins of other owners have no weight in a balance.
  have owned : coin.owner = owner := by
    by_contra other
    rw [if_neg (mt FixedBytes.ext other)] at matters
    exact matters rfl
  obtain ⟨key, stillThere, rfl, rfl⟩ := leftValid.exists_coin marked stored
  rw [Output.decode_encode] at read
  cases read
  exact right.coin?_eq_some_iff.mp (kept key coin owned (left.coin?_eq_some_iff.mpr stored))

end HostState

namespace Ledger

section

variable [CoinHash]

/-- **A coin stays as it is until a transaction is accepted that spends it with its owner's
signature.** -/
theorem advance_coin (ledger : Ledger) (step : Step) {outpoint : Outpoint} {coin : Output}
    (there : ledger.host.coin? outpoint = .ok (some coin)) :
    (ledger.advance step).2.host.coin? outpoint = .ok (some coin) ∨
      ((ledger.advance step).2.host.coin? outpoint = .ok none ∧
        ∃ verify tx fee input, step = .call (.spend verify tx) ∧
          (ledger.advance step).1 = some (.ok (.spent fee)) ∧
          (tx.inputs.filter fun other => other.outpoint = outpoint) = [input] ∧
          verify input.signature tx.signingImage coin.owner = true) := by
  cases step with
  | restart events => exact .inl there
  | call operation =>
      obtain ⟨spent, minted, moves, spender⟩ := ledger.perform_moves operation
      rcases moves.remains there with kept | ⟨member, gone⟩
      · exact .inl kept
      · right
        rcases spender with rfl | ⟨verify, tx, coins, keys, fee, rfl, accepted, admissible, rfl⟩
        · cases member
        · obtain ⟨input, inside, rfl, _, signed⟩ := admissible.input_of_mem_spent member
          exact ⟨gone, verify, tx, fee, input, rfl, congrArg some accepted,
            Input.filter_eq_singleton admissible.outpoints inside, signed⟩

/-- Coins of an owner under whose key nothing verifies stay. -/
theorem live_coin (ledger : Ledger) {steps : List Step} {owner : PublicKey}
    (mute : ∀ verify tx, .call (.spend verify tx) ∈ steps →
      ∀ signature message, verify signature message owner = false)
    {outpoint : Outpoint} {coin : Output} (owned : coin.owner = owner)
    (there : ledger.host.coin? outpoint = .ok (some coin)) :
    (ledger.live steps).host.coin? outpoint = .ok (some coin) := by
  induction steps generalizing ledger with
  | nil => exact there
  | cons step steps inductive_step =>
      rw [live_cons]
      refine inductive_step _ ?_ ?_
      · exact fun verify tx member => mute verify tx (List.mem_cons_of_mem _ member)
      · rcases ledger.advance_coin step there with
          kept | ⟨_, verify, tx, _, input, rfl, _, _, signed⟩
        · exact kept
        · rw [owned, mute verify tx List.mem_cons_self] at signed
          cases signed

/-- **Only its owner can move a coin, and stored coins do not change.** In every well-formed
state, and whatever step is taken: a coin that is there is either still there as it was, or gone
because a transaction was accepted that has exactly one input for it, with a signature that
verifies under its owner's key. So over every run, if nothing verifies under an owner's key, none
of the owner's coins leaves and the owner's balance does not fall, from any point of the run to
any later one. -/
theorem coins_move_by_owners_only {ledger : Ledger} (valid : ledger.host.WellFormed) :
    (∀ step outpoint coin, ledger.host.coin? outpoint = .ok (some coin) →
      (ledger.advance step).2.host.coin? outpoint = .ok (some coin) ∨
        ((ledger.advance step).2.host.coin? outpoint = .ok none ∧
          ∃ verify tx fee input, step = .call (.spend verify tx) ∧
            (ledger.advance step).1 = some (.ok (.spent fee)) ∧
            (tx.inputs.filter fun other => other.outpoint = outpoint) = [input] ∧
            verify input.signature tx.signingImage coin.owner = true)) ∧
    ∀ earlier later owner,
      (∀ verify tx, .call (.spend verify tx) ∈ later →
        ∀ signature message, verify signature message owner = false) →
      (∀ outpoint coin, coin.owner = owner →
        (ledger.live earlier).host.coin? outpoint = .ok (some coin) →
        (ledger.live (earlier ++ later)).host.coin? outpoint = .ok (some coin)) ∧
      ∃ before after, (ledger.live earlier).host.balanceOf owner.bytes = .ok before ∧
        (ledger.live (earlier ++ later)).host.balanceOf owner.bytes = .ok after ∧
        before ≤ after := by
  refine ⟨fun step outpoint coin => ledger.advance_coin step, ?_⟩
  intro earlier later owner mute
  have kept : ∀ outpoint coin, coin.owner = owner →
      (ledger.live earlier).host.coin? outpoint = .ok (some coin) →
      (ledger.live (earlier ++ later)).host.coin? outpoint = .ok (some coin) := by
    intro outpoint coin owned there
    rw [live_append]
    exact (ledger.live earlier).live_coin mute owned there
  exact ⟨kept, (wellFormed_live valid earlier).balanceOf_le (wellFormed_live valid _) kept⟩

end

/-- A spend under a verifier that accepts nothing, a payout and a restart leave a coin where it
is. -/
theorem coin_stays_with_its_owner :
    let owner : PublicKey := FixedBytes.zero 32
    let coin : Output := ⟨⟨5, by decide⟩, owner⟩
    let tx : Transaction := ⟨[⟨coin.genesisKey, emptySignature⟩], [⟨⟨4, by decide⟩, owner⟩]⟩
    let reject : Verifier := fun _ _ _ => false
    let ledger := (ofHost .emptyMemory []).live [.call (.seed [.ok coin])]
    let after := ledger.live
      [.call (.spend reject tx), .call (.finalize [.bytes owner.bytes] (some 1)), .restart []]
    after.host.coin? coin.genesisKey = .ok (some coin) := by
  intro owner coin tx reject ledger after
  have valid : ledger.host.WellFormed := wellFormed_live (wellFormed_of_empty fun _ => rfl) _
  have there : ledger.host.coin? coin.genesisKey = .ok (some coin) := by
    rw [coin?_eq_some_iff]
    decide +kernel
  have kept := (coins_move_by_owners_only valid).2 []
    [.call (.spend reject tx), .call (.finalize [.bytes owner.bytes] (some 1)), .restart []] owner
  refine (kept ?_).1 coin.genesisKey coin rfl there
  intro verify other member signature message
  rcases List.mem_cons.mp member with same | member
  · cases same
    rfl
  · rcases List.mem_cons.mp member with same | member
    · cases same
    · have same := List.mem_singleton.mp member
      cases same

end Ledger
end CoinLedger

import CoinLedger.Crypto.Blake2b
import CoinLedger.Proofs.Chain.History

/-! # Spent coins stay spent

Every moment of a chain that starts over an empty state is accounted for, if no two of the byte
strings that are hashed for the keys of its coins have one digest. Outputs of a transaction cannot
be stored a second time, since that would need its inputs again; genesis coins are seeded once;
rewards are paid under numbers of blocks that grow. So a coin that an accepted transaction has
spent never comes back, and the transaction is never accepted again
(`CoinLedger.Chain.spent_forever`).
-/

namespace CoinLedger.Chain

open HostState

/-- Transactions in order that share no coin have different encodings. -/
theorem nodup_encode {txs : List Transaction}
    (ordered : ∀ tx ∈ txs, WellStructured tx ∧ tx.Writable)
    (once : (txs.flatMap Transaction.outpoints).Nodup) : (txs.map Transaction.encode).Nodup := by
  induction txs with
  | nil => exact List.nodup_nil
  | cons tx txs inductive_step =>
      rw [List.flatMap_cons] at once
      obtain ⟨_, later, disjoint⟩ := List.nodup_append'.mp once
      rw [List.map_cons, List.nodup_cons]
      have inOrder : ∀ other ∈ txs, WellStructured other ∧ other.Writable := fun other member =>
        ordered other (List.mem_cons_of_mem _ member)
      refine ⟨?_, inductive_step inOrder later⟩
      intro member
      obtain ⟨other, inside, same⟩ := List.mem_map.mp member
      obtain ⟨structured, writable⟩ := ordered tx List.mem_cons_self
      have otherWritable := (ordered other (List.mem_cons_of_mem _ inside)).2
      obtain rfl := Transaction.encode_injective otherWritable writable same
      obtain ⟨outpoint, spent⟩ := structured.exists_outpoint
      exact disjoint spent (List.mem_flatMap.mpr ⟨other, inside, spent⟩)

section

variable [CoinHash] {past : List Moment} {next : Nat} {chain : Chain}

/-- The keys of outputs are the digests of what is hashed for them. -/
theorem map_digest_preimages {tx : Transaction} {keys : List Outpoint}
    (derived : tx.outputKeys = .ok keys) : keys = tx.preimages.map CoinHash.digest := by
  rw [Transaction.preimages, List.map_map]
  exact (Transaction.outputKeys_eq_ok_iff.mp derived).2

/-- An attempt of a transaction is accounted for. -/
theorem Accounted.attempt (accounted : Accounted past next chain.host) {tx : Transaction}
    (apart : Apart (hashed (past ++ [chain.attempt tx]))) :
    Accounted (past ++ [chain.attempt tx]) next (chain.attempt tx).chain.host ∧
      (chain.attempt tx).chain.host.blockNumber = chain.host.blockNumber := by
  unfold Chain.attempt at apart ⊢
  rcases run : chain.spend tx with ⟨error | fee, after⟩
  · rw [spend_error run]
    exact ⟨accounted.quiet _ rfl rfl rfl, rfl⟩
  · rw [run] at apart
    obtain ⟨coins, keys, admissible, moves⟩ := spend_ok run
    have new := accounted.not_mem_accepted admissible
    refine ⟨accounted.extend moves rfl ?_ ?_ ?_ apart (.inr (Nat.le_refl next)) ?_ ?_,
      moves.blockNumber_eq⟩
    · rw [admissible.map_fst_minted]
      exact map_digest_preimages admissible.derived
    · rintro other same
      cases same
      exact ⟨admissible.toWellStructured, admissible.writable, admissible.map_fst_spent.symm⟩
    · intro preimage member
      obtain ⟨position, _, rfl⟩ := List.mem_map.mp member
      exact accounted.output_not_mem admissible.writable new _
    · intro preimage member
      obtain ⟨position, _, rfl⟩ := List.mem_map.mp member
      refine .output tx _ ?_
      rw [accepted_append]
      exact List.mem_append_right _ List.mem_cons_self
    · -- Before genesis no coin is there that could be spent.
      intro unfounded
      rw [moves.genesisDone_eq] at unfounded
      obtain ⟨outpoint, _, coin, there⟩ := admissible.exists_coin
      obtain ⟨preimage, member, _⟩ := accounted.named outpoint coin there
      rw [(accounted.unseeded unfounded).1] at member
      cases member

/-- Where nothing is dispersed, dealing with the pool moves no coin. -/
theorem settle_eq_quiet {number : Nat} {outcome : Except LedgerError Settlement} {after : Chain}
    (run : chain.finalize number = (outcome, after))
    (others : ∀ share events carry, outcome ≠ .ok (.dispersed share events carry)) :
    chain.settle number = .quiet after := by
  unfold settle
  rw [run]
  rcases outcome with error | settlement
  · rfl
  · cases settlement with
    | noAuthorities pool => rfl
    | poolTooSmall pool authorities => rfl
    | dispersed share events carry => exact absurd rfl (others share events carry)

/-- The settlement at the end of a block is accounted for. -/
theorem Accounted.settle {number : Nat} (accounted : Accounted past number chain.host)
    (apart : Apart (hashed (past ++ [chain.settle number]))) :
    Accounted (past ++ [chain.settle number]) (number + 1) (chain.settle number).chain.host ∧
      (chain.settle number).chain.host.blockNumber = chain.host.blockNumber := by
  rcases run : chain.finalize number with ⟨outcome, after⟩
  rcases finalize_cases run with
    ⟨share, events, carry, position, rfl, numbered, rich, moves⟩ | ⟨same, others⟩
  · have place : UInt64.ofNat number = position := by
      rw [Int.natCast_inj.mp numbered, UInt64.ofNat_toNat]
    have number_eq : number = position.toNat := Int.natCast_inj.mp numbered
    have moment : chain.settle number =
        ⟨after, none, (rewardsOf events).map fun coin => coin.rewardPreimage position⟩ := by
      unfold Chain.settle
      rw [run, place]
    rw [moment] at apart ⊢
    refine ⟨accounted.extend moves rfl ?_ ?_ ?_ apart (.inr (Nat.le_succ number)) ?_ ?_,
      moves.blockNumber_eq⟩
    · rw [List.map_map, List.map_map]
      rfl
    · exact fun tx given => nomatch given
    · intro preimage member
      obtain ⟨coin, _, rfl⟩ := List.mem_map.mp member
      exact accounted.reward_not_mem coin (Nat.le_of_eq number_eq)
    · intro preimage member
      obtain ⟨coin, _, rfl⟩ := List.mem_map.mp member
      exact .reward coin position (by omega)
    · -- Before genesis the pool is empty, and nothing is paid out of it.
      intro unfounded
      rw [moves.genesisDone_eq] at unfounded
      exact absurd (accounted.unseeded unfounded).2 rich
  · rw [settle_eq_quiet run others]
    refine ⟨(accounted.quiet after ?_ ?_ ?_).mono (Nat.le_succ number), ?_⟩
    · rw [same]
    · rw [same]
    · rw [same]
    · rw [Moment.quiet, same]

/-- A chain's genesis is accounted for. -/
theorem Accounted.found (accounted : Accounted past (chain.host.blockNumber + 1) chain.host)
    {outputs : List (Except InvalidValue Output)}
    (apart : Apart (hashed (past ++ [chain.found outputs]))) :
    Accounted (past ++ [chain.found outputs])
      ((chain.found outputs).chain.host.blockNumber + 1) (chain.found outputs).chain.host := by
  unfold Chain.found at apart ⊢
  rcases run : chain.genesis outputs with ⟨error | keys, after⟩
  · rw [genesis_error run]
    exact accounted.quiet _ rfl rfl rfl
  · rw [run] at apart
    obtain ⟨unfounded, coins, seeded, rfl, moves, shown, founded, zero⟩ := genesis_ok run
    have nothing := (accounted.unseeded unfounded).1
    rw [builtOutputs_map_ok] at apart ⊢
    refine accounted.extend moves shown ?_ ?_ ?_ apart (.inl nothing) ?_ ?_
    · rw [List.map_map, List.map_map]
      rfl
    · exact fun tx given => nomatch given
    · intro preimage _
      rw [nothing]
      exact List.not_mem_nil
    · intro preimage member
      obtain ⟨coin, _, rfl⟩ := List.mem_map.mp member
      exact .genesis coin
    · intro unfoundedStill
      rw [founded] at unfoundedStill
      cases unfoundedStill

/-- Each moment that follows a past is accounted for. -/
def AccountedAlong : (past moments : List Moment) → Prop
  | _, [] => True
  | past, moment :: later =>
      (∃ next, Accounted (past ++ [moment]) next moment.chain.host) ∧
        AccountedAlong (past ++ [moment]) later

/-- Moments are accounted for exactly when the first are and the others are after these. -/
theorem accountedAlong_append {first second : List Moment} :
    AccountedAlong past (first ++ second) ↔
      AccountedAlong past first ∧ AccountedAlong (past ++ first) second := by
  induction first generalizing past with
  | nil =>
      rw [List.nil_append, List.append_nil]
      exact (and_iff_right trivial).symm
  | cons moment first inductive_step =>
      rw [List.cons_append, AccountedAlong, AccountedAlong, inductive_step, and_assoc,
        List.append_assoc]
      rfl

theorem AccountedAlong.accounted {earlier later : List Moment} {moment : Moment}
    (along : AccountedAlong past (earlier ++ moment :: later)) :
    ∃ next, Accounted (past ++ earlier ++ [moment]) next moment.chain.host :=
  (accountedAlong_append.mp along).2.1

/-- Moments that follow a past are accounted for, and the last of them is ready for the next
block. -/
def Carried (past moments : List Moment) : Prop :=
  AccountedAlong past moments ∧ ∃ last, moments.getLast? = some last ∧
    Accounted (past ++ moments) (last.chain.host.blockNumber + 1) last.chain.host

theorem Carried.single {moment : Moment}
    (accounted :
      Accounted (past ++ [moment]) (moment.chain.host.blockNumber + 1) moment.chain.host) :
    Carried past [moment] :=
  ⟨⟨⟨_, accounted⟩, trivial⟩, moment, rfl, accounted⟩

/-- A moment that is accounted for may come before moments that carry on. -/
theorem Carried.cons {moment : Moment} {moments : List Moment}
    (accounted : Accounted (past ++ [moment]) next moment.chain.host)
    (carried : Carried (past ++ [moment]) moments) : Carried past (moment :: moments) := by
  obtain ⟨along, last, final, closing⟩ := carried
  have nonempty : moments ≠ [] := by
    rintro rfl
    cases final
  refine ⟨⟨⟨next, accounted⟩, along⟩, last, ?_, ?_⟩
  · rw [List.getLast?_cons_of_ne_nil nonempty, final]
  · rw [List.append_assoc] at closing
    exact closing

/-- The moments of a block are carried, its transactions before its settlement. -/
theorem carried_blockMoments {number : Nat} (txs : List Transaction)
    (accounted : Accounted past number chain.host) (numbered : chain.host.blockNumber = number)
    (apart : Apart (hashed (past ++ blockMoments number txs chain))) :
    Carried past (blockMoments number txs chain) := by
  induction txs generalizing past chain with
  | nil =>
      obtain ⟨settled, same⟩ := accounted.settle apart
      apply Carried.single
      rw [same, numbered]
      exact settled
  | cons tx txs inductive_step =>
      rw [blockMoments] at apart ⊢
      split at apart
      · obtain ⟨attempted, same⟩ := accounted.attempt apart
        apply Carried.single
        rw [same, numbered]
        exact attempted.mono (Nat.le_succ number)
      · rw [List.append_cons] at apart
        obtain ⟨attempted, same⟩ := accounted.attempt apart.earlier
        exact .cons attempted (inductive_step attempted (same.trans numbered) apart)

/-- The moments of an operation are carried. -/
theorem carried_moments (accounted : Accounted past (chain.host.blockNumber + 1) chain.host)
    {operation : Operation} (apart : Apart (hashed (past ++ chain.moments operation))) :
    Carried past (chain.moments operation) := by
  cases operation with
  | genesis outputs => exact .single (accounted.found apart)
  | apply tx =>
      obtain ⟨attempted, same⟩ := accounted.attempt apart
      apply Carried.single
      rw [same]
      exact attempted
  | setAuthorities authorities => exact .single (accounted.quiet _ rfl rfl rfl)
  | restart authorities verify longevity => exact .single (accounted.quiet _ rfl rfl rfl)
  | block txs =>
      rw [moments] at apart ⊢
      dsimp only at apart ⊢
      split at apart
      · exact .single (accounted.quiet _ rfl rfl rfl)
      · -- The block gets its number first, which moves no coin.
        rename_i position fits
        rw [List.append_cons] at apart
        have number := Int.natCast_inj.mp (u64OfInt_eq_ok_iff.mp fits)
        generalize started : chain.withLedger _ = start at apart ⊢
        have host : start.host = chain.host.setBlockNumber position := by
          rw [← started]
          rfl
        have begun :
            Accounted (past ++ [.quiet start]) (chain.host.blockNumber + 1) start.host := by
          apply accounted.quiet start
          · rw [host, coin?_setBlockNumber]
          · rw [host, genesisDone_setBlockNumber]
          · rw [host, pool_setBlockNumber]
        refine .cons begun (carried_blockMoments txs begun ?_ apart)
        rw [host, blockNumber_setBlockNumber, number]

/-- Every moment of a run is accounted for. -/
theorem accountedAlong_trace (operations : List Operation)
    (accounted : Accounted past (chain.host.blockNumber + 1) chain.host)
    (apart : Apart (hashed (past ++ chain.trace operations))) :
    AccountedAlong past (chain.trace operations) := by
  induction operations generalizing past chain with
  | nil => trivial
  | cons operation operations inductive_step =>
      rw [trace, ← List.append_assoc] at apart
      obtain ⟨along, last, final, closing⟩ := carried_moments accounted apart.earlier
      have left := chain.getLast?_moments operation
      rw [final] at left
      have same : last.chain = chain.perform operation := Option.some.inj left
      rw [same] at closing
      exact accountedAlong_append.mpr ⟨along, inductive_step closing apart⟩

/-- A transaction whose coins are missing is rejected for the first of them, and nothing changes. -/
theorem apply_of_missing {tx : Transaction} (structured : WellStructured tx)
    (missing : ∀ outpoint ∈ tx.outpoints, chain.host.coin? outpoint = .ok none) :
    ∃ first, tx.inputs.head? = some first ∧
      chain.apply tx =
        (.ok { id := tx.id, verdict := .error (.missingInput first.outpoint.bytes) }, chain) := by
  obtain ⟨first, rest, same⟩ := List.exists_cons_of_ne_nil structured.spends
  have absent : chain.host.coin? first.outpoint = .ok none := by
    apply missing
    rw [Transaction.outpoints, same]
    exact List.mem_cons_self
  refine ⟨first, by rw [same]; rfl, ?_⟩
  have invalid : validate chain.verify chain.host.coin? tx =
      .error (.rejected (.missingInput first.outpoint.bytes)) := by
    rw [validate, checkStructure_eq_ok_iff.mpr structured, same, resolve, absent]
    rfl
  have refused : chain.spend tx =
      (.error (.rejected (.missingInput first.outpoint.bytes)), chain) := by
    unfold spend
    rw [Ledger.spend_of_invalid invalid]
    rfl
  rw [apply, refused]

/-- What holds of a run that is accounted for as a whole. -/
theorem AccountedAlong.whole {moments : List Moment} (along : AccountedAlong [] moments) :
    ((accepted moments).flatMap Transaction.outpoints).Nodup ∧
      ∀ tx ∈ accepted moments, WellStructured tx ∧ tx.Writable := by
  rcases List.eq_nil_or_concat moments with rfl | ⟨earlier, last, same⟩
  · exact ⟨List.nodup_nil, fun tx member => by cases member⟩
  · rw [List.concat_eq_append] at same
    subst same
    obtain ⟨_, accounted⟩ := along.accounted
    exact ⟨accounted.once, accounted.ordered⟩

/-- **Spent coins stay spent.** A chain over an empty state is founded, executes blocks, applies
transactions, is given authorities and is opened anew, in any order and as often as one likes, and
no two of the byte strings that are hashed for the keys of its coins have one digest. Then no coin
is spent by two accepted transactions, no transaction is accepted twice, and from the moment on at
which a transaction is accepted, within its block and ever after, the coins that it spent are
missing, and it is rejected for the first of them. -/
theorem spent_forever {host : HostState} (empty : ∀ cell, host.get? cell = none)
    (authorities : List Loose) (verify : Verifier) (longevity : Int) (operations : List Operation)
    (apart : Apart (hashed ((ofHost host authorities verify longevity).trace operations))) :
    let moments := (ofHost host authorities verify longevity).trace operations
    ((accepted moments).flatMap Transaction.outpoints).Nodup ∧
      ((accepted moments).map Transaction.encode).Nodup ∧
      ∀ earlier moment later tx, moments = earlier ++ moment :: later →
        moment.accepted? = some tx → ∀ point ∈ moment :: later,
          (∀ outpoint ∈ tx.outpoints, point.chain.host.coin? outpoint = .ok none) ∧
          ∃ first, tx.inputs.head? = some first ∧
            point.chain.apply tx =
              (.ok { id := tx.id, verdict := .error (.missingInput first.outpoint.bytes) },
                point.chain) := by
  intro moments
  have along : AccountedAlong [] moments :=
    accountedAlong_trace operations (Accounted.of_empty empty _) apart
  obtain ⟨once, ordered⟩ := along.whole
  refine ⟨once, nodup_encode ordered once, ?_⟩
  intro earlier moment later tx split given point member
  obtain ⟨before, after, spelled⟩ := List.append_of_mem member
  rw [split, spelled, ← List.append_assoc] at along
  obtain ⟨_, accounted⟩ := along.accounted
  -- The moment is the point or one before it, so that the past up to the point has the transaction.
  have happened : moment ∈ before ++ [point] := by
    rcases before with _ | ⟨first, before⟩
    · cases spelled
      exact List.mem_cons_self
    · cases spelled
      exact List.mem_cons_self
  have inside : tx ∈ accepted ([] ++ (earlier ++ before) ++ [point]) := by
    refine List.mem_filterMap.mpr ⟨moment, ?_, given⟩
    rw [List.nil_append, List.append_assoc]
    exact List.mem_append_right earlier happened
  have missing := accounted.gone tx inside
  exact ⟨missing, apply_of_missing (accounted.ordered tx inside).1 missing⟩

end

/-- A transaction is submitted twice in one block, and once more after a restart. -/
theorem spent_forever_after_resubmission :
    let owner : PublicKey := FixedBytes.zero 32
    let coin : Output := ⟨⟨5, by decide⟩, owner⟩
    let tx : Transaction :=
      ⟨[⟨coin.genesisKey, emptySignature⟩], [⟨⟨4, by decide⟩, owner⟩]⟩
    let accept : Verifier := fun _ _ _ => true
    let moments := (ofHost .emptyMemory [] accept 3).trace
      [.genesis [.ok coin], .block [tx, tx], .restart [] accept 3, .apply tx]
    accepted moments = [tx] ∧
      ∃ earlier moment later, moments = earlier ++ moment :: later ∧ moment.accepted? = some tx ∧
        ∀ point ∈ moment :: later, point.chain.host.coin? coin.genesisKey = .ok none := by
  intro owner coin tx accept moments
  have apart : Apart (hashed moments) := by
    unfold Apart
    decide +kernel
  have given : accepted moments = [tx] := by decide +kernel
  have inside : tx ∈ accepted moments := by
    rw [given]
    exact List.mem_singleton_self tx
  obtain ⟨_, _, missing⟩ := @spent_forever _ .emptyMemory (fun _ => rfl) [] accept 3
    [.genesis [.ok coin], .block [tx, tx], .restart [] accept 3, .apply tx] apart
  obtain ⟨moment, member, marked⟩ := List.mem_filterMap.mp inside
  obtain ⟨earlier, later, split⟩ := List.append_of_mem member
  refine ⟨given, earlier, moment, later, split, marked, ?_⟩
  intro point beyond
  exact (missing earlier moment later tx split marked point beyond).1 _ List.mem_cons_self

end CoinLedger.Chain

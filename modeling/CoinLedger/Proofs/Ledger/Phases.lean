import CoinLedger.Crypto.Blake2b
import CoinLedger.Proofs.Ledger.Progress
import CoinLedger.Proofs.Ledger.Run

/-! # The phase of the pool

The phase of the pool is a label that a ledger sets beside the pool itself, when it is opened, when
a fee comes in and when it deals with the pool. A diary lists the steps of a ledger with their
outcomes. The label agrees with the pool and with the diary after every step
(`CoinLedger.Ledger.Lifecycle.advance`): the pool is never left while it is being paid out, there is
something in it if it is accruing or carried over, and it is accruing exactly when a fee has come in
since it was last dealt with (`CoinLedger.Ledger.phase_tells_of_the_pool`). Only what a payout could
not divide may lie in a pool that is called empty.
-/

namespace CoinLedger

open HostState

/-- One of several things in a row is marked, and none of those after it brings its mark to an end.
-/
def Since {α : Type} (marked ends : α → Prop) (entries : List α) : Prop :=
  ∃ earlier entry later, entries = earlier ++ entry :: later ∧ marked entry ∧
    ∀ other ∈ later, ¬ ends other

theorem not_since_nil {α : Type} {marked ends : α → Prop} : ¬ Since marked ends [] := by
  rintro ⟨earlier, entry, later, split, _⟩
  cases earlier <;> cases split

/-- The last of several things is marked, or the mark is older and the last does not end it. -/
theorem since_concat {α : Type} {marked ends : α → Prop} {entries : List α} {last : α} :
    Since marked ends (entries ++ [last]) ↔
      marked last ∨ (Since marked ends entries ∧ ¬ ends last) := by
  constructor
  · rintro ⟨earlier, entry, later, split, mark, open_⟩
    rcases List.eq_nil_or_concat later with rfl | ⟨between, final, rfl⟩
    · obtain ⟨_, same⟩ := List.append_inj' split rfl
      cases same
      exact .inl mark
    · rw [List.concat_eq_append, ← List.cons_append, ← List.append_assoc] at split
      obtain ⟨rfl, same⟩ := List.append_inj' split rfl
      cases same
      rw [List.concat_eq_append] at open_
      obtain ⟨before, atLast⟩ := List.forall_mem_append.mp open_
      exact .inr ⟨⟨earlier, entry, between, rfl, mark, before⟩, atLast _ List.mem_cons_self⟩
  · rintro (mark | ⟨⟨earlier, entry, later, rfl, mark, open_⟩, goesOn⟩)
    · exact ⟨entries, last, [], rfl, mark, fun _ member => nomatch member⟩
    · refine ⟨earlier, entry, later ++ [last], ?_, mark, ?_⟩
      · rw [List.append_assoc, List.cons_append]
      · exact List.forall_mem_append.mpr ⟨open_, List.forall_mem_singleton.mpr goesOn⟩

namespace Ledger

/-- A step with the outcome of what was asked, if something was. -/
abbrev Entry := Step × Option (Except LedgerError Reply)

namespace Entry

/-- The ledger was opened, or the pool was dealt with. -/
def Renews : Entry → Prop
  | (.restart _, _) => True
  | (.call (.finalize _ _), some (.ok _)) => True
  | _ => False

/-- A transaction with a fee was accepted. -/
def PaysFee : Entry → Prop
  | (.call (.spend _ _), some (.ok (.spent fee))) => 0 < fee
  | _ => False

/-- The pool was paid out to more authorities than a given number. -/
def PaysOutToMoreThan (count : Nat) : Entry → Prop
  | (.call (.finalize authorities _), some (.ok (.settled (.dispersed _ _ _)))) =>
      count < authorities.length
  | _ => False

/-- A fee came in, or whatever had come in was dealt with. -/
def Touches (entry : Entry) : Prop := entry.Renews ∨ entry.PaysFee

/-- An entry that renews the phase pays no fee. -/
theorem Renews.not_paysFee {entry : Entry} (renews : entry.Renews) : ¬ entry.PaysFee := by
  obtain ⟨step, outcome⟩ := entry
  cases step with
  | restart events => exact id
  | call operation =>
      cases operation with
      | seed outputs => exact id
      | spend verify tx => exact renews.elim
      | finalize authorities source => exact id

/-- Once the pool has been dealt with, no fee has come in since. -/
theorem Renews.not_since {entry : Entry} (renews : entry.Renews) (past : List Entry) :
    ¬ Since PaysFee Renews (past ++ [entry]) := by
  intro since
  rcases since_concat.mp since with pays | ⟨_, still⟩
  · exact renews.not_paysFee pays
  · exact still renews

end Entry

section

variable [CoinHash]

/-- The steps of a ledger with their outcomes. -/
def diary (ledger : Ledger) : List Step → List Entry
  | [] => []
  | step :: steps =>
      (step, (ledger.advance step).1) :: (ledger.advance step).2.diary steps

variable {ledger after : Ledger} {authorities : List Loose}

/-- Less is left of a pool that is paid out than there are authorities. -/
theorem finalize_leaves {block : Int} {share carry : Nat} {events : List Event}
    (run : ledger.finalize authorities block = (.ok (.dispersed share events carry), after)) :
    after.phase = .empty ∧ after.host.pool < authorities.length := by
  obtain ⟨number, host, _, divided, enough, paid, rfl⟩ := finalize_eq_dispersed run
  obtain ⟨inner, dispersed, rfl⟩ := atomically_ok paid
  obtain ⟨_, _, left, _⟩ := disperse_ok dispersed
  refine ⟨rfl, ?_⟩
  have some : 0 < authorities.length := by
    refine Nat.pos_of_ne_zero fun nobody => enough ?_
    rw [divided, nobody, Nat.div_zero]
  dsimp only
  rw [pool_commit, left, divided, Nat.mul_comm, ← Nat.mod_eq_sub_mul_div]
  exact Nat.mod_lt _ some

/-- A pool that is not paid out is carried over if there is something in it. -/
theorem finalize_carries {block : Int} {settlement : Settlement}
    (run : ledger.finalize authorities block = (.ok settlement, after))
    (others : ∀ share events carry, settlement ≠ .dispersed share events carry) :
    after.host = ledger.host ∧
      (ledger.host.pool = 0 → after.phase = ledger.phase ∨ after.phase = .empty) ∧
      (0 < ledger.host.pool → after.phase = .carry) := by
  unfold finalize at run
  split at run
  · cases run
  · dsimp only at run
    split at run
    · cases run
      refine ⟨rfl, fun empty => .inl (if_pos empty), fun some => if_neg (Nat.ne_of_gt some)⟩
    · split at run
      · cases run
        exact ⟨rfl, fun empty => .inr (if_pos empty), fun some => if_neg (Nat.ne_of_gt some)⟩
      · split at run
        · cases run
        · cases run
          exact absurd rfl (others _ _ _)

/-- While the pool holds an amount, dealing with it fails only for want of a number, and then
changes nothing. -/
theorem finalizeFrom_error (fits : ledger.host.pool < amountBound) {source : Option Int}
    {error : LedgerError} (run : ledger.finalizeFrom authorities source = (.error error, after)) :
    after = ledger ∧ ∀ number : UInt64, source ≠ some (number.toNat : Int) := by
  cases source with
  | none =>
      cases run
      exact ⟨rfl, fun _ same => nomatch same⟩
  | some block =>
      change ledger.finalize authorities block = _ at run
      have unnumbered : ∀ number : UInt64, some block ≠ some (number.toNat : Int) := by
        intro number same
        cases same
        obtain ⟨settlement, settled⟩ := finalize_total fits authorities number
        rw [run] at settled
        cases settled
      refine ⟨?_, unnumbered⟩
      unfold finalize at run
      split at run
      · cases run
        rfl
      · rename_i number numbered
        exact absurd (congrArg some (u64OfInt_eq_ok_iff.mp numbered)) (unnumbered number)

/-- The phase of the pool agrees with the pool and with the diary of a ledger. -/
structure Lifecycle (past : List Entry) (ledger : Ledger) : Prop where
  /-- The pool is not being paid out. -/
  settled : ledger.phase ≠ .dispersing
  /-- There is something in a pool that is accruing or carried over. -/
  funded : ledger.phase = .accruing ∨ ledger.phase = .carry → 0 < ledger.host.pool
  /-- The pool is accruing if a fee has come in since it was dealt with. -/
  accruing : ledger.phase = .accruing ↔ Since Entry.PaysFee Entry.Renews past
  /-- What is in a pool that is called empty was left when it was paid out. -/
  remainder : ledger.phase = .empty → 0 < ledger.host.pool →
    Since (Entry.PaysOutToMoreThan ledger.host.pool) Entry.Touches past

namespace Lifecycle

variable {past : List Entry} {entry : Entry}

omit [CoinHash] in
/-- Without anything in the pool the phase is that of an empty one. -/
theorem phase_eq_empty (life : Lifecycle past ledger) (nothing : ledger.host.pool = 0) :
    ledger.phase = .empty := by
  have settled := life.settled
  have funded := life.funded
  rw [nothing] at funded
  cases phase : ledger.phase with
  | empty => rfl
  | accruing => exact absurd (funded (.inl phase)) (Nat.lt_irrefl 0)
  | dispersing => exact absurd phase settled
  | carry => exact absurd (funded (.inr phase)) (Nat.lt_irrefl 0)

omit [CoinHash] in
/-- A pool is carried over while there is something in it, or it is called empty for a reason. -/
theorem begun (renewed : ¬ Since Entry.PaysFee Entry.Renews past)
    (label : (ledger.phase = .carry ∧ 0 < ledger.host.pool) ∨
      (ledger.phase = .empty ∧ (0 < ledger.host.pool →
        Since (Entry.PaysOutToMoreThan ledger.host.pool) Entry.Touches past))) :
    Lifecycle past ledger := by
  rcases label with ⟨phase, some⟩ | ⟨phase, left⟩
  · constructor <;> rw [phase]
    · exact nofun
    · exact fun _ => some
    · exact ⟨nofun, fun since => absurd since renewed⟩
    · exact nofun
  · constructor <;> rw [phase]
    · exact nofun
    · exact nofun
    · exact ⟨nofun, fun since => absurd since renewed⟩
    · exact fun _ => left

omit [CoinHash] in
/-- A ledger begins with what is in the pool carried over. -/
theorem opened (host : HostState) (events : List Event)
    (renewed : ¬ Since Entry.PaysFee Entry.Renews past) : Lifecycle past (ofHost host events) := by
  have phase : (ofHost host events).phase = if host.pool = 0 then .empty else .carry := rfl
  have pool : (ofHost host events).host.pool = host.pool := rfl
  refine begun renewed ?_
  rw [phase, pool]
  by_cases nothing : host.pool = 0
  · refine .inr ⟨if_pos nothing, fun some => absurd nothing (Nat.ne_of_gt some)⟩
  · exact .inl ⟨if_neg nothing, Nat.pos_of_ne_zero nothing⟩

omit [CoinHash] in
/-- What leaves the phase and the pool alone is of no account. -/
theorem quiet (life : Lifecycle past ledger) (untouched : ¬ entry.Touches)
    (phase : after.phase = ledger.phase) (pool : after.host.pool = ledger.host.pool) :
    Lifecycle (past ++ [entry]) after where
  settled := phase ▸ life.settled
  funded := by
    rw [phase, pool]
    exact life.funded
  accruing := by
    rw [phase, life.accruing, since_concat]
    constructor
    · exact fun since => .inr ⟨since, fun renews => untouched (.inl renews)⟩
    · rintro (pays | ⟨since, _⟩)
      · exact absurd (.inr pays) untouched
      · exact since
  remainder called some := by
    rw [phase] at called
    rw [pool] at some ⊢
    exact since_concat.mpr (.inr ⟨life.remainder called some, untouched⟩)

omit [CoinHash] in
/-- A fee makes the pool accrue. -/
theorem fee (pays : entry.PaysFee) (phase : after.phase = .accruing)
    (some : 0 < after.host.pool) : Lifecycle (past ++ [entry]) after := by
  constructor <;> rw [phase]
  · exact nofun
  · exact fun _ => some
  · exact ⟨fun _ => since_concat.mpr (.inl pays), fun _ => rfl⟩
  · exact nofun

/-- Spending keeps the phase in step with the diary. -/
theorem spent (life : Lifecycle past ledger) (verify : Verifier) (tx : Transaction) :
    Lifecycle (past ++ [(.call (.spend verify tx), some (ledger.perform (.spend verify tx)).1)])
      (ledger.perform (.spend verify tx)).2 := by
  rcases applied : ledger.spend verify tx with ⟨error | fee, after⟩
  · rw [perform, applied, spend_error applied]
    exact life.quiet (fun touches => touches.elim id id) rfl rfl
  · obtain ⟨_, _, _, _, credited, _⟩ := spend_ok applied
    obtain ⟨host, _, rfl⟩ := spend_eq_ok applied
    rw [perform, applied]
    by_cases free : fee = 0
    · refine life.quiet ?_ (if_pos free) ?_
      · rintro (renews | pays)
        · exact renews
        · exact Nat.ne_of_gt pays free
      · rw [credited, free, Nat.add_zero]
    · have some : 0 < fee := Nat.pos_of_ne_zero free
      exact Lifecycle.fee some (if_neg free) (by rw [credited]; omega)

/-- Dealing with the pool keeps the phase in step with the diary. -/
theorem dealt (life : Lifecycle past ledger) (fits : ledger.host.pool < amountBound)
    (authorities : List Loose) (source : Option Int) :
    Lifecycle (past ++ [(.call (.finalize authorities source),
        some (ledger.perform (.finalize authorities source)).1)])
      (ledger.perform (.finalize authorities source)).2 := by
  rcases settled : ledger.finalizeFrom authorities source with ⟨error | settlement, after⟩
  · rw [perform, settled, (finalizeFrom_error fits settled).1]
    exact life.quiet (fun touches => touches.elim id id) rfl rfl
  · rw [perform, settled]
    have renews : Entry.Renews
        (.call (.finalize authorities source), some (.ok (.settled settlement))) := trivial
    refine begun (renews.not_since past) ?_
    cases source with
    | none => cases settled
    | some block =>
        change ledger.finalize authorities block = _ at settled
        by_cases dispersed : ∃ share events carry, settlement = .dispersed share events carry
        · obtain ⟨share, events, carry, rfl⟩ := dispersed
          obtain ⟨phase, left⟩ := finalize_leaves settled
          exact .inr ⟨phase, fun _ => since_concat.mpr (.inl left)⟩
        · obtain ⟨host, nothing, some⟩ := finalize_carries settled
            fun share events carry same => dispersed ⟨share, events, carry, same⟩
          dsimp only
          rw [host]
          rcases Nat.eq_zero_or_pos ledger.host.pool with empty | funded
          · refine .inr ⟨?_, fun some => absurd empty (Nat.ne_of_gt some)⟩
            exact (nothing empty).elim (fun same => same.trans (life.phase_eq_empty empty)) id
          · exact .inl ⟨some funded, funded⟩

/-- **Whatever step a ledger takes, the phase of the pool goes on to agree with the diary.** -/
theorem advance (life : Lifecycle past ledger) (fits : ledger.host.pool < amountBound)
    (step : Step) :
    Lifecycle (past ++ [(step, (ledger.advance step).1)]) (ledger.advance step).2 := by
  cases step with
  | restart events =>
      have renews : Entry.Renews (.restart events, none) := trivial
      exact opened ledger.host events (renews.not_since past)
  | call operation =>
      cases operation with
      | spend verify tx => exact life.spent verify tx
      | finalize authorities source => exact life.dealt fits authorities source
      | seed outputs =>
          have untouched (outcome : Option (Except LedgerError Reply)) :
              ¬ Entry.Touches (.call (.seed outputs), outcome) := fun touches => touches.elim id id
          rcases seeded : ledger.seed outputs with ⟨error | keys, after⟩
          · rw [Ledger.advance, perform, seeded, seed_error seeded]
            exact life.quiet (untouched _) rfl rfl
          · obtain ⟨_, _, _, _, _, pool, same⟩ := seed_ok seeded
            rw [Ledger.advance, perform, seeded]
            exact life.quiet (untouched _) (by rw [same]) pool

end Lifecycle

/-- **Any steps keep the phase in step with the diary.** -/
theorem lifecycle_live {past : List Entry} (life : Lifecycle past ledger)
    (valid : ledger.host.WellFormed) (steps : List Step) :
    Lifecycle (past ++ ledger.diary steps) (ledger.live steps) := by
  induction steps generalizing past ledger with
  | nil =>
      rw [diary, List.append_nil]
      exact life
  | cons step steps inductive_step =>
      rw [diary, List.append_cons, live_cons]
      exact inductive_step (life.advance valid.pool_lt step) (wellFormed_advance valid step)

/-- **The phase of the pool tells of the pool.** A ledger is opened over a well-formed state, and
seeds, spends, deals with its pool and is opened anew, in any order and as often as one likes. After
each step the pool is not in the course of being paid out. If it is accruing or carried over there
is something in it, so that an empty pool is called empty. It is accruing exactly when a transaction
with a fee has been accepted since the ledger was last opened or last dealt with its pool. If it is
called empty and there is something in it, then since the ledger was last opened the pool was paid
out to more authorities than there are units left, and neither was it dealt with again nor has a fee
come in since then. Dealing with the pool fails only for want of a number of the block, and then
changes nothing. -/
theorem phase_tells_of_the_pool {host : HostState} (valid : host.WellFormed) (events : List Event)
    (steps : List Step) :
    let ledger := (ofHost host events).live steps
    let diary := (ofHost host events).diary steps
    ledger.phase ≠ .dispersing ∧
      (ledger.phase = .accruing ∨ ledger.phase = .carry → 0 < ledger.host.pool) ∧
      (ledger.host.pool = 0 → ledger.phase = .empty) ∧
      (ledger.phase = .accruing ↔ Since Entry.PaysFee Entry.Renews diary) ∧
      (ledger.phase = .empty → 0 < ledger.host.pool →
        Since (Entry.PaysOutToMoreThan ledger.host.pool) Entry.Touches diary) ∧
      ∀ authorities source error after,
        ledger.finalizeFrom authorities source = (.error error, after) →
        after = ledger ∧ ∀ number : UInt64, source ≠ some (number.toNat : Int) := by
  intro ledger diary
  have life : Lifecycle diary ledger :=
    lifecycle_live (.opened host events not_since_nil) valid steps
  have validAfter : ledger.host.WellFormed := wellFormed_live valid steps
  exact ⟨life.settled, life.funded, life.phase_eq_empty, life.accruing, life.remainder,
    fun authorities source error after => finalizeFrom_error validAfter.pool_lt⟩

end

/-- A pool of three is carried over for want of authorities, and after a restart paid out to two. A
unit is left in a pool that is called empty, also after a coin has been seeded. -/
theorem unit_left_in_an_empty_pool :
    let owner : PublicKey := FixedBytes.zero 32
    let host := HostState.emptyMemory.setPool ⟨3, by decide⟩
    let steps : List Step := [.call (.finalize [] (some 1)), .restart [],
      .call (.finalize [.nothing, .bytes owner.bytes] (some 2)),
      .call (.seed [.ok ⟨⟨5, by decide⟩, owner⟩])]
    let ledger := (ofHost host []).live steps
    ledger.phase = .empty ∧ ledger.host.pool = 1 ∧
      Since (Entry.PaysOutToMoreThan ledger.host.pool) Entry.Touches
        ((ofHost host []).diary steps) := by
  intro owner host steps ledger
  have valid : host.WellFormed :=
    (@wellFormed_of_empty .emptyMemory fun _ => rfl).setPool ⟨3, by decide⟩
  have left : ledger.phase = .empty ∧ ledger.host.pool = 1 := by decide +kernel
  obtain ⟨_, _, _, _, remainder, _⟩ := phase_tells_of_the_pool valid [] steps
  refine ⟨left.1, left.2, remainder left.1 ?_⟩
  exact Nat.lt_of_lt_of_eq Nat.zero_lt_one left.2.symm

end Ledger
end CoinLedger

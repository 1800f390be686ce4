import CoinLedger.Proofs.Backend.Chain
import CoinLedger.Session

/-! # Sessions over a table

A session over a table gives, step by step, what a session over a state in memory gives, also inside
blocks of steps, however deep they are nested and whichever of them are undone
(`CoinLedger.Session.performAll_onTable`). Left out are the two steps that look at the layers of a
state in memory, which a table does not offer (`CoinLedger.Step.shared`).
-/

namespace CoinLedger

mutual

/-- Whether both kinds of states offer a step. A table does not show layers, as a state in memory
does. -/
def Step.shared : Step → Bool
  | .snapshot | .depth => false
  | .atomically steps _ => Step.allShared steps
  | _ => true

/-- Whether both kinds of states offer all of the steps. -/
def Step.allShared : List Step → Bool
  | [] => true
  | step :: steps => step.shared && Step.allShared steps

end

namespace Session

/-- The session over the state as a table. -/
def onTable (session : Session) : Session := session.withHost session.host.onTable

/-- What a table answers to a step that a state in memory gives an answer to. A listing under the
empty prefix is without the empty key. All other answers, and all errors, are the same. -/
def answerOnTable : Step → Except StepError StepAnswer → Except StepError StepAnswer
  | .scan [], .ok (.entries listed) => .ok (.entries (listed.filter fun entry => entry.1 ≠ []))
  | _, outcome => outcome

mutual

/-- The report of a step on a table, given that on a state in memory. -/
def reportOnTable : Step → Report → Report
  | .atomically steps _, .group kept inner after =>
      .group kept (reportsOnTable steps inner) after.onTable
  | step, .single outcome after => .single (answerOnTable step outcome) after.onTable
  | _, report => report

/-- The reports of steps on a table, given those on a state in memory. -/
def reportsOnTable : List Step → List Report → List Report
  | step :: steps, report :: reports => reportOnTable step report :: reportsOnTable steps reports
  | _, _ => []

end

variable (session : Session)

theorem host_onTable : session.onTable.host = session.host.onTable := rfl

theorem chain_onTable : session.onTable.chain = session.chain.onTable := rfl

theorem hosting_onTable : session.onTable.hosting = session.hosting := rfl

theorem withHost_onTable (host : HostState) :
    session.onTable.withHost host.onTable = (session.withHost host).onTable := rfl

theorem blockSource_onTable : session.onTable.blockSource = session.blockSource := by
  unfold blockSource
  rw [hosting_onTable, host_onTable, HostState.blockNumber_onTable]

/-- A table does not change whether the cell under the empty key is asked for. -/
theorem consultsEmptyCell_onTable : session.onTable.consultsEmptyCell = session.consultsEmptyCell :=
  rfl

variable [CoinHash]

/-- A restart over a table succeeds as it does in memory, and gives the session over the table. -/
theorem restart_onTable : session.onTable.restart = session.restart.map id onTable := by
  unfold restart
  rw [hosting_onTable]
  split
  · rw [host_onTable, Ledger.ofHost_onTable]
    rfl
  · rename_i settings _
    rw [host_onTable, chain_onTable, Chain.verify_onTable, Chain.start_onTable]
    rcases Chain.start settings session.host session.chain.verify with ⟨error | done, chain⟩ <;> rfl

omit [CoinHash] in
/-- A step that reads an outpoint first is the same over a table when it is for every outpoint. -/
theorem withOutpoint_onTable (key : ByteString)
    {onTables step : Outpoint → Except StepError StepAnswer × Session}
    (portable : ∀ outpoint, onTables outpoint = (step outpoint).map id onTable) :
    withOutpoint key session.onTable onTables = (withOutpoint key session step).map id onTable := by
  unfold withOutpoint
  cases FixedBytes.ofBytes "outpoint" 32 key with
  | error reason => rfl
  | ok outpoint => exact portable outpoint

/-- Every single step other than listing everything answers over a table as in memory. -/
theorem performSingle_onTable_of_ne {step : Step} (shared : step.shared) (other : step ≠ .scan []) :
    session.onTable.performSingle step = (session.performSingle step).map id onTable := by
  cases step with
  | snapshot | depth => contradiction
  | scan start =>
      have nonempty : start ≠ [] := fun empty => other (congrArg Step.scan empty)
      simp only [performSingle, host_onTable, HostState.scan_onTable_of_ne_nil _ nonempty]
      rfl
  | get | contains | coins | coinCount | totalValue | pool | coinsOf | balanceOf | genesisDone =>
      simp only [performSingle, host_onTable, HostState.get?_onTable, HostState.contains_onTable,
        HostState.coins_onTable, HostState.coinCount_onTable, HostState.totalValue_onTable,
        HostState.pool_onTable, HostState.coinsOf_onTable, HostState.balanceOf_onTable,
        HostState.genesisDone_onTable]
      rfl
  | put key value =>
      simp only [performSingle, host_onTable, HostState.put_onTable, withHost_onTable]
      rfl
  | delete key =>
      simp only [performSingle, host_onTable, HostState.delete_onTable, withHost_onTable]
      rfl
  | coin key =>
      simp only [performSingle, host_onTable, HostState.coin?_onTable]
      exact session.withOutpoint_onTable key fun outpoint => rfl
  | hasCoin key =>
      simp only [performSingle, host_onTable, HostState.hasCoin_onTable]
      exact session.withOutpoint_onTable key fun outpoint => rfl
  | addCoin key coin =>
      simp only [performSingle, host_onTable, HostState.addCoin_onTable]
      exact session.withOutpoint_onTable key fun outpoint => rfl
  | removeCoin key =>
      simp only [performSingle, host_onTable, HostState.removeCoin_onTable]
      exact session.withOutpoint_onTable key fun outpoint => rfl
  | setPool value =>
      simp only [performSingle, host_onTable]
      split
      · rw [HostState.setPool_onTable]
        rfl
      · rfl
  | genesis outputs =>
      simp only [performSingle, hosting_onTable, chain_onTable]
      split
      · rw [Chain.ledger_onTable, Ledger.seed_onTable]
        rfl
      · rw [Chain.genesis_onTable]
        rfl
  | spend tx =>
      simp only [performSingle, chain_onTable, Chain.spend_onTable]
      rfl
  | finalize block =>
      simp only [performSingle, blockSource_onTable, consultsEmptyCell_onTable, chain_onTable]
      split
      · rfl
      · rw [Chain.ledger_onTable, Ledger.finalizeFrom_onTable]
        rfl
  | validity tx =>
      simp only [performSingle, chain_onTable, Chain.ledger_onTable, Ledger.validityOf_onTable]
      rfl
  | statistics =>
      simp only [performSingle, hosting_onTable, chain_onTable, Chain.ledger_onTable,
        Ledger.statistics_onTable, Chain.statistics_onTable]
      split <;> rfl
  | summary =>
      simp only [performSingle, chain_onTable, Chain.ledger_onTable, Ledger.summary_onTable]
      rfl
  | setBlock number =>
      simp only [performSingle, hosting_onTable, host_onTable]
      split
      · rfl
      · split
        · rfl
        · rw [HostState.setBlockNumber_onTable]
          rfl
        · rfl
  | restart =>
      simp only [performSingle, restart_onTable]
      rfl
  | block txs =>
      simp only [performSingle, chain_onTable, Chain.executeBlock_onTable]
      rfl
  | apply tx =>
      simp only [performSingle, chain_onTable, Chain.apply_onTable]
      rfl
  | dispatch call arguments =>
      simp only [performSingle, chain_onTable, Chain.dispatch_onTable]
      rcases session.chain.dispatch call arguments with ⟨error | fee, after⟩ <;> rfl
  | refused | setAuthorities | setVerifier | events | clearEvents | atomically => rfl

omit [CoinHash] in
/-- Only the answer to listing everything is different over a table. -/
theorem answerOnTable_of_ne {step : Step} (other : step ≠ .scan [])
    (outcome : Except StepError StepAnswer) : answerOnTable step outcome = outcome := by
  unfold answerOnTable
  split
  · contradiction
  · rfl

/-- **A single step over a table gives the answer for tables, and the same session.** -/
theorem performSingle_onTable {step : Step} (shared : step.shared) :
    session.onTable.performSingle step =
      (answerOnTable step (session.performSingle step).1,
        (session.performSingle step).2.onTable) := by
  by_cases listsAll : step = .scan []
  · subst listsAll
    simp only [performSingle, host_onTable, HostState.scan_onTable]
    rfl
  · rw [session.performSingle_onTable_of_ne shared listsAll, answerOnTable_of_ne listsAll]
    rfl

omit [CoinHash] in
theorem closed_onTable (undone : Bool) :
    session.onTable.withHost
        (if undone then session.host.onTable.rollback else session.host.onTable.commit) =
      (session.withHost
        (if undone then session.host.rollback else session.host.commit)).onTable := by
  rw [HostState.rollback_onTable, HostState.commit_onTable]
  cases undone <;> rfl

omit [CoinHash] in
theorem reportOnTable_single (step : Step) (outcome : Except StepError StepAnswer)
    (after : Session) :
    reportOnTable step (.single outcome after) =
      .single (answerOnTable step outcome) after.onTable := by
  cases step <;> rfl

mutual

/-- **A step over a table, with all the steps inside it, gives the report for tables.** -/
theorem perform_onTable (session : Session) {step : Step} (shared : step.shared) :
    session.onTable.perform step =
      (reportOnTable step (session.perform step).1, (session.perform step).2.onTable) := by
  cases step with
  | atomically steps abort =>
      have inside := performAll_onTable (session.withHost session.host.enter) shared
      simp only [perform, host_onTable, HostState.enter_onTable, withHost_onTable, inside,
        closed_onTable]
      rfl
  | _ =>
      simp only [perform, performSingle_onTable session shared, reportOnTable_single]

/-- **Steps over a table are answered as over the state in memory.** -/
theorem performAll_onTable (session : Session) {steps : List Step} (shared : Step.allShared steps) :
    session.onTable.performAll steps =
      (reportsOnTable steps (session.performAll steps).1,
        (session.performAll steps).2.onTable) := by
  cases steps with
  | nil => rfl
  | cons step steps =>
      have both := (Bool.and_eq_true _ _).mp shared
      simp only [performAll, perform_onTable session both.1,
        performAll_onTable (session.perform step).2 both.2]
      rfl

end

end Session
end CoinLedger

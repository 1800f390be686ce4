import CoinLedger.Proofs.Backend.Session
import CoinLedger.Proofs.Storage.Contents

/-! # Scripts give the same over a table as in memory

A script performs steps of a session, in transactions that are nested to any depth. The error of a
step is raised: it undoes the transactions that it leaves, however many they are, and ends the
script unless it is caught. Since a table answers and refuses each step as a state in memory does,
the two runs of a script take the same way (`CoinLedger.Session.run_onTable`), and from an empty
state they cannot be told apart, except by a listing under the empty prefix
(`CoinLedger.Session.backends_are_interchangeable`).
-/

namespace CoinLedger

/-- A script for a session. -/
inductive Script where
  /-- A step that both kinds of states offer. If it is refused, its error is raised. -/
  | step (step : Step) (shared : step.shared)
  /-- Something else is raised. -/
  | raise
  /-- A transaction around a script. It is kept if the script ends normally, and it is undone if
  something is raised, which is then raised outside, too. -/
  | transaction (body : List Script)
  /-- What is raised in a body is caught, and a handler goes on in its place. -/
  | recover (body handler : List Script)

/-- Whether a step was refused. -/
def Report.isRefused : Report → Bool
  | .single (.error _) _ => true
  | _ => false

/-- What came of a script: the reports of the steps that it took, whether something was raised that
it did not catch, and the session after it. -/
structure Execution where
  reports : List (Step × Report)
  raised : Bool
  after : Session

/-- The execution with what comes of it from there on. -/
def Execution.andThen (first : Execution) (next : Session → Execution) : Execution where
  reports := first.reports ++ (next first.after).reports
  raised := (next first.after).raised
  after := (next first.after).after

/-- What comes of the same script on a table. -/
def Execution.onTable (execution : Execution) : Execution where
  reports := execution.reports.map fun entry => (entry.1, Session.reportOnTable entry.1 entry.2)
  raised := execution.raised
  after := execution.after.onTable

namespace Session

variable [CoinHash]

mutual

/-- Run a script. -/
def run (session : Session) : Script → Execution
  | .step step _ =>
      let (report, after) := session.perform step
      ⟨[(step, report)], report.isRefused, after⟩
  | .raise => ⟨[], true, session⟩
  | .transaction body =>
      let inner := runAll (session.withHost session.host.enter) body
      let host := inner.after.host
      ⟨inner.reports, inner.raised,
        inner.after.withHost (if inner.raised then host.rollback else host.commit)⟩
  | .recover body handler =>
      let tried := runAll session body
      if tried.raised then tried.andThen fun after => runAll after handler else tried

/-- Run scripts one after another, as far as nothing is raised. -/
def runAll (session : Session) : List Script → Execution
  | [] => ⟨[], false, session⟩
  | script :: scripts =>
      let first := run session script
      if first.raised then first else first.andThen fun after => runAll after scripts

end

omit [CoinHash] in
theorem isRefused_reportOnTable (step : Step) (report : Report) :
    (reportOnTable step report).isRefused = report.isRefused := by
  cases report with
  | single outcome after =>
      rw [reportOnTable_single]
      unfold answerOnTable
      split
      · rfl
      · cases outcome <;> rfl
  | group kept inner after => cases step <;> rfl

omit [CoinHash] in
theorem andThen_onTable {first : Execution} {onTables : Session → Execution}
    (next : Session → Execution)
    (portable : onTables first.after.onTable = (next first.after).onTable) :
    first.onTable.andThen onTables = (first.andThen next).onTable := by
  unfold Execution.andThen
  change Execution.mk (first.onTable.reports ++ (onTables first.after.onTable).reports)
    (onTables first.after.onTable).raised (onTables first.after.onTable).after = _
  rw [portable]
  exact congrArg (Execution.mk · _ _) List.map_append.symm

mutual

/-- **A script over a table comes to what it comes to in memory.** -/
theorem run_onTable (session : Session) (script : Script) :
    session.onTable.run script = (session.run script).onTable := by
  cases script with
  | step step shared =>
      simp only [run, perform_onTable session shared, isRefused_reportOnTable]
      rfl
  | raise => rfl
  | transaction body =>
      have inside := runAll_onTable (session.withHost session.host.enter) body
      simp only [run, host_onTable, HostState.enter_onTable, withHost_onTable, inside]
      exact congrArg (Execution.mk _ _) (closed_onTable _ _)
  | recover body handler =>
      have handled := runAll_onTable (session.runAll body).after handler
      simp only [run, runAll_onTable session body]
      rw [andThen_onTable (fun after => after.runAll handler) handled]
      exact (apply_ite Execution.onTable _ _ _).symm

/-- **A script takes the same way over a table as over the state in memory.** -/
theorem runAll_onTable (session : Session) (scripts : List Script) :
    session.onTable.runAll scripts = (session.runAll scripts).onTable := by
  cases scripts with
  | nil => rfl
  | cons script scripts =>
      have later := runAll_onTable (session.run script).after scripts
      simp only [runAll, run_onTable session script]
      rw [andThen_onTable (fun after => after.runAll scripts) later]
      exact (apply_ite Execution.onTable _ _ _).symm

end

/-- **The two kinds of states are interchangeable.** From an empty state every script comes to the
same on a table as in memory: the same steps are taken, with the same answers and the same errors,
the same is raised, the same events are emitted, and the same entries are left. The one exception is
that a listing under the empty prefix is without the empty key on a table. -/
theorem backends_are_interchangeable (session : Session) (scripts : List Script) :
    let memory := (session.withHost .emptyMemory).runAll scripts
    let table := (session.withHost .emptyTable).runAll scripts
    table.reports =
        memory.reports.map (fun entry => (entry.1, reportOnTable entry.1 entry.2)) ∧
      table.raised = memory.raised ∧ table.after = memory.after.onTable ∧
      table.after.chain.ledger.events = memory.after.chain.ledger.events ∧
      table.after.host.contents = memory.after.host.contents := by
  intro memory table
  have same : table = memory.onTable := by
    refine Eq.trans ?_ ((session.withHost .emptyMemory).runAll_onTable scripts)
    rw [← withHost_onTable, HostState.onTable_emptyMemory]
    rfl
  rw [same]
  exact ⟨rfl, rfl, rfl, rfl, HostState.contents_eq memory.after.host.get?_onTable⟩

end Session
end CoinLedger

import CoinLedger.Storage.Snapshots

/-! # Tables as files hold them -/

namespace CoinLedger

/-- How changes of a table come into its file. -/
inductive Journaling where
  /-- Each comes in at once; what it replaces is kept in a journal beside the file meanwhile. -/
  | rollback
  /-- They gather in a log beside the file while the table is open. -/
  | writeAhead
  deriving DecidableEq, Repr

/-- A table in a file. -/
structure StoredTable where
  /-- What is in it. -/
  store : SnapshotStore
  /-- How changes come into the file. -/
  journaling : Journaling
  /-- Whether the file itself has rows. Before it has, it has a mark alone. -/
  filled : Bool

namespace StoredTable

/-- The table that is made of nothing. -/
def blank : StoredTable := ⟨.ofMap .empty, .rollback, false⟩

/-- The mark of a file that is for a table and has no rows yet. -/
def mark : String := "\x00table"

end StoredTable
end CoinLedger

/-! # Lines of the log

A line of an operator's log: how important it is, who writes it and what it says.
-/

namespace CoinLedger

/-- How important a log line is. -/
inductive LogLevel where
  | debug
  | info
  | warning
  | error
  | critical
  deriving DecidableEq, Repr

namespace LogLevel

/-- The name of a level. -/
def name : LogLevel → String
  | debug => "DEBUG"
  | info => "INFO"
  | warning => "WARNING"
  | error => "ERROR"
  | critical => "CRITICAL"

/-- The rank of a level. -/
def rank : LogLevel → Nat
  | debug => 10
  | info => 20
  | warning => 30
  | error => 40
  | critical => 50

/-- The escape that sets the terminal colour of a level. -/
def colour : LogLevel → String
  | debug => "\x1b[36m"
  | info => "\x1b[32m"
  | warning => "\x1b[33m"
  | error => "\x1b[31m"
  | critical => "\x1b[31m\x1b[47m"

end LogLevel

/-- A part of the program that writes log lines. -/
inductive LogSource where
  | ledger
  | validator
  | runtime
  | storage
  | cli
  deriving DecidableEq, Repr

/-- The name under which a part of the program writes. -/
def LogSource.name : LogSource → String
  | ledger => "utxo_ledger.ledger"
  | validator => "utxo_ledger.validator"
  | runtime => "utxo_ledger.runtime"
  | storage => "utxo_ledger.storage.sqlite"
  | cli => "utxo_ledger.cli"

/-- A line of the log. -/
structure LogLine where
  level : LogLevel
  source : LogSource
  text : String
  deriving DecidableEq, Repr

/-- The escape that ends a terminal colour. -/
def colourEnd : String := "\x1b[0m"

/-- A text that ends with the end of a terminal colour. -/
def withColourEnd (text : String) : String :=
  if colourEnd.toList.isSuffixOf text.toList then text else text ++ colourEnd

/-- A log line as it appears on a terminal, at a given time. -/
def LogLine.render (line : LogLine) (time : String) : String :=
  let level := line.level.name
  let padded := level ++ String.ofList (List.replicate (8 - level.length) ' ')
  withColourEnd
    s!"{line.level.colour}{time} [{line.source.name}] {padded}{colourEnd} {line.text}"

end CoinLedger

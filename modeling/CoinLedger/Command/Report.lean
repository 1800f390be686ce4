import CoinLedger.Command.Perform
import CoinLedger.Text.ControlSequence
import CoinLedger.Text.Lines

/-! # What commands report

The lines of a command as a terminal shows them, what is said about a command that fails, and the
exit code. Only log lines have colours: what a command prints has no control sequences left in it.
-/

namespace CoinLedger

/-- A line as a terminal shows it, at a given time. -/
def OutputLine.render (time : String) : OutputLine → String
  | printed text => Text.withoutControls text
  | logged line => line.render time

/-- The lines that a terminal shows, at a given time, of what a command has written. A text with
boundaries of lines in it takes up several. -/
def OutputLine.shownLines (time : String) (output : List OutputLine) : List String :=
  Text.linesOf (String.join (output.map fun line => line.render time ++ "\n"))

/-- The wording of a JSON error. -/
def Json.ParseError.message : Json.ParseError → String
  | malformed => "the text is not a JSON value"
  | oversizedInteger => "an integer has too many digits"
  | tooDeep => "too many arrays and objects are inside one another"

/-- The text of a step towards a part of a document. -/
def DocumentStep.text : DocumentStep → String
  | member name => name
  | item index => toString index

/-- The wording of a fault. -/
def Fault.message (fault : Fault) : String :=
  ".".intercalate (fault.location.map DocumentStep.text) ++ ": " ++ fault.problem.message

/-- The wording of a variable that cannot be set. -/
def VariableFault.message : VariableFault → String
  | illFormed => "a variable has code points that have no bytes"
  | forbidden => "a variable has a null character or an equals sign in its name"
  | nameless => "a variable has no name"

/-- The wording of a configuration that cannot be loaded. -/
def LoadError.message : LoadError → String
  | unsettable fault => fault.message
  | malformed reason => reason.message
  | notAnObject => "the configuration is not an object"
  | faulty faults => "; ".intercalate (faults.map Fault.message)

/-- The wording of an obstacle. -/
def Obstacle.message : Obstacle → String
  | notADirectory => "not a directory"
  | fileExists => "a file stands in place of a directory"
  | isADirectory => "a directory stands in place of a file"
  | absent => "no such file"
  | notText => "the file does not hold text"
  | cannotOpenTable => "the table cannot be opened"
  | notATable => "the file does not hold a table"
  | readOnlyTable => "the table cannot be written to"
  | illFormedAddress => "the address of a table has bytes that are no text"
  | illFormedName => "a path name has code points that have no bytes"
  | nullInName => "a path name has a null character"
  | nameTooLong => "a path name is too long"

namespace CommandError

/-- The wording of a failure. -/
def message : CommandError → String
  | usage error => error.message
  | undecodable reason => s!"Cannot decode transaction: {reason.message}"
  | document reason => reason.message
  | signing reason => reason.message
  | config reason => reason.message
  | blocks reason => reason.message
  | ledger error => error.message
  | obstacle reason => reason.message
  | noHome => "no such home directory"

/-- What is said about a command that fails. -/
def lines : CommandError → List String
  | usage error => (Help.mistakeLines error).map Text.withoutControls
  | error => [Text.withoutControls ("Error: " ++ error.message)]

/-- The lines that a terminal shows about a command that fails. -/
def shownLines (error : CommandError) : List String :=
  Text.linesOf (String.join (error.lines.map (· ++ "\n")))

/-- The exit code of a command that fails. -/
def exitCode : CommandError → UInt32
  | usage _ => 2
  | _ => 1

end CommandError
end CoinLedger

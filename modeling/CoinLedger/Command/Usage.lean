import CoinLedger.FileName
import CoinLedger.Text.Similarity

/-! # Mistakes on the command line -/

namespace CoinLedger

/-- Why a command line is refused. -/
inductive UsageError where
  /-- Nothing is given at all. -/
  | nothingGiven
  /-- There is no such option; some have similar names. -/
  | noSuchOption (name : Text.Raw) (similar : List String)
  /-- An option lacks its value. -/
  | valueMissing (option : String)
  /-- An option that has no value is given one. -/
  | valueUnexpected (option : String)
  /-- There are options and no command. -/
  | commandMissing
  /-- There is no such command; some have similar names. -/
  | noSuchCommand (name : Text.Raw) (similar : List String)
  /-- An argument is missing. -/
  | argumentMissing (name : String)
  /-- A required option is missing. -/
  | optionMissing (name : String)
  /-- There are more arguments than the command takes. -/
  | extraArguments (arguments : List Text.Raw)
  /-- The file that an argument names does not exist. -/
  | fileMissing (argument : String) (path : FileName)
  /-- The file that an argument names is a directory. -/
  | fileIsDirectory (argument : String) (path : FileName)
  /-- An argument has the null character where a file is to be named. -/
  | nullInFileName (argument : String)
  /-- An argument has a code point that has no bytes where a file is to be named. -/
  | illFormedFileName (argument : String)
  /-- A recipient is not written as a public key, a colon and a value. -/
  | malformedRecipient (text : Text.Raw)
  deriving DecidableEq, Repr

namespace UsageError

/-- The question that suggests similar names. -/
def suggestion : List String → String
  | [] => ""
  | [name] => s!" Did you mean {Text.quoted name}?"
  | names => " (Did you mean one of: " ++ ", ".intercalate (names.map Text.quoted) ++ "?)"

/-- The wording of a mistake. Surrogates on their own appear as escapes. -/
def message : UsageError → String
  | nothingGiven => ""
  | noSuchOption name similar => s!"No such option {name.quoted}.{suggestion similar}"
  | valueMissing option => s!"Option {Text.quoted option} requires an argument."
  | valueUnexpected option => s!"Option {Text.quoted option} does not take a value."
  | commandMissing => "Missing command."
  | noSuchCommand name similar => s!"No such command {name.quoted}.{suggestion similar}"
  | argumentMissing name => s!"Missing argument '{name}'."
  | optionMissing name => s!"Missing option '{name}'."
  | extraArguments arguments =>
      let plural := if arguments.length = 1 then "" else "s"
      s!"Got unexpected extra argument{plural} (" ++
        " ".intercalate (arguments.map Text.Raw.escaped) ++ ")"
  | fileMissing argument path =>
      s!"Invalid value for '{argument}': File {Text.quoted path.shown} does not exist."
  | fileIsDirectory argument path =>
      s!"Invalid value for '{argument}': File {Text.quoted path.shown} is a directory."
  | nullInFileName argument => s!"Invalid value for '{argument}': a null character is in it."
  | illFormedFileName argument => s!"Invalid value for '{argument}': it names no file."
  | malformedRecipient text =>
      s!"Invalid value for --output: expected PUBKEY:VALUE, got {text.escaped}"

end UsageError
end CoinLedger

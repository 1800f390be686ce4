import CoinLedger.Command.Usage
import CoinLedger.Text.Split

/-! # Options and arguments

A command line is a list of words. A word that starts with a dash is an option, whose value, if it
takes one, is joined to it by an equals sign or is the next word. A word of two dashes ends the
options.
-/

namespace CoinLedger

/-- An option that a command knows. -/
structure OptionForm where
  name : String
  takesValue : Bool
  deriving DecidableEq, Repr

/-- An option that is given, with its value if it takes one. -/
structure GivenOption where
  name : String
  value : Text.Raw
  deriving DecidableEq, Repr

/-- A command line taken apart. -/
structure Arguments where
  /-- The options, in order. -/
  options : List GivenOption
  /-- The other words, in order. -/
  words : List Text.Raw
  deriving DecidableEq, Repr

namespace Arguments

/-- The arguments with an option in front. -/
def withOption (name : String) (value : Text.Raw) (arguments : Arguments) : Arguments :=
  { arguments with options := ⟨name, value⟩ :: arguments.options }

/-- The arguments with another word in front. -/
def withWord (word : Text.Raw) (arguments : Arguments) : Arguments :=
  { arguments with words := word :: arguments.words }

/-- Whether a word is an option. -/
def isOption (word : Text.Raw) : Bool :=
  match word.points with
  | .character '-' :: _ :: _ => true
  | _ => false

/-- The name of an option, and the value joined to it. -/
def splitOption (word : Text.Raw) : Text.Raw × Option Text.Raw :=
  match Text.splitAtFirst (.character '=') word.points with
  | some (name, value) => (.ofPoints name, some (.ofPoints value))
  | none => (word, none)

/-- The mistake of an option that is not known. After a single dash it is the first letter that is
not known. -/
def unknownOption (forms : List OptionForm) (word : Text.Raw) : UsageError :=
  match word.points with
  | dash :: letter :: _ =>
      if letter = .character '-' then
        let name := (splitOption word).1
        .noSuchOption name (Text.suggestions name.replaced (forms.map OptionForm.name))
      else .noSuchOption (.ofPoints [dash, letter]) []
  | _ => .noSuchOption word []

/-- Take words apart; `awaiting` names an option whose value is the next word. -/
def take (forms : List OptionForm) (mixed : Bool) : (awaiting : Option String) → List Text.Raw →
    Except UsageError Arguments
  | none, [] => .ok ⟨[], []⟩
  | some option, [] => .error (.valueMissing option)
  | some option, value :: rest => (take forms mixed none rest).map (withOption option value)
  | none, word :: rest =>
      if word = .text "--" then .ok ⟨[], rest⟩
      else if isOption word then
        let (name, joined) := splitOption word
        match forms.find? fun form => name = .text form.name with
        | none => .error (unknownOption forms word)
        | some form =>
            match form.takesValue, joined with
            | true, some value => (take forms mixed none rest).map (withOption form.name value)
            | true, none => take forms mixed (some form.name) rest
            | false, some _ => .error (.valueUnexpected form.name)
            | false, none => (take forms mixed none rest).map (withOption form.name "")
      else if mixed then (take forms mixed none rest).map (withWord word)
      else .ok ⟨[], word :: rest⟩

/-- Take a command line apart. Unless options and words may mix, the first word that is no option
ends the options. -/
def ofWords (forms : List OptionForm) (mixed : Bool) (words : List Text.Raw) :
    Except UsageError Arguments :=
  take forms mixed none words

/-- The values of an option, in order. -/
def values (arguments : Arguments) (name : String) : List Text.Raw :=
  (arguments.options.filter fun option => option.name = name).map GivenOption.value

/-- Whether an option is given. -/
def has (arguments : Arguments) (name : String) : Bool :=
  arguments.options.any fun option => option.name = name

/-- The last value of an option. -/
def value? (arguments : Arguments) (name : String) : Option Text.Raw :=
  (arguments.values name).getLast?

end Arguments
end CoinLedger

import CoinLedger.Command.Arguments
import CoinLedger.Workspace

/-! # Commands

What a command line asks for. Files that a command is to read are looked up while the command line
is read, so that a missing one is a mistake on the command line.
-/

namespace CoinLedger

/-- Something to do. -/
inductive Command where
  /-- Make a key pair, from a seed or at random. -/
  | keygen (seed : Option Text.Raw)
  /-- Build and sign a transaction. -/
  | transfer (seed : Text.Raw) (inputs outputs : List Text.Raw)
  /-- Show a transaction. -/
  | decode (text : Text.Raw)
  /-- List the coins that a configuration starts with. -/
  | genesis (configPath : FileName)
  /-- Execute blocks on the chain of a configuration, keeping its state in a directory if one is
  given. -/
  | replay (configPath blocksPath : FileName) (dataDirectory : Option PathName)
  deriving DecidableEq

/-- The name of a command. -/
inductive CommandName where
  | decode
  | genesis
  | keygen
  | replay
  | transfer
  deriving DecidableEq, Repr

namespace CommandName

/-- The commands, in alphabetical order. -/
def all : List CommandName := [decode, genesis, keygen, replay, transfer]

/-- How a command is written. -/
def text : CommandName → String
  | decode => "decode"
  | genesis => "genesis"
  | keygen => "keygen"
  | replay => "replay"
  | transfer => "transfer"

/-- The option that every command knows. -/
def helpForm : OptionForm := ⟨"--help", false⟩

/-- The options that a command knows. -/
def forms : CommandName → List OptionForm
  | decode | genesis => [helpForm]
  | keygen => [⟨"--seed", true⟩, helpForm]
  | replay => [⟨"--data-dir", true⟩, helpForm]
  | transfer => [⟨"--seed", true⟩, ⟨"--input", true⟩, ⟨"--output", true⟩, helpForm]

end CommandName

/-- What a command line asks for. -/
inductive Request where
  /-- The version of the program. -/
  | version
  /-- Help on the program or on a command. -/
  | help (topic : Option CommandName)
  /-- A command, with all log lines or as configured. -/
  | perform (debug : Bool) (command : Command)
  deriving DecidableEq

namespace Request

/-- The options in front of the command. -/
def forms : List OptionForm := [⟨"--debug", false⟩, ⟨"--version", false⟩, CommandName.helpForm]

/-- A text that is present and not empty. -/
def nonempty (text : Option Text.Raw) : Option Text.Raw := text.filter fun text => !text.isEmpty

/-- The file that an argument names. -/
def fileArgument (workspace : Workspace) (name : String) : Option Text.Raw →
    Except UsageError FileName
  | none => .error (.argumentMissing name)
  | some word =>
      match FileName.ofPoints word.points with
      | .error .nullInName => .error (.nullInFileName name)
      | .error _ => .error (.illFormedFileName name)
      | .ok path =>
          match workspace.lookup path with
          | none => .error (.fileMissing name path)
          | some .directory => .error (.fileIsDirectory name path)
          | some _ => .ok path

/-- No more words than a command takes. -/
def noMore : List Text.Raw → Except UsageError Unit
  | [] => .ok ()
  | words => .error (.extraArguments words)

/-- The command of a given name with given arguments. -/
def commandOf (workspace : Workspace) (arguments : Arguments) :
    CommandName → Except UsageError Command
  | .keygen => do
      noMore arguments.words
      pure (.keygen (nonempty (arguments.value? "--seed")))
  | .transfer => do
      let some seed := arguments.value? "--seed" | throw (.optionMissing "--seed")
      if arguments.values "--input" = [] then throw (.optionMissing "--input")
      if arguments.values "--output" = [] then throw (.optionMissing "--output")
      noMore arguments.words
      pure (.transfer seed (arguments.values "--input") (arguments.values "--output"))
  | .decode => do
      let some text := arguments.words.head? | throw (.argumentMissing "TX_HEX")
      noMore (arguments.words.drop 1)
      pure (.decode text)
  | .genesis => do
      let config ← fileArgument workspace "CONFIG_PATH" arguments.words.head?
      noMore (arguments.words.drop 1)
      pure (.genesis config)
  | .replay => do
      let config ← fileArgument workspace "CONFIG_PATH" arguments.words.head?
      let blocks ← fileArgument workspace "BLOCKS_PATH" (arguments.words.drop 1).head?
      noMore (arguments.words.drop 2)
      let directory := nonempty (arguments.value? "--data-dir")
      pure (.replay config blocks (directory.map fun text => .ofPoints text.points))

/-- The request that options in front of the command make at once: the first of those that ask for
the version or for help. -/
def immediate? (arguments : Arguments) : Option Request :=
  arguments.options.findSome? fun option =>
    if option.name = "--version" then some version
    else if option.name = "--help" then some (help none)
    else none

/-- What follows the options in front of the command. -/
def ofCommandWords (workspace : Workspace) (debug : Bool) : List Text.Raw →
    Except UsageError Request
  | [] => .error .commandMissing
  | name :: words =>
      match CommandName.all.find? fun command => name = .text command.text with
      | none => do
          let arguments ← Arguments.ofWords forms false (name :: words)
          match immediate? arguments with
          | some request => pure request
          | none =>
              throw (.noSuchCommand name
                (Text.suggestions name.replaced (CommandName.all.map CommandName.text)))
      | some command => do
          let arguments ← Arguments.ofWords command.forms true words
          if arguments.has "--help" then pure (help (some command))
          else do
            let command ← commandOf workspace arguments command
            pure (perform debug command)

/-- What a command line asks for. -/
def ofWords (workspace : Workspace) (words : List Text.Raw) : Except UsageError Request := do
  if words = [] then throw .nothingGiven
  let arguments ← Arguments.ofWords forms false words
  match immediate? arguments with
  | some request => pure request
  | none => ofCommandWords workspace (arguments.has "--debug") arguments.words

end Request
end CoinLedger

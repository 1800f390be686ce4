import CoinLedger.Command.Basic

/-! # Help on the command line -/

namespace CoinLedger

namespace CommandName

/-- What a command does, in a line. -/
def summary : CommandName → String
  | decode => "Decode a wire transaction to JSON"
  | genesis => "List the genesis outpoints of a config"
  | keygen => "Generate an sr25519 keypair"
  | replay => "Execute a JSON list of blocks against the genesis in CONFIG_PATH"
  | transfer => "Build and sign a transaction, print its wire encoding"

/-- The words that follow the name of a command. -/
def synopsis : CommandName → String
  | decode => "[OPTIONS] TX_HEX"
  | genesis => "[OPTIONS] CONFIG_PATH"
  | keygen => "[OPTIONS]"
  | replay => "[OPTIONS] CONFIG_PATH BLOCKS_PATH"
  | transfer => "[OPTIONS]"

/-- The options of a command, each with its meaning. -/
def optionTexts : CommandName → List (String × String)
  | decode | genesis => []
  | keygen => [("--seed TEXT", "32-byte hex seed (random if omitted)")]
  | replay => [("--data-dir TEXT", "Persist state in DATA_DIR/ledger.db")]
  | transfer =>
      [("--seed TEXT", "Hex seed of the key owning every input  [required]"),
        ("--input TEXT", "Outpoint to spend (hex)  [required]"),
        ("--output TEXT", "PUBKEY:VALUE  [required]")]

end CommandName

namespace Help

/-- The name of the program. -/
def program : String := "cli"

/-- The version of the program. -/
def version : String := "0.1.0"

/-- Lines of two columns, the first as wide as its widest text. -/
def columns (rows : List (String × String)) : List String :=
  let width := (rows.map fun row => row.1.length).foldl max 0
  rows.map fun row =>
    "  " ++ row.1 ++ String.ofList (List.replicate (width - row.1.length + 2) ' ') ++ row.2

/-- The line that says how the program, or a command of it, is called. -/
def usageLine : Option CommandName → String
  | none => s!"Usage: {program} [OPTIONS] COMMAND [ARGS]..."
  | some command => s!"Usage: {program} {command.text} {command.synopsis}"

/-- The option that asks for help. -/
def helpText : String × String := ("--help", "Show this message and exit.")

/-- Help on the program, or on a command of it. -/
def lines : Option CommandName → List String
  | none =>
      [usageLine none, "", "  UTXO ledger - runtime module tooling", "", "Options:"] ++
        columns [("--debug", "Enable debug logging"), ("--version", "Show the version and exit."),
          helpText] ++
        ["", "Commands:"] ++
        columns (CommandName.all.map fun command => (command.text, command.summary))
  | some command =>
      [usageLine (some command), "", "  " ++ command.summary, "", "Options:"] ++
        columns (command.optionTexts ++ [helpText])

/-- What is said about a mistake. -/
def mistakeLines (error : UsageError) : List String :=
  match error with
  | .nothingGiven => lines none
  | _ =>
      [usageLine none, s!"Try '{program} --help' for help.", "", "Error: " ++ error.message]

end Help
end CoinLedger

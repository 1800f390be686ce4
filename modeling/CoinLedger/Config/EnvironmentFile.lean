import CoinLedger.Config.Environment
import CoinLedger.Text.DecimalDigit

/-! # Files of environment variables

A file may set variables that the environment does not have: one on each line, a name, an equals
sign and a value, with comments after a number sign. A value may stand in single or double quotes,
within which it may extend over lines and have escapes. References to other variables are replaced
by their values. A line that does not follow the grammar is passed over.
-/

namespace CoinLedger

namespace EnvironmentFile

/-- A line of a file: the name of a variable and its value, if it gives one. -/
structure Binding where
  name : List Char
  value? : Option (List Char)
  deriving DecidableEq, Repr

/-- Whether a character is a blank; the four ASCII separators are. -/
def isSpace (c : Char) : Bool := Text.isBlank c || (0x1c ≤ c.toNat && c.toNat ≤ 0x1f)

/-- Whether a character is a blank within a line. -/
def isLineSpace (c : Char) : Bool := isSpace c && c != '\n'

/-- Write every end of a line as a line feed. -/
def unifyLines : List Char → List Char
  | [] => []
  | '\r' :: '\n' :: rest => '\n' :: unifyLines rest
  | c :: rest => (if c = '\r' then '\n' else c) :: unifyLines rest

/-- A text without the blanks at its end. -/
def trimEnd (text : List Char) : List Char := (text.reverse.dropWhile isSpace).reverse

/-- The text between quotes, the first of which has been read, and what follows the second. What
stands after a backslash is no quote. -/
def readQuoted (quote : Char) : List Char → Option (List Char × List Char)
  | [] => none
  | '\\' :: c :: rest =>
      (readQuoted quote rest).map fun (value, after) => ('\\' :: c :: value, after)
  | c :: rest =>
      if c = quote then some ([], rest)
      else (readQuoted quote rest).map fun (value, after) => (c :: value, after)

/-- Replace escapes, each of a backslash and a character; `pending` tells that a backslash stands
right before. -/
def unescape (meaning : Char → Option Char) : (pending : Bool) → List Char → List Char
  | pending, [] => if pending then ['\\'] else []
  | true, c :: rest =>
      match meaning c with
      | some meant => meant :: unescape meaning false rest
      | none =>
          if c = '\\' then '\\' :: unescape meaning true rest
          else '\\' :: c :: unescape meaning false rest
  | false, c :: rest =>
      if c = '\\' then unescape meaning true rest else c :: unescape meaning false rest

/-- What an escaped character means between single quotes. -/
def singleEscape : Char → Option Char
  | '\\' => some '\\'
  | '\'' => some '\''
  | _ => none

/-- What an escaped character means between double quotes. -/
def doubleEscape : Char → Option Char
  | '\\' => some '\\'
  | '\'' => some '\''
  | '"' => some '"'
  | 'a' => some '\x07'
  | 'b' => some '\x08'
  | 'f' => some '\x0c'
  | 'n' => some '\n'
  | 'r' => some '\r'
  | 't' => some '\t'
  | 'v' => some '\x0b'
  | _ => none

/-- Cut a text before the first number sign that has a blank before it. -/
def cutComment : (afterBlank : Bool) → List Char → List Char
  | _, [] => []
  | afterBlank, c :: rest =>
      if c = '#' ∧ afterBlank then [] else c :: cutComment (isSpace c) rest

/-- Read a value, and what follows it; `afterBlank` tells that a blank stands right before. -/
def readValue (afterBlank : Bool) : List Char → Option (List Char × List Char)
  | '\'' :: rest =>
      (readQuoted '\'' rest).map fun (value, after) => (unescape singleEscape false value, after)
  | '"' :: rest =>
      (readQuoted '"' rest).map fun (value, after) => (unescape doubleEscape false value, after)
  | text =>
      some (trimEnd (cutComment afterBlank (text.takeWhile (· ≠ '\n'))), text.dropWhile (· ≠ '\n'))

/-- Drop the word that marks a variable as exported, with the blanks after it. -/
def dropExport : List Char → List Char
  | 'e' :: 'x' :: 'p' :: 'o' :: 'r' :: 't' :: c :: rest =>
      if isLineSpace c then rest.dropWhile isLineSpace
      else 'e' :: 'x' :: 'p' :: 'o' :: 'r' :: 't' :: c :: rest
  | text => text

/-- Read the name of a variable, and what follows it. A comment stands for no name. -/
def readName : List Char → Option (Option (List Char) × List Char)
  | '#' :: rest => some (none, '#' :: rest)
  | '\'' :: rest =>
      match rest.takeWhile (· ≠ '\''), rest.dropWhile (· ≠ '\'') with
      | c :: name, _ :: after => some (some (c :: name), after)
      | _, _ => none
  | text =>
      let inName (c : Char) : Bool := c != '=' && c != '#' && !isSpace c
      match text.takeWhile inName with
      | [] => none
      | c :: name => some (some (c :: name), text.dropWhile inName)

/-- Read the end of a line, before which there may be a comment. -/
def readLineEnd (text : List Char) : Option (List Char) :=
  let text := text.dropWhile isLineSpace
  let text :=
    match text with
    | '#' :: rest => rest.dropWhile (· ≠ '\n')
    | _ => text
  match text with
  | [] => some []
  | '\n' :: rest => some rest
  | _ => none

/-- The line at the front of a text, and what follows it. The result tells how far the reading came
where the line does not follow the grammar. -/
def readLine (text : List Char) : Except (List Char) (Option Binding × List Char) :=
  let text := dropExport text
  match readName text with
  | none => .error text
  | some (name, rest) =>
      let rest := rest.dropWhile isLineSpace
      match rest with
      | '=' :: more =>
          let value := more.dropWhile isLineSpace
          match readValue (value.length < more.length) value with
          | none => .error value
          | some (value, rest) =>
              match readLineEnd rest with
              | none => .error rest
              | some rest => .ok (name.map fun name => { name, value? := some value }, rest)
      | _ =>
          match readLineEnd rest with
          | none => .error rest
          | some rest => .ok (name.map fun name => { name, value? := none }, rest)

/-- Drop the rest of a line. -/
def dropLine (text : List Char) : List Char := (text.dropWhile (· ≠ '\n')).drop 1

/-- Read lines. Each takes at least one character, so there are at most as many as characters. -/
def readLines : (fuel : Nat) → List Char → List Binding
  | 0, _ => []
  | fuel + 1, text =>
      match text.dropWhile isSpace with
      | [] => []
      | text =>
          match readLine text with
          | .ok (some binding, rest) => binding :: readLines fuel rest
          | .ok (none, rest) => readLines fuel rest
          | .error rest => readLines fuel (dropLine rest)

/-- Drop a byte order mark in front. -/
def dropByteOrderMark : List Char → List Char
  | '\ufeff' :: rest => rest
  | text => text

/-- The variables that a file sets, in order. -/
def bindings (text : String) : List Binding :=
  let characters := unifyLines (dropByteOrderMark text.toList)
  readLines (characters.length + 1) characters

/-- A reference to a variable: its name, and the value to take where there is no such variable. -/
structure Reference where
  name : List Char
  default : List Char
  deriving DecidableEq, Repr

/-- The reference at the front of a text, and how many characters it takes. -/
def reference? : List Char → Option (Reference × Nat)
  | '$' :: '{' :: rest =>
      let name := rest.takeWhile fun c => c ≠ '}' ∧ c ≠ ':'
      match rest.drop name.length with
      | '}' :: _ => some ({ name, default := [] }, name.length + 3)
      | ':' :: '-' :: more =>
          let default := more.takeWhile (· ≠ '}')
          if (more.drop default.length).isEmpty then none
          else some ({ name, default }, name.length + default.length + 5)
      | _ => none
  | _ => none

/-- The names to which a text refers. -/
def referencedNames : List Char → List (List Char)
  | [] => []
  | c :: rest =>
      match reference? (c :: rest) with
      | some (reference, _) => reference.name :: referencedNames rest
      | none => referencedNames rest

/-- The names of all variables on which the meaning of a file depends. -/
def namesIn (text : String) : List String :=
  (bindings text).flatMap fun binding =>
    (binding.name :: referencedNames (binding.value?.getD [])).map String.ofList

/-- Replace references by what they mean. Characters of a reference that has been replaced are
skipped. -/
def expand (meaning : Reference → List Text.CodePoint) :
    (skipped : Nat) → List Char → List Text.CodePoint
  | _, [] => []
  | skipped + 1, _ :: rest => expand meaning skipped rest
  | 0, c :: rest =>
      match reference? (c :: rest) with
      | some (reference, size) => meaning reference ++ expand meaning (size - 1) rest
      | none => .character c :: expand meaning 0 rest

/-- Variables that are set, the latest first. One may be named without a value. -/
abbrev Settings := List (String × Option (List Text.CodePoint))

/-- What a reference means: the value in the environment, else the value set by the lines read
before, where a name without a value stands for an empty one, else the default. -/
def meaningOf (environment : Environment) (set : Settings) (reference : Reference) :
    List Text.CodePoint :=
  let name := String.ofList reference.name
  match environment.lookup (.text name) with
  | some value => value.points
  | none =>
      match set.lookup name with
      | some (some value) => value
      | some none => []
      | none => reference.default.map Text.CodePoint.character

/-- The values that bindings set after those that are set already. -/
def resolve (environment : Environment) (set : Settings) : List Binding → Settings
  | [] => set
  | binding :: rest =>
      let value := binding.value?.map (expand (meaningOf environment set) 0)
      resolve environment ((String.ofList binding.name, value) :: set) rest

end EnvironmentFile

/-- The environment to which a file adds the variables that it does not have. Of several values in
the file the last one counts. -/
def Environment.extendedBy (environment : Environment) (file : String) :
    Except VariableFault Environment :=
  let set := EnvironmentFile.resolve environment [] (EnvironmentFile.bindings file)
  set.foldlM (fun extended (name, _) =>
    match environment.lookup (.text name), (set.lookup name).join with
    | none, some value => extended.set (.text name) (.ofPoints value)
    | _, _ => .ok extended) environment

end CoinLedger

import CoinLedger.FileName
import CoinLedger.Text.Hex
import CoinLedger.Text.Split

/-! # Addresses of tables

A table is addressed by the path of its file. An address with the mark `file:` in front has more
parts: the path, options after a question mark and a remark after a number sign. In path and options
a percent sign with two hexadecimal digits stands for a byte; the byte zero hides the rest of the
name, the value or the path that it is in. Options say how the file is opened and guarded. A table
whose path is empty, or that is to be in memory, is kept nowhere.
-/

namespace CoinLedger

-- Powers are those of the core library, also where others are in scope.
attribute [local instance (high)] instPowNat

/-- How the file of a table is opened. -/
inductive TableMode where
  /-- An existing file, which does not change. -/
  | readOnly
  /-- An existing file. -/
  | readWrite
  /-- A file that is made if it does not exist. -/
  | create
  /-- No file at all. -/
  | memory
  deriving DecidableEq, Repr

namespace TableMode

/-- What a mode allows: a later option may not ask for more. -/
def allowance : TableMode → Nat
  | readOnly => 1
  | readWrite => 2
  | create => 6
  | memory => 128

/-- What a mode asks for. -/
def demand : TableMode → Nat
  | memory => 0
  | mode => mode.allowance

/-- The mode of a name. -/
def ofName? (name : ByteString) : Option TableMode :=
  if name = FileName.ofText "ro" then some readOnly
  else if name = FileName.ofText "rw" then some readWrite
  else if name = FileName.ofText "rwc" then some create
  else if name = FileName.ofText "memory" then some memory
  else none

end TableMode

/-- What stands between a table and the file system. Layers differ in how a table is guarded against
others who use it. -/
inductive TableLayer where
  /-- Ranges of its file are locked, and those who use it share an index. -/
  | ranges
  /-- Ranges of its file are locked for as long as it is open, with an index of its own. -/
  | exclusive
  /-- A file stands beside it as a lock. -/
  | lockFile
  /-- Nothing guards it. -/
  | unguarded
  /-- It is in memory. -/
  | memory
  deriving DecidableEq, Repr

namespace TableLayer

/-- The layer of a name. -/
def ofName? (name : ByteString) : Option TableLayer :=
  if name = FileName.ofText "unix" then some ranges
  else if name = FileName.ofText "unix-excl" then some exclusive
  else if name = FileName.ofText "unix-dotfile" then some lockFile
  else if name = FileName.ofText "unix-none" then some unguarded
  else if name = FileName.ofText "memdb" then some memory
  else none

/-- Whether ranges of a file are locked. -/
def locksRanges : TableLayer → Bool
  | ranges | exclusive => true
  | _ => false

end TableLayer

/-- How the file of a table is opened and guarded. -/
structure TableOptions where
  mode : TableMode
  layer : TableLayer
  /-- Whether the file is locked at all. -/
  locking : Bool
  /-- Whether the file is trusted not to change. It is not written to, and what stands beside it
  does not matter. -/
  unchanging : Bool
  /-- Whether the index may only be read. -/
  indexReadOnly : Bool
  /-- A path at which something has to exist: a new file takes its permissions from there. -/
  likeness? : Option FileName
  deriving DecidableEq, Repr

namespace TableOptions

/-- The options of an address that has none. -/
def plain : TableOptions :=
  { mode := .create, layer := .ranges, locking := true, unchanging := false, indexReadOnly := false,
    likeness? := none }

/-- Whether changes may gather in a log. -/
def mayLog (options : TableOptions) : Bool :=
  options.locking && !options.unchanging && options.layer.locksRanges

/-- Whether those who use the table share an index in a file. A file that is only read cannot be
locked for one user alone. -/
def sharesIndex (options : TableOptions) : Bool :=
  options.layer = .ranges || options.mode = .readOnly

/-- Whether a user can announce a change to others. -/
def mayReserve (options : TableOptions) : Bool :=
  options.mode ≠ .readOnly || !options.locking || !options.layer.locksRanges

/-- Whether a journal that is left is played back. Who locks with a file beside the table takes its
own lock for the sign that the change is still under way. -/
def playsBack (options : TableOptions) : Bool := !(options.locking && options.layer = .lockFile)

end TableOptions

/-- What an address names. -/
inductive TableAddress where
  /-- A table in a file. -/
  | file (path : FileName) (options : TableOptions)
  /-- A table that is kept nowhere. -/
  | transient
  deriving DecidableEq, Repr

/-- Why an address names nothing. -/
inductive AddressFault where
  /-- An option has a value that is not known. -/
  | unknown (value : ByteString)
  /-- The options ask for what they do not allow. -/
  | contradictory
  deriving DecidableEq, Repr

namespace TableAddress

/-- The byte of an ASCII character. -/
def mark (c : Char) : UInt8 := UInt8.ofNat c.toNat

/-- Replace percent signs with the bytes that they stand for. -/
def unescaped : ByteString → ByteString
  | [] => []
  | [byte] => [byte]
  | [first, second] => [first, second]
  | sign :: high :: low :: rest =>
      match Hex.digitValue (Char.ofNat high.toNat), Hex.digitValue (Char.ofNat low.toNat) with
      | some a, some b =>
          if sign ≠ mark '%' then sign :: unescaped (high :: low :: rest)
          else if a = 0 ∧ b = 0 then []
          else UInt8.ofNat (16 * a + b) :: unescaped rest
      | _, _ => sign :: unescaped (high :: low :: rest)

/-- The options between ampersands, each a name and a value. One without a name is none. -/
def optionsOf (query : ByteString) : List (ByteString × ByteString) :=
  (Text.pieces (mark '&') query).filterMap fun piece =>
    let (name, value) := (Text.splitAtFirst (mark '=') piece).getD (piece, [])
    if unescaped name = [] then none else some (unescaped name, unescaped value)

/-- How a table is opened as far as options have been read: the mode, and the name of the layer. -/
structure Opening where
  mode : TableMode
  layer : ByteString
  deriving DecidableEq, Repr

/-- Follow an option. There is nothing to do for one that is not known. -/
def Opening.follow (opening : Opening) (option : ByteString × ByteString) :
    Except AddressFault Opening :=
  let (name, value) := option
  if name = FileName.ofText "mode" then
    match TableMode.ofName? value with
    | none => .error (.unknown value)
    | some mode =>
        if mode.demand ≤ opening.mode.allowance then .ok { opening with mode }
        else .error .contradictory
  else if name = FileName.ofText "cache" then
    if value = FileName.ofText "shared" ∨ value = FileName.ofText "private" then .ok opening
    else .error (.unknown value)
  else if name = FileName.ofText "vfs" then .ok { opening with layer := value }
  else .ok opening

/-- The number that the digits in front of bytes stand for. One of more than ten digits that count,
or of 2^31 or more, is read as zero. -/
def leadingNumber (bytes : ByteString) : Nat :=
  let numeral := bytes.takeWhile fun byte => mark '0' ≤ byte && byte ≤ mark '9'
  let digits := numeral.dropWhile (· = mark '0')
  let value := digits.foldl (fun value byte => 10 * value + (byte.toNat - '0'.toNat)) 0
  if digits.length ≤ 10 ∧ value < 2 ^ (31 : Nat) then value else 0

/-- The number that a hexadecimal numeral of at most eight digits that count stands for, `0x` having
been read. One of 2^31 or more is read as zero. -/
def hexadecimalNumber (bytes : ByteString) : Nat :=
  let digitOf (byte : UInt8) : Option Nat := Hex.digitValue (Char.ofNat byte.toNat)
  let digits := (bytes.takeWhile fun byte => (digitOf byte).isSome).dropWhile (· = mark '0')
  let value := digits.foldl (fun value byte => 16 * value + (digitOf byte).getD 0) 0
  if digits.length ≤ 8 ∧ value < 2 ^ (31 : Nat) then value else 0

/-- The number in front of the value of an option. -/
def numberOf : ByteString → Nat
  | first :: second :: third :: rest =>
      let marked := first = mark '0' ∧ (second = mark 'x' ∨ second = mark 'X')
      if marked ∧ (Hex.digitValue (Char.ofNat third.toNat)).isSome then
        hexadecimalNumber (third :: rest)
      else leadingNumber (first :: second :: third :: rest)
  | bytes => leadingNumber bytes

/-- Whether the value of an option says yes: by a number that is not zero in its last byte, or by a
word in letters of any case. -/
def saysYes (value : ByteString) : Bool :=
  match value with
  | first :: _ =>
      if mark '0' ≤ first ∧ first ≤ mark '9' then numberOf value % 256 ≠ 0
      else
        let lower := value.map fun byte =>
          if mark 'A' ≤ byte ∧ byte ≤ mark 'Z' then byte + 32 else byte
        ["on", "yes", "true"].any fun word => lower = FileName.ofText word
  | [] => false

/-- Whether the first option of a name says yes. -/
def isOn (options : List (ByteString × ByteString)) (name : String) : Bool :=
  ((options.lookup (FileName.ofText name)).map saysYes).getD false

/-- What the part of an address before the remark names. -/
def ofParts (path query : ByteString) : Except AddressFault TableAddress := do
  let path := unescaped path
  let options := optionsOf query
  let opening ← options.foldlM Opening.follow ⟨.create, FileName.ofText "unix"⟩
  let unchanging := isOn options "immutable"
  match TableLayer.ofName? opening.layer with
  | none => throw (.unknown opening.layer)
  | some layer =>
      if opening.mode = .memory then return transient
      else if path = [] ∨ path = FileName.ofText ":memory:" then
        if opening.mode = .readOnly then throw .contradictory else return transient
      else if layer = .memory then
        if opening.mode = .readOnly ∨ unchanging then throw .contradictory else return transient
      else
        return file path
          { mode := opening.mode, layer, locking := !isOn options "nolock", unchanging,
            indexReadOnly := isOn options "readonly_shm",
            likeness? := options.lookup (FileName.ofText "modeof") }

/-- What an address names, unless its options contradict one another or say something unknown. -/
def ofBytes (address : ByteString) : Except AddressFault TableAddress :=
  if (FileName.ofText "file:").isPrefixOf address then
    let parts := (address.drop 5).takeWhile (· ≠ mark '#')
    let (path, query) := (Text.splitAtFirst (mark '?') parts).getD (parts, [])
    ofParts path query
  else .ok (file address .plain)

end TableAddress
end CoinLedger

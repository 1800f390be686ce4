import CoinLedger.Bytes
import CoinLedger.Text.Raw

/-! # Names of files

A file system names its entries by bytes, which need not be the encoding of a text. A byte that is
no part of a character stands in a text as a surrogate of its own, one of U+DC80 to U+DCFF, so that
every name has a text and the text gives the name back.
-/

namespace CoinLedger

-- Powers are those of the core library, also where others are in scope.
attribute [local instance (high)] instPowNat

/-- The name of an entry of a file system, or several with slashes between them. -/
abbrev FileName := ByteString

namespace FileName

/-- The bytes of a code point. -/
def pointBytes? : Text.CodePoint → Option ByteString
  | .character c => some (String.utf8EncodeChar c)
  | .surrogate unit =>
      if 0xdc80 ≤ unit ∧ unit < 0xdd00 then some [UInt8.ofNat (unit - 0xdc00)] else none

/-- The name that code points spell, unless one of them has no bytes. -/
def ofPoints? (points : List Text.CodePoint) : Option FileName :=
  (points.mapM pointBytes?).map List.flatten

/-- The name of a text of characters. -/
def ofText (text : String) : FileName := text.toUTF8.toList

/-- A piece of a name. -/
inductive Piece where
  | character (c : Char)
  /-- Bytes that begin no character, or begin one that breaks off. -/
  | stray (bytes : ByteString)
  deriving DecidableEq, Repr

/-- A character of which the first bytes have been read. -/
structure Opening where
  /-- The bytes read, in reverse. -/
  reversed : ByteString
  /-- What they contribute to the character. -/
  value : Nat
  /-- How many bytes are to come. -/
  remaining : Nat
  /-- The least byte that may come next. -/
  least : UInt8
  /-- The greatest byte that may come next. -/
  greatest : UInt8

/-- What the first byte of a character of several bytes opens. -/
def opening? (byte : UInt8) : Option Opening :=
  let bits (width : Nat) : Nat := byte.toNat % 2 ^ width
  if 0xc2 ≤ byte ∧ byte ≤ 0xdf then some ⟨[byte], bits 5, 1, 0x80, 0xbf⟩
  else if 0xe0 ≤ byte ∧ byte ≤ 0xef then
    some ⟨[byte], bits 4, 2, if byte = 0xe0 then 0xa0 else 0x80, if byte = 0xed then 0x9f else 0xbf⟩
  else if 0xf0 ≤ byte ∧ byte ≤ 0xf4 then
    some ⟨[byte], bits 3, 3, if byte = 0xf0 then 0x90 else 0x80, if byte = 0xf4 then 0x8f else 0xbf⟩
  else none

/-- The pieces of a name, the first bytes of a character having been read or none. -/
def piecesFrom : Option Opening → FileName → List Piece
  | none, [] => []
  | some opening, [] => [.stray opening.reversed.reverse]
  | none, byte :: rest =>
      if byte < 0x80 then .character (Char.ofNat byte.toNat) :: piecesFrom none rest
      else
        match opening? byte with
        | some opening => piecesFrom (some opening) rest
        | none => .stray [byte] :: piecesFrom none rest
  | some opening, byte :: rest =>
      if opening.least ≤ byte ∧ byte ≤ opening.greatest then
        let value := opening.value * 64 + byte.toNat % 64
        if opening.remaining = 1 then .character (Char.ofNat value) :: piecesFrom none rest
        else
          piecesFrom
            (some ⟨byte :: opening.reversed, value, opening.remaining - 1, 0x80, 0xbf⟩) rest
      else
        .stray opening.reversed.reverse ::
          if byte < 0x80 then .character (Char.ofNat byte.toNat) :: piecesFrom none rest
          else
            match opening? byte with
            | some opening => piecesFrom (some opening) rest
            | none => .stray [byte] :: piecesFrom none rest

/-- The pieces of a name. -/
def pieces (name : FileName) : List Piece := piecesFrom none name

/-- The code points of a piece. -/
def Piece.points : Piece → List Text.CodePoint
  | character c => [.character c]
  | stray bytes => bytes.map fun byte => .surrogate (0xdc00 + byte.toNat)

/-- The text of a name. -/
def toRaw (name : FileName) : Text.Raw := .ofPoints (name.pieces.flatMap Piece.points)

/-- Whether a name is the encoding of a text. -/
def isText (name : FileName) : Bool :=
  name.pieces.all fun
    | .character _ => true
    | .stray _ => false

/-- A name as a message shows it, with the replacement character for each stray piece. -/
def shown (name : FileName) : String :=
  String.ofList (name.pieces.map fun
    | .character c => c
    | .stray _ => '\ufffd')

end FileName
end CoinLedger

import CoinLedger.Bytes

/-! # Hexadecimal text

Byte strings are written as `0x` and two lower-case digits for each byte. Reading is more liberal:
the mark may be absent or upper case, digits may be of either case, and ASCII blanks may stand
between pairs of digits but not inside one.
-/

namespace CoinLedger.Hex

/-- The lower-case digit of a number below sixteen. -/
def digitOf (value : Nat) : Char := Nat.digitChar (value % 16)

/-- The two digits of each byte. -/
def digits : ByteString → List Char
  | [] => []
  | byte :: rest => digitOf (byte.toNat / 16) :: digitOf byte.toNat :: digits rest

/-- The digits of a byte string, without a mark. -/
def encodeBare (bytes : ByteString) : String := String.ofList (digits bytes)

/-- The text of a byte string. -/
def encode (bytes : ByteString) : String := String.ofList ('0' :: 'x' :: digits bytes)

/-- The first characters of the text of a byte string, for log lines. A negative length leaves out
that many characters at the end. -/
def abbreviate (bytes : ByteString) (length : Int) : String :=
  let text := '0' :: 'x' :: digits bytes
  let kept := if length < 0 then text.length - length.natAbs else length.toNat
  String.ofList (text.take kept) ++ "..."

/-- The first ten characters of the text of a byte string, for log lines. -/
def short (bytes : ByteString) : String := abbreviate bytes 10

/-- The value of a digit of either case. -/
def digitValue (c : Char) : Option Nat :=
  if '0' ≤ c ∧ c ≤ '9' then some (c.toNat - '0'.toNat)
  else if 'a' ≤ c ∧ c ≤ 'f' then some (c.toNat - 'a'.toNat + 10)
  else if 'A' ≤ c ∧ c ≤ 'F' then some (c.toNat - 'A'.toNat + 10)
  else none

/-- The blanks that may stand between pairs: space, tab, line feed, vertical tab, form feed and
carriage return. -/
def isBlank (c : Char) : Bool := c = ' ' || ('\t' ≤ c && c ≤ '\r')

/-- Why a text is not hexadecimal: the position of the first character that is out of place. -/
structure Malformed where
  position : Nat
  deriving DecidableEq, Repr

/-- The wording of a hexadecimal error. -/
def Malformed.message (error : Malformed) : String :=
  s!"non-hexadecimal number found in fromhex() arg at position {error.position}"

/-- Read pairs of digits from a given position on. -/
def readPairs : (position : Nat) → List Char → Except Malformed ByteString
  | _, [] => .ok []
  | position, c :: rest =>
      if isBlank c then readPairs (position + 1) rest
      else
        match digitValue c, rest with
        | none, _ => .error ⟨position⟩
        | some _, [] => .error ⟨position + 1⟩
        | some high, d :: rest =>
            match digitValue d with
            | none => .error ⟨position + 1⟩
            | some low => do
                let bytes ← readPairs (position + 2) rest
                pure (UInt8.ofNat (16 * high + low) :: bytes)

/-- Drop a mark at the front. -/
def dropMark : List Char → List Char
  | '0' :: 'x' :: rest => rest
  | '0' :: 'X' :: rest => rest
  | text => text

/-- Read a text without a mark. A character outside ASCII is reported before anything else. -/
def decodeBare (text : List Char) : Except Malformed ByteString :=
  match text.findIdx? (fun c => 128 ≤ c.toNat) with
  | some position => .error ⟨position⟩
  | none => readPairs 0 text

/-- Read a text. Positions in an error count from after the mark. -/
def decode (text : String) : Except Malformed ByteString := decodeBare (dropMark text.toList)

/-- The text of a byte string is a mark and its digits. -/
theorem encode_eq (bytes : ByteString) : encode bytes = "0x" ++ encodeBare bytes := by
  apply String.toList_injective
  simp [encode, encodeBare]

/-- The digit that is written for a value is read as the value. -/
theorem digitValue_digitOf (value : Nat) : digitValue (digitOf value) = some (value % 16) := by
  have every : ∀ digit < 16, digitValue (Nat.digitChar digit) = some digit := by decide
  exact every _ (Nat.mod_lt _ (by decide))

theorem isBlank_digitOf (value : Nat) : isBlank (digitOf value) = false := by
  have every : ∀ digit < 16, isBlank (Nat.digitChar digit) = false := by decide
  exact every _ (Nat.mod_lt _ (by decide))

theorem digitOf_lt (value : Nat) : (digitOf value).toNat < 128 := by
  have every : ∀ digit < 16, (Nat.digitChar digit).toNat < 128 := by decide
  exact every _ (Nat.mod_lt _ (by decide))

/-- Bytes are written in ASCII. -/
theorem lt_of_mem_digits {c : Char} {bytes : ByteString} (member : c ∈ digits bytes) :
    c.toNat < 128 := by
  induction bytes with
  | nil => cases member
  | cons byte rest inductive_step =>
      simp only [digits, List.mem_cons] at member
      rcases member with same | same | inside
      · exact same ▸ digitOf_lt _
      · exact same ▸ digitOf_lt _
      · exact inductive_step inside

/-- The digits of bytes read back as the bytes. -/
theorem readPairs_digits (position : Nat) (bytes : ByteString) :
    readPairs position (digits bytes) = .ok bytes := by
  induction bytes generalizing position with
  | nil => rfl
  | cons byte rest inductive_step =>
      have small := byte.toNat_lt
      have joined : 16 * (byte.toNat / 16 % 16) + byte.toNat % 16 = byte.toNat := by omega
      rw [digits, readPairs.eq_4 _ _ _ _ _ (digitValue_digitOf _), isBlank_digitOf,
        digitValue_digitOf, inductive_step]
      simp [bind, Except.bind, pure, Except.pure, joined]

/-- The text of bytes reads back as the bytes. -/
theorem decode_encode (bytes : ByteString) : decode (encode bytes) = .ok bytes := by
  have ascii : (digits bytes).findIdx? (fun c => 128 ≤ c.toNat) = none := by
    rw [List.findIdx?_eq_none_iff]
    intro c member
    simpa using lt_of_mem_digits member
  rw [decode, encode, String.toList_ofList, dropMark, decodeBare, ascii]
  exact readPairs_digits 0 bytes

end CoinLedger.Hex

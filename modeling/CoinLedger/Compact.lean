import CoinLedger.Cursor

/-! # Compact integers

A compact integer takes one, two or four bytes when it is below `2 ^ 6`, `2 ^ 14` or `2 ^ 30`, and
otherwise a length byte and its minimal little-endian bytes. The two low bits of the first byte tell
the forms apart.
-/

namespace CoinLedger.Compact

-- Powers are those of the core library, also where others are in scope.
attribute [local instance (high)] instPowNat

/-- The largest integer that has a compact form. -/
def max : Nat := 2 ^ (536 : Nat) - 1

/-- The compact form of an integer. -/
def encode (value : Nat) : ByteString :=
  if value < 2 ^ (6 : Nat) then littleEndian 1 (4 * value)
  else if value < 2 ^ (14 : Nat) then littleEndian 2 (4 * value + 1)
  else if value < 2 ^ (30 : Nat) then littleEndian 4 (4 * value + 2)
  else
    littleEndian 1 (4 * (byteLength value - 4) + 3) ++ littleEndian (byteLength value) value

/-- The compact integer at the start of a byte string, and the number of bytes it takes. -/
def decode (data : ByteString) : Except DecodeError (Nat × Nat) :=
  let (outcome, cursor) := Decoder.compact (Cursor.ofBytes data)
  outcome.map fun value => (value, cursor.offset.toNat)

end CoinLedger.Compact

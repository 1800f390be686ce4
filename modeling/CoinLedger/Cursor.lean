import CoinLedger.Bytes

/-! # Reading encoded bytes

A cursor walks over a byte string from front to back. Each read checks that the bytes it needs are
there and leaves the cursor where it is if they are not; a value that spans several reads may stop
after some of them. Compact integers have one accepted form, the shortest. A cursor can also be
moved back, even before the first byte, from where places count from the end.
-/

namespace CoinLedger

/-- Why bytes are not the encoding of a value. -/
inductive DecodeError where
  /-- Fewer bytes remain than a read needs. -/
  | endOfInput (needed : Nat) (offset : Int) (remaining : Nat)
  /-- A read from before the first byte found too few bytes. -/
  | beforeInput
  /-- An integer is not written in its shortest form. -/
  | nonCanonical (value : Nat)
  /-- Bytes are left over after the value. -/
  | trailing (remaining : Nat)
  deriving DecidableEq, Repr

/-- The wording of a decoding error. -/
def DecodeError.message : DecodeError → String
  | endOfInput needed offset remaining =>
      s!"Unexpected end of input: need {needed} bytes at offset {offset}, have {remaining}"
  | beforeInput => "a read from before the first byte found too few bytes"
  | nonCanonical value => s!"Non-canonical compact encoding of {value}"
  | trailing remaining => s!"{remaining} trailing bytes after value"

/-- The position that a place stands for among a number of items: places below zero count from the
end. -/
def positionOf (count : Nat) (place : Int) : Nat :=
  if place < 0 then (count + place).toNat else place.toNat

/-- The items from one place up to another. -/
def slice {α : Type} (items : List α) (start stop : Int) : List α :=
  (items.take (positionOf items.length stop)).drop (positionOf items.length start)

/-- A position in a byte string. -/
structure Cursor where
  /-- The whole byte string. -/
  data : ByteString
  /-- The number of bytes behind the position; less than zero before the first byte. -/
  offset : Int
  /-- The bytes ahead. -/
  ahead : ByteString
  /-- They are those that are not behind the position. -/
  ahead_eq : ahead = data.drop offset.toNat
  deriving DecidableEq

namespace Cursor

/-- The cursor before the first byte. -/
def ofBytes (data : ByteString) : Cursor := ⟨data, 0, data, rfl⟩

/-- The cursor at another position of the same byte string. -/
def moveTo (cursor : Cursor) (offset : Int) : Cursor :=
  ⟨cursor.data, offset, cursor.data.drop offset.toNat, rfl⟩

/-- The cursor after some more bytes. -/
def advance (cursor : Cursor) (size : Nat) : Cursor :=
  if inside : 0 ≤ cursor.offset then
    { cursor with
      offset := cursor.offset + size
      ahead := cursor.ahead.drop size
      ahead_eq := by
        rw [cursor.ahead_eq, List.drop_drop]
        congr 1
        omega }
  else cursor.moveTo (cursor.offset + size)

/-- The number of bytes from the position to the end. -/
def remaining (cursor : Cursor) : Nat := (cursor.data.length - cursor.offset).toNat

/-- The next bytes, if there are as many as asked for. -/
def next? (cursor : Cursor) (size : Nat) : Option ByteString :=
  if 0 ≤ cursor.offset then
    let chunk := cursor.ahead.take size
    if chunk.length = size then some chunk else none
  else if size ≤ cursor.remaining then
    some (slice cursor.data cursor.offset (cursor.offset + size))
  else none

end Cursor

/-- A reading step. Its cursor is returned also when it fails. -/
def Decoder (α : Type) : Type := Cursor → Except DecodeError α × Cursor

namespace Decoder

-- Powers are those of the core library, also where others are in scope.
attribute [local instance (high)] instPowNat

variable {α β : Type}

/-- Read nothing and give a value. -/
def succeed (value : α) : Decoder α := fun cursor => (.ok value, cursor)

/-- Continue with a step that depends on the value read, unless there is none. -/
def andThen (first : Decoder α) (next : α → Decoder β) : Decoder β := fun cursor =>
  match first cursor with
  | (.ok value, moved) => next value moved
  | (.error error, moved) => (.error error, moved)

instance : Monad Decoder where
  pure := succeed
  bind := andThen

/-- Stop with an error. -/
def fail (error : DecodeError) : Decoder α := fun cursor => (.error error, cursor)

/-- Read `size` bytes. From before the first byte there may be fewer. -/
def take (size : Nat) : Decoder ByteString := fun cursor =>
  match cursor.next? size with
  | some chunk => (.ok chunk, cursor.advance size)
  | none => (.error (.endOfInput size cursor.offset cursor.remaining), cursor)

/-- Move back by a number of bytes. What is read are the bytes between the two places, of which
there are some only when the second counts from the end. -/
def back (distance : Nat) : Decoder ByteString := fun cursor =>
  let place := cursor.offset - distance
  (.ok (slice cursor.data cursor.offset place), cursor.moveTo place)

/-- Read exactly `size` bytes. -/
def fixed (size : Nat) : Decoder (FixedBytes size) := do
  let chunk ← take size
  match FixedBytes.ofBytes? size chunk with
  | some bytes => pure bytes
  | none => fail .beforeInput

/-- Read one byte. -/
def byte : Decoder UInt8 := do
  match ← take 1 with
  | head :: _ => pure head
  | [] => fail .beforeInput

/-- Read an unsigned little-endian integer of `width` bytes. -/
def unsigned (width : Nat) : Decoder Nat := do
  let chunk ← take width
  pure (ofLittleEndian chunk)

/-- Accept a compact integer unless a shorter form would have held it. -/
def canonical (value : Nat) (shortest : Bool) : Decoder Nat :=
  if shortest then pure value else fail (.nonCanonical value)

/-- Read a compact integer. The two low bits of the first byte tell how many bytes follow. -/
def compact : Decoder Nat := do
  let head := (← byte).toNat
  match head % 4 with
  | 0 => pure (head / 4)
  | 1 =>
      let tail ← unsigned 1
      let value := (head + 256 * tail) / 4
      canonical value (2 ^ (6 : Nat) ≤ value)
  | 2 =>
      let tail ← unsigned 3
      let value := (head + 256 * tail) / 4
      canonical value (2 ^ (14 : Nat) ≤ value)
  | _ =>
      let chunk ← take (head / 4 + 4)
      let value := ofLittleEndian chunk
      canonical value (2 ^ (30 : Nat) ≤ value ∧ chunk.getLast? ≠ some 0)

/-- Refuse bytes that are left over. -/
def finish : Decoder Unit := fun cursor =>
  if cursor.remaining = 0 then (.ok (), cursor) else (.error (.trailing cursor.remaining), cursor)

/-- Read a given number of values, one after another. -/
def repeated (item : Decoder α) : (count : Nat) → Decoder (List α)
  | 0 => pure []
  | count + 1 => do
      let head ← item
      let tail ← repeated item count
      pure (head :: tail)

/-- Read a value that takes up a whole byte string. -/
def whole (decoder : Decoder α) (data : ByteString) : Except DecodeError α :=
  let complete : Decoder α := do
    let value ← decoder
    finish
    pure value
  (complete (Cursor.ofBytes data)).1

end Decoder

/-- A step of a script that reads a byte string piece by piece. -/
inductive ReadStep where
  /-- Read some bytes, or move back by some where the size is less than zero. -/
  | bytes (size : Int)
  | u64
  | u128
  | compact
  | finish
  | remaining
  deriving DecidableEq

/-- What a reading step answers. -/
inductive ReadAnswer where
  | bytes (chunk : ByteString)
  | number (value : Nat)
  | done
  deriving DecidableEq

/-- Perform one step of a script. -/
def ReadStep.perform : ReadStep → Decoder ReadAnswer
  | bytes size => do
      return .bytes (← if size < 0 then Decoder.back size.natAbs else Decoder.take size.toNat)
  | u64 => do return .number (← Decoder.unsigned 8)
  | u128 => do return .number (← Decoder.unsigned 16)
  | compact => do return .number (← Decoder.compact)
  | finish => do Decoder.finish; return .done
  | remaining => fun cursor => (.ok (.number cursor.remaining), cursor)

/-- Perform a script, which goes on after a failing step, and give each answer with the cursor
after it. -/
def ReadStep.performAll : List ReadStep → Cursor →
    List (Except DecodeError ReadAnswer × Cursor)
  | [], _ => []
  | step :: steps, cursor =>
      let answered := step.perform cursor
      answered :: performAll steps answered.2

end CoinLedger

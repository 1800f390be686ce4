import CoinLedger.Crypto.Keccak

/-! # Merlin transcripts

A transcript collects labelled messages and answers labelled challenges that depend on everything
collected so far. It is the Merlin construction: the STROBE-128 duplex over Keccak-f[1600], of which
only associated data, metadata and pseudorandom output are needed.
-/

namespace CoinLedger

/-- A duplex sponge in the middle of an operation. -/
structure Duplex where
  /-- The permutation state. -/
  lanes : Keccak.State
  /-- The next byte of the rate to be used. -/
  position : Nat
  /-- Where the current operation began, counted from one; zero if in an earlier block. -/
  start : Nat

namespace Duplex

/-- The number of bytes that are absorbed between two permutations. -/
def rate : Nat := 166

/-- Add a byte into the state. -/
def xorByte (lanes : Keccak.State) (position : Nat) (byte : UInt8) : Keccak.State :=
  let index : Fin 25 := ⟨position / 8 % 25, by omega⟩
  lanes.set index (lanes[index] ^^^ (byte.toUInt64 <<< UInt64.ofNat (8 * (position % 8))))

/-- The byte of the state at a position. -/
def byteAt (lanes : Keccak.State) (position : Nat) : UInt8 :=
  let index : Fin 25 := ⟨position / 8 % 25, by omega⟩
  (lanes[index] >>> UInt64.ofNat (8 * (position % 8))).toUInt8

/-- Close the current block: mark where its operation began, pad, and permute. -/
def permute (duplex : Duplex) : Duplex :=
  let lanes := xorByte duplex.lanes duplex.position (UInt8.ofNat duplex.start)
  let lanes := xorByte lanes (duplex.position + 1) 0x04
  let lanes := xorByte lanes (rate + 1) 0x80
  { lanes := Keccak.permute lanes, position := 0, start := 0 }

/-- Move to the next byte of the rate, closing the block after the last one. -/
def advance (duplex : Duplex) : Duplex :=
  let moved := { duplex with position := duplex.position + 1 }
  if moved.position = rate then permute moved else moved

/-- Absorb one byte. -/
def absorbByte (duplex : Duplex) (byte : UInt8) : Duplex :=
  advance { duplex with lanes := xorByte duplex.lanes duplex.position byte }

/-- Absorb a byte string. -/
def absorb (duplex : Duplex) (bytes : ByteString) : Duplex :=
  bytes.foldl absorbByte duplex

/-- Squeeze `count` bytes, erasing each from the state. -/
def squeeze : (count : Nat) → Duplex → ByteString × Duplex
  | 0, duplex => ([], duplex)
  | count + 1, duplex =>
      let byte := byteAt duplex.lanes duplex.position
      let erased := { duplex with lanes := xorByte duplex.lanes duplex.position byte }
      let (rest, final) := squeeze count (advance erased)
      (byte :: rest, final)

/-- The operations of the duplex, which are told apart by their flags. -/
inductive Operation where
  /-- Data that both parties know. -/
  | associatedData
  /-- Framing of the operation that follows. -/
  | metadata
  /-- Output that depends on everything absorbed. -/
  | pseudorandom

/-- The flag byte of an operation. -/
def Operation.flags : Operation → UInt8
  | associatedData => 0x02
  | metadata => 0x12
  | pseudorandom => 0x07

/-- Begin a new operation. Output operations start on a fresh block. -/
def begin (duplex : Duplex) (operation : Operation) : Duplex :=
  let previous := duplex.start
  let begun := { duplex with start := duplex.position + 1 }
  let framed := absorb begun [UInt8.ofNat previous, operation.flags]
  match operation with
  | .pseudorandom => if framed.position = 0 then framed else permute framed
  | _ => framed

/-- The duplex for a named protocol. -/
def ofProtocol (label : ByteString) : Duplex :=
  let header := [1, 168, 1, 0, 1, 96] ++ "STROBEv1.0.2".toUTF8.toList
  let lanes := Keccak.permute (Keccak.ofBytes header)
  absorb (begin { lanes, position := 0, start := 0 } .metadata) label

end Duplex

/-- A transcript of labelled messages. -/
structure Transcript where
  duplex : Duplex

namespace Transcript

/-- Frame an operation on `length` bytes with its label. -/
def frame (duplex : Duplex) (label : ByteString) (length : Nat) : Duplex :=
  let labelled := (duplex.begin .metadata).absorb label
  labelled.absorb (littleEndian 4 length)

/-- Append a labelled message. -/
def append (transcript : Transcript) (label : String) (message : ByteString) : Transcript :=
  let framed := frame transcript.duplex label.toUTF8.toList message.length
  ⟨(framed.begin .associatedData).absorb message⟩

/-- Draw `count` challenge bytes under a label. -/
def challenge (transcript : Transcript) (label : String) (count : Nat) : ByteString × Transcript :=
  let framed := frame transcript.duplex label.toUTF8.toList count
  let (bytes, duplex) := (framed.begin .pseudorandom).squeeze count
  (bytes, ⟨duplex⟩)

/-- The empty transcript of a named application. -/
def ofLabel (label : String) : Transcript :=
  append ⟨Duplex.ofProtocol "Merlin v1.0".toUTF8.toList⟩ "dom-sep" label.toUTF8.toList

end Transcript
end CoinLedger

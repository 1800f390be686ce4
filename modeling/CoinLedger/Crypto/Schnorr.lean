import CoinLedger.Crypto.Ristretto
import CoinLedger.Crypto.Sha512
import CoinLedger.Crypto.Transcript
import CoinLedger.Identifier

/-! # sr25519 signatures

Schnorr signatures over ristretto255 whose challenges come from a Merlin transcript under the
signing context `substrate`. A signature is the encoding of a commitment followed by a scalar whose
top bit is set as a marker.
-/

namespace CoinLedger

-- Powers are those of the core library, also where others are in scope.
attribute [local instance (high)] instPowNat

namespace Schnorr

/-- The order of the group. -/
def order : Nat := 2 ^ (252 : Nat) + 27742317777372353535851937790883648493

/-- A secret key expanded from a seed. -/
structure KeyPair where
  /-- The seed that the pair was expanded from. -/
  seed : Seed
  /-- The secret scalar. -/
  scalar : Nat
  /-- Secret bytes that make commitments unpredictable. -/
  nonce : FixedBytes 32
  /-- The encoding of the scalar's multiple of the base point. -/
  publicKey : PublicKey

/-- Expand a seed: hash it, clamp the first half as for Ed25519 and divide it by the cofactor. -/
def KeyPair.ofSeed (seed : Seed) : KeyPair :=
  let hash := (Sha512.digest seed.bytes).bytes
  let half := ofLittleEndian (hash.take 32)
  let clamped := half % 2 ^ (254 : Nat) / 8 * 8 + 2 ^ (254 : Nat)
  let scalar := clamped / 8
  { seed, scalar
    nonce := FixedBytes.truncate 32 (hash.drop 32)
    publicKey := (CurvePoint.base.multiple 256 scalar).encode }

/-- The secret scalar followed by the secret nonce bytes. -/
def KeyPair.secretBytes (pair : KeyPair) : ByteString :=
  littleEndian 32 pair.scalar ++ pair.nonce.bytes

/-- The transcript of a message under the signing context, for a signer. -/
def messageTranscript (message : ByteString) (signer : PublicKey) : Transcript :=
  let context := (Transcript.ofLabel "SigningContext").append "" "substrate".toUTF8.toList
  let contextual := context.append "sign-bytes" message
  let named := contextual.append "proto-name" "Schnorr-sig".toUTF8.toList
  named.append "sign:pk" signer.bytes

/-- The challenge scalar for a commitment. -/
def challengeScalar (transcript : Transcript) (commitment : ByteString) : Nat :=
  let committed := transcript.append "sign:R" commitment
  ofLittleEndian (committed.challenge "sign:c" 64).1 % order

/-- Sign a message. The commitment is drawn from the message, the secret nonce bytes and random
bytes. -/
def sign (pair : KeyPair) (message : ByteString) (entropy : Entropy) : Signature :=
  let transcript := messageTranscript message pair.publicKey
  let keyed := transcript.append "signing" pair.nonce.bytes
  let witness := (keyed.append "rng" entropy.bytes).challenge "witness" 64
  let secret := ofLittleEndian witness.1 % order
  let commitment := (CurvePoint.base.multiple 256 secret).encode
  let challenge := challengeScalar transcript commitment.bytes
  let answer := (challenge * pair.scalar + secret) % order
  ⟨commitment.bytes ++ littleEndian 32 (answer + 2 ^ (255 : Nat)), by
    simp only [List.length_append, commitment.length_bytes, littleEndian_length]⟩

/-- Check a signature: it carries the marker, its scalar is reduced, the public key encodes a group
element, and the commitment that the scalar answers for is the one that it names. -/
def verify (signature : Signature) (message : ByteString) (signer : PublicKey) : Bool :=
  let commitment := signature.bytes.take 32
  let marked := ofLittleEndian (signature.bytes.drop 32)
  let answer := marked % 2 ^ (255 : Nat)
  if marked < 2 ^ (255 : Nat) ∨ order ≤ answer then false
  else
    match CurvePoint.decode? signer with
    | none => false
    | some point =>
        let challenge := challengeScalar (messageTranscript message signer) commitment
        let expected := (CurvePoint.base.multiple 256 answer).add
          (point.neg.multiple 256 challenge)
        expected.encode.bytes == commitment

end Schnorr

/-- The sr25519 signature scheme. -/
def sr25519 : SignatureScheme where
  Pair := Schnorr.KeyPair
  ofSeed := Schnorr.KeyPair.ofSeed
  publicKey := Schnorr.KeyPair.publicKey
  sign := Schnorr.sign
  verify := Schnorr.verify

end CoinLedger

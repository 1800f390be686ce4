import CoinLedger.Bytes

/-! # Identifiers and the primitives behind them

Coins are named by 32-byte digests, owners by 32-byte public keys. The hash function and the
signature scheme are parameters: no rule of the ledger depends on which ones are in use.
-/

namespace CoinLedger

/-- A 32-byte hash value. -/
abbrev Digest := FixedBytes 32

/-- The name of a coin: the digest under which it is stored. -/
abbrev Outpoint := FixedBytes 32

/-- The public key of a coin's owner. -/
abbrev PublicKey := FixedBytes 32

/-- A signature by the owner of a coin. -/
abbrev Signature := FixedBytes 64

/-- A secret from which a signing key is expanded. -/
abbrev Seed := FixedBytes 32

/-- Random bytes that one signature is made with. -/
abbrev Entropy := FixedBytes 32

/-- The hash function that names coins. -/
class CoinHash where
  /-- The digest of a byte string. -/
  digest : ByteString → Digest

/-- Decides whether a signature over a message was made by the owner of a public key. -/
abbrev Verifier := Signature → ByteString → PublicKey → Bool

/-- A signature scheme: keys expanded from seeds, signing, and verification. -/
structure SignatureScheme where
  /-- A signing key together with its public key. -/
  Pair : Type
  /-- The pair expanded from a seed. -/
  ofSeed : Seed → Pair
  /-- The public key of a pair. -/
  publicKey : Pair → PublicKey
  /-- A signature over a message. Signatures that are made with different random bytes may
  differ. -/
  sign : Pair → ByteString → (entropy : Entropy := FixedBytes.zero 32) → Signature
  /-- The verdict on a signature. -/
  verify : Verifier

/-- Every signature verifies under the public key of the pair that made it, whatever random bytes it
was made with. -/
def SignatureScheme.Correct (scheme : SignatureScheme) : Prop :=
  ∀ (pair : scheme.Pair) (message : ByteString) (entropy : Entropy),
    scheme.verify (scheme.sign pair message entropy) message (scheme.publicKey pair) = true

end CoinLedger

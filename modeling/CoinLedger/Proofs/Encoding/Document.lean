import CoinLedger.Proofs.Encoding.Transaction
import CoinLedger.Proofs.Steps
import CoinLedger.Transaction.Document

/-! # Transactions are read back from their text forms

A document of a transaction is read as that transaction, also if it has other members
(`CoinLedger.Transaction.ofDocument_eq_ok`), and so is the hexadecimal text of a transaction that
can be written (`CoinLedger.Transaction.ofHex_toHex`).
-/

namespace CoinLedger

theorem Loose.toFixedBytes_bytes (name : String) {size : Nat} (value : FixedBytes size) :
    (Loose.bytes value.bytes).toFixedBytes name size = .ok value :=
  dif_pos value.length_bytes

theorem Input.ofLoose_bytes (input : Input) :
    ofLoose (.bytes input.outpoint.bytes) (.bytes input.signature.bytes) = .ok input := by
  rw [ofLoose, Loose.toFixedBytes_bytes, Loose.toFixedBytes_bytes]
  rfl

/-- An output is built from its value and the bytes of its owner. -/
theorem Output.ofLoose_bytes (output : Output) :
    ofLoose (.integer output.value.toNat) (.bytes output.owner.bytes) = .ok output := by
  have value : Amount.ofInt "value" output.value.toNat = .ok output.value :=
    Amount.ofInt_eq_ok_iff.mpr rfl
  rw [ofLoose, Loose.toFixedBytes_bytes]
  dsimp only
  rw [value]
  rfl

/-- The hexadecimal text of bytes is read as the bytes. -/
theorem Document.bytes_encode (data : ByteString) :
    Document.bytes (.string (Hex.encode data)) = .ok data := by
  rw [Document.bytes, Hex.decode_encode]
  rfl

/-- Hexadecimal text is never empty: it has a mark. -/
theorem Document.not_isVacant_encode (data : ByteString) :
    (Json.string (Hex.encode data)).isVacant = false := by
  simp [Json.isVacant, Hex.encode]

/-- The document of an input is read as the input. -/
theorem Input.ofDocument_toDocument (input : Input) : ofDocument input.toDocument = .ok input := by
  let members : List (Text.Raw × Json) :=
    [("outpoint", .string (Hex.encode input.outpoint.bytes)),
      ("sigscript", .string (Hex.encode input.signature.bytes))]
  have outpoint : Document.required "outpoint" (.object members) =
      .ok (.string (Hex.encode input.outpoint.bytes)) := rfl
  have signature : Json.member? members "sigscript" =
      some (.string (Hex.encode input.signature.bytes)) := rfl
  simp only [ofDocument, bind_eq_ok_iff]
  refine ⟨members, rfl, _, outpoint, _, Document.bytes_encode _, ?_⟩
  rw [signature]
  dsimp only
  rw [Document.not_isVacant_encode, if_neg Bool.false_ne_true, Document.bytes_encode]
  exact congrArg DocumentError.ofInvalid input.ofLoose_bytes

/-- The document of an output is read as the output. -/
theorem Output.ofDocument_toDocument (output : Output) :
    ofDocument output.toDocument = .ok output := by
  have value :
      Document.required "value" output.toDocument = .ok (.natural output.value.toNat) := rfl
  have owner : Document.required "pubkey" output.toDocument =
      .ok (.string (Hex.encode output.owner.bytes)) := rfl
  simp only [ofDocument, bind_eq_ok_iff]
  refine ⟨_, value, output.value.toNat, rfl, _, owner, _, Document.bytes_encode _, ?_⟩
  exact congrArg DocumentError.ofInvalid output.ofLoose_bytes

namespace Transaction

/-- **A document with the inputs and the outputs of a transaction is read as the transaction**,
whatever other members it has. -/
theorem ofDocument_eq_ok {tx : Transaction} {members : List (Text.Raw × Json)}
    (inputs : Json.member? members "inputs" = some (.array (tx.inputs.map Input.toDocument)))
    (outputs : Json.member? members "outputs" = some (.array (tx.outputs.map Output.toDocument))) :
    ofDocument (.object members) = .ok tx := by
  have readInputs : (tx.inputs.map Input.toDocument).mapM Input.ofDocument = .ok tx.inputs := by
    rw [mapM_eq_ok_iff, List.forall₂_map_left_iff]
    exact List.forall₂_same.mpr fun input _ => input.ofDocument_toDocument
  have readOutputs :
      (tx.outputs.map Output.toDocument).mapM Output.ofDocument = .ok tx.outputs := by
    rw [mapM_eq_ok_iff, List.forall₂_map_left_iff]
    exact List.forall₂_same.mpr fun output _ => output.ofDocument_toDocument
  simp only [ofDocument, bind_eq_ok_iff]
  refine ⟨members, rfl, tx.inputs.map Input.toDocument, ?_, tx.inputs, readInputs,
    tx.outputs.map Output.toDocument, ?_, tx.outputs, readOutputs, rfl⟩
  · rw [inputs]
    rfl
  · rw [outputs]
    rfl

/-- **The document of a transaction is read as the transaction.** -/
theorem ofDocument_toDocument (tx : Transaction) : ofDocument tx.toDocument = .ok tx :=
  ofDocument_eq_ok rfl rfl

/-- **The hexadecimal text of a transaction is read as the transaction.** -/
theorem ofHex_toHex {tx : Transaction} (writable : tx.Writable) : ofHex tx.toHex = .ok tx := by
  have read : decode tx.encode = .ok tx := decode_eq_ok_iff.mpr ⟨writable, rfl⟩
  rw [ofHex, toHex, Hex.decode_encode]
  change DocumentError.ofDecode (decode tx.encode) = _
  rw [read]
  rfl

end Transaction
end CoinLedger

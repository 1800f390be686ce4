import CoinLedger.Command.Report
import CoinLedger.Crypto.Blake2b
import CoinLedger.Proofs.Command.Work
import CoinLedger.Proofs.Encoding.Document
import CoinLedger.Proofs.Encoding.IndentedText
import CoinLedger.Proofs.Encoding.Keys

/-! # The text forms of a transaction

A transaction is given as hexadecimal text, as its document, or as the document with its identifier
and the keys of its outputs that is printed on demand. All of them are read as the transaction
(`CoinLedger.Transaction.Spelling.read`), and a text that is read is the hexadecimal form of what it
is read as (`CoinLedger.Transaction.ofHex_cases`).
-/

namespace CoinLedger

open Json

/-- Hexadecimal text is plain. -/
theorem Json.plain_encode (depth : Nat) (bytes : ByteString) :
    Plain depth (.string (Hex.encode bytes)) :=
  .string (TableFile.unescaped_of_mem_encode bytes)

/-- An amount is plain. -/
theorem Amount.plain (depth : Nat) (amount : Amount) : Plain depth (.natural amount.toNat) := by
  have digits : (Nat.toDigits 10 amount.toNat).length ≤ 39 :=
    (Nat.length_toDigits_le_iff (by decide) (by decide)).mpr
      (Nat.lt_of_lt_of_le amount.toNat_lt (by decide))
  exact .natural (Nat.le_trans digits (by decide))

theorem Input.plain_toDocument (depth : Nat) (input : Input) :
    Plain (depth + 1) input.toDocument := by
  refine .object (by decide : PlainNames ["outpoint", "sigscript"]) ?_
  simp [plain_encode]

theorem Output.plain_toDocument (depth : Nat) (output : Output) :
    Plain (depth + 1) output.toDocument := by
  refine .object (by decide : PlainNames ["value", "pubkey"]) ?_
  simp [plain_encode, output.value.plain]

namespace Transaction

section

variable [CoinHash] {tx : Transaction} {document : Json}

/-- The detailed document is made exactly when the outputs have keys. -/
theorem toDetailedDocument_eq_ok_iff :
    tx.toDetailedDocument = .ok document ↔ ∃ keys, tx.outputKeys = .ok keys ∧
      document = .object [("inputs", .array (tx.inputs.map Input.toDocument)),
        ("outputs", .array (tx.outputs.map Output.toDocument)),
        ("tx_hash", .string (Hex.encode tx.id.bytes)),
        ("output_keys", .array (keys.map fun key => .string (Hex.encode key.bytes)))] := by
  rw [toDetailedDocument, bind_eq_ok_iff]
  refine exists_congr fun keys => and_congr_right fun _ => ?_
  exact ⟨fun same => (Except.ok.inj same).symm, fun same => congrArg Except.ok same.symm⟩

/-- The detailed document is plain. -/
theorem plain_toDetailedDocument (shown : tx.toDetailedDocument = .ok document) (depth : Nat) :
    Plain (depth + 3) document := by
  obtain ⟨keys, _, rfl⟩ := toDetailedDocument_eq_ok_iff.mp shown
  refine .object (by decide : PlainNames ["inputs", "outputs", "tx_hash", "output_keys"]) ?_
  simp only [List.forall_mem_cons, List.not_mem_nil]
  refine ⟨.array ?_, .array ?_, plain_encode _ _, .array ?_, fun _ => False.elim⟩
  · exact List.forall_mem_map.mpr fun input _ => input.plain_toDocument depth
  · exact List.forall_mem_map.mpr fun output _ => output.plain_toDocument depth
  · exact List.forall_mem_map.mpr fun key _ => plain_encode _ key.bytes

/-- **The detailed document of a transaction is read as the transaction.** -/
theorem ofDocument_of_detailed (shown : tx.toDetailedDocument = .ok document) :
    ofDocument document = .ok tx := by
  obtain ⟨keys, _, rfl⟩ := toDetailedDocument_eq_ok_iff.mp shown
  exact ofDocument_eq_ok rfl rfl

/-- A transaction whose outputs have positions has a detailed document. -/
theorem exists_toDetailedDocument (few : tx.outputs.length ≤ 2 ^ 64) :
    ∃ document, tx.toDetailedDocument = .ok document :=
  ⟨_, toDetailedDocument_eq_ok_iff.mpr ⟨_, outputKeys_eq_ok_iff.mpr ⟨.inr few, rfl⟩, rfl⟩⟩

variable (tx) in
/-- The forms in which an entry of a block gives a transaction. -/
inductive Spelling : Json → Prop where
  /-- The hexadecimal text. -/
  | hexadecimal (writable : tx.Writable) : Spelling (.string tx.toHex)
  /-- The document. -/
  | document : Spelling tx.toDocument
  /-- The document with the identifier and the keys of the outputs. -/
  | detailed {document : Json} (shown : tx.toDetailedDocument = .ok document) : Spelling document

/-- **Every spelling of a transaction is read as the transaction.** -/
theorem Spelling.read (spelling : tx.Spelling document) : ofEntry document = .ok tx := by
  cases spelling with
  | hexadecimal writable => exact ofHex_toHex writable
  | document => exact tx.ofDocument_toDocument
  | detailed shown =>
      have read := ofDocument_of_detailed shown
      obtain ⟨keys, _, rfl⟩ := toDetailedDocument_eq_ok_iff.mp shown
      exact read

end

end Transaction

/-- What a text is refused for that is to be the hexadecimal form of a transaction: it is no such
text, or its bytes are no encoding. -/
def DocumentError.OfText : DocumentError → Prop
  | .illFormedText | .malformedHex _ => True
  | .malformedBytes reason => reason ≠ .beforeInput
  | _ => False

namespace Transaction

/-- **A text is refused, or the bytes that it spells are the encoding of what it is read as.** -/
theorem ofHex_cases (text : String) :
    (∃ error, ofHex text = .error error ∧ error.OfText) ∨
      ∃ tx, ofHex text = .ok tx ∧ Hex.decode text = .ok tx.encode := by
  unfold ofHex
  cases spelled : Hex.decode text with
  | error reason => exact .inl ⟨_, rfl, trivial⟩
  | ok data =>
      rcases Classical.em (∃ tx : Transaction, tx.Writable ∧ tx.encode = data) with
        ⟨tx, written⟩ | foreign
      · refine .inr ⟨tx, ?_, congrArg Except.ok written.2.symm⟩
        change DocumentError.ofDecode (decode data) = _
        rw [decode_eq_ok_iff.mpr written]
        rfl
      · obtain ⟨error, refused, other⟩ :=
          decode_refuses fun tx writable encoded => foreign ⟨tx, writable, encoded⟩
        refine .inl ⟨.malformedBytes error, ?_, other⟩
        change DocumentError.ofDecode (decode data) = _
        rw [refused]
        rfl

section

variable [CoinHash]

/-- Decoding on demand prints the document with the identifier and the keys. -/
theorem run_decode {tx : Transaction} (writable : tx.Writable) {document : Json}
    (shown : tx.toDetailedDocument = .ok document) (scheme : SignatureScheme)
    (surroundings : Surroundings) (debug : Bool) (progress : Progress) :
    (Command.perform scheme surroundings debug (.decode tx.toHex)).run progress =
      (.ok (), { progress with
        output := progress.output ++ (document.indentedLines 0).map .printed }) := by
  have lines : Command.transactionLines tx.toHex = .ok (document.indentedLines 0) := by
    rw [Command.transactionLines, Text.Raw.replaced, ofHex_toHex writable]
    dsimp only
    rw [shown]
  exact Stepwise.run_bind_ok (Work.run_lift_ok lines) Work.print

/-- What is printed for a transaction is shown as it is, and parsed as its document. -/
theorem parse_printed {tx : Transaction} {document : Json}
    (shown : tx.toDetailedDocument = .ok document) (time : String) :
    Json.parse (String.join (((document.indentedLines 0).map OutputLine.printed).map
      fun line => line.render time ++ "\n")) = .ok document := by
  have plain : Plain maxDepth document := plain_toDetailedDocument shown 977
  have same : ((document.indentedLines 0).map OutputLine.printed).map
      (fun line => line.render time ++ "\n") = (document.indentedLines 0).map (· ++ "\n") := by
    rw [List.map_map]
    refine List.map_congr_left fun line listed => ?_
    exact congrArg (· ++ "\n") (withoutControls_indentedLines plain listed)
  rw [same]
  exact parse_indentedLines plain

/-- **The text forms of a transaction are faithful.** A transaction is read back from its
hexadecimal text and from its document. If its outputs can be numbered, decoding its hexadecimal
text on demand prints a text that is parsed as a document, which has other members besides and is
read as the transaction. So a block is the same whichever of these forms each of its entries has.
And any text whatever is refused as no hexadecimal text or as no encoding, or it is read as a
transaction whose encoding is what the text spells. -/
theorem text_forms_are_faithful :
    (∀ tx : Transaction, tx.Writable → ofHex tx.toHex = .ok tx) ∧
    (∀ tx : Transaction, ofDocument tx.toDocument = .ok tx) ∧
    (∀ tx : Transaction, tx.Writable → tx.outputs.length ≤ 2 ^ 64 →
      ∀ (scheme : SignatureScheme) (surroundings : Surroundings) (debug : Bool)
        (progress : Progress), ∃ (printed : List OutputLine) (document : Json),
          (Command.perform scheme surroundings debug (.decode tx.toHex)).run progress =
            (.ok (), { progress with output := progress.output ++ printed }) ∧
          Json.parse (String.join (printed.map fun line =>
            line.render surroundings.time ++ "\n")) = .ok document ∧
          tx.toDetailedDocument = .ok document ∧ ofDocument document = .ok tx) ∧
    (∀ (entries : List Json) (txs : List Transaction),
      List.Forall₂ (fun entry tx => tx.Spelling entry) entries txs →
        blockOfDocument (.array entries) = .ok txs) ∧
    ∀ raw : Text.Raw,
      (∃ error, ofEntry (Json.ofRaw raw) = .error error ∧ error.OfText) ∨
        ∃ text tx, raw = .text text ∧ ofEntry (Json.ofRaw raw) = .ok tx ∧
          Hex.decode text = .ok tx.encode := by
  refine ⟨fun tx => ofHex_toHex, ofDocument_toDocument, ?_, ?_, ?_⟩
  · intro tx writable few scheme surroundings debug progress
    obtain ⟨document, shown⟩ := exists_toDetailedDocument few
    exact ⟨_, document, run_decode writable shown scheme surroundings debug progress,
      parse_printed shown surroundings.time, shown, ofDocument_of_detailed shown⟩
  · intro entries txs spelled
    exact mapM_eq_ok_iff.mpr (spelled.imp fun _ _ spelling => spelling.read)
  · rintro (text | points)
    · rcases ofHex_cases text with refused | ⟨tx, read, encoded⟩
      · exact .inl refused
      · exact .inr ⟨text, tx, rfl, read, encoded⟩
    · exact .inl ⟨.illFormedText, rfl, trivial⟩

end

/-- A transaction with an empty signature is given in all three forms in one block. -/
theorem block_of_all_forms :
    let tx : Transaction :=
      ⟨[⟨FixedBytes.zero 32, emptySignature⟩], [⟨⟨7, by decide⟩, FixedBytes.zero 32⟩]⟩
    tx.Writable ∧ ∃ document, tx.toDetailedDocument = .ok document ∧
      blockOfDocument (.array [.string tx.toHex, tx.toDocument, document]) = .ok [tx, tx, tx] := by
  intro tx
  have writable : tx.Writable := by
    constructor
    · exact Compact.le_max_iff.mpr (Nat.one_lt_pow (by decide) (by decide))
    · exact Compact.le_max_iff.mpr (Nat.one_lt_pow (by decide) (by decide))
  obtain ⟨_, _, _, blocks, _⟩ := text_forms_are_faithful
  obtain ⟨document, shown⟩ := @exists_toDetailedDocument _ tx (by decide)
  exact ⟨writable, document, shown, blocks _ _ (.cons (.hexadecimal writable)
    (.cons .document (.cons (.detailed shown) .nil)))⟩

end Transaction
end CoinLedger

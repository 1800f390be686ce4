import CoinLedger.Proofs.Encoding.TextForms
import CoinLedger.Proofs.Signing.Transfer
import CoinLedger.Proofs.Text.Hex

/-! # Transfers on the command line

The arguments of a transfer are texts: a seed and outpoints in hexadecimal, and recipients that are
each a key, a colon and an integer. If they spell something, there is a transaction made of what
they spell, signed by the pair of the seed (`CoinLedger.Command.TransferTexts.exists_transaction`).
The transfer prints its hexadecimal text, and this text can be handed to the command that decodes,
whose lines tell everything that was asked for (`CoinLedger.Command.transfer_then_decode`).
-/

namespace CoinLedger

namespace Text

variable {α : Type} [DecidableEq α]

/-- A text without the mark is not split. -/
theorem splitAtLast_of_not_mem {mark : α} {text : List α} (absent : mark ∉ text) :
    splitAtLast mark text = none := by
  induction text with
  | nil => rfl
  | cons c rest inductive_step =>
      have different : c ≠ mark := fun same => absent (same ▸ List.mem_cons_self)
      rw [splitAtLast, inductive_step fun member => absent (List.mem_cons_of_mem _ member)]
      exact if_neg different

/-- A text is split at the mark that no other follows. -/
theorem splitAtLast_append {mark : α} (before : List α) {after : List α} (absent : mark ∉ after) :
    splitAtLast mark (before ++ mark :: after) = some (before, after) := by
  induction before with
  | nil =>
      rw [List.nil_append, splitAtLast, splitAtLast_of_not_mem absent]
      exact if_pos rfl
  | cons c before inductive_step => rw [List.cons_append, splitAtLast, inductive_step]

end Text

namespace Arguments

/-- A word that is no option is an argument. -/
theorem take_word (forms : List OptionForm) {word : Text.Raw} (plain : isOption word = false)
    (rest : List Text.Raw) :
    take forms true none (word :: rest) = (take forms true none rest).map (withWord word) := by
  have other : word ≠ .text "--" := by
    rintro rfl
    cases plain
  rw [take, if_neg other, plain]
  rfl

/-- An option of a transfer that takes a value is taken with the next word. -/
theorem take_option {name : String} (known : name ∈ ["--seed", "--input", "--output"])
    (value : Text.Raw) (rest : List Text.Raw) :
    take CommandName.transfer.forms true none (.text name :: value :: rest) =
      (take CommandName.transfer.forms true none rest).map (withOption name value) := by
  simp only [List.mem_cons, List.not_mem_nil, or_false] at known
  obtain rfl | rfl | rfl := known <;> rfl

/-- An option that is given once for each of some values, and then other words. -/
theorem take_options {name : String} (known : name ∈ ["--seed", "--input", "--output"])
    (values rest : List Text.Raw) :
    take CommandName.transfer.forms true none
        (values.flatMap (fun value => [.text name, value]) ++ rest) =
      (take CommandName.transfer.forms true none rest).map fun arguments =>
        { arguments with options := values.map (GivenOption.mk name) ++ arguments.options } := by
  induction values with
  | nil =>
      rw [List.flatMap_nil, List.nil_append]
      cases take CommandName.transfer.forms true none rest <;> rfl
  | cons value values inductive_step =>
      rw [List.flatMap_cons, List.append_assoc, List.cons_append, List.singleton_append,
        take_option known, inductive_step]
      cases take CommandName.transfer.forms true none rest <;> rfl

theorem values_append (first second : List GivenOption) (words : List Text.Raw) (name : String) :
    values ⟨first ++ second, words⟩ name =
      values ⟨first, words⟩ name ++ values ⟨second, words⟩ name := by
  rw [values, List.filter_append, List.map_append]
  rfl

/-- An option has the values that it is given, and another has none of them. -/
theorem values_map (given : List Text.Raw) (words : List Text.Raw) (name other : String) :
    values ⟨given.map (GivenOption.mk name), words⟩ other = if name = other then given else [] := by
  by_cases same : name = other <;> simp [values, List.filter_map, Function.comp_def, same]

theorem has_eq_false {arguments : Arguments} {name : String} (none : arguments.values name = []) :
    arguments.has name = false := by
  rw [values, List.map_eq_nil_iff, List.filter_eq_nil_iff] at none
  exact List.any_eq_false.mpr none

end Arguments

namespace Request

/-- Words ask for a command. -/
def Asks (workspace : Workspace) (words : List Text.Raw) (command : Command) : Prop :=
  ∃ debug, ofWords workspace words = .ok (.perform debug command)

/-- The name of a command and its arguments ask for it. -/
theorem asks_of_command {workspace : Workspace} {name : CommandName} {words : List Text.Raw}
    {arguments : Arguments} {command : Command}
    (taken : Arguments.ofWords name.forms true words = .ok arguments)
    (helpless : arguments.has "--help" = false)
    (made : commandOf workspace arguments name = .ok command) :
    Asks workspace (.text name.text :: words) command := by
  have front : Arguments.ofWords forms false (.text name.text :: words) =
      .ok ⟨[], .text name.text :: words⟩ := by
    cases name <;> rfl
  have named : (CommandName.all.find? fun command =>
      Text.Raw.text name.text = .text command.text) = some name := by
    cases name <;> decide
  refine ⟨false, ?_⟩
  rw [ofWords, if_neg (List.cons_ne_nil _ _)]
  refine bind_eq_ok_iff.mpr ⟨_, front, ?_⟩
  change ofCommandWords workspace false (.text name.text :: words) = _
  rw [ofCommandWords, named]
  refine bind_eq_ok_iff.mpr ⟨arguments, taken, ?_⟩
  rw [helpless]
  exact bind_eq_ok_iff.mpr ⟨command, made, rfl⟩

/-- The words for a transfer, with one option after another. -/
def transferWords (seed : Text.Raw) (inputs outputs : List Text.Raw) : List Text.Raw :=
  .text "transfer" :: .text "--seed" :: seed ::
    (inputs.flatMap (fun input => [.text "--input", input]) ++
      outputs.flatMap fun output => [.text "--output", output])

/-- The words for a transfer ask for it. -/
theorem asks_transferWords {seed : Text.Raw} {inputs outputs : List Text.Raw}
    (spends : inputs ≠ []) (pays : outputs ≠ []) (workspace : Workspace) :
    Asks workspace (transferWords seed inputs outputs) (.transfer seed inputs outputs) := by
  let arguments : Arguments := ⟨[seed].map (GivenOption.mk "--seed") ++
    (inputs.map (GivenOption.mk "--input") ++ outputs.map (GivenOption.mk "--output")), []⟩
  have taken : Arguments.ofWords CommandName.transfer.forms true
      (.text "--seed" :: seed :: (inputs.flatMap (fun input => [.text "--input", input]) ++
        outputs.flatMap fun output => [.text "--output", output])) = .ok arguments := by
    have last := Arguments.take_options (List.mem_of_getLast? rfl : "--output" ∈ _) outputs []
    rw [List.append_nil] at last
    rw [Arguments.ofWords, Arguments.take_option (by decide), Arguments.take_options (by decide),
      last]
    simp only [Arguments.take, Except.map, Arguments.withOption, List.append_nil, arguments,
      List.map_cons, List.map_nil, List.cons_append, List.nil_append]
  have values (name : String) : arguments.values name =
      (if "--seed" = name then [seed] else []) ++
        ((if "--input" = name then inputs else []) ++
          if "--output" = name then outputs else []) := by
    rw [Arguments.values_append, Arguments.values_append, Arguments.values_map,
      Arguments.values_map, Arguments.values_map]
  have given : arguments.value? "--seed" = some seed ∧ arguments.values "--input" = inputs ∧
      arguments.values "--output" = outputs := by
    rw [Arguments.value?, values, values, values]
    simp
  have helpless : arguments.has "--help" = false := by
    refine Arguments.has_eq_false ?_
    rw [values]
    rfl
  refine asks_of_command taken helpless ?_
  rw [commandOf, given.1, given.2.1, given.2.2]
  dsimp only
  rw [if_neg spends, if_neg pays]
  rfl

end Request

namespace Text.Raw

/-- A text spells bytes in hexadecimal. -/
def SpellsBytes (raw : Raw) (bytes : ByteString) : Prop :=
  ∃ text : String, raw.points = CodePoint.ofText text ∧ Hex.Spells text bytes

/-- A text spells a recipient: before its last colon the key, in hexadecimal, and after it the
value, as an integer. -/
def SpellsRecipient (raw : Raw) (output : Output) : Prop :=
  ∃ owner value : String, raw.points = CodePoint.ofText (owner ++ ":" ++ value) ∧
    ':' ∉ value.toList ∧ Hex.Spells owner output.owner.bytes ∧
    integerOf value = some (output.value.toNat : Int)

/-- A text that spells bytes is decoded as these. -/
theorem SpellsBytes.decode_eq {raw : Raw} {bytes : ByteString} (spelled : raw.SpellsBytes bytes) :
    Hex.decode raw.replaced = .ok bytes := by
  obtain ⟨text, same, spelled⟩ := spelled
  exact Hex.decode_replaced_eq_ok_iff.mpr ⟨text, same, Hex.decode_eq_ok_iff.mpr spelled⟩

end Text.Raw

namespace Command

theorem bytesOfText_eq {raw : Text.Raw} {bytes : ByteString} (spelled : raw.SpellsBytes bytes) :
    bytesOfText raw = .ok bytes := by
  rw [bytesOfText, spelled.decode_eq]

/-- A text that spells a seed is read as the pair of the seed. -/
theorem pairOfText_eq (scheme : SignatureScheme) {raw : Text.Raw} {seed : Seed}
    (spelled : raw.SpellsBytes seed.bytes) :
    pairOfText scheme raw = .ok (seed, scheme.ofSeed seed) := by
  have taken : FixedBytes.ofBytes "Seed" 32 seed.bytes = .ok seed :=
    Loose.toFixedBytes_bytes "Seed" seed
  rw [pairOfText, spelled.decode_eq]
  dsimp only
  rw [taken]

/-- A text that spells a recipient is read as its key and its value. -/
theorem recipientOfText_eq {raw : Text.Raw} {output : Output}
    (spelled : raw.SpellsRecipient output) :
    recipientOfText raw = .ok (.bytes output.owner.bytes, .integer output.value.toNat) := by
  obtain ⟨owner, value, whole, single, key, amount⟩ := spelled
  have absent : Text.CodePoint.character ':' ∉ Text.CodePoint.ofText value := by
    intro member
    obtain ⟨c, listed, same⟩ := List.mem_map.mp member
    cases same
    exact single listed
  have cut : Text.splitAtLast (.character ':') raw.points =
      some (Text.CodePoint.ofText owner, Text.CodePoint.ofText value) := by
    rw [whole, Text.CodePoint.ofText_append, Text.CodePoint.ofText_append, List.append_assoc]
    exact Text.splitAtLast_append _ absent
  have bytes : bytesOfText (.ofPoints (Text.CodePoint.ofText owner)) = .ok output.owner.bytes :=
    bytesOfText_eq ⟨owner, Text.Raw.points_ofPoints _, key⟩
  rw [recipientOfText, cut]
  refine bind_eq_ok_iff.mpr ⟨_, bytes, ?_⟩
  rw [Text.CodePoint.replacedText_ofText, amount]
  rfl

/-- The texts of a transfer spell what it is made of. There is at least one input and at least one
output, and there are not more than can be counted in front of the inputs and by the positions of
the outputs. -/
structure TransferTexts (seedText : Text.Raw) (inputs outputs : List Text.Raw) (seed : Seed)
    (outpoints : List Outpoint) (recipients : List Output) : Prop where
  spellsSeed : seedText.SpellsBytes seed.bytes
  spellsInputs :
    List.Forall₂ (fun text outpoint => text.SpellsBytes outpoint.bytes) inputs outpoints
  spellsOutputs : List.Forall₂ Text.Raw.SpellsRecipient outputs recipients
  spends : inputs ≠ []
  pays : outputs ≠ []
  fewInputs : inputs.length ≤ Compact.max
  fewOutputs : outputs.length ≤ 2 ^ 64

variable {seedText : Text.Raw} {inputs outputs : List Text.Raw} {seed : Seed}
  {outpoints : List Outpoint} {recipients : List Output} {scheme : SignatureScheme}

/-- **Texts that spell a transfer make a transaction**, which spends the outpoints, signed by the
pair of the seed, and pays the recipients. -/
theorem TransferTexts.exists_transaction (correct : scheme.Correct)
    (texts : TransferTexts seedText inputs outputs seed outpoints recipients)
    (entropyAt : Nat → Entropy) :
    ∃ tx, transferOfTexts scheme seedText inputs outputs entropyAt = .ok tx ∧
      tx.outpoints = outpoints ∧ tx.outputs = recipients ∧
      ∀ input ∈ tx.inputs, scheme.verify input.signature tx.signingImage
        (scheme.publicKey (scheme.ofSeed seed)) = true := by
  let coins := outpoints.map fun outpoint => (outpoint, scheme.ofSeed seed)
  obtain ⟨tx, made, transfers⟩ := Transaction.transfer_ok coins recipients entropyAt
  rw [← Transaction.transferOfLoose_eq] at made
  have readOutputs : outputs.mapM recipientOfText = .ok (recipients.map fun output =>
      (.bytes output.owner.bytes, .integer output.value.toNat)) := by
    rw [mapM_eq_ok_iff, List.forall₂_map_right_iff]
    exact texts.spellsOutputs.imp fun _ _ => recipientOfText_eq
  have readInputs : inputs.mapM bytesOfText = .ok (outpoints.map FixedBytes.bytes) := by
    rw [mapM_eq_ok_iff, List.forall₂_map_right_iff]
    exact texts.spellsInputs.imp fun _ _ => bytesOfText_eq
  have same : (outpoints.map FixedBytes.bytes).map (fun outpoint =>
      (Loose.bytes outpoint, scheme.ofSeed seed)) =
        coins.map fun coin => (.bytes coin.1.bytes, coin.2) := by
    rw [List.map_map, List.map_map]
    rfl
  refine ⟨tx, ?_, ?_, transfers.outputs, ?_⟩
  · refine bind_eq_ok_iff.mpr ⟨_, pairOfText_eq scheme texts.spellsSeed, ?_⟩
    refine bind_eq_ok_iff.mpr ⟨_, readOutputs, bind_eq_ok_iff.mpr ⟨_, readInputs, ?_⟩⟩
    rw [same]
    dsimp only
    rw [made]
    rfl
  · rw [transfers.outpoints, List.map_map]
    exact List.map_id outpoints
  · intro input member
    obtain ⟨place, placed⟩ := List.mem_iff_getElem?.mp member
    obtain ⟨coin, paired, _, valid⟩ := transfers.input correct placed
    obtain ⟨_, _, rfl⟩ := List.mem_map.mp (List.mem_of_getElem? paired)
    exact valid

/-- The transaction of a transfer can be written. -/
theorem TransferTexts.writable
    (texts : TransferTexts seedText inputs outputs seed outpoints recipients) {tx : Transaction}
    (spent : tx.outpoints = outpoints) (paid : tx.outputs = recipients) : tx.Writable := by
  have counted : tx.inputs.length = inputs.length := by
    rw [texts.spellsInputs.length_eq, ← spent, Transaction.outpoints, List.length_map]
  have few : 2 ^ 64 ≤ Compact.max := Compact.le_max_iff.mpr (by decide)
  refine ⟨counted ▸ texts.fewInputs, ?_⟩
  rw [paid, ← texts.spellsOutputs.length_eq]
  exact Nat.le_trans texts.fewOutputs few

variable {workspace : Workspace} {words : List Text.Raw}

/-- What is asked for is performed. -/
theorem run_of_asks [CoinHash] {command : Command} (surroundings : Surroundings)
    (asks : Request.Asks workspace words command) :
    ∃ debug, run scheme surroundings workspace words =
      (perform scheme surroundings debug command).run { workspace, output := [] } := by
  obtain ⟨debug, asked⟩ := asks
  exact ⟨debug, Stepwise.run_bind_ok (Work.run_lift_ok asked) _⟩

/-- A transfer prints the hexadecimal text of the transaction. -/
theorem run_transfer [CoinHash] {tx : Transaction} {surroundings : Surroundings}
    (made : transferOfTexts scheme seedText inputs outputs surroundings.entropyAt = .ok tx)
    (asks : Request.Asks workspace words (.transfer seedText inputs outputs)) :
    run scheme surroundings workspace words = (.ok (), ⟨workspace, [.printed tx.toHex]⟩) := by
  obtain ⟨debug, ran⟩ := run_of_asks surroundings asks
  rw [ran]
  exact Stepwise.run_bind_ok (Work.run_lift_ok made) _

/-- The hexadecimal text of a transaction is shown as it is. -/
theorem render_toHex (tx : Transaction) (time : String) :
    (OutputLine.printed tx.toHex).render time = tx.toHex := by
  have absent := Json.escape_not_mem_of_unescaped (TableFile.unescaped_of_mem_encode tx.encode)
  rw [OutputLine.render, Text.withoutControls, Transaction.toHex,
    Text.uncontrolled_of_not_mem absent, String.ofList_toList]

/-- Hexadecimal text is no option, so that it can be handed to the command that decodes. -/
theorem asks_decode (workspace : Workspace) (tx : Transaction) :
    Request.Asks workspace [.text "decode", .text tx.toHex] (.decode (.text tx.toHex)) := by
  have taken : Arguments.ofWords CommandName.decode.forms true [.text tx.toHex] =
      .ok ⟨[], [.text tx.toHex]⟩ := by
    have plain : Arguments.isOption (.text tx.toHex) = false := by
      rw [Arguments.isOption, Text.Raw.points, Text.CodePoint.ofText, Transaction.toHex, Hex.encode,
        String.toList_ofList]
      rfl
    rw [Arguments.ofWords, Arguments.take_word _ plain]
    rfl
  exact Request.asks_of_command taken rfl rfl

/-- **A transfer on the command line can be decoded, and nothing is lost.** Under a scheme whose
signatures verify, let texts spell a seed, outpoints and recipients. Then whatever words ask for the
transfer of these texts, a hexadecimal text is printed, which is shown as it is, and which depends
on the surroundings only in the random bytes for the signatures. Words can ask for it to be decoded,
and whatever words do, lines are printed that are parsed as a document. The hexadecimal text and the
document are read as the same transaction. It spends the outpoints and pays the recipients, all of
them in order, each of its signatures verifies over its image under the public key of the seed, and
the keys in the document are derived from the decoded bytes at one position after another. -/
theorem transfer_then_decode [CoinHash] (correct : scheme.Correct)
    (texts : TransferTexts seedText inputs outputs seed outpoints recipients)
    (entropyAt : Nat → Entropy) :
    ∃ (hex : String) (printed : List OutputLine) (document : Json) (tx : Transaction),
      (∀ workspace, Request.Asks workspace (Request.transferWords seedText inputs outputs)
        (.transfer seedText inputs outputs)) ∧
      (∀ surroundings workspace words, surroundings.entropyAt = entropyAt →
        Request.Asks workspace words (.transfer seedText inputs outputs) →
        run scheme surroundings workspace words = (.ok (), ⟨workspace, [.printed hex]⟩)) ∧
      (∀ time, (OutputLine.printed hex).render time = hex) ∧
      (∀ workspace, Request.Asks workspace [.text "decode", .text hex] (.decode (.text hex))) ∧
      (∀ surroundings workspace words, Request.Asks workspace words (.decode (.text hex)) →
        run scheme surroundings workspace words = (.ok (), ⟨workspace, printed⟩)) ∧
      (∀ time, Json.parse (String.join (printed.map fun line => line.render time ++ "\n")) =
        .ok document) ∧
      Transaction.ofHex hex = .ok tx ∧ Transaction.ofDocument document = .ok tx ∧
      tx.outpoints = outpoints ∧ tx.outputs = recipients ∧
      (∀ input ∈ tx.inputs, scheme.verify input.signature tx.signingImage
        (scheme.publicKey (scheme.ofSeed seed)) = true) ∧
      ∃ bytes, Hex.decode hex = .ok bytes ∧
        document.field? "output_keys" = some (.array ((List.range recipients.length).map
          fun index =>
            .string (Hex.encode (deriveOutputKey bytes (UInt64.ofNat index)).bytes))) := by
  obtain ⟨tx, made, spent, paid, valid⟩ := texts.exists_transaction correct entropyAt
  have writable := texts.writable spent paid
  have few : tx.outputs.length ≤ 2 ^ 64 := by
    rw [paid, ← texts.spellsOutputs.length_eq]
    exact texts.fewOutputs
  obtain ⟨document, shown⟩ := Transaction.exists_toDetailedDocument few
  refine ⟨tx.toHex, (document.indentedLines 0).map .printed, document, tx,
    Request.asks_transferWords texts.spends texts.pays, ?_, render_toHex tx,
    fun workspace => asks_decode workspace tx, ?_, Transaction.parse_printed shown,
    Transaction.ofHex_toHex writable, Transaction.ofDocument_of_detailed shown, spent, paid, valid,
    tx.encode, Hex.decode_encode _, ?_⟩
  · rintro surroundings workspace words rfl asks
    exact run_transfer made asks
  · intro surroundings workspace words asks
    obtain ⟨debug, ran⟩ := run_of_asks surroundings asks
    rw [ran]
    exact Transaction.run_decode writable shown scheme surroundings debug _
  · obtain ⟨keys, derived, rfl⟩ := Transaction.toDetailedDocument_eq_ok_iff.mp shown
    rw [(Transaction.outputKeys_eq_ok_iff.mp derived).2, paid, List.map_map, List.range_eq_range']
    rfl

/-- A coin is named twice, which is signed for with different random bytes, a recipient is paid
nothing, and another is paid the same amount twice in two spellings. The transfer is made all the
same and decoded again. -/
theorem transfer_of_repeated_texts :
    let zeros : String := String.ofList (List.replicate 64 '0')
    let nobody : PublicKey := FixedBytes.zero 32
    let coin : Outpoint := FixedBytes.zero 32
    let inputs : List Text.Raw := [.text zeros, .text ("0X" ++ zeros)]
    let outputs : List Text.Raw := [.text (zeros ++ ":" ++ "0"), .text (zeros ++ ":" ++ "10"),
      .text ("0x" ++ zeros ++ ":" ++ " +1_0 ")]
    let words := Request.transferWords (.text zeros) inputs outputs
    let entropyAt (place : Nat) : Entropy := FixedBytes.truncate 32 [UInt8.ofNat place]
    let surroundings : Surroundings := ⟨FixedBytes.zero 32, "", [], [], "", entropyAt⟩
    let workspace : Workspace := .empty 0
    ∃ hex printed tx,
      run SignatureScheme.plain surroundings workspace words =
        (.ok (), ⟨workspace, [.printed hex]⟩) ∧
      run SignatureScheme.plain surroundings workspace [.text "decode", .text hex] =
        (.ok (), ⟨workspace, printed⟩) ∧
      Transaction.ofHex hex = .ok tx ∧ tx.outpoints = [coin, coin] ∧
      tx.outputs =
        [⟨⟨0, by decide⟩, nobody⟩, ⟨⟨10, by decide⟩, nobody⟩, ⟨⟨10, by decide⟩, nobody⟩] := by
  intro zeros nobody coin inputs outputs words entropyAt surroundings workspace
  have bare : Hex.Spells zeros coin.bytes := Hex.decode_eq_ok_iff.mp (by decide +kernel)
  have marked : Hex.Spells ("0X" ++ zeros) coin.bytes := Hex.decode_eq_ok_iff.mp (by decide +kernel)
  have lower : Hex.Spells ("0x" ++ zeros) coin.bytes := Hex.decode_eq_ok_iff.mp (by decide +kernel)
  have texts : TransferTexts (.text zeros) inputs outputs (FixedBytes.zero 32) [coin, coin]
      [⟨⟨0, by decide⟩, nobody⟩, ⟨⟨10, by decide⟩, nobody⟩, ⟨⟨10, by decide⟩, nobody⟩] :=
    { spellsSeed := ⟨zeros, rfl, bare⟩
      spellsInputs := .cons ⟨zeros, rfl, bare⟩ (.cons ⟨_, rfl, marked⟩ .nil)
      spellsOutputs := .cons ⟨zeros, "0", rfl, by decide, bare, by decide +kernel⟩
        (.cons ⟨zeros, "10", rfl, by decide, bare, by decide +kernel⟩
        (.cons ⟨"0x" ++ zeros, " +1_0 ", rfl, by decide, lower, by decide +kernel⟩ .nil))
      spends := List.cons_ne_nil _ _
      pays := List.cons_ne_nil _ _
      fewInputs := Compact.le_max_iff.mpr (by decide)
      fewOutputs := by decide }
  obtain
    ⟨hex, printed, _, tx, asked, transfers, _, askedAgain, decodes, _, read, _, spent, paid, _⟩ :=
    transfer_then_decode SignatureScheme.plain_correct texts entropyAt
  exact ⟨hex, printed, tx, transfers surroundings workspace words rfl (asked workspace),
    decodes surroundings workspace _ (askedAgain workspace), read, spent, paid⟩

end Command

end CoinLedger

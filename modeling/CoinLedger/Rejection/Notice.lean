import CoinLedger.Loose.Display
import CoinLedger.Rejection.Basic

/-! # Notices of rejections

A notice is made from the rule that was broken and details of any kind, which it shows as they are.
The notice of a reason says what the reason says.
-/

namespace CoinLedger

/-- Why no notice is made. -/
inductive NoticeError where
  /-- The rule has another number of details. -/
  | wrongCount
  /-- A detail has no text in base sixteen, which the notice shows. -/
  | notHexadecimal
  deriving DecidableEq, Repr

/-- A notice of a rejection. -/
structure Notice where
  /-- The rule that was broken. -/
  kind : RejectionKind
  /-- The details, each under its name. -/
  details : List (String × Loose)
  /-- What the notice says. -/
  message : Text.Raw

namespace RejectionKind

/-- The names of the details that a notice keeps. -/
def detailNames : RejectionKind → List String
  | empty => ["field"]
  | duplicateInput | missingInput => ["outpoint"]
  | duplicateOutput | zeroOutputValue | invalidSignature => ["index"]
  | negativeFee => ["input_sum", "output_sum"]
  | outputAlreadyExists => ["key"]
  | overflow | indexOverflow => []

/-- The text of a detail that is shown in base sixteen. -/
def keyText (detail : Loose) : Except NoticeError Text.Raw :=
  match detail.hexadecimal? with
  | some text => .ok (.text ("0x" ++ text))
  | none => .error .notHexadecimal

/-- The texts that a notice gives its details. A rule on sums and numbers has one detail or none,
and a vacant one says nothing. -/
def shownDetails (kind : RejectionKind) (details : List Loose) :
    Except NoticeError (List Text.Raw) :=
  match kind with
  | duplicateInput | missingInput | outputAlreadyExists =>
      match details with
      | [detail] => (keyText detail).map fun text => [text]
      | _ => .error .wrongCount
  | overflow | indexOverflow =>
      match details with
      | [] => .ok []
      | [detail] => .ok (if detail.isVacant then [] else [detail.shown])
      | _ => .error .wrongCount
  | empty | duplicateOutput | zeroOutputValue | invalidSignature =>
      match details with
      | [detail] => .ok [detail.shown]
      | _ => .error .wrongCount
  | negativeFee =>
      match details with
      | [inputSum, outputSum] => .ok [inputSum.shown, outputSum.shown]
      | _ => .error .wrongCount

end RejectionKind

/-- The notice of a broken rule with details of any kind. -/
def Notice.ofDetails (kind : RejectionKind) (details : List Loose) : Except NoticeError Notice :=
  (kind.shownDetails details).map fun texts =>
    { kind
      details := kind.detailNames.zip details
      message := .ofPoints (kind.wording Text.CodePoint.ofText (texts.map Text.Raw.points)) }

/-- The details of a reason. -/
def Rejection.details : Rejection → List Loose
  | empty side => [.text side]
  | duplicateInput outpoint | missingInput outpoint => [.bytes outpoint]
  | duplicateOutput index | zeroOutputValue index | invalidSignature index => [.integer index]
  | overflow detail | indexOverflow detail => [.text detail]
  | negativeFee inputSum outputSum => [.integer inputSum, .integer outputSum]
  | outputAlreadyExists key => [.bytes key]

/-- The notice of a reason. -/
def Rejection.notice (reason : Rejection) : Notice :=
  { kind := reason.kind
    details := reason.kind.detailNames.zip reason.details
    message := reason.message }

/-- The wording in code points is that in characters. -/
theorem RejectionKind.wording_ofText (kind : RejectionKind) (texts : List String) :
    kind.wording Text.CodePoint.ofText (texts.map Text.CodePoint.ofText) =
      Text.CodePoint.ofText (kind.wording id texts) := by
  have headD_map (texts : List String) (default : String) :
      (texts.map Text.CodePoint.ofText).headD (Text.CodePoint.ofText default) =
        Text.CodePoint.ofText (texts.headD default) := by
    cases texts <;> rfl
  cases kind <;>
    simp only [wording, id, ← List.map_drop, headD_map, Text.CodePoint.ofText_append]

/-- A notice shows the details of a reason as the reason does. -/
theorem Rejection.shownDetails_details (reason : Rejection) :
    reason.kind.shownDetails reason.details = .ok (reason.texts.map Text.Raw.text) := by
  cases reason with
  | overflow detail | indexOverflow detail =>
      by_cases vacant : detail.isEmpty = true <;>
        simp [kind, details, texts, RejectionKind.shownDetails, Loose.isVacant, Loose.shown,
          Text.Raw.isEmpty, vacant]
  | duplicateInput key | missingInput key | outputAlreadyExists key =>
      simp only [texts, Hex.encode_eq]
      rfl
  | _ => rfl

/-- The details of a reason make its notice. -/
theorem Notice.ofDetails_details (reason : Rejection) :
    Notice.ofDetails reason.kind reason.details = .ok reason.notice := by
  have points : Text.Raw.points ∘ Text.Raw.text = Text.CodePoint.ofText := rfl
  simp [Notice.ofDetails, Rejection.shownDetails_details, Except.map, points,
    RejectionKind.wording_ofText, Rejection.notice, Rejection.message]

end CoinLedger

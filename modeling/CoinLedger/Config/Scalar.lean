import CoinLedger.Config.Fault
import CoinLedger.Identifier
import CoinLedger.Json.Value
import CoinLedger.LogLine
import CoinLedger.Text.Hex
import CoinLedger.Text.Integer
import CoinLedger.Text.UpperCase

/-! # Scalars of a configuration

Operators write the same value in several ways: an integer may be a number without a fraction, a
truth value or a text; a key may have a mark or none and digits of either case; a log level may be
in any case. Each check accepts all of them and gives the one value meant.
-/

namespace CoinLedger

-- Powers are those of the core library, also where others are in scope.
attribute [local instance (high)] instPowNat

/-- The first whole number that is too large to be written with a fraction or an exponent. -/
def realIntegerBound : Nat := 2 ^ (63 : Nat)

/-- The integer that a value stands for. -/
def Json.looseInteger : Json → Except Problem Int
  | integer value => .ok value
  | boolean value => .ok (if value then 1 else 0)
  | real (.finite negative significand exponent) =>
      match Binary64.truncate negative significand exponent with
      | (whole, true) =>
          if whole.natAbs < realIntegerBound then .ok whole else .error .oversizedInteger
      | (_, false) => .error .fractional
  | real _ => .error .notFinite
  | string text =>
      match Text.plainIntegerOf text with
      | .ok value => .ok value
      | .error .malformed => .error .malformedInteger
      | .error .oversized => .error .oversizedInteger
  | illFormed _ => .error .illFormedInteger
  | _ => .error .notInteger

/-- The integer that a value stands for, which has to lie between two bounds. -/
def Json.integerBetween (least greatest : Nat) (document : Json) :
    Except Problem { value : Nat // least ≤ value ∧ value ≤ greatest } :=
  match document.looseInteger with
  | .error problem => .error problem
  | .ok value =>
      if below : value < (least : Int) then .error .tooSmall
      else if above : (greatest : Int) < value then .error .tooLarge
      else .ok ⟨value.toNat, by omega⟩

/-- The code points of the text that a value is. -/
def Json.text : Json → Except Problem (List Text.CodePoint)
  | string text => .ok (Text.CodePoint.ofText text)
  | illFormed points => .ok points
  | _ => .error .notText

/-- The path name that a value gives, if it gives any. -/
def Json.optionalPath : Json → Except Problem (Option PathName)
  | null => .ok none
  | string text => .ok (some (.ofText text))
  | illFormed points => .ok (some (.ofPoints points))
  | _ => .error .notPath

/-- The bytes that a hexadecimal text gives. -/
def Hex.decodePoints? (points : List Text.CodePoint) : Option ByteString := do
  let text ← Text.CodePoint.text? points
  (Hex.decode text).toOption

/-- The public key that a hexadecimal text gives. -/
def PublicKey.ofPoints (points : List Text.CodePoint) : Except Problem PublicKey :=
  match Hex.decodePoints? points with
  | none => .error (.notHex points)
  | some bytes =>
      match FixedBytes.ofBytes? 32 bytes with
      | some key => .ok key
      | none => .error (.wrongKeyLength bytes.length)

/-- The normal form of the text of a public key. -/
def PublicKey.normalText (text : String) : Except Problem String :=
  (PublicKey.ofPoints (Text.CodePoint.ofText text)).map fun key => Hex.encode key.bytes

/-- The log levels, from the least important to the most. -/
def LogLevel.all : List LogLevel := [.debug, .info, .warning, .error, .critical]

/-- The log level that a text names in any case. -/
def LogLevel.ofPoints (points : List Text.CodePoint) : Except Problem LogLevel :=
  match Text.CodePoint.text? points with
  | none => .error .illFormedLogLevel
  | some text =>
      match LogLevel.all.find? fun level => level.name = Text.upperCase text with
      | some level => .ok level
      | none => .error (.unknownLogLevel text)

end CoinLedger

import CoinLedger.Transaction.Keys

/-! # Signing transactions

Every input signs one and the same image, so inputs may be signed in any order. Each signature is
made with random bytes of its own.
-/

namespace CoinLedger

/-- Why a transaction cannot be signed. -/
inductive SigningError where
  /-- The position is not below the number of inputs. -/
  | noSuchInput (index : Int)
  /-- The position counts from the end and lies before the first input. -/
  | beforeFirstInput
  /-- A value is refused. -/
  | invalid (reason : InvalidValue)
  deriving DecidableEq

/-- The wording of a signing error. -/
def SigningError.message : SigningError → String
  | noSuchInput index => s!"Input index {index} out of range"
  | beforeFirstInput => "Input index before the first input"
  | invalid reason => reason.message

/-- The place of an index into a list of a given length, where a negative index counts from the
end. -/
def placeOf (index : Int) (length : Nat) : Except SigningError Nat :=
  if (length : Int) ≤ index then .error (.noSuchInput index)
  else if 0 ≤ index then .ok index.toNat
  else if index.natAbs ≤ length then .ok (length - index.natAbs)
  else .error .beforeFirstInput

namespace Transaction

variable (scheme : SignatureScheme)

/-- The transaction with the signature of the input at a place replaced. -/
def withSignature (tx : Transaction) (place : Nat) (signature : Signature) : Transaction :=
  { tx with inputs := tx.inputs.modify place fun input => { input with signature } }

/-- Sign the input at an index. -/
def signInput (tx : Transaction) (index : Int) (pair : scheme.Pair)
    (entropy : Entropy := FixedBytes.zero 32) : Except SigningError Transaction := do
  let place ← placeOf index tx.inputs.length
  pure (tx.withSignature place (scheme.sign pair tx.signingImage entropy))

/-- Sign every input with the pair and the random bytes at its own position. -/
def signInputs (tx : Transaction) (pairs : List scheme.Pair)
    (entropyAt : Nat → Entropy := fun _ => FixedBytes.zero 32) : Except SigningError Transaction :=
  if pairs.length = tx.inputs.length then
    let image := tx.signingImage
    let signatures := pairs.mapIdx fun place pair => scheme.sign pair image (entropyAt place)
    let signed :=
      List.zipWith (fun input signature => { input with signature }) tx.inputs signatures
    .ok { tx with inputs := signed }
  else .error (.invalid (.signerCount pairs.length tx.inputs.length))

/-- The verdicts on the inputs, each under the public key of the pair at its position. -/
def verdicts (tx : Transaction) (pairs : List scheme.Pair) : List Bool :=
  let image := tx.signingImage
  List.zipWith
    (fun input pair => scheme.verify input.signature image (scheme.publicKey pair)) tx.inputs pairs

/-- A signed transaction that spends coins, each with its owner's pair, and pays recipients. -/
def transfer (coins : List (Outpoint × scheme.Pair)) (recipients : List Output)
    (entropyAt : Nat → Entropy) : Except SigningError Transaction :=
  let unsigned : Transaction :=
    { inputs := coins.map fun coin => { outpoint := coin.1, signature := emptySignature }
      outputs := recipients }
  unsigned.signInputs scheme (coins.map Prod.snd) entropyAt

/-- A signed transaction made from values of any kind; coins are checked before recipients. -/
def transferOfLoose (coins : List (Loose × scheme.Pair)) (recipients : List (Loose × Loose))
    (entropyAt : Nat → Entropy := fun _ => FixedBytes.zero 32) :
    Except SigningError Transaction := do
  let coins ← coins.mapM fun (outpoint, pair) =>
    match outpoint.toFixedBytes "outpoint" 32 with
    | .ok outpoint => .ok (outpoint, pair)
    | .error reason => .error (.invalid reason)
  let recipients ← recipients.mapM fun (owner, value) =>
    match Output.ofLoose value owner with
    | .ok output => .ok output
    | .error reason => .error (.invalid reason)
  transfer scheme coins recipients entropyAt

end Transaction
end CoinLedger

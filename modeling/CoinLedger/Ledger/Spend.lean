import CoinLedger.Ledger.Basic

/-! # Applying a transaction

A valid transaction credits its fee to the pool, removes the coins that it spends and stores its
outputs under their derived keys, all inside one transaction of the host's state.
-/

namespace CoinLedger

-- Powers are those of the core library, also where others are in scope.
attribute [local instance (high)] instPowNat

variable [CoinHash]

/-- Credit a fee to the pool. No fee leaves the pool's cell alone. -/
def creditPool (fee : Nat) (state : HostState) : Except LedgerError HostState :=
  if fee = 0 then .ok state
  else
    match checkedAdd state.pool fee with
    | .error reason => .error (.rejected reason)
    | .ok total =>
        match Amount.ofInt "reward total" total with
        | .error reason => .error (.invalid reason)
        | .ok amount => .ok (state.setPool amount)

/-- Remove the coins that inputs spend. -/
def removeInputs (inputs : List Input) (state : HostState) : HostState :=
  inputs.foldl (fun state input => state.removeCoin input.outpoint) state

/-- Store outputs under the keys derived from an encoding and their positions. -/
def storeOutputs (encoded : ByteString) (index : Nat) : List Output → HostState →
    Except LedgerError Unit × HostState
  | [], state => (.ok (), state)
  | output :: outputs, state =>
      match u64OfInt index with
      | .error reason => (.error (.invalid reason), state)
      | .ok position =>
          if index = 2 ^ (64 : Nat) - 1 then
            (.error (.rejected (.indexOverflow "output index overflow")), state)
          else
            storeOutputs encoded (index + 1) outputs
              (state.addCoin (deriveOutputKey encoded position) output)

/-- Validate a transaction and carry out its effects on a state; the result is its fee. -/
def applyTo (verify : Verifier) (tx : Transaction) (state : HostState) :
    Except LedgerError Nat × HostState :=
  match validate verify state.coin? tx with
  | .error error => (.error error, state)
  | .ok fee =>
      match creditPool fee state with
      | .error error => (.error error, state)
      | .ok credited =>
          match storeOutputs tx.encode 0 tx.outputs (removeInputs tx.inputs credited) with
          | (.error error, after) => (.error error, after)
          | (.ok (), after) => (.ok fee, after)

/-- Validate and apply a transaction; the result is its fee. A transaction that fails changes
nothing. -/
def Ledger.spend (ledger : Ledger) (verify : Verifier) (tx : Transaction) :
    Except LedgerError Nat × Ledger :=
  match ledger.host.atomically (applyTo verify tx) with
  | (.error error, host) => (.error error, { ledger with host })
  | (.ok fee, host) =>
      (.ok fee,
        { ledger with
          host
          feesCollected := ledger.feesCollected + fee
          phase := if fee = 0 then ledger.phase else .accruing
          events := ledger.events ++ [.transactionApplied tx] })

end CoinLedger

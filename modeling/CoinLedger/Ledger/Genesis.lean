import CoinLedger.Ledger.Basic

/-! # Seeding the coin set

The genesis outputs are stored under their own digests, all of them or none.
-/

namespace CoinLedger

variable [CoinHash]

/-- Store genesis outputs one after another, the first of them at a given position. An output may be
one that could not be built, which ends the seeding when its turn comes. -/
def seedFrom (index : Nat) : List (Except InvalidValue Output) → HostState →
    Except LedgerError (List Outpoint) × HostState
  | [], state => (.ok [], state)
  | .error reason :: _, state => (.error (.invalid reason), state)
  | .ok output :: outputs, state =>
      if output.value.toNat = 0 then (.error (.invalid (.zeroGenesisOutput index)), state)
      else
        let key := output.genesisKey
        if state.hasCoin key then
          (.error (.invalid (.duplicateGenesisKey index (Hex.encode key.bytes))), state)
        else
          match seedFrom (index + 1) outputs (state.addCoin key output) with
          | (.ok keys, after) => (.ok (key :: keys), after)
          | (.error error, after) => (.error error, after)

/-- Seed the coin set with genesis outputs; the result is their keys. -/
def Ledger.seed (ledger : Ledger) (outputs : List (Except InvalidValue Output)) :
    Except LedgerError (List Outpoint) × Ledger :=
  let (outcome, host) := ledger.host.atomically (seedFrom 0 outputs)
  (outcome, { ledger with host })

end CoinLedger

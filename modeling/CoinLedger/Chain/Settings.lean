import CoinLedger.Chain.Block

/-! # Chains made from settings

A chain starts over whatever state it is given. Settings that name genesis coins seed them unless
the state holds them already.
-/

namespace CoinLedger

/-- What a chain is started with. -/
structure ChainSettings where
  /-- The authorities paid at the end of each block. -/
  authorities : List Loose
  /-- For how many blocks a waiting transaction stays valid. -/
  longevity : Int
  /-- The coins to seed, if the settings say so. -/
  genesis? : Option (List Output)

/-- Start a chain over a state. -/
def Chain.start [CoinHash] (settings : ChainSettings) (host : HostState) (verify : Verifier) :
    Except LedgerError Unit × Chain :=
  let chain := Chain.ofHost host settings.authorities verify settings.longevity
  match settings.genesis? with
  | none => (.ok (), chain)
  | some outputs =>
      if chain.host.genesisDone then (.ok (), chain)
      else
        match chain.genesis (outputs.map .ok) with
        | (.ok _, seeded) => (.ok (), seeded)
        | (.error error, failed) => (.error error, failed)

end CoinLedger

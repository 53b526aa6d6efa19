import EvuProxy.Apply.Update

/-!
# The pending view

The part of `internal/apply/pending.go` that compares hashes and rulesets.
-/

namespace EvuProxy

open Fault Fault.Prog

variable {Γ : Ctx}

/-- `PendingInfo`, as far as it is about hashes and rulesets. -/
structure PendingInfo where
  currentConfigSHA256 : String
  appliedConfigSHA256 : String
  pending : Bool
  nftables : String
  nftablesBaseline : String

/-- `PendingSummary`. A baseline that cannot be read is shown as an empty one. -/
def pendingSummary : App Γ PendingInfo := do
  let cur ← configFileSHA256
  let applied ← readAppliedHash
  let c ← loadConfig .config
  let nft ← genNFTables c
  let baseline := match ← (readFile (Γ := Γ) .nftables).attempt with
    | .ok (some b) => Γ.str b
    | _ => ""
  return { currentConfigSHA256 := cur, appliedConfigSHA256 := applied, pending := applied = "" ∨ cur ≠ applied
           nftables := nft, nftablesBaseline := baseline }

end EvuProxy

import EvuProxy.Apply.Generate

/-!
# A reload

`internal/apply/reload.go` and the parts of `crowdsec_set.go` and `config_yaml.go` beside it. Log lines, the warnings about the
host's network setup and the restart of the CrowdSec bouncer change nothing that this model reads, and are left out.
-/

namespace EvuProxy

open Go Fault Fault.Prog

variable {Γ : Ctx}

/-- `acquireApplyLock`. -/
def acquireApplyLock : App Γ Unit := wrapErr "acquire apply lock" (Cmd.acquireApplyLock (Γ := Γ)).run

/-! ## CrowdSec bans -/

/-- `snapshotCrowdsecBlockSet`: best effort. -/
def snapshotCrowdsecBlockSet : App Γ (List CrowdsecElem) := do
  match ← (Cmd.nftListCrowdsec (Γ := Γ)).run.attempt with
  | .ok elems => return elems
  | .error _ => return []

/-- `validCrowdsecElemVal`. -/
def validCrowdsecElemVal (v : String) : Bool :=
  v ≠ "" && if containsChar v '/' then (parseCIDR v).isSome else (parseIP v).isSome

/-- The elements of a ban set as `nft add element` takes them. -/
def crowdsecParts (elems : List CrowdsecElem) : List String :=
  (elems.filter fun e => validCrowdsecElemVal (trimSpace e.val)).map fun e =>
    if 0 < e.timeout then trimSpace e.val ++ " timeout " ++ toString e.timeout ++ "s" else trimSpace e.val

/-- `restoreCrowdsecBlockSet`: best effort. -/
def restoreCrowdsecBlockSet (elems : List CrowdsecElem) : App Γ Unit :=
  if crowdsecParts elems = [] then return () else ignore (Cmd.nftAddCrowdsec (crowdsecParts elems)).run

/-! ## Applying a config to the host -/

/-- `ensureGeoZones`, from the zone files given on. -/
def ensureGeoZones (c : Config) : List String → App Γ Unit
  | [] => return ()
  | cc :: ccs => do
    match ← (Cmd.stat (Γ := Γ) (.zone c.geo.zoneDir cc)).run.attempt with
    | .ok (some b) =>
      if Γ.isEmpty b then downloadZones c.geo.zoneDir (geoDownloadCountries c) else ensureGeoZones c ccs
    | _ => downloadZones c.geo.zoneDir (geoDownloadCountries c)

/-- The part of `reloadWireGuard` for an interface that exists. -/
def syncWireGuard (iface tunnelAddr : String) : App Γ Unit := do
  let stripped ← wrapErr "wg-quick strip" (Cmd.wgQuickStrip (Γ := Γ) (.wgConf iface)).run
  let synced ← attempt do
    writeFile .wgSync stripped
    wrapErr "wg syncconf" (Cmd.wgSyncconf iface .wgSync).run
    if tunnelAddr ≠ "" then wrapErr "ip addr replace" (Cmd.ipAddrReplace tunnelAddr iface).run else return ()
  -- `defer os.Remove(tmp)`
  ignore (removeIfExists .wgSync)
  ofExcept (S := sig Γ) synced

/-- `reloadWireGuard`. -/
def reloadWireGuard (iface tunnelAddr : String) : App Γ Unit := do
  let up : Bool ← (Cmd.wgInterfaceExists (Γ := Γ) iface).run
  if up then syncWireGuard iface tunnelAddr else wrapErr "wg-quick up" (Cmd.wgQuickUp iface (.wgConf iface)).run

/-- What `apply.nft` holds: the ruleset and, with geo on, the loader of its sets. -/
def genApplySrc (c : Config) (nftSrc : String) : App Γ String := do
  if ¬c.geo.enabled then return nftSrc
  else do
    wrapErr "geo zones" (ensureGeoZones c (geoDownloadCountries c))
    let loaderSrc ← wrapErr "geo loader" (genGeoLoader c)
    wrapErr "write geo loader" (writeFile .geoLoader (Γ.text loaderSrc))
    return nftSrc ++ "\n" ++ loaderSrc

/-- The part of `applyToHost` before the firewall is touched. -/
def prepareApply (c : Config) : App Γ Unit := do
  (Cmd.mkdirAll (Γ := Γ) "generated").run
  let nftSrc ← genNFTables c
  wrapErr "write nftables" (writeFile .nftables (Γ.text nftSrc))
  let wgSrc ← genWireGuardConf c
  wrapErr "wireguard config dir" (Cmd.mkdirAll (Γ := Γ) "/etc/wireguard").run
  wrapErr "write wireguard config" (writeFile (.wgConf c.wireGuard.interface) (Γ.text wgSrc))
  let applySrc ← genApplySrc c nftSrc
  wrapErr "write nftables apply file" (writeFile .applyNft (Γ.text applySrc))

/-- The bans to put back after the table is replaced. -/
def savedBans (c : Config) : App Γ (List CrowdsecElem) :=
  if c.crowdSecEnabled then snapshotCrowdsecBlockSet else return []

/-- The part of `applyToHost` that loads the firewall. -/
def loadFirewall (c : Config) : App Γ Unit := do
  let saved ← savedBans (Γ := Γ) c
  wrapErr "nft validate" (Cmd.nftCheck (Γ := Γ) .applyNft).run
  wrapErr "nft load" (Cmd.nftLoad (Γ := Γ) .applyNft).run
  restoreCrowdsecBlockSet saved
  if c.geo.enabled then ignore (writeGeoLastSuccess "reload") else return ()

/-- `applyToHost`. -/
def applyToHost (c : Config) : App Γ Unit := do
  prepareApply c
  loadFirewall c
  reloadWireGuard c.wireGuard.interface (trimSpace c.wireGuard.address)

/-- `reload`. -/
def reload : App Γ Unit := do
  let c ← loadConfig (Γ := Γ) .config
  applyToHost c
  wrapErr "record apply state" recordAppliedConfigHash
  wrapErr "record config snapshot" recordAppliedConfigSnapshot

/-- `checkConfigHash`. -/
def checkConfigHash (configHash : String) : App Γ Unit :=
  if configHash = "" then return ()
  else do
    let cur ← configFileSHA256
    if cur ≠ configHash then fail .configHashMismatch else return ()

/-- Count how an operation ended, as the entry points do. -/
def recorded {α : Type} (p : App Γ α) : App Γ α := do
  match ← p.attempt with
  | .ok a => do
    ignore recordApplySuccess
    return a
  | .error e => do
    ignore recordApplyFailure
    fail e

/-! ## The config file -/

/-- The check of `SaveConfigYAMLIfMatch` that config.yaml is the file the caller read. -/
def checkRevision (revisions : Option (List String)) : App Γ Unit :=
  match revisions with
  | none => return ()
  | some revs => do
    match ← readFile (Γ := Γ) .config with
    | none => fail .configRevisionMismatch
    | some b => if Γ.sha256 b ∈ revs then return () else fail .configRevisionMismatch

/-- The code that a plain error of `Validate` gets when a config is saved. -/
def ValidationError.withCode (e : ValidationError) : ValidationError :=
  if e.code = "" then { e with code := "config_invalid" } else e

/-- `SaveConfigYAMLIfMatch`. No list of revisions stands for no check. -/
def saveConfigYAMLIfMatch (c : Config) (revisions : Option (List String)) : App Γ String := do
  acquireApplyLock
  checkRevision revisions
  check (c.normalize.validate.mapError ValidationError.withCode)
  match Γ.marshalConfig c.normalize with
  | .error msg => fail (.wrap "marshal yaml" (.sys msg))
  | .ok out => do
    writeFile .config out
    configFileSHA256

/-- `DiscardPendingConfigYAML`. -/
def discardPendingConfigYAML : App Γ Unit := do
  acquireApplyLock
  discardPending

/-- `RestorePreviousAppliedConfigYAML`. -/
def restorePreviousAppliedConfigYAML : App Γ Unit := do
  acquireApplyLock
  restorePreviousApplied

end EvuProxy

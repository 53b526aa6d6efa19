import EvuProxy.Apply.Confirm

/-!
# Updates beside an Apply

`UpdateGeo` of `internal/apply/reload.go`, `SyncPausedRoutes` of `paused_routes.go` and `Restore` of `backup.go`.
-/

namespace EvuProxy

open Fault Fault.Prog

variable {Γ : Ctx}

/-! ## Geo sets -/

/-- `applyGeoLoader`. -/
def applyGeoLoader (c : Config) : App Γ Unit := do
  let s ← genGeoLoader (Γ := Γ) c
  writeFile .geoLoader (Γ.text s)
  wrapErr "nft validate geo" (Cmd.nftCheck (Γ := Γ) .geoLoader).run
  wrapErr "nft load geo" (Cmd.nftLoad (Γ := Γ) .geoLoader).run

/-- `downloadHeldBackZones`. -/
def downloadHeldBackZones (applied pending : Config) : App Γ Unit :=
  let extra := (geoDownloadCountries pending).filter (· ∉ geoDownloadCountries applied)
  if ¬pending.geo.enabled ∨ extra = [] then return () else ignore (downloadZones pending.geo.zoneDir extra)

/-- The end of `updateGeo` with confirm on: whether config.yaml has geo changes that were left out. -/
def heldBackGeo (c : Config) : App Γ Bool := do
  match ← (loadConfig (Γ := Γ) .config).attempt with
  | .error _ => return false
  | .ok pending =>
    if geoSetsEqual c pending then return false
    else do
      downloadHeldBackZones c pending
      return true

/-- `updateGeo`, for the config whose sets are refreshed. -/
def refreshGeo (c : Config) (confirmOn : Bool) : App Γ Bool := do
  if ¬c.geo.enabled then
    fail (.sys (if confirmOn then "geo is disabled in the last applied config" else "geo is disabled in config"))
  else do
    downloadZones (Γ := Γ) c.geo.zoneDir (geoDownloadCountries c)
    applyGeoLoader c
    ignore (writeGeoLastSuccess "update-geo")
    if confirmOn then heldBackGeo c else return false

/-- `updateGeo`. -/
def updateGeo : App Γ Bool := do
  match ← (lastConfirmedConfig (Γ := Γ)).attempt with
  | .ok (some c) => refreshGeo c true
  | _ => do
    let c ← loadConfig .config
    refreshGeo c false

/-- `UpdateGeo`. -/
def updateGeoLocked : App Γ Bool := do
  acquireApplyLock
  match ← readConfirmSession (Γ := Γ) with
  | some _ => fail .confirmSessionActive
  | none => recorded updateGeo

/-! ## Paused routes -/

/-- The part of `SyncPausedRoutes` that replaces the prerouting chain. -/
def loadPausedRoutes (c : Config) (update : String) : App Γ Unit := do
  let full ← genNFTables (Γ := Γ) c
  match ← (readFile (Γ := Γ) .nftables).attempt with
  | .ok (some loaded) =>
    if Γ.str loaded ≠ full then fail (.sys "the generated ruleset doesn't match the applied config; run an Apply")
    else do
      wrapErr "write paused routes" (writeFile .pausedRoutes (Γ.text update))
      wrapErr "nft validate" (Cmd.nftCheck (Γ := Γ) .pausedRoutes).run
      wrapErr "nft load" (Cmd.nftLoad (Γ := Γ) .pausedRoutes).run
  | _ => fail (.sys "the generated ruleset doesn't match the applied config; run an Apply")

/-- `SyncPausedRoutes`, with the lock held, for the applied config. -/
def syncPausedRoutesOf (c : Config) (paused : List Nat) : App Γ Unit := do
  let update ← check (natPreroutingUpdate c paused)
  let want := pausedRoutesIn update
  match ← (Cmd.nftListPrerouting (Γ := Γ)).run.attempt with
  | .error e => if want = [] then return () else fail (.wrap "read prerouting chain" e)
  | .ok (live : String) => if want = pausedRoutesIn live then return () else loadPausedRoutes c update

/-- `SyncPausedRoutes`. -/
def syncPausedRoutes (paused : Config → List Nat) : App Γ Unit := do
  let ok : Bool ← (Cmd.tryApplyLock (Γ := Γ)).run
  if ¬ok then return ()
  else
    match ← (loadConfig (Γ := Γ) .bak).attempt with
    | .error _ => fail (.sys "no usable applied config")
    | .ok c => syncPausedRoutesOf c (paused c)

/-! ## Restoring a backup -/

/-- What a member of an archive comes to when it is read: a directory, a file of the config directory, or an error that ends the
restore. `rooted` says that the name still starts with a slash when `isConfirmStateEntry` sees it. -/
inductive TarMember (Γ : Ctx) where
  | dir (rel : String)
  | file (rooted : Bool) (f : FileName) (b : Γ.Bytes)
  | bad (msg : String)

/-- `isConfirmStateEntry`. -/
def FileName.isConfirmState : FileName → Bool
  | .session => true
  | .staged _ => true
  | .lastRevert => true
  | _ => false

/-- Extract one member. -/
def extractMember : TarMember Γ → App Γ Unit
  | .dir rel => wrapErr "restore: mkdir" (Cmd.mkdirAll (Γ := Γ) rel).run
  -- The first component of a rooted name is empty, so the test lets it pass.
  | .file rooted f b => if ¬rooted ∧ f.isConfirmState then return () else wrapErr "restore" (writeFile f b)
  | .bad msg => fail (.sys msg)

/-- `Restore`, of an archive that could be opened. -/
def restoreBackup (members : List (TarMember Γ)) : App Γ Unit := do
  acquireApplyLock
  match ← wrapErr "restore" (readConfirmSession (Γ := Γ)) with
  | some _ => fail .confirmSessionActive
  | none => forEach members extractMember

end EvuProxy

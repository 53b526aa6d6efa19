import EvuProxy.Apply.Rules

/-!
# What each program may change

The footprint of the programs that render, apply and count. A reload writes generated files, the hash last applied and the snapshots,
and never config.yaml, the session or what a revert keeps.
-/

namespace EvuProxy

open Fault Fault.Prog

variable {Γ : Ctx} {E : Effects}

/-- The files that a reload generates or counts in. -/
def FileName.isGenerated : FileName → Bool
  | .nftables => true
  | .geoLoader => true
  | .applyNft => true
  | .pausedRoutes => true
  | .applyMetrics => true
  | .geoLastSuccess => true
  | .wgConf _ => true
  | .wgSync => true
  | .zone _ _ => true
  | _ => false

/-- The snapshots of applied configs. -/
def FileName.isHistory : FileName → Bool
  | .history _ => true
  | _ => false

/-- A program that only reads. -/
def readsE : Effects := { files := fun _ => False }

/-- A program that writes zone files and the loader of the geo sets. -/
def zonesE : Effects := { files := fun f => f = .geoLoader ∨ ∃ dir cc, f = .zone dir cc }

/-- A program that writes generated files. -/
def generatesE : Effects := { files := fun f => f.isGenerated = true }

/-- A program that writes generated files and loads them. -/
def appliesE : Effects := { files := fun f => f.isGenerated = true, host := True }

/-- A reload. -/
def reloadsE : Effects :=
  { files := fun f => f.isGenerated = true ∨ f.isHistory = true ∨ f = .applyState, host := True }

/-- A program that counts how an operation ended. -/
def countsE : Effects := { files := fun f => f = .applyMetrics }

/-- Less may change under `E` than under `E'`. -/
structure Effects.LE (E E' : Effects) : Prop where
  files : ∀ f, E.files f → E'.files f
  host : E.host → E'.host
  timers : E.timers → E'.timers

theorem Cmd.within.mono {E' : Effects} (h : E.LE E') {c : Cmd Γ} (hc : c.within E) : c.within E' :=
  ⟨fun f hf => h.files f (hc.files f hf), fun hh => h.host (hc.host hh), fun ht => h.timers (hc.timers ht)⟩

theorem uses_mono {E' : Effects} {α : Type} {p : App Γ α} (h : E.LE E') (hp : p.Uses (Cmd.within E)) : p.Uses (Cmd.within E') :=
  Uses.mono (fun _ hc => hc.mono h) hp

theorem readsE_le : readsE.LE E := ⟨fun _ h => h.elim, fun h => h.elim, fun h => h.elim⟩

theorem zonesE_le : zonesE.LE generatesE := by
  refine ⟨?_, fun h => h.elim, fun h => h.elim⟩
  rintro f (rfl | ⟨dir, cc, rfl⟩) <;> rfl

theorem generatesE_le_appliesE : generatesE.LE appliesE := ⟨fun _ h => h, fun h => h.elim, fun h => h.elim⟩

theorem countsE_le : countsE.LE generatesE := ⟨by rintro f rfl; rfl, fun h => h, fun h => h⟩

theorem appliesE_le_reloadsE : appliesE.LE reloadsE := ⟨fun _ h => Or.inl h, fun h => h, fun h => h.elim⟩

/-! ## Building blocks -/

/-- A command that changes nothing. -/
theorem uses_quiet {c : Cmd Γ} (hw : ∀ f, ¬c.writes f) (hh : ¬c.changesHost) (ht : ¬c.changesTimers) :
    c.run.Uses (Cmd.within E) :=
  uses_perform ⟨fun f hf => (hw f hf).elim, fun h => (hh h).elim, fun h => (ht h).elim⟩

/-- A command that loads something into the kernel. -/
theorem uses_load {c : Cmd Γ} (hE : E.host) (hw : ∀ f, ¬c.writes f) (ht : ¬c.changesTimers) : c.run.Uses (Cmd.within E) :=
  uses_perform ⟨fun f hf => (hw f hf).elim, fun _ => hE, fun h => (ht h).elim⟩

theorem uses_readFile (f : FileName) : (readFile f : App Γ _).Uses (Cmd.within E) := uses_quiet (fun _ => id) id id

theorem uses_writeFile {f : FileName} {b : Γ.Bytes} (h : E.files f) : (writeFile f b).Uses (Cmd.within E) :=
  uses_perform ⟨fun g hg => by cases hg; exact h, fun h => h.elim, fun h => h.elim⟩

theorem uses_removeIfExists {f : FileName} (h : E.files f) : (removeIfExists f : App Γ Unit).Uses (Cmd.within E) :=
  uses_bind (uses_perform ⟨fun g hg => by cases hg; exact h, fun h => h.elim, fun h => h.elim⟩) fun _ => uses_ret _

theorem uses_renameExisting {f g : FileName} (hf : E.files f) (hg : E.files g) :
    (renameExisting f g : App Γ Unit).Uses (Cmd.within E) := by
  refine uses_bind (uses_perform ⟨fun h hh => ?_, fun h => h.elim, fun h => h.elim⟩) fun b => ?_
  · rcases hh with rfl | rfl
    · exact hf
    · exact hg
  · split <;> simp

theorem uses_ignore {α : Type} {p : App Γ α} (hp : p.Uses (Cmd.within E)) : (ignore p).Uses (Cmd.within E) :=
  uses_bind (uses_attempt hp) fun _ => uses_ret _

theorem uses_wrapErr {α : Type} {p : App Γ α} {pre : String} (hp : p.Uses (Cmd.within E)) :
    (wrapErr pre p).Uses (Cmd.within E) :=
  uses_mapErr _ hp

theorem uses_check {α : Type} {x : Except ValidationError α} : (check x : App Γ α).Uses (Cmd.within E) := uses_ofExcept _

theorem uses_readExisting (f : FileName) : (readExisting f : App Γ _).Uses (Cmd.within E) :=
  uses_bind (uses_readFile f) fun b => by cases b <;> simp

theorem uses_loadConfig (f : FileName) : (loadConfig f : App Γ Config).Uses (Cmd.within E) :=
  uses_bind (uses_readExisting f) fun _ => uses_check

theorem uses_mkdirAll (dir : String) : (Cmd.mkdirAll dir : Cmd Γ).run.Uses (Cmd.within E) := uses_quiet (fun _ => id) id id

/-! ## Rendering -/

theorem uses_genNFTables (c : Config) : (genNFTables c : App Γ String).Uses (Cmd.within E) :=
  uses_bind (uses_quiet (fun _ => id) id id) fun _ => uses_check

theorem uses_genWireGuardConf (c : Config) : (genWireGuardConf c : App Γ String).Uses (Cmd.within E) :=
  uses_bind (uses_wrapErr (uses_readExisting _)) fun _ => uses_ret _

theorem uses_zoneRanges (dir : String) : ∀ ccs : List String, (zoneRanges dir ccs : App Γ _).Uses (Cmd.within E)
  | [] => uses_ret _
  | cc :: ccs => by
    refine uses_bind (uses_wrapErr (uses_readExisting _)) fun b => ?_
    split
    · simp
    · exact uses_bind (uses_zoneRanges dir ccs) fun _ => uses_ret _

theorem uses_zoneCIDRs (dir : String) (ccs : List String) : (zoneCIDRs dir ccs : App Γ _).Uses (Cmd.within E) := by
  induction ccs with
  | nil => exact uses_ret _
  | cons cc ccs ih =>
    rw [zoneCIDRs]
    refine uses_ite ih ?_
    refine uses_bind uses_check fun _ => uses_bind (uses_wrapErr (uses_readExisting _)) fun b => ?_
    split
    · simp
    · exact uses_bind ih fun _ => uses_ret _

theorem uses_routeGeoLoaders (dir : String) : ∀ rs, (routeGeoLoaders dir rs : App Γ _).Uses (Cmd.within E)
  | [] => uses_ret _
  | (i, r) :: rs => by
    refine uses_bind (uses_wrapErr (uses_zoneCIDRs dir _)) fun elems => ?_
    split
    · simp
    · exact uses_bind (uses_routeGeoLoaders dir rs) fun _ => uses_ret _

theorem uses_genGeoLoader (c : Config) : (genGeoLoader c : App Γ String).Uses (Cmd.within E) := by
  refine uses_bind ?_ fun _ => uses_ret _
  unfold geoLoaderScript
  split
  · simp
  · refine uses_bind (uses_zoneRanges _ _) fun elems => ?_
    split
    · simp
    · exact uses_bind (uses_routeGeoLoaders _ _) fun _ => uses_ret _

theorem uses_downloadZones (dir : String) (ccs : List String) : (downloadZones dir ccs : App Γ Unit).Uses (Cmd.within zonesE) :=
  uses_bind (uses_mkdirAll dir) fun _ => uses_forEach fun _ _ =>
    uses_bind (uses_wrapErr (uses_quiet (fun _ => id) id id)) fun _ => uses_writeFile (Or.inr ⟨_, _, rfl⟩)

theorem uses_ensureGeoZones (c : Config) : ∀ ccs, (ensureGeoZones c ccs : App Γ Unit).Uses (Cmd.within zonesE)
  | [] => uses_ret _
  | cc :: ccs => by
    refine uses_bind (uses_attempt (uses_quiet (fun _ => id) id id)) fun r => ?_
    split
    · split
      · exact uses_downloadZones _ _
      · exact uses_ensureGeoZones c ccs
    · exact uses_downloadZones _ _

theorem uses_genApplySrc (c : Config) (n : String) : (genApplySrc c n : App Γ String).Uses (Cmd.within zonesE) := by
  unfold genApplySrc
  split
  · simp
  · exact uses_bind (uses_wrapErr (uses_ensureGeoZones c _)) fun _ => uses_bind (uses_wrapErr (uses_genGeoLoader c)) fun _ =>
      uses_bind (uses_wrapErr (uses_writeFile (Or.inl rfl))) fun _ => uses_ret _

theorem uses_prepareApply (c : Config) : (prepareApply c : App Γ Unit).Uses (Cmd.within generatesE) :=
  uses_bind (uses_mkdirAll _) fun _ => uses_bind (uses_genNFTables c) fun _ =>
    uses_bind (uses_wrapErr (uses_writeFile rfl)) fun _ => uses_bind (uses_genWireGuardConf c) fun _ =>
      uses_bind (uses_wrapErr (uses_mkdirAll _)) fun _ => uses_bind (uses_wrapErr (uses_writeFile rfl)) fun _ =>
        uses_bind (uses_mono zonesE_le (uses_genApplySrc c _)) fun _ => uses_wrapErr (uses_writeFile rfl)

/-! ## Applying -/

theorem uses_writeGeoLastSuccess (s : String) : (writeGeoLastSuccess s : App Γ Unit).Uses (Cmd.within generatesE) :=
  uses_bind (uses_quiet (fun _ => id) id id) fun _ => uses_writeFile rfl

theorem uses_snapshotCrowdsecBlockSet : (snapshotCrowdsecBlockSet : App Γ _).Uses (Cmd.within E) :=
  uses_bind (uses_attempt (uses_quiet (fun _ => id) id id)) fun r => match r with
    | .ok _ => uses_ret _
    | .error _ => uses_ret _

theorem uses_restoreCrowdsecBlockSet (elems : List CrowdsecElem) :
    (restoreCrowdsecBlockSet elems : App Γ Unit).Uses (Cmd.within E) := by
  unfold restoreCrowdsecBlockSet
  split
  · simp
  · exact uses_ignore (uses_quiet (fun _ => id) id id)

theorem uses_savedBans (c : Config) : (savedBans c : App Γ _).Uses (Cmd.within E) :=
  uses_ite uses_snapshotCrowdsecBlockSet (uses_ret _)

theorem uses_loadFirewall (c : Config) : (loadFirewall c : App Γ Unit).Uses (Cmd.within appliesE) :=
  uses_bind (uses_savedBans c) fun saved => uses_bind (uses_wrapErr (uses_quiet (fun _ => id) id id)) fun _ =>
    uses_bind (uses_wrapErr (uses_load trivial (fun _ => id) id)) fun _ =>
      uses_bind (uses_restoreCrowdsecBlockSet saved) fun _ =>
        uses_ite (uses_ignore (uses_mono generatesE_le_appliesE (uses_writeGeoLastSuccess _))) (uses_ret _)

theorem uses_syncWireGuard (iface addr : String) : (syncWireGuard iface addr : App Γ Unit).Uses (Cmd.within appliesE) := by
  refine uses_bind (uses_wrapErr (uses_quiet (fun _ => id) id id)) fun stripped => ?_
  refine uses_bind (uses_attempt ?_) fun synced => ?_
  · exact uses_bind (uses_writeFile rfl) fun _ => uses_bind (uses_wrapErr (uses_load trivial (fun _ => id) id)) fun _ =>
      uses_ite (uses_wrapErr (uses_load trivial (fun _ => id) id)) (uses_ret _)
  · exact uses_bind (uses_ignore (uses_removeIfExists rfl)) fun _ => uses_ofExcept _

theorem uses_reloadWireGuard (iface addr : String) : (reloadWireGuard iface addr : App Γ Unit).Uses (Cmd.within appliesE) := by
  refine uses_bind (uses_quiet (fun _ => id) id id) fun up => ?_
  split
  · exact uses_syncWireGuard iface addr
  · exact uses_wrapErr (uses_load trivial (fun _ => id) id)

theorem uses_applyToHost (c : Config) : (applyToHost c : App Γ Unit).Uses (Cmd.within appliesE) :=
  uses_bind (uses_mono generatesE_le_appliesE (uses_prepareApply c)) fun _ =>
    uses_bind (uses_loadFirewall c) fun _ => uses_reloadWireGuard _ _

/-! ## Recording -/

theorem uses_recordAppliedConfigHash : (recordAppliedConfigHash : App Γ Unit).Uses (Cmd.within reloadsE) :=
  uses_bind (uses_bind (uses_readExisting _) fun _ => uses_ret _) fun _ => uses_writeFile (Or.inr (Or.inr rfl))

theorem uses_rotateSnapshot (n : Fin 6) : (rotateSnapshot n : App Γ Unit).Uses (Cmd.within reloadsE) := by
  refine uses_bind (uses_quiet (fun _ => id) id id) fun b => ?_
  split
  · simp
  · exact uses_wrapErr (uses_renameExisting (Or.inr (Or.inl rfl)) (Or.inr (Or.inl rfl)))

theorem uses_recordAppliedConfigSnapshot : (recordAppliedConfigSnapshot : App Γ Unit).Uses (Cmd.within reloadsE) := by
  refine uses_bind (uses_readExisting _) fun cur => uses_bind (uses_readFile _) fun b => ?_
  split
  · exact uses_writeFile (Or.inr (Or.inl rfl))
  · split
    · simp
    · exact uses_bind (uses_ignore (uses_removeIfExists (Or.inr (Or.inl rfl)))) fun _ =>
        uses_bind (uses_forEach fun _ _ => uses_rotateSnapshot _) fun _ =>
          uses_bind (uses_wrapErr (uses_renameExisting (Or.inr (Or.inl rfl)) (Or.inr (Or.inl rfl)))) fun _ =>
            uses_writeFile (Or.inr (Or.inl rfl))

theorem uses_reload : (reload : App Γ Unit).Uses (Cmd.within reloadsE) :=
  uses_bind (uses_loadConfig _) fun c => uses_bind (uses_mono appliesE_le_reloadsE (uses_applyToHost c)) fun _ =>
    uses_bind (uses_wrapErr uses_recordAppliedConfigHash) fun _ => uses_wrapErr uses_recordAppliedConfigSnapshot

theorem uses_readApplyMetrics : (readApplyMetrics : App Γ ApplyMetrics).Uses (Cmd.within E) :=
  uses_bind (uses_attempt (uses_readFile _)) fun r => by
    split <;> simp

theorem uses_recordApplySuccess : (recordApplySuccess : App Γ Unit).Uses (Cmd.within countsE) :=
  uses_bind uses_readApplyMetrics fun _ => uses_writeFile rfl

theorem uses_recordApplyFailure : (recordApplyFailure : App Γ Unit).Uses (Cmd.within countsE) :=
  uses_bind uses_readApplyMetrics fun _ => uses_writeFile rfl

end EvuProxy

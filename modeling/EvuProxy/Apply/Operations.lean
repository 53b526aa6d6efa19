import EvuProxy.Apply.Session

/-!
# What the other operations do

One-way reloads, the reload at boot and geo updates, which nobody confirms, and the operations on config.yaml.
-/

namespace EvuProxy

open Go Fault Fault.Prog

variable {Γ : Ctx} {R : Rules (host Γ)} {T : World Γ → Prop} {w : World Γ} {K : (FileName → Bool) → Prop}

/-! ## The last confirmed config -/

/-- `checkConfirmBaseline` accepts `.bak`, and that config has confirm on. -/
def ConfirmOn (w : World Γ) : Prop := ∃ b c, Accepts w b ∧ parseConfig Γ b = .ok c ∧ c.apply.confirm = true

/-- The rules let no read of `.bak` and of the hash last applied fail. -/
def ReadsBaseline (R : Rules (host Γ)) : Prop :=
  ∀ f, f = .bak ∨ f = .applyState → ∀ (ch : Choice Γ) w, R.allows (.readFile f) ch w → ch.fate ≠ .fail

theorem ReadsBaseline.not_mayFail (h : ReadsBaseline R) {f : FileName} (hf : f = .bak ∨ f = .applyState) (w : World Γ) :
    ¬MayFail R (.readFile f) w := fun ⟨ch, hch, hfail⟩ => h f hf ch w hch hfail

theorem wp_readAppliedHash {Q : Except Err String → World Γ → Prop} (hkill : R.crash w)
    (herr : MayFail R (.readFile .applyState) w ∨ appliedHash w = none → ∀ e, Q (.error e) w)
    (hok : ∀ h, appliedHash w = some h → Q (.ok h) w) : wp R readAppliedHash Q w := by
  refine wp_bind.2 (wp_readFile (fun _ => hkill) (fun hf e => herr (Or.inl hf) e) ?_)
  cases hb : w.files .applyState with
  | none => exact wp_of_ret (hok "" (by simp [appliedHash, hb]))
  | some b =>
    cases hs : Γ.unmarshalApplyState b with
    | ok h =>
      have h' := hok h (by simp [appliedHash, hb, hs, Except.toOption])
      rw [andThen_ok]
      simp only [hs]
      exact wp_of_ret h'
    | error msg =>
      rw [andThen_ok]
      simp only [hs]
      exact wp_of_fail (herr (Or.inr (by simp [appliedHash, hb, hs, Except.toOption])) _)

theorem validateConfigYAML_error {b : Γ.Bytes} {e : ValidationError} (h : validateConfigYAML Γ b = .error e) {c : Config} :
    parseConfig Γ b ≠ .ok c := by
  intro hc
  simp [validateConfigYAML, hc, Except.map] at h

/-- `checkConfirmBaseline` fails only where `.bak` isn't accepted, unless a read fails. -/
theorem wp_checkConfirmBaseline {Q : Except Err Unit → World Γ → Prop} (hkill : R.crash w)
    (herr : (ReadsBaseline R → ∀ b, ¬Accepts w b) → ∀ e, Q (.error e) w) (hok : ∀ b, Accepts w b → Q (.ok ()) w) :
    wp R checkConfirmBaseline Q w := by
  refine wp_bind.2 (wp_readFile (fun _ => hkill)
    (fun hf e => herr (fun hR => absurd hf (hR.not_mayFail (Or.inl rfl) w)) e) ?_)
  cases hb : w.files .bak with
  | none => exact wp_of_fail (herr (fun _ b h => nomatch hb.symm.trans h.bak) _)
  | some b =>
  have huniq : ∀ {b'}, Accepts w b' → b = b' := fun h => Option.some.inj (hb.symm.trans h.bak)
  refine wp_bind.2 (wp_readAppliedHash hkill (fun hf e => herr (fun hR b' h => ?_) e) fun h hh => ?_)
  · rcases hf with hf | hf
    · exact hR.not_mayFail (Or.inr rfl) w hf
    · exact nomatch hf.symm.trans h.applied
  refine wp_ite (fun hne => wp_of_fail (herr (fun _ b' h' => ?_) _)) fun he => ?_
  · obtain rfl := huniq h'
    exact hne (Option.some.inj (hh.symm.trans h'.applied))
  cases hv : validateConfigYAML Γ b with
  | ok _ => exact wp_of_ret (hok b ⟨hb, by rw [hh, not_not.mp he], validateConfigYAML_ok hv⟩)
  | error e =>
    refine wp_of_fail (herr (fun _ b' h' => ?_) _)
    obtain rfl := huniq h'
    obtain ⟨c, hc⟩ := h'.valid
    exact validateConfigYAML_error hv hc

theorem wp_loadConfig {f : FileName} {Q : Except Err Config → World Γ → Prop} (hkill : R.crash w)
    (herr : MayFail R (.readFile f) w ∨ (∀ b c, w.files f = some b → parseConfig Γ b ≠ .ok c) → ∀ e, Q (.error e) w)
    (hok : ∀ b c, w.files f = some b → parseConfig Γ b = .ok c → Q (.ok c) w) : wp R (loadConfig f) Q w := by
  refine wp_bind.2 (wp_readExisting (fun _ => hkill) (fun hf e => ?_) fun b hb => wp_check (fun e he => ?_) fun c hc => hok b c hb hc)
  · exact herr (hf.imp id fun hn b c hb => nomatch hn.symm.trans hb) e
  · refine herr (Or.inr fun b' c hb' hc => ?_) _
    obtain rfl : b = b' := Option.some.inj (hb.symm.trans hb')
    exact nomatch he.symm.trans hc

/-- The last confirmed config is `.bak`, or there is none because confirm isn't on. -/
theorem lastConfirmedConfig_spec :
    Stops R (fun w' => w' = w) lastConfirmedConfig.attempt (fun r w' => w = w' ∧
      match r with
      | .ok (some c) => ∃ b, Accepts w b ∧ parseConfig Γ b = .ok c ∧ c.apply.confirm = true
      | _ => ReadsBaseline R → ¬ConfirmOn w) w := by
  have hno : (ReadsBaseline R → ∀ b, ¬Accepts w b) → ReadsBaseline R → ¬ConfirmOn w := fun h hR ⟨b, _, hb, _⟩ => h hR b hb
  refine .attempt_of_wp (wp_bind.2 (wp_bind.2 (wp_checkConfirmBaseline (R := R.withCrash fun w' => w' = w) rfl
    (fun hacc e => ⟨rfl, rfl, hno hacc⟩) fun b hb => wp_loadConfig rfl (fun hf e => ⟨rfl, rfl, fun hR => ?_⟩) fun b' c hb' hc => ?_)))
  · exact fun ⟨b', c, hb', hc, _⟩ => by
      rcases hf with hf | hf
      · exact hR.not_mayFail (Or.inl rfl) w hf
      · exact hf b' c hb'.bak hc
  · obtain rfl : b = b' := Option.some.inj (hb.bak.symm.trans hb')
    refine wp_ite (fun hon => wp_of_ret ⟨rfl, rfl, b, hb, hc, hon⟩) fun hoff => wp_of_ret ⟨rfl, rfl, fun _ => ?_⟩
    rintro ⟨b', c', hb', hc', hon⟩
    obtain rfl : b = b' := Option.some.inj (hb.bak.symm.trans hb'.bak)
    obtain rfl : c = c' := Except.ok.inj (hc.symm.trans hc')
    exact hoff hon

/-! ## One-way reloads -/

theorem recorded_spec {α : Type} {p : App Γ α} {P : α → World Γ → Prop} (hp : Stops R T p P w) :
    Stops R (fun w' => ∃ u, T u ∧ countsE.Within u w') (recorded p) (fun a w' => ∃ u, T u ∧ P a u ∧ countsE.Within u w') w := by
  have hself : ∀ {u}, T u → ∃ v, T v ∧ countsE.Within v u := fun h => ⟨_, h, .refl _⟩
  refine .call hp.attempt (fun _ h => hself h) fun r u hT hr => ?_
  cases r with
  | ok a =>
    refine .call (stops_frame (E := countsE) (uses_ignore uses_recordApplySuccess)) (fun _ h => ⟨u, hT, h⟩) fun _ v hv _ => ?_
    exact .ret ⟨u, hT, hv⟩ ⟨u, hT, hr.2 a rfl, hv⟩
  | error e =>
    refine .call (stops_frame (E := countsE) (uses_ignore uses_recordApplyFailure)) (fun _ h => ⟨u, hT, h⟩) fun _ v hv _ => ?_
    exact .fail ⟨u, hT, hv⟩

/-- No session is on record, or the one that was has been rolled back. -/
def Cleared (K : (FileName → Bool) → Prop) (w v : World Γ) : Prop :=
  w.files .session = none ∧ w = v ∨ ∃ s, OnRecord w s ∧ RolledBack K s .interrupted false w v

/-- Where a one-way reload may stop. -/
def OneWay (K : (FileName → Bool) → Prop) (w w' : World Γ) : Prop := Recover K w w' ∨ ∃ v, Cleared K w v ∧ Attempting v w'

theorem Cleared.recover {w v : World Γ} (h : Cleared K w v) : Recover K w v := by
  rcases h with ⟨-, rfl⟩ | ⟨s, hs, h⟩
  · exact Or.inl rfl
  · exact Or.inr ⟨s, hs, Or.inr h⟩

theorem reloadIfMatch_spec (hK : Clears R K) (hash : String) :
    Stops R (OneWay K w) (reloadIfMatch hash) (fun _ w' => ∃ v b c, Cleared K w v ∧ Attempted b c v w') w := by
  refine .bind (P := fun _ w' => w = w') (stops_acquireApplyLock (Or.inl (Or.inl rfl)) rfl) fun _ _ _ h => ?_
  subst h
  refine .call (checkOneWayReload_spec hK) (fun _ h => Or.inl h) fun _ v _ hv => ?_
  have hv : Cleared K w v := hv
  have hT : ∀ {w'}, Attempting v w' → OneWay K w w' := fun h => Or.inr ⟨v, hv, h⟩
  refine .bind (P := fun _ w' => v = w') (stops_checkConfigHash (hT (.refl v)) rfl) fun _ _ _ h => ?_
  subst h
  refine (recorded_spec reload_spec).mono (fun _ h => hT h) fun _ _ _ h => ?_
  obtain ⟨u, -, ⟨b, c, hb, hc, hu⟩, hw⟩ := h
  exact ⟨v, b, c, hv, hb, hc, u, hu, hw⟩

/-- Where the reload at boot may stop, once no session is left: it applies `.bak`, or it reloads config.yaml because confirm isn't on. -/
def Booting (R : Rules (host Γ)) (w w' : World Γ) : Prop :=
  (∃ b c, Accepts w b ∧ parseConfig Γ b = .ok c ∧ c.apply.confirm = true ∧ Applying c w w') ∨
    (ReadsBaseline R → ¬ConfirmOn w) ∧ Reloading w w'

/-- Where `ReloadAtBoot` may stop. -/
def Boot (R : Rules (host Γ)) (K : (FileName → Bool) → Prop) (w w' : World Γ) : Prop :=
  Recover K w w' ∨ ∃ v u, Cleared K w v ∧ (u = v ∨ Booting R v u) ∧ countsE.Within u w'

theorem reloadAtBoot_spec : Stops R (fun w' => w' = w ∨ Booting R w w') reloadAtBoot (fun _ w' => Booting R w w') w := by
  refine .call lastConfirmedConfig_spec (fun _ h => Or.inl h) fun r _ _ h => ?_
  obtain ⟨rfl, h⟩ := h
  have hreload : (ReadsBaseline R → ¬ConfirmOn w) →
      Stops R (fun w' => w' = w ∨ Booting R w w') reload (fun _ w' => Booting R w w') w := fun h =>
    reload_spec.mono (fun _ hr => Or.inr (Or.inr ⟨h, hr⟩)) fun _ _ hr _ => Or.inr ⟨h, hr⟩
  rcases r with e | _ | c
  · exact hreload h
  · exact hreload h
  · obtain ⟨b, hb, hc, hon⟩ := h
    exact (applyToHost_spec c).mono (fun _ h => Or.inr (Or.inl ⟨b, c, hb, hc, hon, h⟩)) fun _ _ h _ => Or.inl ⟨b, c, hb, hc, hon, h⟩

theorem reloadAtBootLocked_spec (hK : Clears R K) : Stops R (Boot R K w) reloadAtBootLocked (fun _ _ => True) w := by
  refine .bind (P := fun _ w' => w = w') (stops_acquireApplyLock (Or.inl (Or.inl rfl)) rfl) fun _ _ _ h => ?_
  subst h
  refine .call (checkOneWayReload_spec hK) (fun _ h => Or.inl h) fun _ v _ hv => ?_
  exact (recorded_spec reloadAtBoot_spec).mono (fun _ ⟨u, hu, hw⟩ => Or.inr ⟨v, u, hv, hu, hw⟩) fun _ _ _ _ => trivial

/-! ## Geo updates -/

/-- A program that writes generated files, but not the ruleset. -/
def refreshesE : Effects := { files := fun f => f.isGenerated = true ∧ f ≠ .nftables }

/-- Where a refresh of the geo sets of a config may stop. -/
structure Refreshing (c : Config) (w w' : World Γ) : Prop where
  within : appliesE.Within w w'
  ruleset : w'.files .nftables = w.files .nftables
  wg : w'.wg = w.wg
  nft : w'.nft = w.nft ∨ ∃ b, RendersGeoSets c b ∧ w'.nft = b :: w.nft

theorem refreshesE_le : refreshesE.LE appliesE := ⟨fun _ h => h.1, fun h => h.elim, fun h => h⟩

theorem zonesE_le_refreshesE : zonesE.LE refreshesE := by
  refine ⟨?_, fun h => h, fun h => h⟩
  rintro f (rfl | ⟨dir, cc, rfl⟩)
  · exact ⟨rfl, by simp⟩
  · exact ⟨rfl, by simp⟩

theorem Refreshing.refl (c : Config) (w : World Γ) : Refreshing c w w := ⟨.refl w, rfl, rfl, Or.inl rfl⟩

theorem Refreshing.files {c : Config} {w v w' : World Γ} (h : Refreshing c w v) (hw : refreshesE.Within v w') : Refreshing c w w' :=
  ⟨h.within.trans (hw.mono refreshesE_le), (hw.files _ (by simp [refreshesE])).trans h.ruleset, (hw.wg id).trans h.wg, by
    rw [hw.nft id]; exact h.nft⟩

theorem applyGeoLoader_spec (c : Config) {w₀ : World Γ} (h₀ : refreshesE.Within w₀ w) :
    Stops R (Refreshing c w₀) (applyGeoLoader c) (fun _ _ => True) w := by
  have hT : ∀ {w'}, refreshesE.Within w₀ w' → Refreshing c w₀ w' := fun h => (Refreshing.refl c w₀).files h
  refine .call (stops_frame (E := readsE) (uses_genGeoLoader c)) (fun _ h => hT (h₀.trans (h.mono readsE_le))) fun s w₁ h₁ hs => ?_
  have h₁ : refreshesE.Within w₀ w₁ := h₀.trans (h₁.mono readsE_le)
  have h₂ : refreshesE.Within w₀ (w₁.set .geoLoader (some (Γ.text s))) := h₁.trans (within_set ⟨rfl, by simp⟩)
  refine .bind (P := fun _ w' => w' = w₁.set .geoLoader (some (Γ.text s))) (stops_writeFile (hT h₁) (hT h₂) rfl) fun _ w₂ _ hw₂ => ?_
  have hb : w₂.files .geoLoader = some (Γ.text s) := by simp [hw₂]
  rw [← hw₂] at h₂
  refine .bind (P := fun _ w' => w₂ = w') (stops_wrapErr (stops_quiet (fun _ => rfl) (fun _ => rfl) (hT h₂) fun _ _ _ _ => rfl))
    fun _ _ _ h => ?_
  subst h
  have hload : Refreshing c w₀ { w₂ with nft := Γ.text s :: w₂.nft } :=
    ⟨(h₂.mono refreshesE_le).trans (within_of_host trivial rfl rfl rfl rfl rfl), h₂.files .nftables (by simp [refreshesE]), h₂.wg id,
      Or.inr ⟨_, ⟨s, hs, rfl⟩, by rw [h₂.nft id]⟩⟩
  exact stops_wrapErr (.of_wp (wp_nftLoad hb (fun _ => hT h₂) (fun _ _ => ⟨hT h₂, nofun⟩) (fun _ _ => ⟨hload, nofun⟩)
    ⟨hload, fun _ _ => trivial⟩))

theorem uses_downloadHeldBackZones (a p : Config) : (downloadHeldBackZones a p : App Γ Unit).Uses (Cmd.within refreshesE) :=
  uses_ite (uses_ret _) (uses_ignore (uses_mono zonesE_le_refreshesE (uses_downloadZones _ _)))

theorem uses_heldBackGeo (c : Config) : (heldBackGeo c : App Γ Bool).Uses (Cmd.within refreshesE) := by
  refine uses_bind (uses_attempt (uses_loadConfig _)) fun r => ?_
  split
  · simp
  · exact uses_ite (uses_ret _) (uses_bind (uses_downloadHeldBackZones _ _) fun _ => uses_ret _)

theorem refreshGeo_spec (c : Config) (on : Bool) : Stops R (Refreshing c w) (refreshGeo c on) (fun _ _ => True) w := by
  refine .ite (fun _ => .fail (.refl c w)) fun _ => ?_
  refine .call (stops_frame (uses_mono zonesE_le_refreshesE (uses_downloadZones _ _))) (fun _ h => (Refreshing.refl c w).files h)
    fun _ w₁ h₁ _ => ?_
  refine .bind (applyGeoLoader_spec c h₁) fun _ w₂ h₂ _ => ?_
  have hgeo : (ignore (writeGeoLastSuccess "update-geo") : App Γ Unit).Uses (Cmd.within refreshesE) :=
    uses_ignore (uses_bind (uses_quiet (fun _ => id) id id) fun _ => uses_writeFile ⟨rfl, by simp⟩)
  refine .call (stops_frame hgeo) (fun _ h => h₂.files h) fun _ w₃ h₃ _ => ?_
  have h₃ := h₂.files h₃
  exact .ite (fun _ => (stops_frame (uses_heldBackGeo c)).mono (fun _ h => h₃.files h) fun _ _ _ _ => trivial) fun _ => .ret h₃ trivial

/-- The refresh of a geo update: it loads the sets of the last confirmed config, or those of config.yaml because confirm isn't on. -/
def Updating (R : Rules (host Γ)) (w w' : World Γ) : Prop :=
  w' = w ∨ ∃ b c, parseConfig Γ b = .ok c ∧ (Accepts w b ∨ (ReadsBaseline R → ¬ConfirmOn w) ∧ w.files .config = some b) ∧
    Refreshing c w w'

/-- Where a geo update may stop. -/
def GeoUpdate (R : Rules (host Γ)) (w w' : World Γ) : Prop :=
  w' = w ∨ w.files .session = none ∧ ∃ u, Updating R w u ∧ countsE.Within u w'

theorem updateGeo_spec : Stops R (Updating R w) updateGeo (fun _ _ => True) w := by
  refine .call lastConfirmedConfig_spec (fun _ h => Or.inl h) fun r _ _ h => ?_
  obtain ⟨rfl, h⟩ := h
  have hcfg : (ReadsBaseline R → ¬ConfirmOn w) → Stops R (Updating R w)
      ((loadConfig (Γ := Γ) .config).bind fun c => refreshGeo c false) (fun _ _ => True) w := fun hoff => by
    refine .bind (P := fun c w' => w = w' ∧ ∃ b, w.files .config = some b ∧ parseConfig Γ b = .ok c)
      (stops_loadConfig (Or.inl rfl) fun b c hb hc => ⟨rfl, b, hb, hc⟩) fun c _ _ h => ?_
    obtain ⟨rfl, b, hb, hc⟩ := h
    exact (refreshGeo_spec c false).mono (fun _ h => Or.inr ⟨b, c, hc, Or.inr ⟨hoff, hb⟩, h⟩) fun _ _ _ _ => trivial
  rcases r with e | _ | c
  · exact hcfg h
  · exact hcfg h
  · obtain ⟨b, hb, hc, -⟩ := h
    exact (refreshGeo_spec c true).mono (fun _ h => Or.inr ⟨b, c, hc, Or.inl hb, h⟩) fun _ _ _ _ => trivial

theorem updateGeoLocked_spec : Stops R (GeoUpdate R w) updateGeoLocked (fun _ _ => True) w := by
  refine .bind (P := fun _ w' => w = w') (stops_acquireApplyLock (Or.inl rfl) rfl) fun _ _ _ h => ?_
  subst h
  refine .bind (P := fun r w' => w = w' ∧ (r = none → w.files .session = none)) (stops_readConfirmSession (Or.inl rfl)
    (fun h => ⟨rfl, fun _ => h⟩) fun s _ => ⟨rfl, nofun⟩) fun r _ _ h => ?_
  obtain ⟨rfl, hnone⟩ := h
  cases r with
  | some s => exact .fail (Or.inl rfl)
  | none =>
    exact (recorded_spec updateGeo_spec).mono (fun w' ⟨u, hu, hw⟩ => Or.inr ⟨hnone rfl, u, hu, hw⟩) fun _ _ _ _ => trivial

/-! ## The config file -/

/-- A program that writes config.yaml. -/
def savesE : Effects := { files := fun f => f = .config }

theorem uses_acquireApplyLock {E : Effects} : (acquireApplyLock : App Γ Unit).Uses (Cmd.within E) :=
  uses_wrapErr (uses_quiet (fun _ => id) id id)

theorem uses_checkRevision {E : Effects} (revs : Option (List String)) : (checkRevision revs : App Γ Unit).Uses (Cmd.within E) := by
  cases revs with
  | none => exact uses_ret _
  | some revs =>
    refine uses_bind (uses_readFile _) fun b => ?_
    split
    · simp
    · exact uses_ite (uses_ret _) (uses_fail _)

theorem uses_saveConfigYAMLIfMatch (c : Config) (revs : Option (List String)) :
    (saveConfigYAMLIfMatch c revs : App Γ String).Uses (Cmd.within savesE) := by
  refine uses_bind uses_acquireApplyLock fun _ => uses_bind (uses_checkRevision revs) fun _ => uses_bind uses_check fun _ => ?_
  split
  · simp
  · exact uses_bind (uses_writeFile rfl) fun _ => uses_bind (uses_readExisting _) fun _ => uses_ret _

theorem uses_discardPending : (discardPending : App Γ Unit).Uses (Cmd.within savesE) := by
  refine uses_bind (uses_wrapErr (uses_readFile _)) fun b => ?_
  split
  · simp
  · exact uses_bind (uses_wrapErr (uses_readExisting _)) fun _ => uses_ite (uses_fail _)
      (uses_bind (uses_wrapErr uses_check) fun _ => uses_writeFile rfl)

theorem uses_firstOtherSnapshot {E : Effects} (bak : Γ.Bytes) :
    ∀ ns : List (Fin 6), (firstOtherSnapshot bak ns).Uses (Cmd.within E)
  | [] => uses_ret _
  | n :: ns => uses_bind (uses_wrapErr (uses_readFile _)) fun b => by
      split
      · exact uses_ite (uses_firstOtherSnapshot bak ns) (uses_ret _)
      · exact uses_firstOtherSnapshot bak ns

theorem uses_restorePreviousApplied : (restorePreviousApplied : App Γ Unit).Uses (Cmd.within savesE) := by
  refine uses_bind (uses_wrapErr (uses_readFile _)) fun b => ?_
  split
  · simp
  · refine uses_bind (uses_firstOtherSnapshot _ _) fun r => ?_
    split
    · simp
    · exact uses_bind (uses_wrapErr uses_check) fun _ => uses_writeFile rfl

/-- A program that forgets a revert or brings the reverted config back. -/
def revivesE : Effects := { files := fun f => f = .config ∨ f = .lastRevert ∨ f = .reverted }

theorem uses_readConfirmSession {E : Effects} : (readConfirmSession : App Γ _).Uses (Cmd.within E) := by
  refine uses_bind (uses_wrapErr (uses_readFile _)) fun b => ?_
  split
  · simp
  · split <;> simp

theorem uses_clearLastRevert : (clearLastRevert : App Γ Unit).Uses (Cmd.within clearsE) :=
  uses_bind (uses_ignore (uses_removeIfExists (Or.inl rfl))) fun _ => uses_ignore (uses_removeIfExists (Or.inr rfl))

theorem clearsE_le : clearsE.LE revivesE := ⟨fun _ h => Or.inr h, fun h => h, fun h => h⟩

theorem uses_restoreRevertedConfig : (restoreRevertedConfig : App Γ Unit).Uses (Cmd.within revivesE) := by
  refine uses_bind uses_acquireApplyLock fun _ => uses_bind uses_readConfirmSession fun s => ?_
  split
  · simp
  · refine uses_bind (uses_readFile _) fun r => ?_
    split
    · simp
    · exact uses_bind (uses_wrapErr uses_check) fun _ => uses_bind (uses_readExisting _) fun _ => uses_bind (uses_readExisting _) fun _ =>
        uses_ite (uses_fail _) (uses_bind (uses_writeFile (Or.inl rfl)) fun _ => uses_mono clearsE_le uses_clearLastRevert)

theorem uses_dismissLastRevert : (dismissLastRevert : App Γ Unit).Uses (Cmd.within clearsE) :=
  uses_bind uses_acquireApplyLock fun _ => uses_clearLastRevert

/-! ## Auto-pause and archives -/

/-- A program that replaces the prerouting chain. -/
def pausesE : Effects := { files := fun f => f = .pausedRoutes, host := True }

theorem uses_loadPausedRoutes (c : Config) (update : String) : (loadPausedRoutes c update : App Γ Unit).Uses (Cmd.within pausesE) := by
  refine uses_bind (uses_genNFTables c) fun full => uses_bind (uses_attempt (uses_readFile _)) fun r => ?_
  split
  · exact uses_ite (uses_fail _) (uses_bind (uses_wrapErr (uses_writeFile rfl)) fun _ =>
      uses_bind (uses_wrapErr (uses_quiet (fun _ => id) id id)) fun _ => uses_wrapErr (uses_load trivial (fun _ => id) id))
  · simp

theorem uses_syncPausedRoutesOf (c : Config) (paused : List Nat) :
    (syncPausedRoutesOf c paused : App Γ Unit).Uses (Cmd.within pausesE) := by
  refine uses_bind uses_check fun update => uses_bind (uses_attempt (uses_quiet (fun _ => id) id id)) fun r => ?_
  split
  · exact uses_ite (uses_ret _) (uses_fail _)
  · exact uses_ite (uses_ret _) (uses_loadPausedRoutes c update)

theorem uses_syncPausedRoutes (paused : Config → List Nat) : (syncPausedRoutes paused : App Γ Unit).Uses (Cmd.within pausesE) := by
  refine uses_bind (uses_quiet (fun _ => id) id id) fun ok => uses_ite (uses_ret _) ?_
  refine uses_bind (uses_attempt (uses_loadConfig _)) fun r => ?_
  split
  · simp
  · exact uses_syncPausedRoutesOf _ _

/-- A program that extracts an archive. -/
def extractsE (members : List (TarMember Γ)) : Effects where
  files f := f.isConfirmState = false ∨ ∃ b, TarMember.file true f b ∈ members

theorem uses_restoreBackup (members : List (TarMember Γ)) : (restoreBackup members).Uses (Cmd.within (extractsE members)) := by
  refine uses_bind uses_acquireApplyLock fun _ => uses_bind (uses_wrapErr uses_readConfirmSession) fun s => ?_
  split
  · simp
  · refine uses_forEach fun m hm => ?_
    cases m with
    | dir rel => exact uses_wrapErr (uses_mkdirAll _)
    | bad msg => exact uses_fail _
    | file rooted f b =>
      rw [extractMember]
      split
      · simp
      · next hf =>
        refine uses_wrapErr (uses_writeFile ?_)
        cases rooted with
        | true => exact Or.inr ⟨b, hm⟩
        | false => exact Or.inl (by simpa using hf)

end EvuProxy

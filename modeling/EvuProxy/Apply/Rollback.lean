import EvuProxy.Apply.Reloading

/-!
# What a rollback does

`rollback_spec` says what a rollback did to the files, the host and the timers, wherever it stopped. It keeps what config.yaml holds before
it writes the baseline over it, writes the snapshots before it reloads, and clears the session only after a reload has succeeded.
-/

namespace EvuProxy

open Go Fault Fault.Prog

variable {Γ : Ctx} {R : Rules (host Γ)} {w : World Γ}

/-! ## Reloading the baseline -/

/-- A reload of the config that `.bak` holds. -/
def revertsE : Effects := { files := fun f => f.isGenerated = true ∨ f = .applyState, host := True }

/-- What reloads of the baseline may have done. -/
structure Reverting (baseline : Γ.Bytes) (w w' : World Γ) : Prop where
  within : revertsE.Within w w'
  applyState : w'.files .applyState = w.files .applyState ∨
    w'.files .applyState = some (Γ.marshalApplyState (Γ.sha256 baseline))
  loads : Loads (parseConfig Γ baseline = .ok ·) w w'

theorem Reverting.refl (baseline : Γ.Bytes) (w : World Γ) : Reverting baseline w w := ⟨.refl w, Or.inl rfl, .refl w⟩

theorem Reverting.trans {baseline : Γ.Bytes} {a b c : World Γ} (h : Reverting baseline a b) (h' : Reverting baseline b c) :
    Reverting baseline a c := by
  refine ⟨h.within.trans h'.within, ?_, h.loads.trans h'.loads⟩
  rcases h'.applyState with ha | ha
  · rw [ha]; exact h.applyState
  · exact Or.inr ha

theorem ReloadingOf.reverting {baseline : Γ.Bytes} {c : Config} {w w' : World Γ} (hbak : w.files .bak = some baseline)
    (hc : parseConfig Γ baseline = .ok c) (h : ReloadingOf baseline c w w') : Reverting baseline w w' where
  within :=
    { h.within with
      files := fun f hf => by
        by_cases hh : f.isHistory = true
        · cases f with
          | history n => exact h.same hbak n
          | _ => simp [FileName.isHistory] at hh
        · refine h.within.files f fun he => ?_
          rcases he with he | he | he
          · exact hf (Or.inl he)
          · exact hh he
          · exact hf (Or.inr he) }
  applyState := h.records.imp And.left And.left
  loads := h.loads.mono fun c' he => (show c' = c from he) ▸ hc

theorem Reloading.reverting {baseline : Γ.Bytes} {w w' : World Γ} (hcfg : w.files .config = some baseline)
    (hbak : w.files .bak = some baseline) (h : Reloading w w') : Reverting baseline w w' := by
  rcases h with rfl | ⟨b, c, hb, hc, h⟩
  · exact .refl _ _
  · obtain rfl : baseline = b := Option.some.inj (hcfg.symm.trans hb)
    exact h.reverting hbak hc

/-- The baseline runs, and the records say so. -/
structure AtBaseline (baseline : Γ.Bytes) (w : World Γ) : Prop where
  live : ∃ c, parseConfig Γ baseline = .ok c ∧ Live w c
  recorded : w.files .applyState = some (Γ.marshalApplyState (Γ.sha256 baseline))

theorem reloadWithRetries_spec {baseline : Γ.Bytes} : ∀ (n : Nat) {w₀ w : World Γ}, Reverting baseline w₀ w →
    w.files .config = some baseline → w.files .bak = some baseline →
      Stops R (Reverting baseline w₀) (reloadWithRetries n) (fun _ w' => AtBaseline baseline w') w
  | 0, w₀, w, h₀, hcfg, hbak =>
    reload_spec.mono (fun _ h => h₀.trans (h.reverting hcfg hbak)) fun _ w' _ h => by
      obtain ⟨b, c, hb, hc, h⟩ := h
      obtain rfl : baseline = b := Option.some.inj (hcfg.symm.trans hb)
      exact ⟨⟨c, hc, h.live⟩, h.recorded⟩
  | n + 1, w₀, w, h₀, hcfg, hbak => by
    refine .call reload_spec.attempt (fun _ h => h₀.trans (h.reverting hcfg hbak)) fun r w' h hr => ?_
    have h₁ := h.reverting hcfg hbak
    cases r with
    | ok _ =>
      obtain ⟨b, c, hb, hc, h⟩ := hr.2 () rfl
      obtain rfl : baseline = b := Option.some.inj (hcfg.symm.trans hb)
      exact .ret (h₀.trans h₁) ⟨⟨c, hc, h.live⟩, h.recorded⟩
    | error e =>
      have hf : ∀ f, f.isGenerated = false → f ≠ .applyState → w'.files f = w.files f := fun f hg ha =>
        h₁.within.files f (by simp [revertsE, hg, ha])
      exact reloadWithRetries_spec n (h₀.trans h₁) ((hf _ rfl (by simp)).trans hcfg) ((hf _ rfl (by simp)).trans hbak)

/-! ## Putting the files back -/

/-- A program that puts the files of a baseline back. -/
def restoresE : Effects := { files := fun f => f = .config ∨ f = .reverted ∨ f.isHistory = true }

/-- What `restoreConfirmBaseline` may have done. -/
structure Restoring (baseline : Γ.Bytes) (w w' : World Γ) : Prop where
  within : restoresE.Within w w'
  config : w'.files .config = w.files .config ∨ w'.files .config = some baseline
  reverted : w'.files .reverted = w.files .reverted ∨
    w'.files .reverted = w.files .config ∧ w.files .config ≠ none ∧ w.files .config ≠ some baseline
  kept : w'.files .config = w.files .config ∨ w.files .config = none ∨ w'.files .reverted = w.files .config
  history : ∀ n, w'.files (.history n) = w.files (.history n) ∨ w'.files (.history n) = w.files (.staged n)

/-- The files of the baseline are back. -/
structure Restored (baseline : Γ.Bytes) (w w' : World Γ) : Prop extends Restoring baseline w w' where
  configBack : w'.files .config = some baseline
  historyBack : ∀ n, w'.files (.history n) = w.files (.staged n)

theorem Restoring.refl (baseline : Γ.Bytes) (w : World Γ) : Restoring baseline w w :=
  ⟨.refl w, Or.inl rfl, Or.inl rfl, Or.inl rfl, fun _ => Or.inl rfl⟩

theorem keepRejected_spec {baseline : Γ.Bytes} :
    Stops R (fun w' => w' = w ∨ ∃ cur, w.files .config = some cur ∧ cur ≠ baseline ∧ w' = w.set .reverted (some cur))
      (keepRejected baseline)
      (fun _ w' => ∀ cur, w.files .config = some cur → cur ≠ baseline → w' = w.set .reverted (some cur)) w := by
  refine .bind (P := fun cur w' => cur = w.files .config ∧ w = w') (stops_readFile (Or.inl rfl) ⟨rfl, rfl⟩) fun r w' _ h => ?_
  obtain ⟨rfl, rfl⟩ := h
  cases hcfg : w.files .config with
  | none => exact .ret (Or.inl rfl) nofun
  | some cur =>
    refine .ite (fun he => .ret (Or.inl rfl) ?_) fun hne => ?_
    · rintro _ ⟨⟩ hne
      exact absurd he hne
    · refine stops_wrapErr (stops_writeFile (Or.inl rfl) (Or.inr ⟨cur, rfl, hne, rfl⟩) ?_)
      rintro _ ⟨⟩ _
      rfl

theorem unstageSnapshot_spec (n : Fin 6) :
    Stops R (fun w' => w' = w ∨ w' = w.set (.history n) (w.files (.staged n))) (unstageSnapshot n)
      (fun _ w' => w' = w.set (.history n) (w.files (.staged n))) w := by
  refine .bind (P := fun b w' => b = w.files (.staged n) ∧ w = w') (stops_readFile (Or.inl rfl) ⟨rfl, rfl⟩) fun r w' _ h => ?_
  obtain ⟨rfl, rfl⟩ := h
  cases hs : w.files (.staged n) with
  | none => exact stops_removeIfExists (Or.inl rfl) (Or.inr rfl) rfl
  | some b => exact stops_writeFile (Or.inl rfl) (Or.inr rfl) rfl

theorem Restoring.unstage {baseline : Γ.Bytes} {w w' : World Γ} (h : Restoring baseline w w') (n : Fin 6) :
    Restoring baseline w (w'.set (.history n) (w'.files (.staged n))) := by
  have hs : w'.files (.staged n) = w.files (.staged n) := h.within.files _ (by simp [restoresE, FileName.isHistory])
  refine ⟨h.within.trans (within_set (Or.inr (Or.inr rfl))), by simpa using h.config, by simpa using h.reverted,
    by simpa using h.kept, fun m => ?_⟩
  by_cases hm : m = n
  · subst hm
    exact Or.inr (by simp [hs])
  · simpa [hm] using h.history m

theorem restoreConfirmBaseline_spec :
    Stops R (fun w' => w' = w ∨ ∃ B, w.files (.staged 0) = some B ∧ Restoring B w w') restoreConfirmBaseline
      (fun _ w' => ∃ B, w.files (.staged 0) = some B ∧ Restored B w w') w := by
  refine .bind (P := fun B w' => w.files (.staged 0) = some B ∧ w = w')
    (stops_wrapErr (stops_readExisting (Or.inl rfl) fun B h => ⟨h, rfl⟩)) fun B w' _ h => ?_
  obtain ⟨hB, rfl⟩ := h
  suffices hs : Stops R (Restoring B w) ((keepRejected B).bind fun _ => (writeFile .config B).bind fun _ =>
      forEach configYAMLHistory unstageSnapshot) (fun _ w' => Restored B w w') w from
    hs.mono (fun _ h => Or.inr ⟨B, hB, h⟩) fun _ _ _ h => ⟨B, hB, h⟩
  have hkeep : ∀ {cur}, w.files .config = some cur → cur ≠ B → Restoring B w (w.set .reverted (some cur)) := fun hcfg hne =>
    ⟨within_set (Or.inr (Or.inl rfl)), Or.inl (by simp), Or.inr ⟨by simp [hcfg], by simp [hcfg], by simpa [hcfg] using hne⟩,
      Or.inl (by simp), fun n => Or.inl (by simp)⟩
  refine .call keepRejected_spec (fun w' h => ?_) fun _ w₁ h₁ hk => ?_
  · rcases h with rfl | ⟨cur, hcfg, hne, rfl⟩
    · exact .refl B _
    · exact hkeep hcfg hne
  have hr₁ : Restoring B w w₁ := by
    rcases h₁ with rfl | ⟨cur, hcfg, hne, rfl⟩
    · exact .refl B _
    · exact hkeep hcfg hne
  have hcfg₁ : w₁.files .config = w.files .config := by
    rcases h₁ with rfl | ⟨cur, hcfg, hne, rfl⟩ <;> simp
  -- config.yaml is replaced only after what it held is kept.
  have hr₂ : Restoring B w (w₁.set .config (some B)) := by
    refine ⟨hr₁.within.trans (within_set (Or.inl rfl)), Or.inr (by simp), by simpa using hr₁.reverted, ?_, fun n => by
      simpa using hr₁.history n⟩
    cases hcfg : w.files .config with
    | none => exact Or.inr (Or.inl rfl)
    | some cur =>
      by_cases hne : cur = B
      · exact Or.inl (by simp [hne])
      · exact Or.inr (Or.inr (by simp [hk cur hcfg hne]))
  refine .bind (P := fun _ w' => w' = w₁.set .config (some B)) (stops_writeFile hr₁ hr₂ rfl) fun _ w₂ hr₂ hw₂ => ?_
  have hcfg₂ : w₂.files .config = some B := by simp [hw₂]
  refine .post (fun _ w' h hP => (⟨h, hP.1, hP.2⟩ : Restored B w w')) (P := fun _ (w' : World Γ) =>
    w'.files .config = some B ∧ ∀ n, w'.files (.history n) = w.files (.staged n)) ?_
  refine .post (fun _ w' _ hJ => ⟨hJ.1, fun n => hJ.2 n (by simp)⟩) (Stops.forEach
    (J := fun rest (w' : World Γ) => w'.files .config = some B ∧ ∀ n, n ∉ rest → w'.files (.history n) = w.files (.staged n))
    (fun n rest w' hT hJ => ?_) hr₂ ⟨hcfg₂, fun n hn => ?_⟩)
  · refine (unstageSnapshot_spec n).mono (fun w'' h => ?_) fun _ w'' _ h => ?_
    · rcases h with rfl | rfl
      · exact hT
      · exact hT.unstage n
    · subst h
      refine ⟨by simpa using hJ.1, fun m hm => ?_⟩
      by_cases hmn : m = n
      · subst hmn
        simpa using hT.within.files (.staged m) (by simp [restoresE, FileName.isHistory])
      · simpa [hmn] using hJ.2 m (by simp [hmn, hm])
  · exact absurd (by revert n; decide) hn

/-! ## Rewinding -/

/-- A program that puts the files of a baseline back and reloads them. -/
def rewindsE : Effects where
  files f := restoresE.files f ∨ revertsE.files f
  host := True

/-- What `revertToBaseline` may have done. The host is touched only once all files are back. -/
structure Rewinding (baseline : Γ.Bytes) (w w' : World Γ) : Prop where
  config : w'.files .config = w.files .config ∨ w'.files .config = some baseline
  reverted : w'.files .reverted = w.files .reverted ∨
    w'.files .reverted = w.files .config ∧ w.files .config ≠ none ∧ w.files .config ≠ some baseline
  kept : w'.files .config = w.files .config ∨ w.files .config = none ∨ w'.files .reverted = w.files .config
  history : ∀ n, w'.files (.history n) = w.files (.history n) ∨ w'.files (.history n) = w.files (.staged n)
  applyState : w'.files .applyState = w.files .applyState ∨
    w'.files .applyState = some (Γ.marshalApplyState (Γ.sha256 baseline))
  loads : Loads (parseConfig Γ baseline = .ok ·) w w'
  order : w'.nft = w.nft ∧ w'.wg = w.wg ∧ w'.files .applyState = w.files .applyState ∨
    w'.files .config = some baseline ∧ ∀ n, w'.files (.history n) = w.files (.staged n)

/-- The baseline is back and runs. -/
structure Rewound (baseline : Γ.Bytes) (w w' : World Γ) : Prop extends Rewinding baseline w w' where
  configBack : w'.files .config = some baseline
  historyBack : ∀ n, w'.files (.history n) = w.files (.staged n)
  atBaseline : AtBaseline baseline w'

theorem Restoring.rewinding {baseline : Γ.Bytes} {w w' : World Γ} (h : Restoring baseline w w') : Rewinding baseline w w' where
  config := h.config
  reverted := h.reverted
  kept := h.kept
  history := h.history
  applyState := Or.inl (h.within.files _ (by simp [restoresE, FileName.isHistory]))
  loads := h.within.loads id
  order := Or.inl ⟨h.within.nft id, h.within.wg id, h.within.files _ (by simp [restoresE, FileName.isHistory])⟩

theorem Restored.rewinding {baseline : Γ.Bytes} {w v w' : World Γ} (h : Restored baseline w v) (h' : Reverting baseline v w') :
    Rewinding baseline w w' ∧ w'.files .config = some baseline ∧ ∀ n, w'.files (.history n) = w.files (.staged n) := by
  have hc : w'.files .config = v.files .config := h'.within.files _ (by simp [revertsE, FileName.isGenerated])
  have hr : w'.files .reverted = v.files .reverted := h'.within.files _ (by simp [revertsE, FileName.isGenerated])
  have hh : ∀ n, w'.files (.history n) = v.files (.history n) := fun n => h'.within.files _ (by simp [revertsE, FileName.isGenerated])
  have hr₀ := h.toRestoring.rewinding
  refine ⟨⟨?_, ?_, ?_, ?_, ?_,
    hr₀.loads.trans h'.loads, Or.inr ⟨hc.trans h.configBack, fun n => (hh n).trans (h.historyBack n)⟩⟩, hc.trans h.configBack,
    fun n => (hh n).trans (h.historyBack n)⟩
  · rw [hc]; exact h.config
  · rw [hr]; exact h.reverted
  · rw [hc, hr]; exact h.kept
  · intro n; rw [hh]; exact h.history n
  · rcases h'.applyState with ha | ha
    · exact Or.inl (ha.trans (h.within.files _ (by simp [restoresE, FileName.isHistory])))
    · exact Or.inr ha

theorem restoresE_le : restoresE.LE rewindsE := ⟨fun _ hf => Or.inl hf, fun hf => hf.elim, fun hf => hf⟩

theorem revertsE_le : revertsE.LE rewindsE := ⟨fun _ hf => Or.inr hf, fun hf => hf, fun hf => hf⟩

/-- Where `revertToBaseline` may stop. -/
structure ToBaseline (w w' : World Γ) : Prop where
  within : rewindsE.Within w w'
  rewinding : w' = w ∨ ∃ B, w.files (.staged 0) = some B ∧ Rewinding B w w'

theorem revertToBaseline_spec :
    Stops R (ToBaseline w) revertToBaseline (fun _ w' => ∃ B, w.files (.staged 0) = some B ∧ Rewound B w w') w := by
  refine .call restoreConfirmBaseline_spec (fun w' h => ?_) fun _ v _ h => ?_
  · rcases h with rfl | ⟨B, hB, h⟩
    · exact ⟨.refl _, Or.inl rfl⟩
    · exact ⟨h.within.mono restoresE_le, Or.inr ⟨B, hB, h.rewinding⟩⟩
  obtain ⟨B, hB, hv⟩ := h
  refine (reloadWithRetries_spec rollbackRetries (Reverting.refl B v) hv.configBack ((hv.historyBack 0).trans hB)).mono
    (fun w' h => ⟨(hv.within.mono restoresE_le).trans (h.within.mono revertsE_le), Or.inr ⟨B, hB, (hv.rewinding h).1⟩⟩)
    fun _ w' h hat => ⟨B, hB, ?_⟩
  have hw := hv.rewinding h
  exact ⟨hw.1, hw.2.1, hw.2.2, hat⟩

/-! ## The rollback of a session -/

/-- A program that stops a timer and records the phase of a session. -/
def beginsE : Effects := { files := fun f => f = .session, timers := True }

/-- Two states that differ in nothing that a rewind reads or writes. -/
theorem Rewinding.congr {baseline : Γ.Bytes} {w v v' w' : World Γ} (hv : beginsE.Within w v) (h : Rewinding baseline v v')
    (hw : beginsE.Within v' w') : Rewinding baseline w w' := by
  have hf : ∀ f, f ≠ .session → v.files f = w.files f := fun f hf => hv.files f hf
  have hf' : ∀ f, f ≠ .session → w'.files f = v'.files f := fun f hf => hw.files f hf
  have hn := hv.nft id
  have hg := hv.wg id
  have hn' := hw.nft id
  have hg' := hw.wg id
  obtain ⟨h1, h2, h3, h4, h5, ⟨h6, h7⟩, h8⟩ := h
  simp only [hf _ (show FileName.config ≠ .session by simp), hf _ (show FileName.reverted ≠ .session by simp),
    hf _ (show FileName.applyState ≠ .session by simp), hn, hg,
    ← hf' _ (show FileName.config ≠ .session by simp), ← hf' _ (show FileName.reverted ≠ .session by simp),
    ← hf' _ (show FileName.applyState ≠ .session by simp), ← hn', ← hg'] at h1 h2 h3 h5 h6 h7 h8
  refine ⟨h1, h2, h3, fun n => ?_, h5, ⟨h6, h7⟩, h8.imp id fun h => ⟨h.1, fun n => ?_⟩⟩
  · rw [hf' _ (by simp), ← hf (.history n) (by simp), ← hf (.staged n) (by simp)]; exact h4 n
  · rw [hf' _ (by simp), ← hf (.staged n) (by simp)]; exact h.2 n

/-- The session as a rollback leaves it on record. -/
def Marked (s : ConfirmSession) (reason : RevertReason) (w w' : World Γ) : Prop :=
  w'.files .session = w.files .session ∨ ∃ s', w'.files .session = some (Γ.marshalSession s') ∧ s'.token = s.token ∧
    s'.phase ≠ .active ∧ s'.revertReason = some (s.revertReason.getD reason)

/-- A program that rolls a session back, up to the point where it has succeeded. -/
def rollsE : Effects where
  files f := rewindsE.files f ∨ f = .session
  host := True
  timers := True

/-- Where a rollback may stop before it has succeeded. -/
structure RollingBack (s : ConfirmSession) (reason : RevertReason) (w w' : World Γ) : Prop where
  within : rollsE.Within w w'
  begun : w' = w ∨ w'.begun = s.token :: w.begun
  issued : w'.issued = w.issued
  timers : w'.timers = w.timers ∨ w'.timers = w.timers.filter (· ≠ s.token)
  session : Marked s reason w w'
  rewinding : beginsE.Within w w' ∨ ∃ B, w.files (.staged 0) = some B ∧ Rewinding B w w'

/-- A program that ends a rollback. -/
def finishesE : Effects := { files := fun f => f = .config ∨ f = .reverted ∨ f = .lastRevert ∨ f.inSession = true }

/-- What the end of a rollback may have done: `K` says which removals of the session directory can happen, by what they keep. -/
structure Finishing (K : (FileName → Bool) → Prop) (givesBack : Prop) (w w' : World Γ) : Prop where
  within : finishesE.Within w w'
  config : w'.files .config = w.files .config ∧ w'.files .reverted = w.files .reverted ∨
    givesBack ∧ ∃ e, w.files .reverted = some e ∧ w'.files .config = some e ∧ w'.files .reverted = none
  cleared : ∃ kept, K kept ∧ ∀ f, f.inSession = true → w'.files f = if kept f then w.files f else none

/-- The removals that the rules allow keep what `K` says. -/
structure Clears (R : Rules (host Γ)) (K : (FileName → Bool) → Prop) : Prop where
  allowed : ∀ ch w, R.allows (.removeSessionDir : Cmd Γ) ch w → K ch.kept
  none : K fun _ => false
  all : K fun _ => true

/-- A rollback of `s` that has succeeded, and may be clearing the session. -/
def RolledBack (K : (FileName → Bool) → Prop) (s : ConfirmSession) (reason : RevertReason) (restoreEdits : Bool)
    (w w' : World Γ) : Prop :=
  ∃ B v, w.files (.staged 0) = some B ∧ RollingBack s reason w v ∧ v.begun = s.token :: w.begun ∧ Rewound B w v ∧
    Finishing K (s.revertReason.getD reason = .failedApply ∧ restoreEdits = true) v w'

/-- Where a rollback may stop. -/
def Rollback (K : (FileName → Bool) → Prop) (s : ConfirmSession) (reason : RevertReason) (restoreEdits : Bool)
    (w w' : World Γ) : Prop :=
  RollingBack s reason w w' ∨ RolledBack K s reason restoreEdits w w'

section Spec

variable {K : (FileName → Bool) → Prop}

theorem clearSession_all (w : World Γ) : w.clearSession (fun _ => true) = w := by simp [World.clearSession]

theorem removeSessionDir_spec (hK : Clears R K) :
    Stops R (fun w' => ∃ kept, K kept ∧ w' = w.clearSession kept) removeSessionDir
      (fun _ w' => w' = w.clearSession fun _ => false) w :=
  stops_run (fun ch hch => ⟨ch.kept, hK.allowed ch w hch, rfl⟩) (fun _ _ => ⟨_, hK.none, rfl⟩) (fun _ h => by simp [Cmd.mayTake] at h)
    fun _ _ _ _ => rfl

theorem uses_emitConfirmEvent {E : Effects} (rec : EventRecord) : (emitConfirmEvent rec : App Γ Unit).Uses (Cmd.within E) :=
  uses_ignore (uses_quiet (fun _ => id) id id)

theorem uses_writeLastRevert {E : Effects} (reason : RevertReason) (hE : E.files .lastRevert) :
    (writeLastRevert reason : App Γ Unit).Uses (Cmd.within E) :=
  uses_bind (uses_quiet (fun _ => id) id id) fun _ => uses_ignore (uses_writeFile hE)

/-- What the end of a rollback does before it clears the session. -/
structure GivingBack (givesBack : Prop) (w w' : World Γ) : Prop where
  within : finishesE.Within w w'
  config : w'.files .config = w.files .config ∧ w'.files .reverted = w.files .reverted ∨
    givesBack ∧ ∃ e, w.files .reverted = some e ∧ w'.files .config = some e ∧ w'.files .reverted = none
  session : ∀ f, f.inSession = true → w'.files f = w.files f

theorem GivingBack.clear {G : Prop} {w w₁ : World Γ} (h : GivingBack G w w₁) {kept : FileName → Bool} (hk : K kept) :
    Finishing K G w (w₁.clearSession kept) := by
  refine ⟨h.within.trans (within_clearSession fun f hf => Or.inr (Or.inr (Or.inr hf))), by simpa [FileName.inSession] using h.config,
    kept, hk, fun f hf => ?_⟩
  by_cases hkf : kept f = true
  · simp [hkf, h.session f hf]
  · simp [hkf, hf]

theorem finishRollback_spec (hK : Clears R K) (reason : RevertReason) (restoreEdits : Bool) :
    Stops R (Finishing K (reason = .failedApply ∧ restoreEdits = true) w) (finishRollback reason restoreEdits) (fun _ _ => True) w := by
  have hall : ∀ {w₁}, GivingBack (reason = .failedApply ∧ restoreEdits = true) w w₁ →
      Finishing K (reason = .failedApply ∧ restoreEdits = true) w w₁ := fun h => by
    have := h.clear hK.all
    rwa [clearSession_all] at this
  have h₀ : GivingBack (reason = .failedApply ∧ restoreEdits = true) w w := ⟨.refl w, Or.inl ⟨rfl, rfl⟩, fun _ _ => rfl⟩
  have hgive : Stops R (GivingBack (reason = .failedApply ∧ restoreEdits = true) w)
      (settleRejected reason restoreEdits) (fun _ _ => True) w := by
    refine .ite (fun hG => ?_) fun _ => ?_
    · refine stops_ignore (P := fun _ _ => True) (stops_run (fun _ _ => h₀) (fun _ _ => ?_) (fun _ h => by simp [Cmd.mayTake] at h)
        fun _ _ _ _ => trivial) fun _ _ => trivial
      cases he : w.files .reverted with
      | none =>
        simp only [effect, he]
        exact h₀
      | some e =>
        simp only [effect, he]
        refine ⟨(within_set (Or.inl rfl)).trans (within_set (Or.inr (Or.inl rfl))), Or.inr ⟨hG, e, he, by simp, by simp⟩, fun f hf => ?_⟩
        cases f <;> simp_all [FileName.inSession]
    · refine (stops_frame (E := { files := fun f => f = .lastRevert }) (uses_writeLastRevert _ rfl)).mono (fun w' h => ?_) fun _ _ _ _ => trivial
      have hle : ({ files := fun f => f = .lastRevert } : Effects).LE finishesE :=
        ⟨fun f hf => Or.inr (Or.inr (Or.inl hf)), fun hf => hf, fun hf => hf⟩
      refine ⟨h.mono hle, Or.inl ⟨h.files _ (by simp), h.files _ (by simp)⟩,
        fun f hf => h.files f ?_⟩
      rintro rfl
      simp [FileName.inSession] at hf
  refine .call hgive (fun _ h => hall h) fun _ w₁ h₁ _ => ?_
  refine .call (M := host Γ) (U := fun w' => ∃ kept, K kept ∧ w' = w₁.clearSession kept) (P := fun _ _ => True)
    (stops_ignore (removeSessionDir_spec hK) fun _ _ => trivial) ?_ fun _ w₂ h₂ _ => ?_
  · rintro _ ⟨kept, hk, rfl⟩
    exact h₁.clear hk
  · obtain ⟨kept, hk, rfl⟩ := h₂
    refine (stops_frame (E := readsE) (uses_emitConfirmEvent _)).mono (fun w' h => ?_) fun _ _ _ _ => trivial
    have hf := h₁.clear (K := K) hk
    refine ⟨hf.within.trans (h.mono readsE_le), ?_, kept, hk, fun f hf' => ?_⟩
    · rw [h.files _ id, h.files _ id]; exact hf.config
    · rw [h.files _ id]
      by_cases hkf : kept f = true
      · simp [hkf, h₁.session f hf']
      · simp [hkf, hf']

/-! ### The steps of a rollback -/

theorem beginsE_le : beginsE.LE rollsE := ⟨fun _ hf => Or.inr hf, fun hf => hf.elim, fun _ => trivial⟩

theorem rewindsE_le : rewindsE.LE rollsE := ⟨fun _ hf => Or.inl hf, fun _ => trivial, fun hf => hf.elim⟩

theorem RollingBack.refl (s : ConfirmSession) (reason : RevertReason) (w : World Γ) : RollingBack s reason w w :=
  ⟨.refl w, Or.inl rfl, rfl, Or.inl rfl, Or.inl rfl, Or.inl (.refl w)⟩

/-- A rollback that has begun. -/
structure HasBegun (s : ConfirmSession) (reason : RevertReason) (w w' : World Γ) : Prop extends RollingBack s reason w w' where
  noted : w'.begun = s.token :: w.begun

theorem HasBegun.read {s : ConfirmSession} {reason : RevertReason} {w v v' : World Γ} (h : HasBegun s reason w v)
    (hv : readsE.Within v v') : HasBegun s reason w v' := by
  have hb : v'.begun = s.token :: w.begun := (hv.begun id).trans h.noted
  refine ⟨⟨h.within.trans (hv.mono readsE_le), Or.inr hb, (hv.issued id).trans h.issued, ?_, ?_, ?_⟩, hb⟩
  · rw [hv.timers id]; exact h.timers
  · unfold Marked
    rw [hv.files _ id]; exact h.session
  · exact h.rewinding.imp (fun hw => hw.trans (hv.mono readsE_le)) fun ⟨B, hB, hw⟩ =>
      ⟨B, hB, hw.congr (.refl w) (hv.mono readsE_le)⟩

/-- Recording another phase of the session. -/
theorem HasBegun.mark {s : ConfirmSession} {reason : RevertReason} {w v : World Γ} (h : HasBegun s reason w v)
    (s' : ConfirmSession) (htok : s'.token = s.token) (hphase : s'.phase ≠ .active) (hreason : s'.revertReason = some (s.revertReason.getD reason)) :
    HasBegun s reason w (v.set .session (some (Γ.marshalSession s'))) := by
  have hset : beginsE.Within v (v.set .session (some (Γ.marshalSession s'))) := within_set rfl
  exact ⟨⟨h.within.trans (hset.mono beginsE_le), Or.inr h.noted, h.issued, h.timers, Or.inr ⟨s', by simp, htok, hphase, hreason⟩,
    h.rewinding.imp (fun hw => hw.trans hset) fun ⟨B, hB, hw⟩ => ⟨B, hB, hw.congr (.refl w) hset⟩⟩, h.noted⟩

theorem HasBegun.baseline {s : ConfirmSession} {reason : RevertReason} {w v v' : World Γ} (h : HasBegun s reason w v)
    (hv : beginsE.Within w v) (h' : ToBaseline v v') : HasBegun s reason w v' := by
  have hb : v'.begun = s.token :: w.begun := (h'.within.begun id).trans h.noted
  refine ⟨⟨h.within.trans (h'.within.mono rewindsE_le), Or.inr hb, (h'.within.issued id).trans h.issued, ?_, ?_, ?_⟩, hb⟩
  · rw [h'.within.timers id]; exact h.timers
  · unfold Marked
    rw [h'.within.files .session (by simp [rewindsE, restoresE, revertsE, FileName.isHistory, FileName.isGenerated])]
    exact h.session
  · rcases h'.rewinding with rfl | ⟨B, hB, hw⟩
    · exact Or.inl hv
    · exact Or.inr ⟨B, (hv.files (.staged 0) (by simp [beginsE])).symm.trans hB, hw.congr hv (.refl _)⟩

/-- What a rollback does before it rewinds. -/
theorem beginRollback_spec (s : ConfirmSession) (reason : RevertReason) :
    Stops R (fun w' => RollingBack s reason w w') (beginRollback s reason)
      (fun _ w' => HasBegun s reason w w' ∧ beginsE.Within w w') w := by
  have h₀ := RollingBack.refl s reason w
  have hw₁ : beginsE.Within w { w with begun := s.token :: w.begun } := within_of_timers trivial rfl rfl rfl rfl
  have h₁ : HasBegun s reason w { w with begun := s.token :: w.begun } :=
    ⟨⟨hw₁.mono beginsE_le, Or.inr rfl, rfl, Or.inl rfl, Or.inl rfl, Or.inl hw₁⟩, rfl⟩
  refine .bind (P := fun _ w' => w' = { w with begun := s.token :: w.begun }) (stops_run (fun _ _ => h₀)
    (fun _ _ => h₁.toRollingBack) (fun _ h => by simp [Cmd.mayTake] at h) fun _ _ _ _ => rfl) fun _ _ _ h => ?_
  subst h
  -- The timer stops, unless stopping it fails or it has fired before.
  have hw₂ : beginsE.Within w { w with timers := w.timers.filter (· ≠ s.token), begun := s.token :: w.begun } :=
    within_of_timers trivial rfl rfl rfl rfl
  have h₂ : HasBegun s reason w { w with timers := w.timers.filter (· ≠ s.token), begun := s.token :: w.begun } :=
    ⟨⟨hw₂.mono beginsE_le, Or.inr rfl, rfl, Or.inr rfl, Or.inl rfl, Or.inl hw₂⟩, rfl⟩
  refine .call (U := fun w' => HasBegun s reason w w' ∧ beginsE.Within w w') (P := fun _ _ => True)
    (stops_ignore (P := fun _ _ => True) (stops_run (fun _ _ => ⟨h₁, hw₁⟩) (fun ch _ => ?_) (fun ch _ => ⟨h₂, hw₂⟩) fun _ _ _ _ => trivial)
      fun _ _ => trivial) (fun _ h => h.1.toRollingBack) fun _ w₃ h₃ _ => ?_
  · simp only [effect]
    split
    · exact ⟨h₁, hw₁⟩
    · exact ⟨h₂, hw₂⟩
  · have hm := h₃.1.mark (s.rollingBack reason) rfl (by simp [ConfirmSession.rollingBack]) rfl
    refine (stops_ignore (T := fun w' => HasBegun s reason w w' ∧ beginsE.Within w w') (P := fun _ _ => True)
      (Q := fun _ w' => HasBegun s reason w w' ∧ beginsE.Within w w')
      (stops_writeFile h₃ ⟨hm, h₃.2.trans (within_set rfl)⟩ trivial) fun _ h => h).mono (fun _ h => h.1.toRollingBack) fun _ _ _ h => h

theorem failRollback_spec {s : ConfirmSession} {reason : RevertReason} {v : World Γ} (h : HasBegun s reason w v) (e : Err) :
    Stops R (RollingBack s reason w) (failRollback (s.rollingBack reason) e) (fun _ _ => False) v := by
  have hmark := h.mark { s.rollingBack reason with phase := .failed, failure := truncateForLog e.text 512 } rfl (by simp) rfl
  refine .call (U := HasBegun s reason w) (P := fun _ _ => True)
    (stops_ignore (P := fun _ _ => True) (stops_writeFile h hmark trivial) fun _ _ => trivial)
    (fun _ h => h.toRollingBack) fun _ v₁ h₁ _ => ?_
  refine .call (stops_frame (E := readsE) (uses_emitConfirmEvent _)) (fun _ h => (h₁.read h).toRollingBack) fun _ v₂ h₂ _ => ?_
  exact .fail (h₁.read h₂).toRollingBack

theorem Rewound.congr {baseline : Γ.Bytes} {w v w' : World Γ} (hv : beginsE.Within w v) (h : Rewound baseline v w') :
    Rewound baseline w w' :=
  ⟨h.toRewinding.congr hv (.refl w'), h.configBack, fun n => (h.historyBack n).trans (hv.files _ (by simp [beginsE])), h.atBaseline⟩

/-- What a rollback does, wherever it stops. -/
theorem rollback_spec (hK : Clears R K) (s : ConfirmSession) (reason : RevertReason) (restoreEdits : Bool) :
    Stops R (Rollback K s reason restoreEdits w) (rollbackLocked s reason restoreEdits)
      (fun _ w' => RolledBack K s reason restoreEdits w w') w := by
  refine .call (beginRollback_spec s reason) (fun _ h => Or.inl h) fun _ v _ h => ?_
  obtain ⟨hb, hv⟩ := h
  refine .call revertToBaseline_spec.attempt (fun v' h => Or.inl (hb.baseline hv h).toRollingBack) fun r v' h hr => ?_
  have hb' := hb.baseline hv h
  cases r with
  | error e => exact (failRollback_spec hb' e).mono (fun _ h => Or.inl h) fun _ _ _ h => h.elim
  | ok _ =>
    obtain ⟨B, hB, hrew⟩ := hr.2 () rfl
    have hdone : ∀ {w'}, Finishing K (s.revertReason.getD reason = .failedApply ∧ restoreEdits = true) v' w' →
        RolledBack K s reason restoreEdits w w' := fun hf =>
      ⟨B, v', (hv.files (.staged 0) (by simp [beginsE])).symm.trans hB, hb'.toRollingBack, hb'.noted, hrew.congr hv, hf⟩
    exact (finishRollback_spec hK _ restoreEdits).mono (fun _ h => Or.inr (hdone h)) fun _ _ h _ => hdone h

end Spec

end EvuProxy

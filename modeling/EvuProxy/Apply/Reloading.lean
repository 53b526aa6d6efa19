import EvuProxy.Apply.Live

/-!
# What a reload does

`reload_spec` says what a reload did to the host and to its records, wherever it stopped. It applies what config.yaml holds when it
begins: the firewall before the tunnel, the hash after both, and the snapshot last.
-/

namespace EvuProxy

open Go Fault Fault.Prog

variable {Γ : Ctx} {R : Rules (host Γ)} {w : World Γ}

/-! ## Recording -/

/-- A program that writes snapshots. -/
def snapshotsE : Effects := { files := fun f => f.isHistory = true }

/-- A program that rotates the snapshots after the first. -/
def rotatesE : Effects := { files := fun f => ∃ n, n ≠ 0 ∧ f = .history n }

theorem rotatesE_le : rotatesE.LE snapshotsE := by
  refine ⟨?_, fun h => h, fun h => h⟩
  rintro f ⟨n, -, rfl⟩
  rfl

theorem snapshotsE_le : snapshotsE.LE reloadsE := ⟨fun _ h => Or.inr (Or.inl h), fun h => h.elim, fun h => h⟩

/-- Where the snapshot of an applied config may stop. A config that `.bak` already holds changes nothing. -/
structure Snapshotting (b : Γ.Bytes) (w w' : World Γ) : Prop where
  within : snapshotsE.Within w w'
  bak : w'.files .bak = w.files .bak ∨ w'.files .bak = none ∨ w'.files .bak = some b
  same : w.files .bak = some b → ∀ n, w'.files (.history n) = w.files (.history n)

theorem Snapshotting.refl (b : Γ.Bytes) (w : World Γ) : Snapshotting b w w := ⟨.refl w, Or.inl rfl, fun _ _ => rfl⟩

theorem uses_rotateSnapshots : (forEach [4, 3, 2, 1] rotateSnapshot : App Γ Unit).Uses (Cmd.within rotatesE) := by
  refine uses_forEach fun n hn => uses_bind (uses_quiet (fun _ => id) id id) fun b => ?_
  split
  · simp
  · refine uses_wrapErr (uses_renameExisting ⟨n, ?_, rfl⟩ ⟨n + 1, ?_, rfl⟩)
    · rintro rfl; simp at hn
    · rintro h
      simp only [List.mem_cons, List.not_mem_nil, or_false] at hn
      rcases hn with rfl | rfl | rfl | rfl <;> exact absurd h (by decide)

theorem recordAppliedConfigSnapshot_spec {b : Γ.Bytes} (hcfg : w.files .config = some b) :
    Stops R (Snapshotting b w) recordAppliedConfigSnapshot (fun _ w' => w'.files .bak = some b) w := by
  have h₀ := Snapshotting.refl b w
  refine .bind (P := fun cur w' => b = cur ∧ w = w') (stops_readExisting h₀ fun cur h => ⟨?_, rfl⟩) fun cur w' _ h => ?_
  · exact Option.some.inj (hcfg.symm.trans h)
  obtain ⟨rfl, rfl⟩ := h
  refine .bind (P := fun prev w' => prev = w.files .bak ∧ w = w') (stops_readFile h₀ ⟨rfl, rfl⟩) fun prev w' _ h => ?_
  obtain ⟨rfl, rfl⟩ := h
  -- A state that was written over `w` while `.bak` was not the config.
  have hwithin : ∀ {w' : World Γ} (hne : w.files .bak ≠ some b), snapshotsE.Within w w' →
      (w'.files .bak = w.files .bak ∨ w'.files .bak = none ∨ w'.files .bak = some b) → Snapshotting b w w' :=
    fun hne hw hb => ⟨hw, hb, fun he => absurd he hne⟩
  cases hbak : w.files .bak with
  | none =>
    have hset := hwithin (by simp [hbak]) (within_set (f := .bak) (b := some b) rfl) (Or.inr (Or.inr (by simp)))
    exact stops_writeFile h₀ hset (by simp)
  | some prev =>
  refine .ite (fun he => .ret h₀ (by rw [hbak, he])) fun hne => ?_
  have hne : w.files .bak ≠ some b := fun h => hne (Option.some.inj (h.symm.trans hbak))
  have hrot : ∀ {w'}, rotatesE.Within w w' → Snapshotting b w w' := fun h =>
    hwithin hne (h.mono rotatesE_le) (Or.inl (h.files _ (by rintro ⟨n, hn, he⟩; cases he; exact hn rfl)))
  refine .call (stops_frame (E := rotatesE) (uses_ignore (uses_removeIfExists ⟨5, by decide, rfl⟩))) (fun _ => hrot)
    fun _ w₁ h₁ _ => ?_
  refine .call (stops_frame uses_rotateSnapshots) (fun _ h => hrot (h₁.trans h)) fun _ w₂ h₂ _ => ?_
  have h₂ := h₁.trans h₂
  have hmv : ∀ b', w₂.files .bak = some b' → Snapshotting b w ((w₂.set (.history 1) (some b')).set .bak none) := fun b' _ =>
    hwithin hne ((h₂.mono rotatesE_le).trans ((within_set rfl).trans (within_set rfl))) (Or.inr (Or.inl (by simp)))
  refine .bind (P := fun _ w' => snapshotsE.Within w w')
    (stops_wrapErr (stops_renameExisting (hrot h₂) hmv fun b' h => (hmv b' h).within)) fun _ w₃ h₃ hw₃ => ?_
  exact stops_writeFile h₃ (hwithin hne (hw₃.trans (within_set rfl)) (Or.inr (Or.inr (by simp)))) (by simp)

/-- Where the record of the hash may stop. -/
def Recording (b : Γ.Bytes) (w w' : World Γ) : Prop := w' = w ∨ w' = w.set .applyState (some (Γ.marshalApplyState (Γ.sha256 b)))

theorem recordAppliedConfigHash_spec {b : Γ.Bytes} (hcfg : w.files .config = some b) :
    Stops R (Recording b w) recordAppliedConfigHash
      (fun _ w' => w' = w.set .applyState (some (Γ.marshalApplyState (Γ.sha256 b)))) w := by
  refine .bind (P := fun h w' => h = Γ.sha256 b ∧ w = w') ?_ fun h w' _ he => ?_
  · refine .bind (P := fun cur w' => b = cur ∧ w = w') (stops_readExisting (Or.inl rfl) fun cur h => ⟨?_, rfl⟩) fun cur w' hT h => ?_
    · exact Option.some.inj (hcfg.symm.trans h)
    · obtain ⟨rfl, rfl⟩ := h
      exact .ret hT ⟨rfl, rfl⟩
  · obtain ⟨rfl, rfl⟩ := he
    exact stops_writeFile (Or.inl rfl) (Or.inr rfl) rfl

/-! ## A reload -/

/-- Where the reload of a config may stop, when config.yaml holds `b` and that is the config `c`. -/
structure ReloadingOf (b : Γ.Bytes) (c : Config) (w w' : World Γ) : Prop where
  within : reloadsE.Within w w'
  ruleset : RulesetFile c w w'
  host : w'.nft = w.nft ∧ w'.wg = w.wg ∨ Applied c w w'
  records : w'.files .applyState = w.files .applyState ∧ (∀ n, w'.files (.history n) = w.files (.history n)) ∨
    w'.files .applyState = some (Γ.marshalApplyState (Γ.sha256 b)) ∧ Applied c w w' ∧ LiveTunnel w' c
  bak : w'.files .bak = w.files .bak ∨ w'.files .bak = none ∨ w'.files .bak = some b
  same : w.files .bak = some b → ∀ n, w'.files (.history n) = w.files (.history n)

/-- The reload of a config is done. -/
structure Reloaded (b : Γ.Bytes) (c : Config) (w w' : World Γ) : Prop extends ReloadingOf b c w w' where
  applied : Applied c w w'
  tunnel : LiveTunnel w' c
  recorded : w'.files .applyState = some (Γ.marshalApplyState (Γ.sha256 b))
  snapshot : w'.files .bak = some b

theorem ReloadingOf.loads {b : Γ.Bytes} {c : Config} {w w' : World Γ} (h : ReloadingOf b c w w') : Loads (· = c) w w' := by
  rcases h.host with ⟨hn, hw⟩ | ha
  · exact .of_eq hn hw
  · exact ha.loads

theorem Reloaded.live {b : Γ.Bytes} {c : Config} {w w' : World Γ} (h : Reloaded b c w w') : Live w' c :=
  ⟨h.applied.renders, h.tunnel⟩

theorem Applying.reloading {b : Γ.Bytes} {c : Config} {w w' : World Γ} (h : Applying c w w') : ReloadingOf b c w w' :=
  ⟨h.within.mono appliesE_le_reloadsE, h.ruleset, h.host,
    Or.inl ⟨h.within.files _ (by simp [appliesE, FileName.isGenerated]), fun n => h.within.files _ (by simp [appliesE, FileName.isGenerated])⟩,
    Or.inl (h.within.files _ (by simp [appliesE, FileName.isGenerated])),
    fun _ n => h.within.files _ (by simp [appliesE, FileName.isGenerated])⟩

theorem reload_of_spec {b : Γ.Bytes} {c : Config} (hcfg : w.files .config = some b) (hparse : parseConfig Γ b = .ok c) :
    Stops R (ReloadingOf b c w) reload (fun _ w' => Reloaded b c w w') w := by
  have h₀ : ReloadingOf b c w w := Applying.reloading (Preparing.applying ⟨.refl w, Or.inl rfl⟩)
  refine .bind (P := fun c' w' => c = c' ∧ w = w') (stops_loadConfig h₀ fun b' c' hb hc => ⟨?_, rfl⟩) fun c' w' _ h => ?_
  · obtain rfl : b = b' := Option.some.inj (hcfg.symm.trans hb)
    exact Except.ok.inj (hparse.symm.trans hc)
  obtain ⟨rfl, rfl⟩ := h
  refine .call (applyToHost_spec c) (fun _ => Applying.reloading) fun _ w₁ h₁ ha => ?_
  -- The host runs the config. What is left to do is record it.
  have hcfg₁ : w₁.files .config = some b := (h₁.within.files _ (by simp [appliesE, FileName.isGenerated])).trans hcfg
  have hh₁ : ∀ n, w₁.files (.history n) = w.files (.history n) := fun n =>
    h₁.within.files _ (by simp [appliesE, FileName.isGenerated])
  generalize hw₂ : w₁.set .applyState (some (Γ.marshalApplyState (Γ.sha256 b))) = w₂
  have happ : ∀ {w'}, w'.files .nftables = w₁.files .nftables → w'.nft = w₁.nft → w'.wg = w₁.wg → Applied c w w' ∧ LiveTunnel w' c :=
    fun hf hn hw => by
      obtain ⟨n, src, hn', hsrc, hnf, hl⟩ := ha.1.ruleset
      obtain ⟨l, hlw, hlx⟩ := ha.1.wg
      exact ⟨⟨⟨n, src, hn', hsrc, hf.trans hnf, hn.trans hl⟩, l, hw.trans hlw, hlx⟩, ha.2.congr hw⟩
  have hfile : ∀ {w'}, w'.files .nftables = w₁.files .nftables → RulesetFile c w w' := fun hf => by
    rcases h₁.ruleset with h | ⟨n, hn, h⟩
    · exact Or.inl (hf.trans h)
    · exact Or.inr ⟨n, hn, hf.trans h⟩
  have hf₂ : ∀ f, f ≠ .applyState → w₂.files f = w₁.files f := fun f hf => by rw [← hw₂]; simp [hf]
  have hst₂ : w₂.files .applyState = some (Γ.marshalApplyState (Γ.sha256 b)) := by rw [← hw₂]; simp
  have hn₂ : w₂.nft = w₁.nft := by rw [← hw₂]; rfl
  have hwg₂ : w₂.wg = w₁.wg := by rw [← hw₂]; rfl
  have hh₂ : ∀ n, w₂.files (.history n) = w.files (.history n) := fun n => (hf₂ _ (by simp)).trans (hh₁ n)
  have hwithin₂ : reloadsE.Within w w₂ := by
    rw [← hw₂]
    exact (h₁.within.mono appliesE_le_reloadsE).trans (within_set (Or.inr (Or.inr rfl)))
  have h₂ : ReloadingOf b c w w₂ := by
    have hah := happ (hf₂ _ (by simp)) hn₂ hwg₂
    exact ⟨hwithin₂, hfile (hf₂ _ (by simp)), Or.inr hah.1, Or.inr ⟨hst₂, hah⟩, Or.inl (hh₂ 0), fun _ => hh₂⟩
  refine .call (stops_wrapErr (recordAppliedConfigHash_spec hcfg₁)) (fun w' h => ?_) fun _ w' _ h => ?_
  · rcases h with rfl | rfl
    · exact h₁.reloading
    · rw [hw₂]; exact h₂
  obtain rfl : w₂ = w' := hw₂.symm.trans h.symm
  have hcfg₂ : w₂.files .config = some b := (hf₂ _ (by simp)).trans hcfg₁
  have hkeep : ∀ {w'}, Snapshotting b w₂ w' → w'.files .applyState = some (Γ.marshalApplyState (Γ.sha256 b)) ∧
      Applied c w w' ∧ LiveTunnel w' c ∧ ReloadingOf b c w w' := fun hs => by
    have hf := (hs.within.files .nftables (by simp [snapshotsE, FileName.isHistory])).trans (hf₂ _ (by simp))
    have hah := happ hf ((hs.within.nft id).trans hn₂) ((hs.within.wg id).trans hwg₂)
    have hst := (hs.within.files .applyState (by simp [snapshotsE, FileName.isHistory])).trans hst₂
    refine ⟨hst, hah.1, hah.2, h₂.within.trans (hs.within.mono snapshotsE_le),
      hfile hf, Or.inr hah.1, Or.inr ⟨hst, hah⟩, ?_, fun hb n => ?_⟩
    · rw [← hh₂]; exact hs.bak
    · exact (hs.same ((hh₂ 0).trans hb) n).trans (hh₂ n)
  exact (stops_wrapErr (recordAppliedConfigSnapshot_spec hcfg₂)).mono (fun _ h => (hkeep h).2.2.2) fun _ _ h hb =>
    have hk := hkeep h
    ⟨hk.2.2.2, hk.2.1, hk.2.2.1, hk.1, hb⟩

/-- Where a reload may stop. -/
def Reloading (w w' : World Γ) : Prop :=
  w' = w ∨ ∃ b c, w.files .config = some b ∧ parseConfig Γ b = .ok c ∧ ReloadingOf b c w w'

theorem reload_spec :
    Stops R (Reloading w) reload
      (fun _ w' => ∃ b c, w.files .config = some b ∧ parseConfig Γ b = .ok c ∧ Reloaded b c w w') w := by
  by_cases h : ∃ b c, w.files .config = some b ∧ parseConfig Γ b = .ok c
  · obtain ⟨b, c, hb, hc⟩ := h
    exact (reload_of_spec hb hc).mono (fun _ h => Or.inr ⟨b, c, hb, hc, h⟩) fun _ _ _ h => ⟨b, c, hb, hc, h⟩
  · refine .bind (P := fun _ _ => False) (stops_loadConfig (Or.inl rfl) fun b c hb hc => h ⟨b, c, hb, hc⟩) fun _ _ _ h => h.elim

end EvuProxy

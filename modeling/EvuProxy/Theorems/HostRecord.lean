import EvuProxy.Theorems.Unattended

/-!
# What the host runs and what the files say

`.bak` and the hash last applied say which config the host runs, and `nftables.nft` is the ruleset in the kernel. A reload that succeeds makes
both true, whatever was the case before, and every operation keeps them unless it breaks off halfway. On top of the full ruleset the kernel may
have geo sets that were refreshed and a prerouting chain that was replaced, and that chain belongs to the same ruleset.
-/

namespace EvuProxy

open Fault Fault.Prog

variable {Γ : Ctx} {w v w' : World Γ}

/-! ## The host -/

/-- A file for `nft -f` that leaves the ruleset `n` in place: geo sets, or the prerouting chain of a config whose full ruleset is `n`. -/
def UpdateOf (n : String) (u : Γ.Bytes) : Prop :=
  (∃ c, RendersGeoSets c u) ∨
    ∃ c paused s, (genNFTables c : App Γ String).CanReturn n ∧ natPreroutingUpdate c paused = .ok s ∧ u = Γ.text s

/-- The ruleset last loaded is `n`, rendered from `c`, with nothing but updates on top. -/
def RunsFull (w : World Γ) (c : Config) (n : String) : Prop :=
  ∃ src ups l, w.nft = ups ++ Γ.text src :: l ∧ (genNFTables c : App Γ String).CanReturn n ∧
    (genApplySrc c n : App Γ String).CanReturn src ∧ ∀ u ∈ ups, UpdateOf n u

/-- No full ruleset was loaded since boot. -/
def NothingFull (w : World Γ) : Prop := ∀ u ∈ w.nft, ∃ n, UpdateOf n u

/-- The ruleset of a config is in `nftables.nft` and in the kernel. -/
def FileFits (w : World Γ) (c : Config) : Prop := ∃ n, w.files .nftables = some (Γ.text n) ∧ RunsFull w c n

/-- The files tell the truth about the host. -/
structure Coupled (w : World Γ) : Prop where
  ruleset : NothingFull w ∨ ∃ c, FileFits w c
  record : ∀ b, Accepts w b → NothingFull w ∨ ∃ c, parseConfig Γ b = .ok c ∧ FileFits w c ∧ LiveTunnel w c

/-- The host runs the config of `.bak`. -/
def BakFits (w : World Γ) : Prop := ∃ b c, w.files .bak = some b ∧ parseConfig Γ b = .ok c ∧ FileFits w c ∧ LiveTunnel w c

/-- Nothing changed that the coupling is about. -/
structure Untouched (w w' : World Γ) : Prop where
  nft : w'.nft = w.nft
  wg : w'.wg = w.wg
  nftables : w'.files .nftables = w.files .nftables
  applyState : w'.files .applyState = w.files .applyState
  bak : w'.files .bak = w.files .bak

theorem Untouched.of_within {E : Effects} (h : E.Within w w') (hh : ¬E.host) (hn : ¬E.files .nftables) (ha : ¬E.files .applyState)
    (hb : ¬E.files .bak) : Untouched w w' :=
  ⟨h.nft hh, h.wg hh, h.files _ hn, h.files _ ha, h.files _ hb⟩

theorem Untouched.trans (h : Untouched w v) (h' : Untouched v w') : Untouched w w' :=
  ⟨h'.nft.trans h.nft, h'.wg.trans h.wg, h'.nftables.trans h.nftables, h'.applyState.trans h.applyState, h'.bak.trans h.bak⟩

theorem Untouched.symm (h : Untouched w w') : Untouched w' w := ⟨h.nft.symm, h.wg.symm, h.nftables.symm, h.applyState.symm, h.bak.symm⟩

theorem RunsFull.congr {c : Config} {n : String} (h : RunsFull w c n) (hn : w'.nft = w.nft) : RunsFull w' c n := by
  obtain ⟨src, ups, l, hl, hrest⟩ := h
  exact ⟨src, ups, l, hn.trans hl, hrest⟩

theorem NothingFull.congr (h : NothingFull w) (hn : w'.nft = w.nft) : NothingFull w' := fun u hu => h u (hn ▸ hu)

theorem FileFits.congr {c : Config} (h : FileFits w c) (hn : w'.nft = w.nft) (hf : w'.files .nftables = w.files .nftables) :
    FileFits w' c := by
  obtain ⟨n, hfile, hruns⟩ := h
  exact ⟨n, hf.trans hfile, hruns.congr hn⟩

theorem Accepts.of_untouched {b : Γ.Bytes} (h : Accepts w b) (hu : Untouched w w') : Accepts w' b :=
  ⟨hu.bak.trans h.bak, by rw [appliedHash, hu.applyState]; exact h.applied, h.valid⟩

theorem Coupled.untouched (h : Coupled w) (hu : Untouched w w') : Coupled w' where
  ruleset := h.ruleset.imp (·.congr hu.nft) fun ⟨c, hfits⟩ => ⟨c, hfits.congr hu.nft hu.nftables⟩
  record b hb := (h.record b (hb.of_untouched hu.symm)).imp (·.congr hu.nft) fun ⟨c, hc, hfits, htunnel⟩ =>
    ⟨c, hc, hfits.congr hu.nft hu.nftables, htunnel.congr hu.wg⟩

theorem BakFits.untouched (h : BakFits w) (hu : Untouched w w') : BakFits w' := by
  obtain ⟨b, c, hb, hc, hfits, htunnel⟩ := h
  exact ⟨b, c, hu.bak.trans hb, hc, hfits.congr hu.nft hu.nftables, htunnel.congr hu.wg⟩

theorem BakFits.coupled (h : BakFits w) : Coupled w := by
  obtain ⟨b, c, hb, hc, hfits, htunnel⟩ := h
  refine ⟨Or.inr ⟨c, hfits⟩, fun b' hacc => Or.inr ⟨c, ?_, hfits, htunnel⟩⟩
  rwa [← Option.some.inj (hb.symm.trans hacc.bak)]

theorem NothingFull.coupled (h : NothingFull w) : Coupled w := ⟨Or.inl h, fun _ _ => Or.inl h⟩

/-- An update leaves the ruleset below it in place. -/
theorem Coupled.update {u : Γ.Bytes} (h : Coupled w) (hn : w'.nft = u :: w.nft) (hw : w'.wg = w.wg)
    (hf : w'.files .nftables = w.files .nftables) (ha : w'.files .applyState = w.files .applyState) (hb : w'.files .bak = w.files .bak)
    (hbare : ∃ n, UpdateOf n u) (hup : ∀ n, w.files .nftables = some (Γ.text n) → UpdateOf n u) : Coupled w' := by
  have hNone : NothingFull w → NothingFull w' := fun h u' hu' => by
    rw [hn] at hu'
    rcases List.mem_cons.mp hu' with rfl | hu'
    · exact hbare
    · exact h u' hu'
  have hFits : ∀ {c}, FileFits w c → FileFits w' c := by
    rintro c ⟨n, hfile, src, ups, l, hl, hgen, hsrc, hups⟩
    exact ⟨n, hf.trans hfile, src, u :: ups, l, by rw [hn, hl, List.cons_append], hgen, hsrc, List.forall_mem_cons.mpr ⟨hup n hfile, hups⟩⟩
  refine ⟨h.ruleset.imp hNone (.imp fun _ => hFits), fun b hacc => ?_⟩
  have hacc' : Accepts w b := ⟨hb.symm.trans hacc.bak, by rw [appliedHash, ← ha]; exact hacc.applied, hacc.valid⟩
  exact (h.record b hacc').imp hNone (.imp fun _ h => ⟨h.1, hFits h.2.1, h.2.2.congr hw⟩)

/-! ## Applying -/

theorem Applied.fits {c : Config} (h : Applied c w w') : FileFits w' c := by
  obtain ⟨n, src, hn, hsrc, hfile, hl⟩ := h.ruleset
  exact ⟨n, hfile, src, [], w.nft, hl, hn, hsrc, nofun⟩

theorem Reloaded.bakFits {b : Γ.Bytes} {c : Config} (hc : parseConfig Γ b = .ok c) (h : Reloaded b c w w') : BakFits w' :=
  ⟨b, c, h.snapshot, hc, h.applied.fits, h.tunnel⟩

theorem untouched_counts (h : countsE.Within w w') : Untouched w w' :=
  .of_within h id (by simp [countsE]) (by simp [countsE]) (by simp [countsE])

theorem Attempted.bakFits {b : Γ.Bytes} {c : Config} (h : Attempted b c w w') : BakFits w' := by
  obtain ⟨-, hc, u, hu, hcount⟩ := h
  exact (hu.bakFits hc).untouched (untouched_counts hcount)

/-- The boot applies `.bak` without recording it again. -/
theorem Applied.bakFits {b : Γ.Bytes} {c : Config} (hacc : Accepts w b) (hc : parseConfig Γ b = .ok c) (hwithin : appliesE.Within w w')
    (h : Applied c w w') (htunnel : LiveTunnel w' c) : BakFits w' :=
  ⟨b, c, (hwithin.files _ (by simp [appliesE, FileName.isGenerated])).trans hacc.bak, hc, h.fits, htunnel⟩

/-! ## Rollbacks -/

variable {K : (FileName → Bool) → Prop} {R : Rules (host Γ)} {s : ConfirmSession} {reason : RevertReason} {edits : Bool}

/-- A reload keeps the session, and once it is done the host runs `.bak`. -/
theorem reload_fits : Stops R (fun w' => w'.files .session = w.files .session) reload (fun _ w' => BakFits w') w :=
  reload_spec.mono (fun _ h => h.within.files _ (by simp [reloadsE, FileName.isGenerated, FileName.isHistory]))
    fun _ _ _ ⟨_, _, _, hc, h⟩ => h.bakFits hc

theorem reloadWithRetries_fits : ∀ (n : Nat) {w : World Γ},
    Stops R (fun w' => w'.files .session = w.files .session) (reloadWithRetries n) (fun _ w' => BakFits w') w
  | 0, _ => reload_fits
  | n + 1, w => by
    refine .call reload_fits.attempt (fun _ h => h) fun r v hv hr => ?_
    cases r with
    | ok _ => exact .ret hv (hr.2 () rfl)
    | error e => exact (reloadWithRetries_fits n).mono (fun _ h => h.trans hv) fun _ _ _ h => h

theorem revertToBaseline_fits : Stops R (fun w' => w'.files .session = w.files .session) revertToBaseline (fun _ w' => BakFits w') w := by
  refine .call restoreConfirmBaseline_spec (fun w' h => ?_) fun _ v _ h => ?_
  · rcases h with rfl | ⟨B, -, h⟩
    · rfl
    · exact h.within.files _ (by simp [restoresE, FileName.isHistory])
  · obtain ⟨B, -, hv⟩ := h
    have hses : v.files .session = w.files .session := hv.within.files _ (by simp [restoresE, FileName.isHistory])
    exact (reloadWithRetries_fits rollbackRetries).mono (fun _ h => h.trans hses) fun _ _ _ h => h

/-- The session is cleared only when the host runs the baseline. -/
theorem rollback_fits (hs : w.files .session ≠ none) (hK : Clears R K) :
    Stops R (fun w' => w'.files .session ≠ none ∨ BakFits w') (rollbackLocked s reason edits) (fun _ w' => BakFits w') w := by
  have hbegun : ∀ {v}, RollingBack s reason w v → v.files .session ≠ none := fun h => by
    rcases h.session with he | ⟨s', he, -⟩
    · rwa [he]
    · simp [he]
  refine .call (beginRollback_spec s reason) (fun _ h => Or.inl (hbegun h)) fun _ v _ h => ?_
  have hv := hbegun h.1.toRollingBack
  refine .call revertToBaseline_fits.attempt (fun v' h' => Or.inl (h' ▸ hv)) fun r v' hv' hr => ?_
  have hne : v'.files .session ≠ none := hv' ▸ hv
  cases r with
  | error e =>
    have hfail : Stops R (fun w' : World Γ => w'.files .session ≠ none) (failRollback (s.rollingBack reason) e) (fun _ _ => False) v' := by
      refine .call (U := fun w' : World Γ => w'.files .session ≠ none) (P := fun _ _ => True)
        (stops_ignore (P := fun _ _ => True) (stops_writeFile hne (by simp) trivial) fun _ _ => trivial) (fun _ h => h) fun _ v₁ h₁ _ => ?_
      refine .call (stops_frame (E := readsE) (uses_emitConfirmEvent _)) (fun _ h => (h.files _ id) ▸ h₁) fun _ v₂ h₂ _ => ?_
      exact .fail ((h₂.files _ id) ▸ h₁)
    exact hfail.mono (fun _ h => Or.inl h) fun _ _ _ h => h.elim
  | ok _ =>
    have hfits := hr.2 () rfl
    have hkeep : ∀ {w'}, Finishing K (s.revertReason.getD reason = .failedApply ∧ edits = true) v' w' → BakFits w' := fun hfin =>
      hfits.untouched (.of_within hfin.within id (by simp [finishesE, FileName.inSession]) (by simp [finishesE, FileName.inSession])
        (by simp [finishesE, FileName.inSession]))
    exact (finishRollback_spec hK _ edits).mono (fun _ h => Or.inr (hkeep h)) fun _ _ h _ => hkeep h

/-! ## An Apply with confirm -/

theorem applyInSession_fits (hs : w.files .session ≠ none) (hK : Clears R K) :
    Stops R (fun w' => w'.files .session ≠ none ∨ BakFits w') (applyInSession s) (fun _ w' => BakFits w') w := by
  have hreload : ∀ {v}, Reloading w v → v.files .session ≠ none := fun h => by
    rwa [h.within.files _ (by simp [reloadsE, FileName.isGenerated, FileName.isHistory])]
  refine .call reload_spec.attempt (fun _ h => Or.inl (hreload h)) fun r u h hr => ?_
  have hu := hreload h
  have hcount : ∀ {v}, countsE.Within u v → v.files .session ≠ none := fun h => by rwa [h.files _ (by simp [countsE])]
  cases r with
  | error e =>
    refine .call (stops_frame (E := countsE) (uses_ignore uses_recordApplyFailure)) (fun _ hw => Or.inl (hcount hw)) fun _ v hv _ => ?_
    refine .call (rollback_fits (hcount hv) hK).attempt (fun _ h => h) fun r w' hw _ => ?_
    cases r with
    | error e' => exact .fail hw
    | ok _ => exact .fail hw
  | ok _ =>
    obtain ⟨b, c, -, hc, hdone⟩ := hr.2 () rfl
    refine .call (stops_frame (E := countsE) (uses_ignore uses_recordApplySuccess)) (fun _ hw => Or.inl (hcount hw)) fun _ v hv _ => ?_
    have hfits : BakFits v := (hdone.bakFits hc).untouched (untouched_counts hv)
    have hrearm : ∀ {w'}, Rearming R s v w' → BakFits w' := fun h => by
      rcases h with (rfl | ⟨t, ha⟩) | ⟨next, hn⟩
      · exact hfits
      · exact hfits.untouched (.of_within ha.within id id id id)
      · exact hfits.untouched (.of_within hn.within id (by simp [beginsE]) (by simp [beginsE]) (by simp [beginsE]))
    refine .call (Stops.attempt_of_wp (rearmConfirmSession_spec s)) (fun _ h => Or.inr (hrearm h)) fun r w' h _ => ?_
    cases r with
    | error e => exact .ret (Or.inr (hrearm h)) (hrearm h)
    | ok s' => exact .ret (Or.inr (hrearm h)) (hrearm h)

theorem Refused.untouched (h : Refused R w w') : Untouched w w' :=
  .of_within h.within id (by simp [refusesE, FileName.inSession]) (by simp [refusesE, FileName.inSession])
    (by simp [refusesE, FileName.inSession])

/-- An Apply that leaves no session either did nothing, or has gone back to the baseline. -/
theorem apply_fits (hK : Clears R K) (hash : String) (timeout : Int) :
    Stops R (fun w' => w'.files .session ≠ none ∨ Untouched w w' ∨ BakFits w') (reloadWithConfirmIfMatch hash timeout)
      (fun _ w' => BakFits w') w := by
  have hstarted : ∀ {next v}, Started R next w v → v.files .session ≠ none := fun h => by simp [h.session]
  refine .of_wp (wp_bind.2 (wp_mono (R := R.withCrash (ArmingApply R w)) (fun _ _ _ h => h) ?_ ?_ (armApply_spec hash timeout)))
  · rintro w' (h | ⟨next, h⟩)
    · exact Or.inr (Or.inl h.untouched)
    · exact Or.inl (hstarted h)
  · rintro (e | p) v hv
    · exact ⟨Or.inr (Or.inl hv.untouched), nofun⟩
    · have hforget : Stops R (fun w' : World Γ => w'.files .session ≠ none) (onFirst p.2 clearLastRevert) (fun _ _ => True) v :=
        .ite (fun _ => clearLastRevert_spec.mono (fun _ h => by rw [h.within.files _ (by simp [clearsE])]; exact hstarted hv.1)
          fun _ _ _ _ => trivial) fun _ => .ret (hstarted hv.1) trivial
      refine (Stops.call (P := fun _ _ => True) hforget (fun _ h => Or.inl h) fun _ u hu _ => ?_).wp
      exact (applyInSession_fits hu hK).mono (fun _ h => h.imp id Or.inr) fun _ _ _ h => h

/-! ## The other operations -/

theorem revert_fits (hK : Clears R K) (token : String) :
    Stops R (fun w' => w'.files .session ≠ none ∨ Untouched w w' ∨ BakFits w') (revertApply reason token) (fun _ _ => True) w := by
  have hsame : Untouched w w := ⟨rfl, rfl, rfl, rfl, rfl⟩
  refine .call (acquireWithRetries_spec _) (fun _ h => Or.inr (Or.inl (h ▸ hsame))) fun _ _ _ h => ?_
  subst h
  refine .bind (P := fun r w' => w = w' ∧ ∀ s, r = some s → OnRecord w s) (stops_readConfirmSession (Or.inr (Or.inl hsame))
    (fun _ => ⟨rfl, nofun⟩) fun s h => ⟨rfl, fun s' hs' => by cases hs'; exact h⟩) fun r _ _ h => ?_
  obtain ⟨rfl, hs⟩ := h
  cases r with
  | none => exact .fail (Or.inr (Or.inl hsame))
  | some s =>
  refine .ite (fun _ => .fail (Or.inr (Or.inl hsame))) fun _ => ?_
  exact (rollback_fits (hs s rfl).ne_none hK).mono (fun _ h => h.imp id Or.inr) fun _ _ _ _ => trivial

theorem recover_fits (hK : Clears R K) :
    Stops R (fun w' => w'.files .session ≠ none ∨ Untouched w w' ∨ BakFits w') recoverConfirmSession (fun _ _ => True) w := by
  have hsame : Untouched w w := ⟨rfl, rfl, rfl, rfl, rfl⟩
  have hT : w.files .session ≠ none ∨ Untouched w w ∨ BakFits w := Or.inr (Or.inl hsame)
  have hread : Stops R (fun w' => w'.files .session ≠ none ∨ Untouched w w' ∨ BakFits w') readConfirmSession
      (fun r w' => w = w' ∧ ∀ s, r = some s → OnRecord w s) w :=
    stops_readConfirmSession hT (fun _ => ⟨rfl, nofun⟩) fun s h => ⟨rfl, fun s' hs' => by cases hs'; exact h⟩
  refine .bind hread fun r _ _ h => ?_
  obtain ⟨rfl, -⟩ := h
  cases r with
  | none => exact .ret hT trivial
  | some _ =>
  refine .bind (P := fun _ w' => w = w') (stops_acquireApplyLock hT rfl) fun _ _ _ h => ?_
  subst h
  refine .bind hread fun r _ _ h => ?_
  obtain ⟨rfl, hs⟩ := h
  cases r with
  | none => exact .ret hT trivial
  | some s =>
  refine .call (sessionOutlived_spec s) (fun _ h => h ▸ hT) fun b _ _ h => ?_
  subst h
  exact .ite (fun _ => (rollback_fits (hs s rfl).ne_none hK).mono (fun _ h => h.imp id Or.inr) fun _ _ _ _ => trivial) fun _ => .ret hT trivial

theorem reloadAtBoot_fits : Stops R (fun _ => True) reloadAtBoot (fun _ w' => BakFits w') w := by
  refine .call lastConfirmedConfig_spec (fun _ _ => trivial) fun r _ _ h => ?_
  obtain ⟨rfl, h⟩ := h
  have hreload : Stops R (fun _ => True) reload (fun _ w' => BakFits w') w :=
    reload_spec.mono (fun _ _ => trivial) fun _ _ _ ⟨_, _, _, hc, h⟩ => h.bakFits hc
  rcases r with e | _ | c
  · exact hreload
  · exact hreload
  · obtain ⟨b, hb, hc, -⟩ := h
    exact (applyToHost_spec c).mono (fun _ _ => trivial) fun _ _ happ h => h.1.bakFits hb hc happ.within h.2

theorem reloadAtBootLocked_fits (hK : Clears R K) : Stops R (fun _ => True) reloadAtBootLocked (fun _ w' => BakFits w') w := by
  refine .bind (P := fun _ w' => w = w') (stops_acquireApplyLock trivial rfl) fun _ _ _ h => ?_
  subst h
  refine .call (checkOneWayReload_spec hK) (fun _ _ => trivial) fun _ v _ _ => ?_
  exact (recorded_spec reloadAtBoot_fits).mono (fun _ _ => trivial) fun _ _ _ ⟨_, _, h, hcount⟩ => h.untouched (untouched_counts hcount)

theorem reloadIfMatch_fits (hK : Clears R K) (hash : String) : Stops R (fun _ => True) (reloadIfMatch hash) (fun _ w' => BakFits w') w :=
  (reloadIfMatch_spec hK hash).mono (fun _ _ => trivial) fun _ _ _ ⟨_, _, _, _, h⟩ => h.bakFits

/-! ### Paused routes -/

/-- Where `SyncPausedRoutes` may stop: it loads nothing, or the prerouting chain of the applied config, whose full ruleset is in
`nftables.nft`. -/
structure Pausing (paused : Config → List Nat) (w w' : World Γ) : Prop where
  within : pausesE.Within w w'
  wg : w'.wg = w.wg
  nft : w'.nft = w.nft ∨ ∃ b c loaded update, w.files .bak = some b ∧ parseConfig Γ b = .ok c ∧ w.files .nftables = some loaded ∧
    (genNFTables c : App Γ String).CanReturn (Γ.str loaded) ∧ natPreroutingUpdate c (paused c) = .ok update ∧ w'.nft = Γ.text update :: w.nft

theorem readsE_le_pausesE : readsE.LE pausesE := ⟨fun _ h => h.elim, fun h => h.elim, fun h => h⟩

theorem Pausing.of_reads {paused : Config → List Nat} (h : readsE.Within w w') : Pausing paused w w' :=
  ⟨h.mono readsE_le_pausesE, h.wg id, Or.inl (h.nft id)⟩

theorem loadPausedRoutes_spec {paused : Config → List Nat} {b : Γ.Bytes} {c : Config} {update : String} (hb : w.files .bak = some b)
    (hc : parseConfig Γ b = .ok c) (hupdate : natPreroutingUpdate c (paused c) = .ok update) :
    Stops R (Pausing paused w) (loadPausedRoutes c update) (fun _ _ => True) w := by
  refine .call (stops_frame (E := readsE) (uses_genNFTables c)) (fun _ h => .of_reads h) fun full w₁ h₁ hfull => ?_
  have hT : Pausing paused w w₁ := .of_reads h₁
  have hfiles : w₁.files .nftables = w.files .nftables := h₁.files _ id
  refine .bind (P := fun r w' => w₁ = w' ∧ ∀ l, r = .ok (some l) → w.files .nftables = some l)
    (stops_attempt_quiet (fun _ => rfl) (fun _ => rfl) hT (fun ch l hl => ⟨rfl, ?_⟩) fun e => ⟨rfl, nofun⟩) fun r _ _ h => ?_
  · rintro l' ⟨⟩
    exact hfiles.symm.trans (Except.ok.inj hl)
  obtain ⟨rfl, hloaded⟩ := h
  rcases r with e | _ | loaded
  · exact .fail hT
  · exact .fail hT
  refine .ite (fun _ => .fail hT) fun heq => ?_
  have hstr : Γ.str loaded = full := not_not.mp heq
  have hw₂ : pausesE.Within w (w₁.set .pausedRoutes (some (Γ.text update))) := (h₁.mono readsE_le_pausesE).trans (within_set rfl)
  have hT₂ : Pausing paused w (w₁.set .pausedRoutes (some (Γ.text update))) := ⟨hw₂, h₁.wg id, Or.inl (h₁.nft id)⟩
  refine .bind (P := fun _ w' => w' = w₁.set .pausedRoutes (some (Γ.text update))) (stops_wrapErr (stops_writeFile hT hT₂ rfl))
    fun _ w₂ _ hw => ?_
  subst hw
  refine .bind (P := fun _ w' => w₁.set .pausedRoutes (some (Γ.text update)) = w')
    (stops_wrapErr (stops_quiet (fun _ => rfl) (fun _ => rfl) hT₂ fun _ _ _ _ => rfl)) fun _ _ _ hw => ?_
  subst hw
  have hload : Pausing paused w { w₁.set .pausedRoutes (some (Γ.text update)) with nft := Γ.text update :: w₁.nft } :=
    ⟨hw₂.trans (within_of_host trivial rfl rfl rfl rfl rfl), h₁.wg id,
      Or.inr ⟨b, c, loaded, update, hb, hc, hloaded loaded rfl, hstr ▸ hfull, hupdate, by rw [h₁.nft id]⟩⟩
  exact stops_wrapErr (.of_wp (wp_nftLoad (b := Γ.text update) (by simp) (fun _ => hT₂) (fun _ _ => ⟨hT₂, nofun⟩) (fun _ _ => ⟨hload, nofun⟩)
    ⟨hload, fun _ _ => trivial⟩))

theorem syncPausedRoutes_spec (paused : Config → List Nat) :
    Stops R (Pausing paused w) (syncPausedRoutes paused) (fun _ _ => True) w := by
  have h₀ : Pausing paused w w := .of_reads (.refl w)
  refine .bind (P := fun _ w' => w = w') (stops_quiet (fun _ => rfl) (fun _ => rfl) h₀ fun _ _ _ _ => rfl) fun ok _ _ h => ?_
  subst h
  refine .ite (fun _ => .ret h₀ trivial) fun _ => ?_
  have hload : Stops R (fun w' => w' = w) (loadConfig .bak) (fun c _ => ∃ b, w.files .bak = some b ∧ parseConfig Γ b = .ok c) w :=
    stops_loadConfig rfl fun b c hb hc => ⟨b, hb, hc⟩
  refine .call hload.attempt (fun _ h => h ▸ h₀) fun r v _ h => ?_
  obtain ⟨rfl, hr⟩ := h
  cases r with
  | error e => exact .fail h₀
  | ok c =>
    obtain ⟨b, hb, hc⟩ := hr c rfl
    refine .bind (P := fun update w' => v = w' ∧ natPreroutingUpdate c (paused c) = .ok update) (stops_check h₀ fun u hu => ⟨rfl, hu⟩)
      fun update _ _ h => ?_
    obtain ⟨rfl, hupdate⟩ := h
    refine .bind (P := fun _ w' => v = w') (stops_attempt_quiet (fun _ => rfl) (fun _ => rfl) h₀ (fun _ _ _ => rfl) fun _ => rfl)
      fun r _ _ h => ?_
    subst h
    cases r with
    | error e => exact .ite (fun _ => .ret h₀ trivial) fun _ => .fail h₀
    | ok live => exact .ite (fun _ => .ret h₀ trivial) fun _ => loadPausedRoutes_spec hb hc hupdate

/-! ## Runs -/

/-- The operation returns without an error. -/
def Op.endsWell (op : Op Γ) (script : List (Choice Γ)) (w : World Γ) : Bool :=
  match op.run script w with
  | .done (.ok _) _ => true
  | _ => false

/-- The operation did not break off: it did what it is for, or it went back to the baseline and cleared the session, or it changed nothing that
the coupling is about. The operations left out change at most the sets and the prerouting chain, and an archive may bring files of its own. -/
def Op.Whole (script : List (Choice Γ)) (w : World Γ) (op : Op Γ) : Prop :=
  match op with
  | .reload _ => op.endsWell script w = true ∨ Untouched w (op.run script w).state
  | .boot => op.endsWell script w = true ∨ Untouched w (op.run script w).state
  | .apply _ _ => op.endsWell script w = true ∨ (op.run script w).state.files .session = none ∨ Untouched w (op.run script w).state
  | .revert _ => (op.run script w).state.files .session = none ∨ Untouched w (op.run script w).state
  | .timer _ => (op.run script w).state.files .session = none ∨ Untouched w (op.run script w).state
  | .recover => (op.run script w).state.files .session = none ∨ Untouched w (op.run script w).state
  | .restoreArchive _ => Untouched w (op.run script w).state
  | _ => True

/-- An operation that does not break off, or a reboot. -/
def Whole (e : Event Γ) (w : World Γ) : Prop :=
  match e with
  | .job op script => op.Whole script w
  | .reboot _ => True

/-- A reload that succeeds, or a reboot. -/
def Event.Settles (e : Event Γ) (w : World Γ) : Prop :=
  match e with
  | .job (.reload hash) script => (Op.reload hash).endsWell script w = true
  | .job .boot script => Op.boot.endsWell script w = true
  | .job _ _ => False
  | .reboot _ => True

/-- Any choice is allowed. -/
def anyRules (Γ : Ctx) : Rules (host Γ) := choiceRules fun _ => True

theorem clears_anyRules : Clears (anyRules Γ) fun _ => True := ⟨fun _ _ _ => trivial, trivial, trivial⟩

/-- What holds of a program wherever it stops, and what holds once it returns, holds of an operation. -/
theorem Op.sat {op : Op Γ} (script : List (Choice Γ)) {T P : World Γ → Prop} (h : Stops (anyRules Γ) T op.prog (fun _ w' => P w') w) :
    T (op.run script w).state ∧ (op.endsWell script w = true → P (op.run script w).state) := by
  have hall : Allowed (anyRules Γ) op.prog script w := allowed_choiceRules trivial fun _ _ => trivial
  have hsat := h.sat hall
  refine ⟨hsat.1, fun hok => ?_⟩
  unfold Op.endsWell at hok
  unfold Op.run at hok ⊢
  cases hrun : (host Γ).run op.prog script w with
  | killed v =>
    rw [hrun] at hok
    cases hok
  | done r v =>
    cases r with
    | error e =>
      rw [hrun] at hok
      cases hok
    | ok _ => exact hsat.2 () v hrun

theorem apply_op_fits (hash : String) (timeout : Int) :
    Stops (anyRules Γ) (fun w' => w'.files .session ≠ none ∨ Untouched w w' ∨ BakFits w') (Op.apply hash timeout).prog
      (fun _ w' => BakFits w') w :=
  .bind (apply_fits clears_anyRules hash timeout) fun _ _ hT h => .ret hT h

/-- An operation that leaves no session has the host run `.bak`, or has changed nothing. -/
theorem Coupled.of_rollback (h : Coupled w) (hT : w'.files .session ≠ none ∨ Untouched w w' ∨ BakFits w')
    (hend : w'.files .session = none ∨ Untouched w w') : Coupled w' := by
  rcases hend with hend | hend
  · rcases hT with hT | hT | hT
    · exact absurd hend hT
    · exact h.untouched hT
    · exact hT.coupled
  · exact h.untouched hend

theorem Coupled.geoUpdate (h : Coupled w) (hw : GeoUpdate R w w') : Coupled w' := by
  rcases hw with rfl | ⟨-, u, hu, hcount⟩
  · exact h
  refine Coupled.untouched ?_ (untouched_counts hcount)
  rcases hu with rfl | ⟨b, c, -, -, hre⟩
  · exact h
  have ha : u.files .applyState = w.files .applyState := hre.within.files _ (by simp [appliesE, FileName.isGenerated])
  have hb : u.files .bak = w.files .bak := hre.within.files _ (by simp [appliesE, FileName.isGenerated])
  rcases hre.nft with hn | ⟨g, hg, hn⟩
  · exact h.untouched ⟨hn, hre.wg, hre.ruleset, ha, hb⟩
  · exact h.update hn hre.wg hre.ruleset ha hb ⟨"", Or.inl ⟨c, hg⟩⟩ fun _ _ => Or.inl ⟨c, hg⟩

theorem Coupled.pausing {paused : Config → List Nat} (h : Coupled w) (hw : Pausing paused w w') : Coupled w' := by
  have hf : w'.files .nftables = w.files .nftables := hw.within.files _ (by simp [pausesE])
  have ha : w'.files .applyState = w.files .applyState := hw.within.files _ (by simp [pausesE])
  have hb : w'.files .bak = w.files .bak := hw.within.files _ (by simp [pausesE])
  rcases hw.nft with hn | ⟨b, c, loaded, update, -, -, hloaded, hgen, hupdate, hn⟩
  · exact h.untouched ⟨hn, hw.wg, hf, ha, hb⟩
  · refine h.update hn hw.wg hf ha hb ⟨_, Or.inr ⟨c, paused c, update, hgen, hupdate, rfl⟩⟩ fun n hfile => ?_
    obtain rfl : loaded = Γ.text n := Option.some.inj (hloaded.symm.trans hfile)
    rw [Γ.str_text] at hgen
    exact Or.inr ⟨c, paused c, update, hgen, hupdate, rfl⟩

/-- Every operation that does not break off keeps the coupling. -/
theorem Coupled.job {op : Op Γ} {script : List (Choice Γ)} (h : Coupled w) (hwhole : op.Whole script w) : Coupled (op.run script w).state := by
  have hdid : op.Did (anyRules Γ) (fun _ => True) w (op.run script w).state :=
    op_did clears_anyRules (allowed_choiceRules trivial fun _ _ => trivial)
  cases op with
  | apply hash timeout =>
    have hsat := (Op.apply hash timeout).sat script (apply_op_fits (w := w) hash timeout)
    rcases hwhole with hok | hend
    · exact (hsat.2 hok).coupled
    · exact h.of_rollback hsat.1 hend
  | reload hash =>
    rcases hwhole with hok | hsame
    · exact (((Op.reload hash).sat script (reloadIfMatch_fits clears_anyRules hash)).2 hok).coupled
    · exact h.untouched hsame
  | boot =>
    rcases hwhole with hok | hsame
    · exact ((Op.boot.sat script (reloadAtBootLocked_fits clears_anyRules)).2 hok).coupled
    · exact h.untouched hsame
  | confirm =>
    exact h.untouched (.of_within (Confirming.within hdid) id (by simp [refusesE, FileName.inSession]) (by simp [refusesE, FileName.inSession])
      (by simp [refusesE, FileName.inSession]))
  | revert reason => exact h.of_rollback ((Op.revert reason).sat script (revert_fits clears_anyRules "")).1 hwhole
  | timer token => exact h.of_rollback ((Op.timer token).sat script (revert_fits clears_anyRules token)).1 hwhole
  | recover => exact h.of_rollback (Op.recover.sat script (recover_fits clears_anyRules)).1 hwhole
  | updateGeo => exact h.geoUpdate hdid
  | syncPaused paused => exact h.pausing ((Op.syncPaused paused).sat script (syncPausedRoutes_spec paused)).1
  | save c revs => exact h.untouched (.of_within hdid id (by simp [savesE]) (by simp [savesE]) (by simp [savesE]))
  | discard => exact h.untouched (.of_within hdid id (by simp [savesE]) (by simp [savesE]) (by simp [savesE]))
  | restorePrevious => exact h.untouched (.of_within hdid id (by simp [savesE]) (by simp [savesE]) (by simp [savesE]))
  | restoreReverted => exact h.untouched (.of_within hdid id (by simp [revivesE]) (by simp [revivesE]) (by simp [revivesE]))
  | dismissRevert => exact h.untouched (.of_within hdid id (by simp [clearsE]) (by simp [clearsE]) (by simp [clearsE]))
  | restoreArchive members => exact h.untouched hwhole

theorem untouched_settle (op : Op Γ) (w : World Γ) : Untouched w (op.settle w) := ⟨by simp, by simp, by simp, by simp, by simp⟩

theorem Coupled.event {e : Event Γ} (h : Coupled w) (hwhole : Whole e w) : Coupled (e.after w) := by
  cases e with
  | job op script => exact (h.job hwhole).untouched (untouched_settle op _)
  | reboot boot => exact NothingFull.coupled nofun

/-- A reload that succeeds couples the files and the host, whatever was the case before. -/
theorem Event.Settles.coupled {e : Event Γ} (h : e.Settles w) : Coupled (e.after w) := by
  cases e with
  | reboot boot => exact NothingFull.coupled nofun
  | job op script =>
    refine Coupled.untouched ?_ (untouched_settle op _)
    cases op with
    | reload hash => exact (((Op.reload hash).sat script (reloadIfMatch_fits clears_anyRules hash)).2 h).coupled
    | boot => exact ((Op.boot.sat script (reloadAtBootLocked_fits clears_anyRules)).2 h).coupled
    | _ => cases h

/-- The files tell the truth about the host, and auto-pause replaces no chain but that of the ruleset in the kernel. -/
structure HostMatches (w : World Γ) : Prop extends Coupled w where
  pauses : ∀ paused script, ((Op.syncPaused paused).run script w).state.nft = w.nft ∨
    ∃ b c n update, w.files .bak = some b ∧ parseConfig Γ b = .ok c ∧ (genNFTables c : App Γ String).CanReturn n ∧
      natPreroutingUpdate c (paused c) = .ok update ∧ ((Op.syncPaused paused).run script w).state.nft = Γ.text update :: w.nft ∧
        (NothingFull w ∨ ∃ c', RunsFull w c' n)

theorem Coupled.hostMatches (h : Coupled w) : HostMatches w where
  toCoupled := h
  pauses paused script := by
    have hpausing : Pausing paused w ((Op.syncPaused paused).run script w).state :=
      ((Op.syncPaused paused).sat script (syncPausedRoutes_spec (w := w) paused)).1
    refine hpausing.nft.imp id ?_
    rintro ⟨b, c, loaded, update, hb, hc, hloaded, hgen, hupdate, hn⟩
    refine ⟨b, c, _, update, hb, hc, hgen, hupdate, hn, h.ruleset.imp id ?_⟩
    rintro ⟨c', n, hfile, hruns⟩
    obtain rfl : loaded = Γ.text n := Option.some.inj (hloaded.symm.trans hfile)
    rw [Γ.str_text]
    exact ⟨c', hruns⟩

end EvuProxy

import EvuProxy.Theorems.Timers

/-!
# What the host loads while nobody watches

The boot reload, the geo update, the recovery of a session and the revert timer load configs that no operator is asked about. While a session
is on record, or confirm is on, they load only what an operator has let the host run before: the config of `.bak` while no session is on
record, and its staged copy while one is. `Sound` says so of a state, and every operation keeps it.
-/

namespace EvuProxy

open Fault Fault.Prog

variable {Γ : Ctx} {w v w' : World Γ}

/-! ## What operators permit -/

/-- What an operation that takes the host from `w` to `w'` lets it run from then on: the config that was reloaded one-way, the one that a
boot reloads while confirm isn't on, the one that was confirmed, and what an archive brings. -/
def Op.Permits (w w' : World Γ) (b : Γ.Bytes) : Op Γ → Prop
  | .reload _ => w.files .session = none ∧ w.files .config = some b ∧ w'.files .bak = some b
  | .boot => w.files .session = none ∧ ¬ConfirmOn w ∧ w.files .config = some b ∧ w'.files .bak = some b
  | .confirm => w.files .session ≠ none ∧ w'.files .session = none ∧ w.files .bak = some b
  | .restoreArchive _ => w.files .session = none ∧ w'.files .bak = some b
  | _ => False

theorem Op.Permits.congr {op : Op Γ} {b : Γ.Bytes} (h : op.Permits w v b) (hf : w'.files = v.files) : op.Permits w w' b := by
  cases op with
  | reload _ => exact ⟨h.1, h.2.1, hf ▸ h.2.2⟩
  | boot => exact ⟨h.1, h.2.1, h.2.2.1, hf ▸ h.2.2.2⟩
  | confirm => exact ⟨h.1, hf ▸ h.2.1, h.2.2⟩
  | restoreArchive _ => exact ⟨h.1, hf ▸ h.2⟩
  | _ => exact h

/-- What an event lets the host run from then on. -/
def Event.Permits (e : Event Γ) (w : World Γ) (b : Γ.Bytes) : Prop :=
  match e with
  | .job op _ => op.Permits w (e.after w) b
  | .reboot _ => False

/-- The files that a run has let the host run: `.bak` as it was at the start, and what the events of the run permitted. -/
def Permitted (es : List (Event Γ)) (w₀ : World Γ) (b : Γ.Bytes) : Prop :=
  w₀.files .bak = some b ∨ ∃ pre e post, es = pre ++ e :: post ∧ e.Permits (after pre w₀) b

theorem Permitted.append {es : List (Event Γ)} {w₀ : World Γ} {b : Γ.Bytes} (h : Permitted es w₀ b) (e : Event Γ) :
    Permitted (es ++ [e]) w₀ b := by
  rcases h with h | ⟨pre, e', post, rfl, h⟩
  · exact Or.inl h
  · exact Or.inr ⟨pre, e', post ++ [e], by simp, h⟩

theorem Permitted.last {es : List (Event Γ)} {w₀ : World Γ} {b : Γ.Bytes} {e : Event Γ} (h : e.Permits (after es w₀) b) :
    Permitted (es ++ [e]) w₀ b :=
  Or.inr ⟨es, e, [], rfl, h⟩

/-- A config whose file is among some files. -/
def FromFiles (P : Γ.Bytes → Prop) (c : Config) : Prop := ∃ b, P b ∧ parseConfig Γ b = .ok c

/-! ## The invariant -/

/-- The files that an unattended operation goes back to are among some files. -/
structure Sound (P : Γ.Bytes → Prop) (w : World Γ) : Prop where
  settled : w.files .session = none → ∀ b, w.files .bak = some b → P b
  staged : w.files .session ≠ none → ∀ b, w.files (.staged 0) = some b → P b

namespace Sound

variable {P P' : Γ.Bytes → Prop}

theorem mono (hP : ∀ b, P b → P' b) (h : Sound P w) : Sound P' w :=
  ⟨fun hs b hb => hP b (h.settled hs b hb), fun hs b hb => hP b (h.staged hs b hb)⟩

theorem congr (h : Sound P w) (hs : w'.files .session = w.files .session) (hb : w'.files .bak = w.files .bak)
    (hst : w'.files (.staged 0) = w.files (.staged 0)) : Sound P w' :=
  ⟨fun hn b hb' => h.settled (hs.symm.trans hn) b (hb.symm.trans hb'), fun hn b hb' => h.staged (hs ▸ hn) b (hst.symm.trans hb')⟩

theorem within {E : Effects} (h : Sound P w) (hw : E.Within w w') (hs : ¬E.files .session) (hb : ¬E.files .bak)
    (hst : ¬E.files (.staged 0)) : Sound P w' :=
  h.congr (hw.files _ hs) (hw.files _ hb) (hw.files _ hst)

/-- While a session is on record, only the staged copy counts. -/
theorem of_session (h : Sound P w) (hw : w.files .session ≠ none) (hs : w'.files .session ≠ none)
    (hst : w'.files (.staged 0) = w.files (.staged 0)) : Sound P w' :=
  ⟨fun hn => absurd hn hs, fun _ b hb => h.staged hw b (hst.symm.trans hb)⟩

theorem files (h : Sound P w) (hf : w'.files = w.files) : Sound P w' := h.congr (by rw [hf]) (by rw [hf]) (by rw [hf])

end Sound

/-! ## Rollbacks -/

variable {K : (FileName → Bool) → Prop} {R : Rules (host Γ)} {P : Γ.Bytes → Prop} {s : ConfirmSession} {reason : RevertReason} {edits : Bool}

theorem RollingBack.loads (hB : ∀ b, w.files (.staged 0) = some b → P b) (h : RollingBack s reason w w') : Loads (FromFiles P) w w' := by
  rcases h.rewinding with hw | ⟨B, hw, hrew⟩
  · exact hw.loads id
  · exact hrew.loads.mono fun c hc => ⟨B, hB B hw, hc⟩

/-- A rollback loads nothing but the staged copy. -/
theorem Sound.rollback_loads (h : Sound P w) (hs : OnRecord w s) (hw : Rollback K s reason edits w w') : Loads (FromFiles P) w w' := by
  rcases hw with hroll | ⟨B, v, -, hroll, -, -, hfin⟩
  · exact hroll.loads (h.staged hs.ne_none)
  · exact (hroll.loads (h.staged hs.ne_none)).trans (hfin.within.loads id)

theorem RollingBack.session_ne (hs : OnRecord w s) (h : RollingBack s reason w w') : w'.files .session ≠ none := by
  rcases h.session with he | ⟨s', he, -⟩
  · rw [he]
    exact hs.ne_none
  · simp [he]

theorem RollingBack.staged_eq (h : RollingBack s reason w w') : w'.files (.staged 0) = w.files (.staged 0) :=
  h.within.files _ (by simp [rollsE, rewindsE, restoresE, revertsE, FileName.isHistory, FileName.isGenerated])

/-- What a rollback that succeeded leaves behind: the baseline, which `.bak` holds again. -/
theorem RolledBack.back (h : RolledBack K s reason edits w w') :
    ∃ B, w.files (.staged 0) = some B ∧ w'.files .bak = some B ∧
      (w'.files (.staged 0) = some B ∨ w'.files (.staged 0) = none) ∧ (edits = false → w'.files .config = some B) := by
  obtain ⟨B, v, hB, hroll, -, hrew, hfin⟩ := h
  have hbak : v.files .bak = some B := (hrew.historyBack 0).trans hB
  have hstaged : v.files (.staged 0) = some B := hroll.staged_eq.trans hB
  obtain ⟨kept, -, hkept⟩ := hfin.cleared
  refine ⟨B, hB, ?_, ?_, fun hedits => ?_⟩
  · rw [hfin.within.files _ (by simp [finishesE, FileName.inSession]), hbak]
  · rw [hkept _ rfl]
    cases kept (.staged 0) with
    | true => exact Or.inl hstaged
    | false => exact Or.inr rfl
  · rcases hfin.config with ⟨hcfg, -⟩ | ⟨⟨-, hgive⟩, -⟩
    · exact hcfg.trans hrew.configBack
    · rw [hedits] at hgive
      cases hgive

theorem Sound.rollback (h : Sound P w) (hs : OnRecord w s) (hw : Rollback K s reason edits w w') : Sound P w' := by
  rcases hw with hroll | hdone
  · exact h.of_session hs.ne_none (hroll.session_ne hs) hroll.staged_eq
  · obtain ⟨B, hB, hbak, hst, -⟩ := hdone.back
    have hP : P B := h.staged hs.ne_none B hB
    refine ⟨fun _ b hb => ?_, fun _ b hb => ?_⟩
    · rwa [← Option.some.inj (hbak.symm.trans hb)]
    · rcases hst with hst | hst
      · rwa [← Option.some.inj (hst.symm.trans hb)]
      · cases hst.symm.trans hb

/-! ## Reloads -/

/-- A reload of a file among some files keeps the invariant, and loads nothing else. -/
theorem Sound.reloading (h : Sound P w) (hw : Reloading w w') (hcfg : ∀ b, w.files .config = some b → w'.files .bak = some b → P b) :
    Sound P w' := by
  rcases hw with rfl | ⟨b, c, hb, -, hre⟩
  · exact h
  have hs : w'.files .session = w.files .session := hre.within.files _ (by simp [reloadsE, FileName.isGenerated, FileName.isHistory])
  have hst : w'.files (.staged 0) = w.files (.staged 0) := hre.within.files _ (by simp [reloadsE, FileName.isGenerated, FileName.isHistory])
  refine ⟨fun hn b' hb' => ?_, fun hn b' hb' => h.staged (hs ▸ hn) b' (hst.symm.trans hb')⟩
  rcases hre.bak with hbak | hbak | hbak
  · exact h.settled (hs.symm.trans hn) b' (hbak.symm.trans hb')
  · cases hbak.symm.trans hb'
  · obtain rfl := Option.some.inj (hbak.symm.trans hb')
    exact hcfg b hb hbak

theorem Reloading.loads (h : Reloading w w') (hcfg : ∀ b, w.files .config = some b → P b) : Loads (FromFiles P) w w' := by
  rcases h with rfl | ⟨b, c, hb, hc, hre⟩
  · exact .refl w'
  · exact hre.loads.mono fun c' hc' => ⟨b, hcfg b hb, (show c' = c from hc') ▸ hc⟩

/-- What counts how an operation ended keeps the invariant. -/
theorem Sound.counted (h : Sound P w) (hw : countsE.Within w w') : Sound P w' :=
  h.within hw (by simp [countsE]) (by simp [countsE]) (by simp [countsE])

theorem countsE_loads {Q : Config → Prop} (hw : countsE.Within w w') : Loads Q w w' := hw.loads id

theorem countsE_bak (hw : countsE.Within w w') : w'.files .bak = w.files .bak := hw.files _ (by simp [countsE])

/-- Before a one-way reload the session is over: either none was on record, or config.yaml is the baseline again. -/
theorem Sound.cleared (h : Sound P w) (hw : Cleared K w v) :
    Sound P v ∧ Loads (FromFiles P) w v ∧
      (w.files .session = none ∧ v = w ∨ w.files .session ≠ none ∧ ∃ B, P B ∧ v.files .config = some B ∧ v.files .bak = some B) := by
  rcases hw with ⟨hnone, rfl⟩ | ⟨s, hs, hdone⟩
  · exact ⟨h, .refl w, Or.inl ⟨hnone, rfl⟩⟩
  · obtain ⟨B, hB, hbak, -, hcfg⟩ := hdone.back
    exact ⟨h.rollback hs (Or.inr hdone), h.rollback_loads hs (Or.inr hdone),
      Or.inr ⟨hs.ne_none, B, h.staged hs.ne_none B hB, hcfg rfl, hbak⟩⟩

theorem Sound.recover (h : Sound P w) (hw : Recover K w w') : Sound P w' ∧ Loads (FromFiles P) w w' := by
  rcases hw with rfl | ⟨s, hs, hroll⟩
  · exact ⟨h, .refl w'⟩
  · exact ⟨h.rollback hs hroll, h.rollback_loads hs hroll⟩

theorem Sound.revert {token : String} (h : Sound P w) (hw : Revert K reason token w w') : Sound P w' ∧ Loads (FromFiles P) w w' := by
  rcases hw with rfl | ⟨s, hs, -, hroll⟩
  · exact ⟨h, .refl w'⟩
  · exact ⟨h.rollback hs hroll, h.rollback_loads hs hroll⟩

theorem Sound.oneWay (h : Sound P w) (hw : OneWay K w w')
    (hP : w.files .session = none → ∀ b, w.files .config = some b → w'.files .bak = some b → P b) : Sound P w' := by
  rcases hw with hrec | ⟨v, hv, u, hre, hcount⟩
  · exact (h.recover hrec).1
  · obtain ⟨hsound, -, ⟨hnone, rfl⟩ | ⟨-, B, hB, hcfg, -⟩⟩ := h.cleared hv
    · exact (hsound.reloading hre fun b hb hbak => hP hnone b hb ((countsE_bak hcount).trans hbak)).counted hcount
    · refine (hsound.reloading hre fun b hb _ => ?_).counted hcount
      rwa [← Option.some.inj (hcfg.symm.trans hb)]

/-! ## The boot reload -/

theorem Sound.booting (h : Sound P w) (hw : Booting R w w') (hP : ¬ConfirmOn w → ∀ b, w.files .config = some b → w'.files .bak = some b → P b)
    (hR : ReadsBaseline R) : Sound P w' := by
  rcases hw with ⟨b, c, -, -, -, happ⟩ | ⟨hoff, hre⟩
  · exact h.within happ.within (by simp [appliesE, FileName.isGenerated]) (by simp [appliesE, FileName.isGenerated])
      (by simp [appliesE, FileName.isGenerated])
  · exact h.reloading hre (hP (hoff hR))

theorem Applying.loads {c : Config} (h : Applying c w w') : Loads (· = c) w w' := by
  rcases h.host with ⟨hn, hw⟩ | ha
  · exact .of_eq hn hw
  · exact ha.loads

theorem booting_loads (hw : Booting R w w') (hR : ReadsBaseline R) (hbak : ∀ b, w.files .bak = some b → P b)
    (hcfg : ¬ConfirmOn w → ∀ b, w.files .config = some b → P b) : Loads (FromFiles P) w w' := by
  rcases hw with ⟨b, c, hb, hc, -, happ⟩ | ⟨hoff, hre⟩
  · exact happ.loads.mono fun c' hc' => ⟨b, hbak b hb.bak, (show c' = c from hc') ▸ hc⟩
  · exact hre.loads (hcfg (hoff hR))

theorem Sound.boot (h : Sound P w) (hw : Boot R K w w') (hR : ReadsBaseline R)
    (hP : w.files .session = none → ¬ConfirmOn w → ∀ b, w.files .config = some b → w'.files .bak = some b → P b) : Sound P w' := by
  rcases hw with hrec | ⟨v, u, hv, hu, hcount⟩
  · exact (h.recover hrec).1
  obtain ⟨hsound, -, ⟨hnone, rfl⟩ | ⟨-, B, hB, hcfg, -⟩⟩ := h.cleared hv
  · rcases hu with rfl | hu
    · exact hsound.counted hcount
    · exact (hsound.booting hu (fun hoff b hb hbak => hP hnone hoff b hb ((countsE_bak hcount).trans hbak)) hR).counted hcount
  · rcases hu with rfl | hu
    · exact hsound.counted hcount
    · refine (hsound.booting hu (fun _ b hb _ => ?_) hR).counted hcount
      rwa [← Option.some.inj (hcfg.symm.trans hb)]

theorem Sound.boot_loads (h : Sound P w) (hw : Boot R K w w') (hR : ReadsBaseline R) (hwindow : w.files .session ≠ none ∨ ConfirmOn w) :
    Loads (FromFiles P) w w' := by
  rcases hw with hrec | ⟨v, u, hv, hu, hcount⟩
  · exact (h.recover hrec).2
  obtain ⟨hsound, hloads, hwhere⟩ := h.cleared hv
  refine hloads.trans (.trans ?_ (countsE_loads hcount))
  rcases hu with rfl | hu
  · exact .refl u
  rcases hwhere with ⟨hnone, rfl⟩ | ⟨-, B, hB, hcfg, hbak⟩
  · exact booting_loads hu hR (hsound.settled hnone) fun hoff => absurd (hwindow.resolve_left (not_not.mpr hnone)) hoff
  · refine booting_loads hu hR (fun b hb => ?_) fun _ b hb => ?_
    · rwa [← Option.some.inj (hbak.symm.trans hb)]
    · rwa [← Option.some.inj (hcfg.symm.trans hb)]

/-! ## Geo updates -/

theorem Refreshing.loads {c : Config} (h : Refreshing c w w') : Loads (· = c) w w' := by
  refine ⟨?_, [], h.wg, by simp⟩
  rcases h.nft with hn | ⟨b, hb, hn⟩
  · exact ⟨[], hn, by simp⟩
  · refine ⟨[b], hn, fun b' hb' => ⟨c, rfl, Or.inr ?_⟩⟩
    rwa [List.mem_singleton.mp hb']

theorem Sound.geoUpdate (h : Sound P w) (hw : GeoUpdate R w w') : Sound P w' := by
  rcases hw with rfl | ⟨-, u, hu, hcount⟩
  · exact h
  rcases hu with rfl | ⟨b, c, -, -, hre⟩
  · exact h.counted hcount
  · exact (h.within hre.within (by simp [appliesE, FileName.isGenerated]) (by simp [appliesE, FileName.isGenerated])
      (by simp [appliesE, FileName.isGenerated])).counted hcount

theorem Sound.geoUpdate_loads (h : Sound P w) (hw : GeoUpdate R w w') (hR : ReadsBaseline R) (hwindow : w.files .session ≠ none ∨ ConfirmOn w) :
    Loads (FromFiles P) w w' := by
  rcases hw with rfl | ⟨hnone, u, hu, hcount⟩
  · exact .refl w'
  refine Loads.trans ?_ (countsE_loads hcount)
  rcases hu with rfl | ⟨b, c, hc, hfrom, hre⟩
  · exact .refl u
  refine hre.loads.mono fun c' hc' => ⟨b, ?_, (show c' = c from hc') ▸ hc⟩
  rcases hfrom with hacc | ⟨hoff, -⟩
  · exact h.settled hnone b hacc.bak
  · exact absurd (hwindow.resolve_left (not_not.mpr hnone)) (hoff hR)

/-! ## Sessions -/

theorem Sound.refused (h : Sound P w) (hw : Refused R w w') : Sound P w' := by
  have hbak : w'.files .bak = w.files .bak := hw.within.files _ (by simp [refusesE, FileName.inSession])
  refine ⟨fun hn b hb => h.settled (hw.session.symm.trans hn) b (hbak.symm.trans hb), fun hn b hb => ?_⟩
  have hne : w.files .session ≠ none := hw.session ▸ hn
  exact h.staged hne b ((hw.staged hne 0).symm.trans hb)

/-- A new session stages what `.bak` holds. -/
theorem Sound.started (h : Sound P w) (hw : Started R s w w') : Sound P w' := by
  refine ⟨fun hn => absurd (hw.session.symm.trans hn) (by simp), fun _ b hb => ?_⟩
  rcases hw.baseline with ⟨hnone, -, -, hstaged⟩ | ⟨s₀, hs₀, -, -, hstaged⟩
  · exact h.settled hnone b ((hstaged 0).symm.trans hb)
  · exact h.staged hs₀.ne_none b ((hstaged 0).symm.trans hb)

/-- A reload under a session keeps the staged copy, whatever it writes to `.bak`. -/
theorem Sound.attempting (h : Sound P w) (hs : w.files .session ≠ none) (hw : Attempting w w') :
    Sound P w' ∧ w'.files .session = w.files .session := by
  have hses : w'.files .session = w.files .session := hw.within.files _ (by simp [reloadsE, FileName.isGenerated, FileName.isHistory])
  exact ⟨h.of_session hs (hses ▸ hs) (hw.within.files _ (by simp [reloadsE, FileName.isGenerated, FileName.isHistory])), hses⟩

theorem Sound.inSession (h : Sound P w) (hs : OnRecord w s) (hw : InSession R K s w w') : Sound P w' := by
  rcases hw with hatt | ⟨u, hatt, hroll⟩ | ⟨b, c, u, hatt, hre⟩
  · exact (h.attempting hs.ne_none hatt).1
  · obtain ⟨hu, hses⟩ := h.attempting hs.ne_none hatt
    exact hu.rollback (hs.congr hses) hroll
  · obtain ⟨hu, hses⟩ := h.attempting hs.ne_none hatt.attempting
    have hne : u.files .session ≠ none := hses ▸ hs.ne_none
    rcases hre with (rfl | ⟨t, ha⟩) | ⟨next, hn⟩
    · exact hu
    · exact hu.within ha.within id id id
    · refine hu.of_session hne ?_ (hn.within.files _ (by simp [beginsE]))
      simp [hn.session]

theorem Sound.apply (h : Sound P w) (hw : Apply R K w w') : Sound P w' := by
  rcases hw with href | ⟨s, v, u, hstart, hforget, -, hin⟩
  · exact h.refused href
  have hu : Sound P u := (h.started hstart).within hforget.within (by simp [clearsE]) (by simp [clearsE]) (by simp [clearsE])
  refine hu.inSession (onRecord_of_marshal ?_) hin
  exact (hforget.within.files _ (by simp [clearsE])).trans hstart.session

theorem Sound.confirming (h : Sound P w) (hw : Confirming K w w')
    (hP : w.files .session ≠ none → w'.files .session = none → ∀ b, w.files .bak = some b → P b) : Sound P w' := by
  rcases hw.outcome with rfl | ⟨s, kept, hs, -, -, hfiles, -⟩
  · exact h
  have hbak : w'.files .bak = w.files .bak := by rw [hfiles]; simp [FileName.inSession]
  refine ⟨fun hn b hb => hP hs.ne_none hn b (hbak.symm.trans hb), fun _ b hb => h.staged hs.ne_none b ?_⟩
  rw [hfiles] at hb
  by_cases hk : kept (.staged 0) = true
  · simpa [hk] using hb
  · simp [FileName.inSession, hk] at hb

/-! ## Operations and runs -/

/-- No archive is extracted while a session is on record. -/
theorem restoreBackup_spec (members : List (TarMember Γ)) :
    Stops R (fun w' => (extractsE members).Within w w' ∧ (w.files .session ≠ none → w' = w)) (restoreBackup members) (fun _ _ => True) w := by
  have h₀ : (extractsE members).Within w w ∧ (w.files .session ≠ none → w = w) := ⟨.refl w, fun _ => rfl⟩
  by_cases hs : w.files .session = none
  · exact (stops_frame (uses_restoreBackup members)).mono (fun w' h => ⟨h, fun hne => absurd hs hne⟩) fun _ _ _ _ => trivial
  · refine .bind (P := fun _ w' => w = w') (stops_acquireApplyLock h₀ rfl) fun _ _ _ h => ?_
    subst h
    refine .bind (P := fun r w' => w = w' ∧ r ≠ none) (stops_wrapErr (stops_readConfirmSession h₀ (fun h => absurd h hs)
      fun s _ => ⟨rfl, nofun⟩)) fun r _ _ h => ?_
    obtain ⟨rfl, hr⟩ := h
    cases r with
    | none => exact absurd rfl hr
    | some s => exact .fail h₀

/-- Every read of `.bak` and of the hash last applied works. Any other command may fail, and a process may be killed anywhere. -/
def guardRules (Γ : Ctx) : Rules (host Γ) where
  allows c ch _ := match c with | .readFile f => f = .bak ∨ f = .applyState → ch.fate ≠ .fail | _ => True
  crash _ := True

theorem readsBaseline_guardRules : ReadsBaseline (guardRules Γ) := fun _ hf _ _ h => h hf

theorem clears_guardRules : Clears (guardRules Γ) fun _ => True := ⟨fun _ _ _ => trivial, trivial, trivial⟩

instance (c : Cmd Γ) (ch : Choice Γ) (w : World Γ) : Decidable ((guardRules Γ).allows c ch w) :=
  match c with
  | .readFile f => inferInstanceAs (Decidable (f = .bak ∨ f = .applyState → ch.fate ≠ .fail))
  | .acquireApplyLock | .tryApplyLock | .stat _ | .writeFile _ _ | .remove _ | .rename _ _ | .mkdirAll _
  | .removeSessionDir | .now | .bootID | .randomToken | .mapOrder | .systemdRun _ _ | .systemctlStop _ | .systemctlIsActive _ | .nftCheck _
  | .nftLoad _ | .nftListPrerouting | .nftListCrowdsec | .nftAddCrowdsec _ | .wgInterfaceExists _ | .wgQuickStrip _
  | .wgSyncconf _ _ | .ipAddrReplace _ _ | .wgQuickUp _ _ | .httpGetZone _ | .appendEvent _ | .rollbackBegins _ => .isTrue trivial

/-- An operation that brings no session from an archive, or a reboot. -/
def Guarded (e : Event Γ) (w : World Γ) : Prop :=
  match e with
  | .job op script => Allowed (guardRules Γ) op.prog script w ∧ op.BringsNoSession
  | .reboot _ => True

theorem guarded_restore {members : List (TarMember Γ)} {script : List (Choice Γ)}
    (h : Allowed (guardRules Γ) (Op.restoreArchive members).prog script w) :
    w.files .session ≠ none → ((Op.restoreArchive members).run script w).state = w :=
  ((restoreBackup_spec members).sat h).1.2

/-- Every operation keeps the invariant, for what it permits besides. -/
theorem Sound.job {op : Op Γ} {script : List (Choice Γ)} {P' : Γ.Bytes → Prop} (h : Sound P w) (hall : Allowed (guardRules Γ) op.prog script w)
    (hop : op.BringsNoSession) (hP : ∀ b, P b → P' b) (hP' : ∀ b, op.Permits w (op.run script w).state b → P' b) :
    Sound P' (op.run script w).state := by
  have hdid : op.Did (guardRules Γ) (fun _ => True) w (op.run script w).state := op_did clears_guardRules hall
  have h' : Sound P' w := h.mono hP
  cases op with
  | apply hash timeout => exact h'.apply hdid
  | reload hash => exact h'.oneWay hdid fun hs b hb hbak => hP' b ⟨hs, hb, hbak⟩
  | boot => exact h'.boot hdid readsBaseline_guardRules fun hs hoff b hb hbak => hP' b ⟨hs, hoff, hb, hbak⟩
  | confirm => exact h'.confirming hdid fun hs hn b hb => hP' b ⟨hs, hn, hb⟩
  | revert reason => exact (h'.revert hdid).1
  | timer token => exact (h'.revert hdid).1
  | recover => exact (h'.recover hdid).1
  | updateGeo => exact h'.geoUpdate hdid
  | syncPaused paused => exact h'.within hdid (by simp [pausesE]) (by simp [pausesE]) (by simp [pausesE])
  | save c revs => exact h'.within hdid (by simp [savesE]) (by simp [savesE]) (by simp [savesE])
  | discard => exact h'.within hdid (by simp [savesE]) (by simp [savesE]) (by simp [savesE])
  | restorePrevious => exact h'.within hdid (by simp [savesE]) (by simp [savesE]) (by simp [savesE])
  | restoreReverted => exact h'.within hdid (by simp [revivesE]) (by simp [revivesE]) (by simp [revivesE])
  | dismissRevert => exact h'.within hdid (by simp [clearsE]) (by simp [clearsE]) (by simp [clearsE])
  | restoreArchive members =>
    by_cases hs : w.files .session = none
    · have hses : ((Op.restoreArchive members).run script w).state.files .session = none := by
        refine (Effects.Within.files hdid .session ?_).trans hs
        rintro (hf | ⟨b, hb⟩)
        · cases hf
        · exact hop b hb
      exact ⟨fun _ b hb => hP' b ⟨hs, hb⟩, fun hn => absurd hses hn⟩
    · rwa [guarded_restore hall hs]

/-- After every run the files that an unattended operation goes back to were permitted in it. -/
theorem sound_after {w₀ : World Γ} {es : List (Event Γ)} (hnone : w₀.files .session = none) (hes : Legal Guarded es w₀) :
    Sound (Permitted es w₀) (after es w₀) := by
  induction es using List.reverseRecOn with
  | nil => exact ⟨fun _ b hb => Or.inl hb, fun hs => absurd hnone hs⟩
  | append_singleton es e ih =>
    obtain ⟨hes, he, -⟩ := legal_append.mp hes
    have hsound := ih hes
    rw [after_append]
    cases e with
    | reboot boot => exact (hsound.mono fun b hb => hb.append _).files rfl
    | job op script =>
      have hfiles : ((Event.job op script).after (after es w₀)).files = (op.run script (after es w₀)).state.files := Op.settle_files _ _
      exact (hsound.job he.1 he.2 (fun b hb => hb.append _) fun b hb => Permitted.last (e := .job op script) (hb.congr hfiles)).files hfiles

/-- The operations that run without an operator. -/
def Op.Unattended : Op Γ → Prop
  | .boot => True
  | .updateGeo => True
  | .recover => True
  | .timer _ => True
  | _ => False

/-- While a session is on record, or confirm is on, everything that an unattended operation loads was rendered from files that an operator
had let the host run, whatever failed or was killed before, and wherever the operation stops. -/
theorem unattended_loads_permitted {w₀ : World Γ} {es : List (Event Γ)} {op : Op Γ} {script : List (Choice Γ)}
    (hnone : w₀.files .session = none) (hes : Legal Guarded es w₀) (hop : op.Unattended)
    (hall : Allowed (guardRules Γ) op.prog script (after es w₀))
    (hwindow : (after es w₀).files .session ≠ none ∨ ConfirmOn (after es w₀)) :
    Loads (FromFiles (Permitted es w₀)) (after es w₀) (op.run script (after es w₀)).state := by
  have hsound := sound_after hnone hes
  have hdid : op.Did (guardRules Γ) (fun _ => True) (after es w₀) (op.run script (after es w₀)).state := op_did clears_guardRules hall
  cases op with
  | boot => exact hsound.boot_loads hdid readsBaseline_guardRules hwindow
  | updateGeo => exact hsound.geoUpdate_loads hdid readsBaseline_guardRules hwindow
  | recover => exact (hsound.recover hdid).2
  | timer token => exact (hsound.revert hdid).2
  | _ => cases hop

/-- An edit is applied under a session, and the timer of the session fires: it loads the config of before. -/
theorem unattended_loads_permitted_sample :
    (after [.job (.apply "" 60) (Sample.answers "apply " 60), .job (.timer "apply 52") []] (Sample.host 2 none)).nft.length = 2 ∧
      Loads (FromFiles (Permitted [.job (.apply "" 60) (Sample.answers "apply " 60)] (Sample.host 2 none)))
        (after [.job (.apply "" 60) (Sample.answers "apply " 60)] (Sample.host 2 none))
        ((Op.timer "apply 52").run [] (after [.job (.apply "" 60) (Sample.answers "apply " 60)] (Sample.host 2 none))).state := by
  refine ⟨by decide +kernel, unattended_loads_permitted rfl ⟨⟨?_, trivial⟩, trivial⟩ trivial ?_ (Or.inl ?_)⟩
  · decide +kernel
  · decide +kernel
  · decide +kernel

/-- Where the read of `.bak` fails at boot, config.yaml is loaded although confirm is on and nobody has applied it. -/
example : ConfirmOn (Sample.host 2 none) ∧ ((Op.boot (Γ := Sample.ctx)).run (Sample.faults 3 [2]) (Sample.host 2 none)).state.files .bak =
    some (Sample.yaml 2) := by
  refine ⟨⟨Sample.yaml 1, Sample.config 1 true, ⟨rfl, by decide +kernel, Sample.config 1 true, ?_⟩, ?_, rfl⟩, by decide +kernel⟩ <;> decide +kernel

end EvuProxy

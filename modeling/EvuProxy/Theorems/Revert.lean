import EvuProxy.Apply.Sample
import Mathlib.Data.List.Induction

/-!
# A revert restores the state before the session

While a session is on record, its directory holds the snapshots as they were before the first Apply: every operation in the window keeps
them, because a new Apply copies them only when no session is on record, and a rollback removes them only after it has succeeded.
-/

namespace EvuProxy

open Fault Fault.Prog

variable {Γ : Ctx}

/-- A removal of the session directory that removes everything or nothing. -/
def AllOrNothing (kept : FileName → Bool) : Prop := (∀ f, kept f = true) ∨ ∀ f, kept f = false

/-- The operations between the first Apply of a session and its end. -/
def Op.inWindow : Op Γ → Prop
  | .apply _ _ => True
  | .save _ _ => True
  | .discard => True
  | .restorePrevious => True
  | .revert reason => reason ≠ .failedApply
  | .timer _ => True
  | _ => False

/-- An operation in the window, any of whose steps may fail or be interrupted; clearing the session directory is one step. -/
def Windowed : Event Γ → Prop
  | .job op script => op.inWindow ∧ ∀ ch ∈ script, AllOrNothing ch.kept
  | .reboot _ => False

/-- The rules of a windowed operation. -/
abbrev windowRules (Γ : Ctx) : Rules (host Γ) := choiceRules fun ch => AllOrNothing ch.kept

theorem clears_windowRules : Clears (windowRules Γ) AllOrNothing :=
  ⟨fun _ _ h => h, Or.inr fun _ => rfl, Or.inl fun _ => rfl⟩

/-! ## What holds while the session is on record -/

/-- A session is on record: its directory holds the snapshots `H`, `E` says what `config.yaml.reverted` may hold, and `F` holds if the
session is being reverted because an Apply failed. -/
structure Held (H : Fin 6 → Option Γ.Bytes) (E : Option Γ.Bytes → Prop) (F : Prop) (s : ConfirmSession) (w : World Γ) : Prop where
  session : w.files .session = some (Γ.marshalSession s)
  staged : ∀ n, w.files (.staged n) = H n
  reverted : E (w.files .reverted)
  reason : s.revertReason = some .failedApply → F

/-- The state before the session is back: `old` is what config.yaml held when the last attempt began. -/
structure Back (H : Fin 6 → Option Γ.Bytes) (E : Option Γ.Bytes → Prop) (F : Prop) (baseline : Γ.Bytes) (old : Option Γ.Bytes)
    (w : World Γ) : Prop where
  history : ∀ n, w.files (.history n) = H n
  atBaseline : AtBaseline baseline w
  config : w.files .config = some baseline ∨
    F ∧ ∃ e, w.files .config = some e ∧ E (some e) ∧ ∀ x, old = some x → x ≠ baseline → e = x

variable {H : Fin 6 → Option Γ.Bytes} {E : Option Γ.Bytes → Prop} {F : Prop} {baseline : Γ.Bytes} {s : ConfirmSession}
  {w w' : World Γ}

/-- A program that changes nothing of the session keeps it. -/
theorem Held.congr (h : Held H E F s w) (hs : w'.files .session = w.files .session)
    (hst : ∀ n, w'.files (.staged n) = w.files (.staged n)) (hr : w'.files .reverted = w.files .reverted) : Held H E F s w' :=
  ⟨hs.trans h.session, fun n => (hst n).trans (h.staged n), by rw [hr]; exact h.reverted, h.reason⟩

theorem Held.within {X : Effects} (h : Held H E F s w) (hw : X.Within w w') (hs : ¬X.files .session) (hst : ∀ n, ¬X.files (.staged n))
    (hr : ¬X.files .reverted) : Held H E F s w' :=
  h.congr (hw.files _ hs) (fun n => hw.files _ (hst n)) (hw.files _ hr)

theorem RollingBack.staged {reason : RevertReason} (h : RollingBack s reason w w') (n : Fin 6) :
    w'.files (.staged n) = w.files (.staged n) :=
  h.within.files _ (by simp [rollsE, rewindsE, restoresE, revertsE, FileName.isHistory, FileName.isGenerated])

theorem RollingBack.reverted {reason : RevertReason} (h : RollingBack s reason w w') :
    w'.files .reverted = w.files .reverted ∨ ∃ B x, w.files (.staged 0) = some B ∧ w.files .config = some x ∧ x ≠ B ∧
      w'.files .reverted = some x ∧ w'.begun = s.token :: w.begun := by
  rcases h.begun with rfl | hb
  · exact Or.inl rfl
  rcases h.rewinding with hw | ⟨B, hB, hw⟩
  · exact Or.inl (hw.files _ (by simp [beginsE]))
  rcases hw.reverted with hr | ⟨hr, hne, hneB⟩
  · exact Or.inl hr
  · obtain ⟨x, hx⟩ := Option.ne_none_iff_exists'.mp hne
    refine Or.inr ⟨B, x, hB, hx, fun he => hneB (by rw [hx, he]), hr.trans hx, hb⟩

/-- What a rollback makes of a session on record. -/
theorem Held.rollback {reason : RevertReason} {edits : Bool} (h : Held H E F s w) (hB : H 0 = some baseline) (hE : E none)
    (hedit : w'.begun = s.token :: w.begun → ∀ x, w.files .config = some x → x ≠ baseline → E (some x))
    (hF : reason = .failedApply → F) (hroll : Rollback AllOrNothing s reason edits w w') :
    (∃ s', Held H E F s' w') ∨ w'.files .session = none ∧ Back H E F baseline (w.files .config) w' := by
  have hB₀ : w.files (.staged 0) = some baseline := (h.staged 0).trans hB
  have hFr : s.revertReason.getD reason = .failedApply → F := fun he => by
    cases hr : s.revertReason with
    | none => exact hF (by simpa [hr] using he)
    | some r => exact h.reason (by rw [hr]; simpa [hr] using he)
  -- Up to the point where the rollback has succeeded, the session stays on record.
  have hrolling : ∀ {v}, RollingBack s reason w v → v.begun = w.begun ∨ v.begun = w'.begun → ∃ s', Held H E F s' v := by
    intro v hv hb
    have hrev : E (v.files .reverted) := by
      rcases hv.reverted with hr | ⟨B, x, hB', hx, hne, hr, hbv⟩
      · rw [hr]; exact h.reverted
      · obtain rfl : B = baseline := Option.some.inj (hB'.symm.trans hB₀)
        rw [hr]
        refine hedit ?_ x hx hne
        rcases hb with hb | hb
        · exact absurd (hb.symm.trans hbv) (List.cons_ne_self _ _).symm
        · exact hb.symm.trans hbv
    have hst : ∀ n, v.files (.staged n) = H n := fun n => (hv.staged n).trans (h.staged n)
    rcases hv.session with hs | ⟨s', hs, -, -, hr⟩
    · exact ⟨s, hs.trans h.session, hst, hrev, h.reason⟩
    · exact ⟨s', hs, hst, hrev, fun he => hFr (Option.some.inj (hr.symm.trans he))⟩
  rcases hroll with hv | ⟨B, v, hB', hv, hbv, hrew, hfin⟩
  · exact Or.inl (hrolling hv (Or.inr rfl))
  obtain rfl : B = baseline := Option.some.inj (hB'.symm.trans hB₀)
  have hb : w'.begun = v.begun := hfin.within.begun id
  obtain ⟨s', hheld⟩ := hrolling hv (Or.inr hb.symm)
  obtain ⟨kept, hk, hkept⟩ := hfin.cleared
  rcases hk with hall | hnone
  · -- Nothing is cleared: the session is still on record.
    refine Or.inl ⟨s', ?_, fun n => ?_, ?_, hheld.reason⟩
    · rw [hkept _ rfl, hall, if_pos rfl]; exact hheld.session
    · rw [hkept _ rfl, hall, if_pos rfl]; exact hheld.staged n
    · rcases hfin.config with ⟨-, hr⟩ | ⟨-, -, -, -, hr⟩
      · rw [hr]; exact hheld.reverted
      · rw [hr]; exact hE
  · -- The session is cleared, and everything is as it was before.
    refine Or.inr ⟨by rw [hkept _ rfl, hnone]; rfl, fun n => ?_, ⟨?_, ?_⟩, ?_⟩
    · rw [hfin.within.files _ (by simp [finishesE, FileName.inSession]), hrew.historyBack, h.staged]
    · obtain ⟨c, hc, hl, ht⟩ := hrew.atBaseline.live
      refine ⟨c, hc, ?_, ht.congr (hfin.within.wg id)⟩
      obtain ⟨b, l, hl, hr⟩ := hl
      exact ⟨b, l, (hfin.within.nft id).trans hl, hr⟩
    · rw [hfin.within.files _ (by simp [finishesE, FileName.inSession])]; exact hrew.atBaseline.recorded
    · rcases hfin.config with ⟨hc, -⟩ | ⟨⟨hreason, -⟩, e, hre, hc, -⟩
      · exact Or.inl (hc.trans hrew.configBack)
      · refine Or.inr ⟨hFr hreason, e, hc, by rw [← hre]; exact hheld.reverted, fun x hx hne => ?_⟩
        rcases hrew.kept with hk | hk | hk
        · have hxB : some x = some B := hx.symm.trans (hk.symm.trans hrew.configBack)
          exact absurd (Option.some.inj hxB) hne
        · cases hk.symm.trans hx
        · exact Option.some.inj (hre.symm.trans (hk.trans hx))

/-! ## What one operation does -/

theorem Held.attempting (h : Held H E F s w) (hw : Attempting w w') : Held H E F s w' :=
  h.within hw.within (by simp [reloadsE, FileName.isGenerated, FileName.isHistory])
    (by simp [reloadsE, FileName.isGenerated, FileName.isHistory]) (by simp [reloadsE, FileName.isGenerated, FileName.isHistory])

variable {R : Rules (host Γ)}

theorem Held.unarmed (h : Held H E F s w) (hw : Unarmed R w w') : Held H E F s w' := by
  rcases hw with rfl | ⟨t, ha⟩
  · exact h
  · exact h.within ha.within id (fun _ => id) id

theorem Held.rearmed {next : ConfirmSession} (h : Held H E F s w) (hw : Rearmed R s next w w') : Held H E F next w' :=
  ⟨hw.session, fun n => (hw.within.files _ (by simp [beginsE])).trans (h.staged n),
    by rw [hw.within.files _ (by simp [beginsE])]; exact h.reverted, fun hr => h.reason (hw.reason.symm.trans hr)⟩

/-- What an Apply makes of the session it has recorded. -/
theorem Held.inSession (h : Held H E F s w) (hB : H 0 = some baseline) (hE : E none)
    (hedit : w'.begun = s.token :: w.begun → ∀ x, w.files .config = some x → x ≠ baseline → E (some x))
    (hF : w'.begun = s.token :: w.begun → F) (hin : InSession R AllOrNothing s w w') :
    (∃ s', Held H E F s' w') ∨ w'.files .session = none ∧ Back H E F baseline (w.files .config) w' := by
  rcases hin with ha | ⟨u, ha, hr⟩ | ⟨b, c, u, ha, hr⟩
  · exact Or.inl ⟨s, h.attempting ha⟩
  · have hc : u.files .config = w.files .config := ha.within.files _ (by simp [reloadsE, FileName.isGenerated, FileName.isHistory])
    have hb : u.begun = w.begun := ha.within.begun id
    -- A rollback that does anything has begun.
    have hbegun : w' = u ∨ w'.begun = s.token :: w.begun := by
      rcases hr with hv | ⟨B, v, -, hv, hbv, -, hfin⟩
      · rw [← hb]; exact hv.begun
      · exact Or.inr ((hfin.within.begun id).trans (by rw [hbv, hb]))
    rcases hbegun with rfl | hbegun
    · exact Or.inl ⟨s, h.attempting ha⟩
    · rw [← hc]
      refine (h.attempting ha).rollback hB hE ?_ (fun _ => hF hbegun) hr
      rw [hb, hc]
      exact hedit
  · have hh := h.attempting ha.attempting
    rcases hr with hr | ⟨next, hr⟩
    · exact Or.inl ⟨s, hh.unarmed hr⟩
    · exact Or.inl ⟨next, hh.rearmed hr⟩

/-- An event begins a rollback. -/
def BeginsRollback (e : Event Γ) (w : World Γ) : Prop := (e.after w).begun ≠ w.begun

theorem windowed_did {op : Op Γ} {script : List (Choice Γ)} (h : Windowed (.job op script)) :
    op.Did (windowRules Γ) AllOrNothing w (op.run script w).state :=
  op_did clears_windowRules (allowed_choiceRules (Or.inl fun _ => rfl) h.2)

theorem Held.settle {op : Op Γ} (h : Held H E F s w) : Held H E F s (op.settle w) := h.congr (by simp) (by simp) (by simp)

theorem Back.settle {op : Op Γ} {old : Option Γ.Bytes} (h : Back H E F baseline old w) : Back H E F baseline old (op.settle w) := by
  obtain ⟨hh, ⟨⟨c, hc, ⟨b, l, hl, hr⟩, ht⟩, hrec⟩, hcfg⟩ := h
  exact ⟨by simpa using hh, ⟨⟨c, hc, ⟨b, l, by simpa using hl, hr⟩, ht.congr (by simp)⟩, by simpa using hrec⟩, by simpa using hcfg⟩

/-- What one operation in the window makes of a session on record. -/
theorem Held.after {op : Op Γ} {script : List (Choice Γ)} (h : Held H E F s w) (hwin : Windowed (.job op script))
    (hB : H 0 = some baseline) (hE : E none)
    (hedit : BeginsRollback (.job op script) w → ∀ x, w.files .config = some x → x ≠ baseline → E (some x))
    (hF : (∃ hash timeout, op = .apply hash timeout) → BeginsRollback (.job op script) w → F) :
    (∃ s', Held H E F s' (Event.after (.job op script) w)) ∨ (Event.after (.job op script) w).files .session = none ∧
      Back H E F baseline (w.files .config) (Event.after (.job op script) w) := by
  have hdid := windowed_did (w := w) hwin
  have hbegin : (op.run script w).state.begun ≠ w.begun → BeginsRollback (.job op script) w := fun hne => by
    simpa [BeginsRollback, Event.after] using hne
  simp only [Event.after]
  generalize (op.run script w).state = w' at hdid hbegin
  suffices hs : (∃ s', Held H E F s' w') ∨ w'.files .session = none ∧ Back H E F baseline (w.files .config) w' from
    hs.imp (fun ⟨s', h'⟩ => ⟨s', h'.settle⟩) fun ⟨hn, hb⟩ => ⟨by simpa using hn, hb.settle⟩
  have hrec : OnRecord w s := onRecord_of_marshal h.session
  have hne : ∀ {t : String}, w'.begun = t :: w.begun → w'.begun ≠ w.begun := fun hb => by
    rw [hb]; exact List.cons_ne_self _ _
  have hsaves : savesE.Within w w' → (∃ s', Held H E F s' w') := fun hw =>
    ⟨s, h.within hw (by simp [savesE]) (by simp [savesE]) (by simp [savesE])⟩
  have hrevert : ∀ {reason token}, reason ≠ .failedApply → Revert AllOrNothing reason token w w' →
      (∃ s', Held H E F s' w') ∨ w'.files .session = none ∧ Back H E F baseline (w.files .config) w' := by
    rintro reason token hreason (rfl | ⟨s₁, hs₁, -, hroll⟩)
    · exact Or.inl ⟨s, h⟩
    · obtain rfl := hs₁.unique hrec
      exact h.rollback hB hE (fun hb => hedit (hbegin (hne hb))) (fun he => absurd he hreason) hroll
  cases op with
  | apply hash timeout =>
    rcases hdid with href | ⟨s₁, v, u, hst, -, huv, hin⟩
    · exact Or.inl ⟨s, h.congr href.session (href.staged hrec.ne_none) (href.within.files _ (by simp [refusesE, FileName.inSession]))⟩
    obtain rfl := huv hrec.ne_none
    have hcfg : u.files .config = w.files .config := hst.within.files _ (by simp [refusesE, FileName.inSession])
    -- The session was running, so that the copy of the baseline is the one that was made before it.
    have hheld : Held H E F s₁ u := by
      rcases hst.baseline with ⟨hnone, -⟩ | ⟨s₀, hs₀, -, hreason, hstaged⟩
      · exact absurd hnone hrec.ne_none
      · obtain rfl := hs₀.unique hrec
        exact ⟨hst.session, fun n => (hstaged n).trans (h.staged n),
          by rw [hst.within.files _ (by simp [refusesE, FileName.inSession])]; exact h.reverted,
          fun hr => h.reason (hreason.symm.trans hr)⟩
    rw [← hcfg]
    rw [← hcfg] at hedit
    refine hheld.inSession hB hE (fun hb => hedit (hbegin ?_)) (fun hb => hF ⟨hash, timeout, rfl⟩ (hbegin ?_)) hin
    · exact hne (hst.begun ▸ hb)
    · exact hne (hst.begun ▸ hb)
  | save c revs => exact Or.inl (hsaves hdid)
  | discard => exact Or.inl (hsaves hdid)
  | restorePrevious => exact Or.inl (hsaves hdid)
  | revert reason => exact hrevert hwin.1 hdid
  | timer token => exact hrevert (by simp) hdid
  | _ => exact hwin.1.elim

/-- What the first Apply does when no session is on record: it is refused, or it copies the snapshots. -/
theorem Held.start {hash : String} {timeout : Int} {script : List (Choice Γ)} (hwin : Windowed (.job (.apply hash timeout) script))
    (hnone : w.files .session = none) :
    (¬BeginsRollback (.job (.apply hash timeout) script) w ∧ (Event.after (.job (.apply hash timeout) script) w).files .session = none) ∨
      ∃ B, Accepts w B ∧ ∀ (E : Option Γ.Bytes → Prop) (F : Prop), E none → E (w.files .reverted) →
        (BeginsRollback (.job (.apply hash timeout) script) w → ∀ x, w.files .config = some x → x ≠ B → E (some x)) →
        (BeginsRollback (.job (.apply hash timeout) script) w → F) →
        (∃ s', Held (fun n => w.files (.history n)) E F s' (Event.after (.job (.apply hash timeout) script) w)) ∨
          (Event.after (.job (.apply hash timeout) script) w).files .session = none ∧
            Back (fun n => w.files (.history n)) E F B (w.files .config) (Event.after (.job (.apply hash timeout) script) w) := by
  have hdid := windowed_did (w := w) hwin
  simp only [BeginsRollback, Event.after, Op.settle_begun, Op.settle_files]
  simp only [Op.settle]
  generalize (Op.run _ script w).state = w' at hdid
  rcases hdid with href | ⟨s₁, v, u, hst, hforget, -, hin⟩
  · exact Or.inl ⟨fun hb => hb href.begun, href.session.trans hnone⟩
  rcases hst.baseline with ⟨-, ⟨B, hB⟩, hreason, hcopied⟩ | ⟨s₀, hs₀, -⟩
  · refine Or.inr ⟨B, hB, fun E F hE hE₀ hedit hF => ?_⟩
    have hu : ∀ f, f ≠ .lastRevert → f ≠ .reverted → u.files f = v.files f := fun f h1 h2 =>
      hforget.within.files f (by simp [clearsE, h1, h2])
    have hv : ∀ f, f.inSession = false → v.files f = w.files f := fun f hf => hst.within.files f (by simp [refusesE, hf])
    have hcfg : u.files .config = w.files .config := (hu _ (by simp) (by simp)).trans (hv _ rfl)
    have hheld : Held (fun n => w.files (.history n)) E F s₁ u := by
      refine ⟨(hu _ (by simp) (by simp)).trans hst.session, fun n => (hu _ (by simp) (by simp)).trans (hcopied n), ?_, fun hr => ?_⟩
      · rcases hforget.reverted with hr | hr
        · rw [hr, hv _ rfl]; exact hE₀
        · rw [hr]; exact hE
      · exact nomatch hreason.symm.trans hr
    have hub : u.begun = w.begun := (hforget.within.begun id).trans hst.begun
    have hne : w'.begun = s₁.token :: u.begun → w'.begun ≠ w.begun := fun hb => by
      rw [hb, hub]; exact List.cons_ne_self _ _
    rw [← hcfg]
    rw [← hcfg] at hedit
    exact hheld.inSession hB.bak hE (fun hb => hedit (hne hb)) (fun hb => hF (hne hb)) hin
  · exact absurd hnone hs₀.ne_none

/-! ## Runs -/

/-- `b` isn't the baseline, and config.yaml held it when an attempt to roll back began. -/
def SetAside (es : List (Event Γ)) (w₀ : World Γ) (baseline b : Γ.Bytes) : Prop :=
  ∃ pre e post, es = pre ++ e :: post ∧ BeginsRollback e (after pre w₀) ∧ (after pre w₀).files .config = some b ∧ b ≠ baseline

/-- An Apply of the run failed, so that its session was rolled back. -/
def ApplyFailed (es : List (Event Γ)) (w₀ : World Γ) : Prop :=
  ∃ pre hash timeout script post, es = pre ++ .job (.apply hash timeout) script :: post ∧
    BeginsRollback (.job (.apply hash timeout) script) (after pre w₀)

/-- What `config.yaml.reverted` may hold in a run: nothing, what it held before, or what an attempt has set aside. -/
def MayBeKept (es : List (Event Γ)) (w₀ : World Γ) (baseline : Γ.Bytes) (x : Option Γ.Bytes) : Prop :=
  x = none ∨ x = w₀.files .reverted ∨ ∃ b, x = some b ∧ SetAside es w₀ baseline b

/-- While the session of a run is on record, its directory holds the snapshots from before the run. -/
theorem held_of_prefix {w₀ : World Γ} {B : Γ.Bytes} {hash : String} {timeout : Int} {script : List (Choice Γ)}
    {es : List (Event Γ)} {last : Event Γ} (hnone : w₀.files .session = none)
    (hfirst : (es ++ [last]).head? = some (.job (.apply hash timeout) script)) (hwin : ∀ e ∈ es ++ [last], Windowed e)
    (hrec : ∀ pre, pre ≠ [] → pre <+: es → (after pre w₀).files .session ≠ none) (hB : Accepts w₀ B) :
    ∀ pre, pre ≠ [] → pre <+: es → ∃ s, Held (fun n => w₀.files (.history n))
      (MayBeKept (es ++ [last]) w₀ B) (ApplyFailed (es ++ [last]) w₀) s (after pre w₀) := by
  intro pre
  induction pre using List.reverseRecOn with
  | nil => intro hne; exact absurd rfl hne
  | append_singleton pre e ih =>
    intro _ hpre
    obtain ⟨post, hes⟩ := hpre
    have hrun : es ++ [last] = pre ++ e :: (post ++ [last]) := by rw [← hes]; simp
    have hw : Windowed e := hwin e (by rw [hrun]; simp)
    have hon := hrec (pre ++ [e]) (by simp) ⟨post, hes⟩
    rw [after_append] at hon ⊢
    have hedit : BeginsRollback e (after pre w₀) → ∀ x, (after pre w₀).files .config = some x → x ≠ B →
        MayBeKept (es ++ [last]) w₀ B (some x) := fun hb x hx hne =>
      Or.inr (Or.inr ⟨x, rfl, pre, e, post ++ [last], hrun, hb, hx, hne⟩)
    cases e with
    | reboot boot => exact hw.elim
    | job op script' =>
    by_cases hp : pre = []
    · subst hp
      have hop : Event.job op script' = .job (.apply hash timeout) script := by
        rw [hrun] at hfirst
        simpa using hfirst
      cases hop
      rcases Held.start hw hnone with ⟨-, hs⟩ | ⟨B', hB', h⟩
      · exact absurd hs hon
      obtain rfl : B = B' := Option.some.inj (hB.bak.symm.trans hB'.bak)
      refine (h (MayBeKept (es ++ [last]) w₀ B) (ApplyFailed (es ++ [last]) w₀) (Or.inl rfl) (Or.inr (Or.inl rfl)) hedit fun hb => ?_).resolve_right fun h => hon h.1
      exact ⟨[], hash, timeout, script, post ++ [last], hrun, hb⟩
    · obtain ⟨s, hs⟩ := ih hp ⟨.job op script' :: post, by rw [← hes]; simp⟩
      refine (hs.after hw hB.bak (Or.inl rfl) hedit fun hop hb => ?_).resolve_right fun h => hon h.1
      obtain ⟨hash', timeout', rfl⟩ := hop
      exact ⟨pre, hash', timeout', script', post ++ [last], hrun, hb⟩

end EvuProxy

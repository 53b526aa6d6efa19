import EvuProxy.Apply.Sample
import Mathlib.Data.List.Induction

/-!
# Every session has a live timer

Every Apply arms its new timer before it records it, and stops the old one only after that. So one step of the system either keeps the token
on record together with its timer, or records a token that was never handed out before. `TokenStep` says so, and it is what all operations
have in common.
-/

namespace EvuProxy

open Fault Fault.Prog

variable {Γ : Ctx} {w v w' : World Γ}

/-- What a step does to the tokens: a session on record keeps its token and its timer, unless its rollback begins, or it has a new token
whose timer is armed. -/
structure TokenStep (w w' : World Γ) : Prop where
  issued : ∀ t ∈ w.issued, t ∈ w'.issued
  begun : ∀ t ∈ w.begun, t ∈ w'.begun
  recorded : ∀ s', OnRecord w' s' →
    (∃ s, OnRecord w s ∧ s'.token = s.token ∧ (s.token ∈ w.timers → s.token ∈ w'.timers ∨ s.token ∈ w'.begun)) ∨
      s'.token ∉ w.issued ∧ s'.token ∈ w'.issued ∧ (s'.token ∈ w'.timers ∨ s'.token ∈ w'.begun)

/-- No member of an archive gets a session past the test for session state. -/
def Op.BringsNoSession : Op Γ → Prop
  | .restoreArchive members => ∀ b, TarMember.file true .session b ∉ members
  | _ => True

/-- The token on record was handed out. -/
def TokenIssued (w : World Γ) : Prop := ∀ s, OnRecord w s → s.token ∈ w.issued

theorem OnRecord.attempting {s : ConfirmSession} (hs : OnRecord w s) (h : Attempting w w') : OnRecord w' s :=
  hs.congr (h.within.files _ (by simp [reloadsE, FileName.isGenerated, FileName.isHistory]))

namespace TokenStep

theorem refl (w : World Γ) : TokenStep w w :=
  ⟨fun _ h => h, fun _ h => h, fun s hs => Or.inl ⟨s, hs, rfl, fun h => Or.inl h⟩⟩

theorem trans (h : TokenStep w v) (h' : TokenStep v w') : TokenStep w w' := by
  refine ⟨fun t ht => h'.issued t (h.issued t ht), fun t ht => h'.begun t (h.begun t ht), fun s'' hs'' => ?_⟩
  rcases h'.recorded s'' hs'' with ⟨s', hs', htok, hlive⟩ | ⟨hnew, hiss, hlive⟩
  · rw [htok]
    rcases h.recorded s' hs' with ⟨s, hs, htok', hlive'⟩ | ⟨hnew, hiss, hlive'⟩
    · refine Or.inl ⟨s, hs, htok', fun ht => ?_⟩
      rcases hlive' ht with ht' | hb
      · rw [← htok']
        exact hlive (htok' ▸ ht')
      · exact Or.inr (h'.begun _ hb)
    · refine Or.inr ⟨hnew, h'.issued _ hiss, ?_⟩
      rcases hlive' with ht | hb
      · exact hlive ht
      · exact Or.inr (h'.begun _ hb)
  · exact Or.inr ⟨fun hi => hnew (h.issued _ hi), hiss, hlive⟩

theorem tokenIssued (h : TokenStep w w') (hw : TokenIssued w) : TokenIssued w' := by
  intro s' hs'
  rcases h.recorded s' hs' with ⟨s, hs, htok, -⟩ | ⟨-, hiss, -⟩
  · rw [htok]
    exact h.issued _ (hw s hs)
  · exact hiss

/-- A step that touches neither the session nor the timers. -/
theorem of_within {E : Effects} (h : E.Within w w') (hs : ¬E.files .session) (ht : ¬E.timers) : TokenStep w w' := by
  refine ⟨fun t hi => by rwa [h.issued ht], fun t hb => by rwa [h.begun ht], fun s hs' => ?_⟩
  exact Or.inl ⟨s, hs'.congr (h.files _ hs).symm, rfl, fun hm => Or.inl (by rwa [h.timers ht])⟩

/-- A step that may end the session, and keeps the timers while it doesn't. -/
theorem of_cleared (hi : w'.issued = w.issued) (hb : w'.begun = w.begun)
    (hs : w'.files .session = none ∨ w'.files .session = w.files .session ∧ w'.timers = w.timers) : TokenStep w w' := by
  refine ⟨fun t h => by rwa [hi], fun t h => by rwa [hb], fun s hs' => ?_⟩
  rcases hs with hnone | ⟨hsame, ht⟩
  · exact absurd hnone hs'.ne_none
  · exact Or.inl ⟨s, hs'.congr hsame.symm, rfl, fun hm => Or.inl (by rwa [ht])⟩

/-- A step that may arm a timer with a new token, which isn't recorded. -/
theorem of_unrecorded {R : Rules (host Γ)} (hR : FreshTokens R) (hw : TokenIssued w) (hs : w'.files .session = w.files .session)
    (hb : w'.begun = w.begun) (ht : w'.issued = w.issued ∧ w'.timers = w.timers ∨
      ∃ t, (FreshTokens R → t ∉ w.issued ∧ t ≠ "") ∧ w'.issued = t :: w.issued ∧ ∀ x ∈ w.timers, x ≠ t → x ∈ w'.timers) :
    TokenStep w w' := by
  rcases ht with ⟨hi, ht⟩ | ⟨t, hfresh, hi, ht⟩
  · exact of_cleared hi hb (Or.inr ⟨hs, ht⟩)
  · refine ⟨fun x hx => by simp [hi, hx], fun x hx => by rwa [hb], fun s hs' => ?_⟩
    have hrec : OnRecord w s := hs'.congr hs.symm
    refine Or.inl ⟨s, hrec, rfl, fun hm => Or.inl (ht _ hm fun he => ?_)⟩
    exact (hfresh hR).1 (he ▸ hw s hrec)

theorem of_unarmed {R : Rules (host Γ)} (hR : FreshTokens R) (hw : TokenIssued w) (h : Unarmed R w w') : TokenStep w w' := by
  rcases h with rfl | ⟨t, ha⟩
  · exact refl w'
  · exact of_unrecorded hR hw (ha.within.files _ id) ha.begun (Or.inr ⟨t, ha.fresh, ha.issued, ha.others⟩)

theorem of_rearmed {R : Rules (host Γ)} {s next : ConfirmSession} (hR : FreshTokens R) (hi : s.token ∈ w.issued)
    (h : Rearmed R s next w w') : TokenStep w w' := by
  have hnew : next.token ∉ w.issued := (h.fresh hR).1
  refine ⟨fun t ht => by simp [h.issued, ht], fun t ht => by rwa [h.begun], fun s' hs' => Or.inr ?_⟩
  obtain rfl := hs'.of_marshal h.session
  exact ⟨hnew, by simp [h.issued], Or.inl (h.armed fun he => hnew (he ▸ hi))⟩

theorem of_rearming {R : Rules (host Γ)} {s : ConfirmSession} (hR : FreshTokens R) (hw : TokenIssued w) (hs : OnRecord w s)
    (h : Rearming R s w w') : TokenStep w w' := by
  rcases h with h | ⟨next, h⟩
  · exact of_unarmed hR hw h
  · exact of_rearmed hR (hw s hs) h

/-- A rollback that does anything has begun. -/
theorem of_rollingBack {s : ConfirmSession} {reason : RevertReason} (hs : OnRecord w s) (h : RollingBack s reason w w') :
    TokenStep w w' := by
  rcases h.begun with rfl | hb
  · exact refl w'
  refine ⟨fun t hi => by rwa [h.issued], fun t ht => by simp [hb, ht], fun s' hs' => Or.inl ⟨s, hs, ?_, fun _ => Or.inr (by simp [hb])⟩⟩
  rcases h.session with hsame | ⟨s₁, hm, htok, -⟩
  · rw [(hs'.congr hsame.symm).unique hs]
  · rw [hs'.of_marshal hm, htok]

theorem of_rollback {K : (FileName → Bool) → Prop} {s : ConfirmSession} {reason : RevertReason} {edits : Bool} (hs : OnRecord w s)
    (h : Rollback K s reason edits w w') : TokenStep w w' := by
  rcases h with h | ⟨B, v, -, hv, -, -, hfin⟩
  · exact of_rollingBack hs h
  refine (of_rollingBack hs hv).trans (of_cleared (hfin.within.issued id) (hfin.within.begun id) ?_)
  obtain ⟨kept, -, hkept⟩ := hfin.cleared
  have hsession := hkept .session rfl
  by_cases hk : kept .session = true
  · rw [if_pos hk] at hsession
    exact Or.inr ⟨hsession, hfin.within.timers id⟩
  · rw [if_neg hk] at hsession
    exact Or.inl hsession

theorem rollback_begun {K : (FileName → Bool) → Prop} {s : ConfirmSession} {reason : RevertReason} {edits : Bool}
    (h : Rollback K s reason edits w w') : w' = w ∨ w'.begun = s.token :: w.begun := by
  rcases h with h | ⟨B, v, -, -, hb, -, hfin⟩
  · exact h.begun
  · exact Or.inr ((hfin.within.begun id).trans hb)

/-- A rollback leaves no other token on record. -/
theorem rollback_token {K : (FileName → Bool) → Prop} {s s' : ConfirmSession} {reason : RevertReason} {edits : Bool}
    (hs : OnRecord w s) (h : Rollback K s reason edits w w') (hs' : OnRecord w' s') : s'.token = s.token := by
  have hi : w'.issued = w.issued := by
    rcases h with h | ⟨B, v, -, hv, -, -, hfin⟩
    · exact h.issued
    · exact (hfin.within.issued id).trans hv.issued
  rcases (of_rollback hs h).recorded s' hs' with ⟨s₀, hs₀, htok, -⟩ | ⟨hnew, hiss, -⟩
  · rw [htok, hs₀.unique hs]
  · exact absurd (hi ▸ hiss) hnew

theorem of_attempting (h : Attempting w w') : TokenStep w w' :=
  of_within h.within (by simp [reloadsE, FileName.isGenerated, FileName.isHistory]) id

theorem of_inSession {R : Rules (host Γ)} {K : (FileName → Bool) → Prop} {s : ConfirmSession} (hR : FreshTokens R) (hw : TokenIssued w)
    (hs : OnRecord w s) (h : InSession R K s w w') : TokenStep w w' := by
  rcases h with ha | ⟨u, ha, hr⟩ | ⟨b, c, u, ha, hr⟩
  · exact of_attempting ha
  · exact (of_attempting ha).trans (of_rollback (hs.attempting ha) hr)
  · have hu := of_attempting ha.attempting
    exact hu.trans (of_rearming hR (hu.tokenIssued hw) (hs.attempting ha.attempting) hr)

theorem of_refused {R : Rules (host Γ)} (hR : FreshTokens R) (hw : TokenIssued w) (h : Refused R w w') : TokenStep w w' :=
  of_unrecorded hR hw h.session h.begun h.token

theorem of_started {R : Rules (host Γ)} {s : ConfirmSession} (hR : FreshTokens R) (hw : TokenIssued w) (h : Started R s w w') :
    TokenStep w w' := by
  obtain ⟨hnew, hne⟩ := h.fresh hR
  refine ⟨fun t ht => by simp [h.issued, ht], fun t ht => by rwa [h.begun], fun s' hs' => Or.inr ?_⟩
  obtain rfl := hs'.of_marshal h.session
  exact ⟨hnew, by simp [h.issued], Or.inl (h.armed hne fun s₀ hs₀ he => hnew (he ▸ hw s₀ hs₀))⟩

theorem of_apply {R : Rules (host Γ)} {K : (FileName → Bool) → Prop} (hR : FreshTokens R) (hw : TokenIssued w) (h : Apply R K w w') :
    TokenStep w w' := by
  rcases h with h | ⟨s, v, u, hst, hforget, -, hin⟩
  · exact of_refused hR hw h
  have hv := of_started hR hw hst
  have hu : TokenStep v u := of_within hforget.within (by simp [clearsE]) id
  have hs : OnRecord u s := (onRecord_of_marshal hst.session).congr (hforget.within.files _ (by simp [clearsE]))
  exact (hv.trans hu).trans (of_inSession hR (hu.tokenIssued (hv.tokenIssued hw)) hs hin)

theorem of_confirming {K : (FileName → Bool) → Prop} (h : Confirming K w w') : TokenStep w w' := by
  rcases h.outcome with rfl | ⟨s, kept, hs, -, -, hf, ht⟩
  · exact refl w'
  refine of_cleared h.issued h.begun ?_
  rcases ht with ht | ⟨-, hnone⟩
  · rw [hf]
    by_cases hk : kept .session = true
    · exact Or.inr ⟨by simp [hk], ht⟩
    · exact Or.inl (by simp [FileName.inSession, hk])
  · exact Or.inl hnone

theorem of_revert {K : (FileName → Bool) → Prop} {reason : RevertReason} {token : String} (h : Revert K reason token w w') :
    TokenStep w w' := by
  rcases h with rfl | ⟨s, hs, -, h⟩
  · exact refl w'
  · exact of_rollback hs h

theorem of_recover {K : (FileName → Bool) → Prop} (h : Recover K w w') : TokenStep w w' := by
  rcases h with rfl | ⟨s, hs, h⟩
  · exact refl w'
  · exact of_rollback hs h

theorem of_did {R : Rules (host Γ)} {K : (FileName → Bool) → Prop} {op : Op Γ} (hR : FreshTokens R) (hw : TokenIssued w)
    (hop : op.BringsNoSession) (h : op.Did R K w w') : TokenStep w w' := by
  have hatt : ∀ {v}, Cleared K w v → Attempting v w' → TokenStep w w' := fun hv ha =>
    (of_recover hv.recover).trans (of_attempting ha)
  cases op with
  | apply hash timeout => exact of_apply hR hw h
  | reload hash =>
    rcases h with h | ⟨v, hv, h⟩
    · exact of_recover h
    · exact hatt hv h
  | boot =>
    rcases h with h | ⟨v, u, hv, hu, hcount⟩
    · exact of_recover h
    refine ((of_recover hv.recover).trans ?_).trans (of_within hcount (by simp [countsE]) id)
    rcases hu with rfl | ⟨b, c, -, -, -, hu⟩ | ⟨-, hu⟩
    · exact refl u
    · exact of_within hu.within (by simp [appliesE, FileName.isGenerated]) id
    · exact of_within hu.within (by simp [reloadsE, FileName.isGenerated, FileName.isHistory]) id
  | confirm => exact of_confirming h
  | revert reason => exact of_revert h
  | timer token => exact of_revert h
  | recover => exact of_recover h
  | updateGeo =>
    rcases h with rfl | ⟨-, u, hu, hcount⟩
    · exact refl w'
    refine trans ?_ (of_within hcount (by simp [countsE]) id)
    rcases hu with rfl | ⟨b, c, -, -, hu⟩
    · exact refl u
    · exact of_within hu.within (by simp [appliesE, FileName.isGenerated]) id
  | syncPaused paused => exact of_within h (by simp [pausesE]) id
  | save c revs => exact of_within h (by simp [savesE]) id
  | discard => exact of_within h (by simp [savesE]) id
  | restorePrevious => exact of_within h (by simp [savesE]) id
  | restoreReverted => exact of_within h (by simp [revivesE]) id
  | dismissRevert => exact of_within h (by simp [clearsE]) id
  | restoreArchive members =>
    refine of_within h ?_ id
    rintro (hno | ⟨b, hb⟩)
    · cases hno
    · exact hop b hb

end TokenStep

/-! ## Runs within one boot -/

/-- The tokens are distinct. -/
def timerRules (Γ : Ctx) : Rules (host Γ) where
  allows c ch w := match c with | .randomToken => ch.answer ∉ w.issued ∧ ch.answer ≠ "" | _ => True
  crash _ := True

theorem freshTokens_timerRules : FreshTokens (timerRules Γ) := fun _ _ h => h

theorem clears_timerRules : Clears (timerRules Γ) fun _ => True := ⟨fun _ _ _ => trivial, trivial, trivial⟩

instance (c : Cmd Γ) (ch : Choice Γ) (w : World Γ) : Decidable ((timerRules Γ).allows c ch w) :=
  match c with
  | .randomToken => inferInstanceAs (Decidable (ch.answer ∉ w.issued ∧ ch.answer ≠ ""))
  | .acquireApplyLock | .tryApplyLock | .readFile _ | .stat _ | .writeFile _ _ | .remove _ | .rename _ _ | .mkdirAll _
  | .removeSessionDir | .now | .bootID | .mapOrder | .systemdRun _ _ | .systemctlStop _ | .systemctlIsActive _ | .nftCheck _
  | .nftLoad _ | .nftListPrerouting | .nftListCrowdsec | .nftAddCrowdsec _ | .wgInterfaceExists _ | .wgQuickStrip _
  | .wgSyncconf _ _ | .ipAddrReplace _ _ | .wgQuickUp _ _ | .httpGetZone _ | .appendEvent _ | .rollbackBegins _ => .isTrue trivial

/-- An operation, any of whose steps may fail or be interrupted, whose tokens are new and which brings no session from an archive. -/
def WithinBoot (e : Event Γ) (w : World Γ) : Prop :=
  match e with
  | .job op script => Allowed (timerRules Γ) op.prog script w ∧ op.BringsNoSession
  | .reboot _ => False

/-- The process of the timer `t` has run while `t` was on record, and was interrupted before it began the rollback. -/
def TimerCutShort (es : List (Event Γ)) (w₀ : World Γ) (t : String) : Prop :=
  ∃ pre script post, es = pre ++ .job (.timer t) script :: post ∧ (∃ s, OnRecord (after pre w₀) s ∧ s.token = t) ∧
    ((Op.timer t).run script (after pre w₀)).state = after pre w₀

theorem TimerCutShort.append {es : List (Event Γ)} {w₀ : World Γ} {t : String} (h : TimerCutShort es w₀ t) (e : Event Γ) :
    TimerCutShort (es ++ [e]) w₀ t := by
  obtain ⟨pre, script, post, rfl, hrec, hrun⟩ := h
  exact ⟨pre, script, post ++ [e], by simp, hrec, hrun⟩

theorem job_tokenStep {op : Op Γ} {script : List (Choice Γ)} (hw : TokenIssued w) (h : WithinBoot (.job op script) w) :
    TokenStep w (op.run script w).state :=
  .of_did freshTokens_timerRules hw h.2 (op_did clears_timerRules h.1)

theorem OnRecord.settle {op : Op Γ} {s : ConfirmSession} : OnRecord (op.settle w) s ↔ OnRecord w s := by
  unfold OnRecord
  rw [Op.settle_files]

theorem mem_settle {op : Op Γ} {t : String} (h : t ∈ w.timers) (hop : op ≠ .timer t) : t ∈ (op.settle w).timers := by
  cases op with
  | timer token =>
    have hne : t ≠ token := fun he => hop (by rw [he])
    simpa [Op.settle, hne] using h
  | _ => exact h

/-- The process of a timer does nothing, or the rollback of the session on record has begun. -/
theorem timer_did {t : String} {script : List (Choice Γ)} (h : WithinBoot (.job (.timer t) script) w) :
    ((Op.timer t).run script w).state = w ∨
      ∀ s, OnRecord ((Op.timer t).run script w).state s → s.token ∈ ((Op.timer t).run script w).state.begun := by
  have hdid : Revert (fun _ => True) .timeout t w ((Op.timer t).run script w).state := op_did clears_timerRules h.1
  rcases hdid with hsame | ⟨s₀, hs₀, -, hroll⟩
  · exact Or.inl hsame
  rcases TokenStep.rollback_begun hroll with hsame | hb
  · exact Or.inl hsame
  · refine Or.inr fun s hs => ?_
    rw [TokenStep.rollback_token hs₀ hroll hs]
    simp [hb]

/-- What every run keeps: the token on record was handed out, and its timer is armed or waits for the lock, unless a rollback of the session
has begun or its process was cut short. -/
structure TokenLive (es : List (Event Γ)) (w₀ : World Γ) : Prop where
  issued : TokenIssued (after es w₀)
  live : ∀ s, OnRecord (after es w₀) s → s.token ∈ (after es w₀).timers ∨ s.token ∈ (after es w₀).begun ∨ TimerCutShort es w₀ s.token

theorem TokenLive.step {es : List (Event Γ)} {e : Event Γ} {w₀ : World Γ} (h : TokenLive es w₀) (he : WithinBoot e (after es w₀)) :
    TokenLive (es ++ [e]) w₀ := by
  cases e with
  | reboot boot => exact he.elim
  | job op script =>
  have hstep := job_tokenStep h.issued he
  have hend : after (es ++ [.job op script]) w₀ = op.settle (op.run script (after es w₀)).state := by rw [after_append]; rfl
  refine ⟨fun s hs => ?_, fun s hs => ?_⟩
  · rw [hend] at hs ⊢
    rw [Op.settle_issued]
    exact hstep.tokenIssued h.issued s (OnRecord.settle.mp hs)
  rw [hend] at hs ⊢
  rw [Op.settle_begun]
  have hs := OnRecord.settle.mp hs
  -- A timer that is left after the operation is left when its process is gone, unless the process was that of this timer.
  have hafter : s.token ∈ (op.run script (after es w₀)).state.timers →
      s.token ∈ (op.settle (op.run script (after es w₀)).state).timers ∨
        s.token ∈ (op.run script (after es w₀)).state.begun ∨ TimerCutShort (es ++ [.job op script]) w₀ s.token := by
    intro ht
    by_cases hop : op = .timer s.token
    · subst hop
      rcases timer_did he with hsame | hbegun
      · exact Or.inr (Or.inr ⟨es, script, [], rfl, ⟨s, hsame ▸ hs, rfl⟩, hsame⟩)
      · exact Or.inr (Or.inl (hbegun s hs))
    · exact Or.inl (mem_settle ht hop)
  rcases hstep.recorded s hs with ⟨s₀, hs₀, htok, hlive⟩ | ⟨-, -, hlive⟩
  · rw [← htok] at hlive
    rcases h.live s₀ hs₀ with ht | hb | hcut
    · rw [← htok] at ht
      rcases hlive ht with ht | hb
      · exact hafter ht
      · exact Or.inr (Or.inl hb)
    · rw [← htok] at hb
      exact Or.inr (Or.inl (hstep.begun _ hb))
    · rw [← htok] at hcut
      exact Or.inr (Or.inr (hcut.append _))
  · rcases hlive with ht | hb
    · exact hafter ht
    · exact Or.inr (Or.inl hb)

theorem tokenLive {es : List (Event Γ)} {w₀ : World Γ} (hnone : w₀.files .session = none) (hes : Legal WithinBoot es w₀) :
    TokenLive es w₀ := by
  induction es using List.reverseRecOn with
  | nil => exact ⟨fun s hs => absurd hnone hs.ne_none, fun s hs => absurd hnone hs.ne_none⟩
  | append_singleton es e ih =>
    obtain ⟨hes, he, -⟩ := legal_append.mp hes
    exact (ih hes).step he

/-- No run brings back a token that was handed out before, while no session was on record. -/
theorem token_gone {es : List (Event Γ)} {w : World Γ} (hnone : w.files .session = none) (hes : Legal WithinBoot es w) {t : String}
    (ht : t ∈ w.issued) : t ∈ (after es w).issued ∧ ∀ s, OnRecord (after es w) s → s.token ≠ t := by
  induction es using List.reverseRecOn with
  | nil => exact ⟨ht, fun s hs => absurd hnone hs.ne_none⟩
  | append_singleton es e ih =>
    obtain ⟨hpre, he, -⟩ := legal_append.mp hes
    obtain ⟨hi, hne⟩ := ih hpre
    cases e with
    | reboot boot => exact he.elim
    | job op script =>
    have hstep := job_tokenStep (tokenLive hnone hpre).issued he
    rw [after_append]
    refine ⟨?_, fun s hs => ?_⟩
    · exact (Op.settle_issued op _).symm ▸ hstep.issued t hi
    · rcases hstep.recorded s (OnRecord.settle.mp hs) with ⟨s₀, hs₀, htok, -⟩ | ⟨hnew, -⟩
      · rw [htok]
        exact hne s₀ hs₀
      · intro he
        exact hnew (he ▸ hi)

/-! ## The theorem -/

/-- An Apply has touched the firewall or the tunnel only once its session is on record, if no rollback of it has begun. -/
theorem Apply.recorded_of_touched {R : Rules (host Γ)} {K : (FileName → Bool) → Prop} (h : Apply R K w w')
    (htouched : w'.nft ≠ w.nft ∨ w'.wg ≠ w.wg) (hb : w'.begun = w.begun) : ∃ s, OnRecord w' s := by
  rcases h with h | ⟨s, v, u, hst, hforget, -, hin⟩
  · rcases htouched with ht | ht
    · exact absurd (h.within.nft id) ht
    · exact absurd (h.within.wg id) ht
  have hs : OnRecord u s := (onRecord_of_marshal hst.session).congr (hforget.within.files _ (by simp [clearsE]))
  have hub : u.begun = w.begun := (hforget.within.begun id).trans hst.begun
  rcases hin with ha | ⟨x, ha, hr⟩ | ⟨b, c, x, ha, hr⟩
  · exact ⟨s, hs.attempting ha⟩
  · have hxb : x.begun = w.begun := (ha.within.begun id).trans hub
    rcases TokenStep.rollback_begun hr with rfl | hbegun
    · exact ⟨s, hs.attempting ha⟩
    · rw [hb, hxb] at hbegun
      exact absurd hbegun (List.cons_ne_self _ _).symm
  · have hx := hs.attempting ha.attempting
    rcases hr with (rfl | ⟨t, harm⟩) | ⟨next, hnext⟩
    · exact ⟨s, hx⟩
    · exact ⟨s, hx.congr (harm.within.files _ id)⟩
    · exact ⟨next, onRecord_of_marshal hnext.session⟩

/-- A timer whose token isn't on record does nothing. -/
theorem stale_timer {t : String} {script : List (Choice Γ)} (ht : t ≠ "") (hs : ∀ s, OnRecord w s → s.token ≠ t) :
    ((Op.timer t).run script w).state = w := by
  have hallowed : Allowed (choiceRules fun _ : Choice Γ => True) (Op.timer t).prog script w := allowed_choiceRules trivial fun _ _ => trivial
  have hdid : Revert (fun _ => True) .timeout t w ((Op.timer t).run script w).state :=
    op_did ⟨fun _ _ _ => trivial, trivial, trivial⟩ hallowed
  rcases hdid with hsame | ⟨s, hrec, htok, -⟩
  · exact hsame
  · rcases htok with he | he
    · exact absurd he ht
    · exact absurd he.symm (hs s hrec)

end EvuProxy

import EvuProxy.Apply.Rollback

/-!
# What an Apply with confirm does

`apply_spec` says what `ReloadWithConfirmIfMatch` did, wherever it stopped: it was refused, or it recorded a session with a timer and went
on to reload, and after that to roll back or to arm a new timer.
-/

namespace EvuProxy

open Go Fault Fault.Prog

variable {Γ : Ctx} {R : Rules (host Γ)} {T : World Γ → Prop} {w : World Γ}

/-! ## Reading the session -/

/-- The session that session.json holds. -/
def OnRecord (w : World Γ) (s : ConfirmSession) : Prop := ∃ b, w.files .session = some b ∧ Γ.unmarshalSession b = .ok s

theorem onRecord_of_marshal {w : World Γ} {s : ConfirmSession} (h : w.files .session = some (Γ.marshalSession s)) : OnRecord w s :=
  ⟨_, h, Γ.session_roundTrip s⟩

theorem OnRecord.congr {w w' : World Γ} {s : ConfirmSession} (h : OnRecord w s) (hf : w'.files .session = w.files .session) :
    OnRecord w' s := by
  obtain ⟨b, hb, hs⟩ := h
  exact ⟨b, hf.trans hb, hs⟩

theorem OnRecord.unique {w : World Γ} {s s' : ConfirmSession} (h : OnRecord w s) (h' : OnRecord w s') : s = s' := by
  obtain ⟨b, hb, hs⟩ := h
  obtain ⟨b', hb', hs'⟩ := h'
  obtain rfl : b = b' := Option.some.inj (hb.symm.trans hb')
  exact Except.ok.inj (hs.symm.trans hs')

theorem OnRecord.of_marshal {w : World Γ} {s s' : ConfirmSession} (h : OnRecord w s)
    (hm : w.files .session = some (Γ.marshalSession s')) : s = s' :=
  h.unique (onRecord_of_marshal hm)

theorem OnRecord.ne_none {w : World Γ} {s : ConfirmSession} (h : OnRecord w s) : w.files .session ≠ none := by
  obtain ⟨b, hb, -⟩ := h
  simp [hb]

theorem stops_readConfirmSession {P : Option ConfirmSession → World Γ → Prop} (hT : T w)
    (hnone : w.files .session = none → P none w) (hsome : ∀ s, OnRecord w s → P (some s) w) : Stops R T readConfirmSession P w := by
  refine .bind (P := fun b w' => b = w.files .session ∧ w = w') (stops_wrapErr (stops_readFile hT ⟨rfl, rfl⟩)) fun r w' _ h => ?_
  obtain ⟨rfl, rfl⟩ := h
  cases hb : w.files .session with
  | none => exact .ret hT (hnone hb)
  | some b =>
    cases hs : Γ.unmarshalSession b with
    | ok s =>
      simp only [hs]
      exact .ret hT (hsome s ⟨b, hb, hs⟩)
    | error msg =>
      simp only [hs]
      exact .fail hT

theorem stops_quiet {c : Cmd Γ} {P : c.Ans Γ → World Γ → Prop} (he : ∀ ch, effect w ch c = w) (hb : ∀ ch, broken w ch c = w)
    (hT : T w) (hP : ∀ (ch : Choice Γ) a, R.allows c ch w → respond w ch c = .ok a → P a w) : Stops R T c.run P w :=
  stops_run (fun ch _ => by rw [hb]; exact hT) (fun ch _ => by rw [he]; exact hT) (fun ch _ => by rw [he]; exact hT)
    fun ch a hch ha => by rw [he]; exact hP ch a hch ha

theorem stops_attempt_quiet {c : Cmd Γ} {P : Except Err (c.Ans Γ) → World Γ → Prop} (he : ∀ ch, effect w ch c = w)
    (hb : ∀ ch, broken w ch c = w) (hT : T w) (hok : ∀ (ch : Choice Γ) a, respond w ch c = .ok a → P (.ok a) w)
    (herr : ∀ e, P (.error e) w) : Stops R T c.run.attempt P w := by
  have hall : ∀ r, (∀ a, r = .ok a → ∃ ch : Choice Γ, respond w ch c = .ok a) → P r w := fun r hr => by
    cases r with
    | error e => exact herr e
    | ok a =>
      obtain ⟨ch, ha⟩ := hr a rfl
      exact hok ch a ha
  refine .attempt_of_wp (wp_run (fun ch _ _ => by rw [hb]; exact hT) (fun ch _ _ => ?_) fun ch _ => ?_)
  · rw [he, hb, ite_self]
    exact ⟨hT, herr _⟩
  · rw [he]
    exact ⟨hT, hall _ fun a ha => ⟨ch, ha⟩⟩

theorem stops_acquireApplyLock {P : Unit → World Γ → Prop} (hT : T w) (hP : P () w) : Stops R T acquireApplyLock P w :=
  stops_wrapErr (stops_quiet (fun _ => rfl) (fun _ => rfl) hT fun _ _ _ _ => hP)

theorem stops_checkConfigHash {P : Unit → World Γ → Prop} {hash : String} (hT : T w) (hP : P () w) :
    Stops R T (checkConfigHash hash) P w := by
  refine .ite (fun _ => .ret hT hP) fun _ => ?_
  refine .bind (P := fun _ w' => w = w') (.bind (P := fun _ w' => w = w') (stops_readExisting hT fun _ _ => rfl) ?_) ?_
  · rintro b _ hT rfl
    exact .ret hT rfl
  · rintro h _ hT rfl
    exact .ite (fun _ => .fail hT) fun _ => .ret hT hP

/-! ## The baseline -/

/-- The hash that `ReadAppliedHash` reads. -/
def appliedHash (w : World Γ) : Option String :=
  match w.files .applyState with
  | none => some ""
  | some b => (Γ.unmarshalApplyState b).toOption

/-- `checkConfirmBaseline` accepts `.bak`, which holds `b`. -/
structure Accepts (w : World Γ) (b : Γ.Bytes) : Prop where
  bak : w.files .bak = some b
  applied : appliedHash w = some (Γ.sha256 b)
  valid : ∃ c, parseConfig Γ b = .ok c

theorem validateConfigYAML_ok {b : Γ.Bytes} (h : validateConfigYAML Γ b = .ok ()) : ∃ c, parseConfig Γ b = .ok c := by
  unfold validateConfigYAML at h
  cases hp : parseConfig Γ b with
  | ok c => exact ⟨c, rfl⟩
  | error e => simp [hp, Except.map] at h

theorem stops_readAppliedHash {P : String → World Γ → Prop} (hT : T w) (hP : ∀ h, appliedHash w = some h → P h w) :
    Stops R T readAppliedHash P w := by
  refine .bind (P := fun b w' => b = w.files .applyState ∧ w = w') (stops_readFile hT ⟨rfl, rfl⟩) fun r w' _ h => ?_
  obtain ⟨rfl, rfl⟩ := h
  cases hb : w.files .applyState with
  | none => exact .ret hT (hP _ (by simp [appliedHash, hb]))
  | some b =>
    cases hs : Γ.unmarshalApplyState b with
    | ok h =>
      simp only [hs]
      exact .ret hT (hP _ (by simp [appliedHash, hb, hs, Except.toOption]))
    | error msg =>
      simp only [hs]
      exact .fail hT

theorem stops_checkConfirmBaseline {P : Unit → World Γ → Prop} (hT : T w) (hP : ∀ b, Accepts w b → P () w) :
    Stops R T checkConfirmBaseline P w := by
  refine .bind (P := fun b w' => b = w.files .bak ∧ w = w') (stops_readFile hT ⟨rfl, rfl⟩) fun r w' _ h => ?_
  obtain ⟨rfl, rfl⟩ := h
  cases hb : w.files .bak with
  | none => exact .fail hT
  | some b =>
  refine .bind (P := fun h w' => appliedHash w = some h ∧ w = w') (stops_readAppliedHash hT fun h hh => ⟨hh, rfl⟩) fun h w' _ hh => ?_
  obtain ⟨hh, rfl⟩ := hh
  refine .ite (fun _ => .fail hT) fun he => ?_
  cases hv : validateConfigYAML Γ b with
  | ok _ => exact .ret hT (hP b ⟨hb, by rw [hh, not_not.mp he], validateConfigYAML_ok hv⟩)
  | error e => exact .fail hT

/-- A program that writes the session directory. -/
def stagesE : Effects := { files := fun f => f.inSession = true }

/-- Where copying the baseline may stop. -/
structure Staging (w w' : World Γ) : Prop where
  within : stagesE.Within w w'
  session : w'.files .session = w.files .session ∨ w'.files .session = none

/-- The baseline is copied. -/
structure Staged (w w' : World Γ) : Prop extends Staging w w' where
  noSession : w'.files .session = none
  copied : ∀ n, w'.files (.staged n) = w.files (.history n)

theorem Staging.refl (w : World Γ) : Staging w w := ⟨.refl w, Or.inl rfl⟩

theorem Staging.clear {w : World Γ} (kept : FileName → Bool) : Staging w (w.clearSession kept) := by
  refine ⟨within_clearSession fun _ h => h, ?_⟩
  by_cases hk : kept .session = true
  · exact Or.inl (by simp [hk])
  · exact Or.inr (by simp [FileName.inSession, hk])

/-- A copy of the baseline under way: the snapshots that are not in `rest` are copied. -/
structure StagingFrom (w : World Γ) (rest : List (Fin 6)) (w' : World Γ) : Prop where
  within : stagesE.Within w w'
  noSession : w'.files .session = none
  copied : ∀ n, n ∉ rest → w'.files (.staged n) = w.files (.history n)
  empty : ∀ n, n ∈ rest → w'.files (.staged n) = none

theorem stageSnapshot_spec {n : Fin 6} {rest : List (Fin 6)} {w₀ : World Γ} (hn : n ∉ rest) (h : StagingFrom w₀ (n :: rest) w) :
    Stops R (Staging w₀) (stageSnapshot n) (fun _ w' => StagingFrom w₀ rest w') w := by
  have hT : ∀ {w'}, stagesE.Within w₀ w' → w'.files .session = none → Staging w₀ w' := fun hw hs => ⟨hw, Or.inr hs⟩
  have hh : w.files (.history n) = w₀.files (.history n) := h.within.files _ (by simp [stagesE, FileName.inSession])
  refine .bind (P := fun b w' => b = w.files (.history n) ∧ w = w') (stops_readFile (hT h.within h.noSession) ⟨rfl, rfl⟩)
    fun r w' hT' hr => ?_
  obtain ⟨rfl, rfl⟩ := hr
  cases hb : w.files (.history n) with
  | none =>
    refine .ret hT' ⟨h.within, h.noSession, fun m hm => ?_, fun m hm => h.empty m (by simp [hm])⟩
    by_cases hmn : m = n
    · rw [hmn, h.empty n (by simp), ← hh, hb]
    · exact h.copied m (by simp [hm, hmn])
  | some b =>
    have hw : stagesE.Within w₀ (w.set (.staged n) (some b)) := h.within.trans (within_set rfl)
    have hs : (w.set (.staged n) (some b)).files .session = none := by simpa using h.noSession
    refine stops_writeFile hT' (hT hw hs) ⟨hw, hs, fun m hm => ?_, fun m hm => ?_⟩
    · by_cases hmn : m = n
      · simp [hmn, ← hh, hb]
      · simpa [hmn] using h.copied m (by simp [hm, hmn])
    · have hmn : m ≠ n := fun he => hn (he ▸ hm)
      simpa [hmn] using h.empty m (by simp [hm])

theorem snapshotConfirmBaseline_spec : Stops R (Staging w) snapshotConfirmBaseline (fun _ w' => Staged w w') w := by
  refine .bind (P := fun _ w' => w' = w.clearSession fun _ => false) (stops_run (fun ch _ => .clear ch.kept)
    (fun _ _ => .clear _) (fun _ h => by simp [Cmd.mayTake] at h) fun _ _ _ _ => rfl) fun _ w₁ h₁ he => ?_
  refine .bind (P := fun _ w' => w₁ = w') (stops_quiet (fun _ => rfl) (fun _ => rfl) h₁ fun _ _ _ _ => rfl) fun _ _ _ he' => ?_
  subst he'
  have h₀ : StagingFrom w configYAMLHistory w₁ := by
    subst he
    exact ⟨h₁.within, by simp [FileName.inSession], fun n hn => absurd (by revert n; decide) hn, fun n _ => by simp [FileName.inSession]⟩
  -- The list has no snapshot twice, so that a copy is never looked for again.
  have hloop : Stops R (Staging w) (forEach configYAMLHistory stageSnapshot)
      (fun _ w' => StagingFrom w [] w' ∧ ([] : List (Fin 6)).Nodup) w₁ := by
    refine Stops.forEach (J := fun rest (w' : World Γ) => StagingFrom w rest w' ∧ rest.Nodup) (fun n rest w' _ hJ => ?_) h₁
      ⟨h₀, by decide⟩
    have hnd := List.nodup_cons.mp hJ.2
    exact (stageSnapshot_spec hnd.1 hJ.1).post fun _ _ _ h => ⟨h, hnd.2⟩
  exact hloop.post fun _ _ h hJ => ⟨h, hJ.1.noSession, fun n => hJ.1.copied n (by simp)⟩

/-- The session as an Apply starts it. -/
def ConfirmSession.IsNew (s : ConfirmSession) : Prop := s.phase = .active ∧ s.token = "" ∧ s.revertReason = none

theorem startSession_spec :
    Stops R (Staging w) startSession (fun s w' => s.IsNew ∧ Staged w w' ∧ ∃ b, Accepts w b) w := by
  refine .bind (P := fun _ w' => (∃ b, Accepts w b) ∧ w = w') (stops_checkConfirmBaseline (.refl w) fun b h => ⟨⟨b, h⟩, rfl⟩)
    fun _ w' _ h => ?_
  obtain ⟨hb, rfl⟩ := h
  refine .bind (stops_wrapErr snapshotConfirmBaseline_spec) fun _ w₁ h₁ hs => ?_
  refine .bind (P := fun _ w' => w₁ = w') (stops_quiet (fun _ => rfl) (fun _ => rfl) h₁ fun _ _ _ _ => rfl) fun _ _ _ he => ?_
  subst he
  exact .ret h₁ ⟨⟨rfl, rfl, rfl⟩, hs, hb⟩

/-! ## Arming a timer -/

/-- The rules allow no token that was handed out before. -/
def FreshTokens (R : Rules (host Γ)) : Prop :=
  ∀ (ch : Choice Γ) w, R.allows .randomToken ch w → ch.answer ∉ w.issued ∧ ch.answer ≠ ""

/-- A program that arms and stops timers. -/
def timersE : Effects := { files := fun _ => False, timers := True }

/-- A timer with a new token may be armed. -/
structure Arming (R : Rules (host Γ)) (t : String) (w w' : World Γ) : Prop where
  within : timersE.Within w w'
  begun : w'.begun = w.begun
  fresh : FreshTokens R → t ∉ w.issued ∧ t ≠ ""
  issued : w'.issued = t :: w.issued
  others : ∀ x ∈ w.timers, x ≠ t → x ∈ w'.timers

/-- No timer with a new token is recorded. -/
def Unarmed (R : Rules (host Γ)) (w w' : World Γ) : Prop := w' = w ∨ ∃ t, Arming R t w w'

/-- The session is recorded with a new timer, which is armed, and the timer it replaces may be stopped. -/
structure Rearmed (R : Rules (host Γ)) (s next : ConfirmSession) (w w' : World Γ) : Prop where
  within : beginsE.Within w w'
  begun : w'.begun = w.begun
  session : w'.files .session = some (Γ.marshalSession next)
  phase : next.phase = s.phase
  reason : next.revertReason = s.revertReason
  boot : next.bootID = w.boot ∨ next.bootID = ""
  fresh : FreshTokens R → next.token ∉ w.issued ∧ next.token ≠ ""
  issued : w'.issued = next.token :: w.issued
  armed : next.token ≠ s.token → next.token ∈ w'.timers
  others : ∀ x ∈ w.timers, x ≠ next.token → x ≠ s.token → x ∈ w'.timers

/-- Where `rearmConfirmSession` may stop. -/
def Rearming (R : Rules (host Γ)) (s : ConfirmSession) (w w' : World Γ) : Prop :=
  Unarmed R w w' ∨ ∃ next, Rearmed R s next w w'

theorem Arming.stop {t : String} {w w' : World Γ} (h : Arming R t w w') (took : Bool) :
    Arming R t w (effect w' { took := took } (.systemctlStop t)) := by
  cases took with
  | true => exact h
  | false =>
    refine ⟨h.within.trans (within_of_timers trivial rfl rfl rfl rfl), h.begun, h.fresh, h.issued, fun x hx hxt => ?_⟩
    simpa [effect, hxt] using h.others x hx hxt

theorem armRevertTimer_spec {t : String} {n : Int} {w₀ : World Γ} (h : Arming R t w₀ w) :
    Stops R (Arming R t w₀) (armRevertTimer t n) (fun _ w' => t ∈ w'.timers) w := by
  have h' : Arming R t w₀ { w with timers := t :: w.timers } :=
    ⟨h.within.trans (within_of_timers trivial rfl rfl rfl rfl), h.begun, h.fresh, h.issued, fun x hx hxt => by
      simp [h.others x hx hxt]⟩
  exact stops_wrapErr (stops_run (fun _ _ => h) (fun _ _ => h') (fun _ _ => h') fun _ _ _ _ => by simp [effect])

theorem stops_currentBootID {P : String → World Γ → Prop} (hT : T w) (hP : ∀ b, b = w.boot ∨ b = "" → P b w) :
    Stops R T currentBootID P w := by
  refine .bind (P := fun r w' => w = w' ∧ ∀ b, r = .ok b → b = w.boot) (stops_attempt_quiet (fun _ => rfl) (fun _ => rfl) hT
    (fun _ b hb => ⟨rfl, ?_⟩) fun _ => ⟨rfl, nofun⟩) fun r w' _ h => ?_
  · rintro _ ⟨⟩
    exact (Except.ok.inj hb).symm
  · obtain ⟨rfl, hb⟩ := h
    cases r with
    | ok b => exact .ret hT (hP b (Or.inl (hb b rfl)))
    | error e => exact .ret hT (hP "" (Or.inr rfl))

theorem armNext_spec (s : ConfirmSession) :
    Stops R (Unarmed R w) (armNext s)
      (fun next w' => Arming R next.token w w' ∧ next.token ∈ w'.timers ∧ next.phase = s.phase ∧
        next.revertReason = s.revertReason ∧ (next.bootID = w.boot ∨ next.bootID = "")) w := by
  have h₀ : Unarmed R w w := Or.inl rfl
  refine .bind (P := fun t w' => Arming R t w w') (stops_run (fun _ _ => h₀) (fun ch hch => Or.inr ⟨ch.answer, ?_⟩)
    (fun _ h => by simp [Cmd.mayTake] at h) fun ch t hch ht => ?_) fun t w₁ _ h₁ => ?_
  · exact ⟨within_of_timers trivial rfl rfl rfl rfl, rfl, fun hF => hF ch w hch, rfl, fun x hx _ => hx⟩
  · obtain rfl : ch.answer = t := Except.ok.inj ht
    exact ⟨within_of_timers trivial rfl rfl rfl rfl, rfl, fun hF => hF ch w hch, rfl, fun x hx _ => hx⟩
  refine .call (armRevertTimer_spec h₁) (fun _ h => Or.inr ⟨t, h⟩) fun _ w₂ h₂ ht => ?_
  have hT₂ : Unarmed R w w₂ := Or.inr ⟨t, h₂⟩
  have hboot : w₂.boot = w.boot := h₂.within.boot
  refine .bind (P := fun b w' => w₂ = w' ∧ (b = w.boot ∨ b = "")) (stops_currentBootID hT₂ fun b hb => ⟨rfl, by rwa [← hboot]⟩)
    fun b _ _ h => ?_
  obtain ⟨rfl, hb⟩ := h
  refine .bind (P := fun _ w' => w₂ = w') (stops_quiet (fun _ => rfl) (fun _ => rfl) hT₂ fun _ _ _ _ => rfl) fun _ _ _ h => ?_
  subst h
  exact .ret hT₂ ⟨h₂, ht, rfl, rfl, hb⟩

/-- Stopping a timer is best effort: it never fails, and it may stop nothing. -/
theorem wp_stopRevertTimer {t : String} (hT : T w) (hstop : T { w with timers := w.timers.filter (· ≠ t) }) :
    wp (R.withCrash T) (stopRevertTimer t) (fun r w' => r = .ok () ∧ T w') w := by
  refine wp_ignore (wp_run (fun _ _ _ => hT) (fun ch _ _ => ?_) fun ch _ => ⟨rfl, ?_⟩)
  · split
    · exact ⟨rfl, hstop⟩
    · exact ⟨rfl, hT⟩
  · simp only [effect]
    split
    · exact hT
    · exact hstop

theorem timersE_le : timersE.LE beginsE := ⟨fun _ h => h.elim, fun h => h, fun h => h⟩

theorem rearmConfirmSession_spec (s : ConfirmSession) :
    wp (R.withCrash (Rearming R s w)) (rearmConfirmSession s) (fun r w' => Rearming R s w w' ∧
      match r with
      | .ok next => Rearmed R s next w w'
      | .error _ => Unarmed R w w') w := by
  refine wp_bind.2 (wp_mono (R := R.withCrash (Unarmed R w)) (fun _ _ _ h => h) (fun _ h => Or.inl h) ?_ (armNext_spec s).wp)
  rintro (e | next) w₁ ⟨h₁, hP⟩
  · exact ⟨Or.inl h₁, h₁⟩
  obtain ⟨harm, hmem, hphase, hreason, hboot⟩ := hP next rfl
  have hw₁ : beginsE.Within w w₁ := harm.within.mono timersE_le
  refine wp_bind.2 (wp_attempt.2 (wp_writeFile (fun _ => Or.inl h₁) (fun _ e => ?_) ?_))
  · -- The session isn't written: the new timer is stopped, and the old one stands.
    refine wp_bind.2 (wp_mono (R := R.withCrash (Unarmed R w)) (fun _ _ _ h => h) (fun _ h => Or.inl h) ?_
      (wp_stopRevertTimer h₁ (Or.inr ⟨_, harm.stop false⟩)))
    rintro _ w' ⟨rfl, h⟩
    exact wp_of_fail ⟨Or.inl h, h⟩
  · -- The session is written: only the new timer counts from here on.
    have hrec : Rearmed R s next w (w₁.set .session (some (Γ.marshalSession next))) :=
      ⟨hw₁.trans (within_set rfl), harm.begun, by simp, hphase, hreason, hboot, harm.fresh, harm.issued, fun _ => hmem,
        fun x hx hxt _ => harm.others x hx hxt⟩
    have hrec' : Rearmed R s next w { w₁.set .session (some (Γ.marshalSession next)) with
        timers := w₁.timers.filter (· ≠ s.token) } :=
      ⟨hrec.within.trans (within_of_timers trivial rfl rfl rfl rfl), harm.begun, by simp, hphase, hreason, hboot, harm.fresh,
        harm.issued, fun hne => by simp [hmem, hne], fun x hx hxt hxs => by simp [harm.others x hx hxt, hxs]⟩
    have hstop : wp (R.withCrash (Rearmed R s next w)) (stopReplacedTimer s.token) (fun r w' => r = .ok () ∧ Rearmed R s next w w')
        (w₁.set .session (some (Γ.marshalSession next))) :=
      wp_ite (fun _ => wp_stopRevertTimer hrec hrec') fun _ => wp_of_ret ⟨rfl, hrec⟩
    refine wp_bind.2 (wp_mono (R := R.withCrash (Rearmed R s next w)) (fun _ _ _ h => h) (fun _ h => Or.inr ⟨next, h⟩) ?_ hstop)
    rintro _ w' ⟨rfl, h⟩
    exact wp_of_ret ⟨Or.inr ⟨next, h⟩, h⟩

/-! ## An Apply -/

/-- Where a reload and the count of it may stop. -/
def Attempting (w w' : World Γ) : Prop := ∃ u, Reloading w u ∧ countsE.Within u w'

/-- A reload of `b`, which is the config `c`, was done and counted. -/
def Attempted (b : Γ.Bytes) (c : Config) (w w' : World Γ) : Prop :=
  w.files .config = some b ∧ parseConfig Γ b = .ok c ∧ ∃ u, Reloaded b c w u ∧ countsE.Within u w'

theorem Attempting.refl (w : World Γ) : Attempting w w := ⟨w, Or.inl rfl, .refl w⟩

theorem countsE_le_reloadsE : countsE.LE reloadsE :=
  ⟨fun _ h => Or.inl (countsE_le.files _ h), fun h => h.elim, fun h => h⟩

theorem Reloading.within {w w' : World Γ} (h : Reloading w w') : reloadsE.Within w w' := by
  rcases h with rfl | ⟨b, c, -, -, h⟩
  · exact .refl w'
  · exact h.within

theorem Attempting.within {w w' : World Γ} (h : Attempting w w') : reloadsE.Within w w' := by
  obtain ⟨u, hu, hw⟩ := h
  exact hu.within.trans (hw.mono countsE_le_reloadsE)

theorem Attempted.attempting {b : Γ.Bytes} {c : Config} {w w' : World Γ} (h : Attempted b c w w') : Attempting w w' := by
  obtain ⟨hb, hc, u, hu, hw⟩ := h
  exact ⟨u, Or.inr ⟨b, c, hb, hc, hu.toReloadingOf⟩, hw⟩

/-- Where an Apply may stop after its session `s` is recorded. -/
def InSession (R : Rules (host Γ)) (K : (FileName → Bool) → Prop) (s : ConfirmSession) (w w' : World Γ) : Prop :=
  Attempting w w' ∨ (∃ u, Attempting w u ∧ Rollback K s .failedApply true u w') ∨
    ∃ b c u, Attempted b c w u ∧ Rearming R s u w'

theorem applyInSession_spec {K : (FileName → Bool) → Prop} (hK : Clears R K) (s : ConfirmSession) :
    Stops R (InSession R K s w) (applyInSession s)
      (fun s' w' => ∃ b c u, Attempted b c w u ∧ (Rearmed R s s' u w' ∨ s' = s ∧ Unarmed R u w')) w := by
  refine .call reload_spec.attempt (fun _ h => Or.inl ⟨_, h, .refl _⟩) fun r u h hr => ?_
  have hcount : ∀ {w'}, countsE.Within u w' → Attempting w w' := fun hw => ⟨u, h, hw⟩
  cases r with
  | error e =>
    refine .call (stops_frame (E := countsE) (uses_ignore uses_recordApplyFailure)) (fun _ hw => Or.inl (hcount hw)) fun _ v hv _ => ?_
    have hroll : ∀ {w'}, Rollback K s .failedApply true v w' → InSession R K s w w' := fun hw => Or.inr (Or.inl ⟨v, hcount hv, hw⟩)
    refine .call (rollback_spec hK s .failedApply true).attempt (fun _ hw => hroll hw) fun r w' hw _ => ?_
    cases r with
    | error e' => exact .fail (hroll hw)
    | ok _ => exact .fail (hroll hw)
  | ok _ =>
    obtain ⟨b, c, hb, hc, hdone⟩ := hr.2 () rfl
    refine .call (stops_frame (E := countsE) (uses_ignore uses_recordApplySuccess)) (fun _ hw => Or.inl (hcount hw)) fun _ v hv _ => ?_
    have hatt : Attempted b c w v := ⟨hb, hc, u, hdone, hv⟩
    have hre : ∀ {w'}, Rearming R s v w' → InSession R K s w w' := fun hw => Or.inr (Or.inr ⟨b, c, v, hatt, hw⟩)
    refine .call (Stops.attempt_of_wp (rearmConfirmSession_spec s)) (fun _ hw => hre hw) fun r w' hw hP => ?_
    cases r with
    | error e => exact .ret (hre hw) ⟨b, c, v, hatt, Or.inr ⟨rfl, hP⟩⟩
    | ok s' => exact .ret (hre hw) ⟨b, c, v, hatt, Or.inl hP⟩

/-- A program that starts a session, up to its record. -/
def refusesE : Effects := { files := fun f => f.inSession = true, timers := True }

theorem beginsE_le_refusesE : beginsE.LE refusesE := ⟨by rintro f rfl; rfl, fun h => h, fun h => h⟩

/-- An Apply that was refused, or stopped before its session was recorded. A session that was running is as it was. -/
structure Refused (R : Rules (host Γ)) (w w' : World Γ) : Prop where
  within : refusesE.Within w w'
  begun : w'.begun = w.begun
  session : w'.files .session = w.files .session
  staged : w.files .session ≠ none → ∀ n, w'.files (.staged n) = w.files (.staged n)
  token : w'.issued = w.issued ∧ w'.timers = w.timers ∨
    ∃ t, (FreshTokens R → t ∉ w.issued ∧ t ≠ "") ∧ w'.issued = t :: w.issued ∧ ∀ x ∈ w.timers, x ≠ t → x ∈ w'.timers

/-- An Apply has recorded its session `s`: a new one with the baseline copied, or one that was running. -/
structure Started (R : Rules (host Γ)) (s : ConfirmSession) (w w' : World Γ) : Prop where
  within : refusesE.Within w w'
  begun : w'.begun = w.begun
  session : w'.files .session = some (Γ.marshalSession s)
  phase : s.phase = .active
  baseline : w.files .session = none ∧ (∃ b, Accepts w b) ∧ s.revertReason = none ∧
      (∀ n, w'.files (.staged n) = w.files (.history n)) ∨
    ∃ s₀, OnRecord w s₀ ∧ s₀.phase = .active ∧ s.revertReason = s₀.revertReason ∧
      ∀ n, w'.files (.staged n) = w.files (.staged n)
  boot : s.bootID = w.boot ∨ s.bootID = ""
  fresh : FreshTokens R → s.token ∉ w.issued ∧ s.token ≠ ""
  issued : w'.issued = s.token :: w.issued
  armed : s.token ≠ "" → (∀ s₀, OnRecord w s₀ → s.token ≠ s₀.token) → s.token ∈ w'.timers

/-- A program that forgets the last revert. -/
def clearsE : Effects := { files := fun f => f = .lastRevert ∨ f = .reverted }

/-- Forgetting the last revert, which may remove both files or not. -/
structure Forgetting (w w' : World Γ) : Prop where
  within : clearsE.Within w w'
  reverted : w'.files .reverted = w.files .reverted ∨ w'.files .reverted = none

/-- Where an Apply with confirm may stop. -/
def Apply (R : Rules (host Γ)) (K : (FileName → Bool) → Prop) (w w' : World Γ) : Prop :=
  Refused R w w' ∨ ∃ s v u, Started R s w v ∧ Forgetting v u ∧ (w.files .session ≠ none → u = v) ∧ InSession R K s u w'

theorem Forgetting.refl (w : World Γ) : Forgetting w w := ⟨.refl w, Or.inl rfl⟩

theorem clearLastRevert_spec : Stops R (Forgetting w) clearLastRevert (fun _ _ => True) w := by
  have h₁ : Forgetting w (w.set .lastRevert none) := ⟨within_set (Or.inl rfl), Or.inl (by simp)⟩
  have hset : ∀ {v}, Forgetting w v → Forgetting w (v.set .reverted none) := fun h =>
    ⟨h.within.trans (within_set (Or.inr rfl)), Or.inr (by simp)⟩
  refine .bind (P := fun _ _ => True) (stops_ignore (P := fun _ _ => True) (stops_removeIfExists (.refl w) h₁ trivial)
    fun _ _ => trivial) fun _ v hv _ => ?_
  exact stops_ignore (P := fun _ _ => True) (stops_removeIfExists hv (hset hv) trivial) fun _ _ => trivial

/-- The session that an Apply goes on with: `u` is the state in which it is opened. -/
structure Opened (s : ConfirmSession) (first : Bool) (w u : World Γ) : Prop where
  within : stagesE.Within w u
  session : u.files .session = w.files .session
  phase : s.phase = .active
  baseline : first = true ∧ w.files .session = none ∧ (∃ b, Accepts w b) ∧ s.revertReason = none ∧ s.token = "" ∧
      (∀ n, u.files (.staged n) = w.files (.history n)) ∨
    first = false ∧ u = w ∧ ∃ s₀, OnRecord w s₀ ∧ s₀.phase = .active ∧ s.token = s₀.token ∧ s.revertReason = s₀.revertReason

theorem stagesE_le : stagesE.LE refusesE := ⟨fun _ hf => hf, fun hf => hf, fun hf => hf.elim⟩

theorem Staging.refused {w w' : World Γ} (hs : w.files .session = none) (h : Staging w w') : Refused R w w' where
  within := h.within.mono stagesE_le
  begun := h.within.begun id
  session := by
    rcases h.session with he | he
    · exact he
    · rw [he, hs]
  staged hne := absurd hs hne
  token := Or.inl ⟨h.within.issued id, h.within.timers id⟩

theorem Refused.refl (w : World Γ) : Refused R w w :=
  ⟨.refl w, rfl, rfl, fun _ _ => rfl, Or.inl ⟨rfl, rfl⟩⟩

theorem openSession_spec (hash : String) :
    Stops R (Refused R w) (openSession hash) (fun p w' => Opened p.1 p.2 w w') w := by
  refine .bind (P := fun r w' => w = w' ∧ (r = none ∧ w.files .session = none ∨ ∃ s, r = some s ∧ OnRecord w s))
    (stops_readConfirmSession (.refl w) (fun h => ⟨rfl, Or.inl ⟨rfl, h⟩⟩) fun s h => ⟨rfl, Or.inr ⟨s, rfl, h⟩⟩) fun r _ _ h => ?_
  obtain ⟨rfl, ⟨rfl, hnone⟩ | ⟨s, rfl, hs⟩⟩ := h
  · refine .bind (P := fun _ w' => w = w') (stops_checkConfigHash (.refl w) rfl) fun _ _ _ h => ?_
    subst h
    refine .call startSession_spec (fun _ h => h.refused hnone) fun s u hu h => ?_
    obtain ⟨⟨hphase, htok, hreason⟩, hst, hacc⟩ := h
    exact .ret (hu.refused hnone) ⟨hu.within, by rw [hst.noSession, hnone], hphase, Or.inl ⟨rfl, hnone, hacc, hreason, htok, hst.copied⟩⟩
  · refine .ite (fun _ => .fail (.refl w)) fun hphase => ?_
    refine .bind (P := fun _ w' => w = w') (stops_checkConfigHash (.refl w) rfl) fun _ _ _ h => ?_
    subst h
    have hphase := not_not.mp hphase
    exact .ret (.refl w) ⟨.refl w, rfl, hphase, Or.inr ⟨rfl, rfl, s, hs, hphase, rfl, rfl⟩⟩

theorem Opened.refused {s : ConfirmSession} {first : Bool} {w u v : World Γ} (h : Opened s first w u) (hv : Unarmed R u v) :
    Refused R w v := by
  have hb : ∀ {v}, timersE.Within u v → refusesE.Within w v := fun hw =>
    (h.within.mono stagesE_le).trans ((hw.mono timersE_le).mono beginsE_le_refusesE)
  have hi : u.issued = w.issued := h.within.issued id
  have ht : u.timers = w.timers := h.within.timers id
  have hst : ∀ {v : World Γ}, (∀ f, v.files f = u.files f) → w.files .session ≠ none → ∀ n, v.files (.staged n) = w.files (.staged n) :=
    fun hf hne n => by
      rcases h.baseline with ⟨-, hnone, -⟩ | ⟨-, rfl, -⟩
      · exact absurd hnone hne
      · exact hf _
  rcases hv with rfl | ⟨t, ha⟩
  · exact ⟨h.within.mono stagesE_le, h.within.begun id, h.session, hst fun _ => rfl, Or.inl ⟨hi, ht⟩⟩
  · refine ⟨hb ha.within, ha.begun.trans (h.within.begun id), (ha.within.files _ id).trans h.session, hst fun f => ha.within.files f id,
      Or.inr ⟨t, ?_, ?_, ?_⟩⟩
    · rw [← hi]; exact ha.fresh
    · rw [← hi]; exact ha.issued
    · rw [← ht]; exact ha.others

theorem Opened.started {s next : ConfirmSession} {first : Bool} {w u v : World Γ} (h : Opened s first w u)
    (hv : Rearmed R s next u v) : Started R next w v := by
  have hi : u.issued = w.issued := h.within.issued id
  have hst : ∀ n, v.files (.staged n) = u.files (.staged n) := fun n => hv.within.files _ (by simp [beginsE])
  refine ⟨(h.within.mono stagesE_le).trans (hv.within.mono beginsE_le_refusesE),
    hv.begun.trans (h.within.begun id), hv.session, hv.phase.trans h.phase, ?_, ?_, ?_, ?_, fun hne hold => hv.armed fun he => ?_⟩
  · rcases h.baseline with ⟨-, hnone, hacc, hreason, -, hcopied⟩ | ⟨-, rfl, s₀, hs₀, hphase, -, hreason⟩
    · exact Or.inl ⟨hnone, hacc, hv.reason.trans hreason, fun n => (hst n).trans (hcopied n)⟩
    · exact Or.inr ⟨s₀, hs₀, hphase, hv.reason.trans hreason, hst⟩
  · have hboot : u.boot = w.boot := h.within.boot
    rw [← hboot]; exact hv.boot
  · rw [← hi]; exact hv.fresh
  · rw [← hi]; exact hv.issued
  · rcases h.baseline with ⟨-, -, -, -, htok, -⟩ | ⟨-, -, s₀, hs₀, -, htok, -⟩
    · exact hne (he.trans htok)
    · exact hold s₀ hs₀ (he.trans htok)

theorem Refused.clear {w u : World Γ} (h : Refused R w u) (hs : w.files .session = none) (kept : FileName → Bool) :
    Refused R w (u.clearSession kept) :=
  ⟨h.within.trans (within_clearSession fun _ hf => hf), h.begun, by simp [h.session, hs], fun hne => absurd hs hne, h.token⟩

/-- Arming a session: a failure leaves no session behind that was not there before. -/
theorem armSession_spec {s : ConfirmSession} {first : Bool} {w₀ : World Γ} (h : Opened s first w₀ w) :
    wp (R.withCrash fun w' => Refused R w₀ w' ∨ ∃ next, Started R next w₀ w') (armSession s first) (fun r w' =>
      match r with
      | .ok next => Started R next w₀ w'
      | .error _ => Refused R w₀ w') w := by
  refine wp_bind.2 (wp_attempt.2 (wp_mono (R := R.withCrash (Rearming R s w)) (fun _ _ _ h => h) ?_ ?_ (rearmConfirmSession_spec s)))
  · rintro w' (hw | ⟨next, hw⟩)
    · exact Or.inl (h.refused hw)
    · exact Or.inr ⟨next, h.started hw⟩
  rintro (e | next) w' ⟨-, hw⟩
  · have hr : Refused R w₀ w' := h.refused hw
    have hfail : ∀ {w'}, Refused R w₀ w' → wp (R.withCrash fun w' => Refused R w₀ w' ∨ ∃ next, Started R next w₀ w')
        (fail (S := sig Γ) (α := ConfirmSession) (.confirmUnavailable e.text)) (fun r w' =>
          match r with
          | .ok next => Started R next w₀ w'
          | .error _ => Refused R w₀ w') w' := fun hr => wp_of_fail hr
    refine wp_bind.2 (wp_ite (fun hf => ?_) fun _ => wp_of_ret (hfail hr))
    have hs : w₀.files .session = none := by
      rcases h.baseline with ⟨-, hnone, -⟩ | ⟨hff, -⟩
      · exact hnone
      · simp [hff] at hf
    refine wp_ignore (wp_run (fun ch _ _ => Or.inl (hr.clear hs _)) (fun ch _ _ => ?_) fun ch _ => hfail (hr.clear hs _))
    rw [if_neg (by simp [Cmd.mayTake])]
    exact hfail (hr.clear hs _)
  · exact wp_of_ret (h.started hw)

/-- Where `armApply` may stop. -/
def ArmingApply (R : Rules (host Γ)) (w w' : World Γ) : Prop := Refused R w w' ∨ ∃ next, Started R next w w'

/-- What an Apply does up to the point where its timer is recorded. It fails only when it is refused. -/
theorem armApply_spec (hash : String) (timeout : Int) :
    wp (R.withCrash (ArmingApply R w)) (armApply hash timeout) (fun r w' =>
      match r with
      | .ok p => Started R p.1 w w' ∧ (p.2 = true ↔ w.files .session = none)
      | .error _ => Refused R w w') w := by
  refine wp_ite (fun _ => wp_of_fail (.refl w)) fun _ => ?_
  have hlock : Stops R (Refused R w) acquireApplyLock (fun _ w' => w = w') w := stops_acquireApplyLock (.refl w) rfl
  refine wp_bind.2 (wp_mono (R := R.withCrash (Refused R w)) (fun _ _ _ h => h) (fun _ h => Or.inl h) ?_ hlock.wp)
  rintro (e | ⟨⟩) w₁ ⟨hr, hP⟩
  · exact hr
  obtain rfl : w = w₁ := hP () rfl
  refine wp_bind.2 (wp_mono (R := R.withCrash (Refused R w)) (fun _ _ _ h => h) (fun _ h => Or.inl h) ?_ (openSession_spec hash).wp)
  rintro (e | p) u ⟨hr, hP⟩
  · exact hr
  have ho := hP p rfl
  have hfirst : p.2 = true ↔ w.files .session = none := by
    rcases ho.baseline with ⟨hp, hnone, -⟩ | ⟨hp, -, s₀, hs₀, -⟩
    · simp [hp, hnone]
    · simp [hp, hs₀.ne_none]
  have ho' : Opened { p.1 with timeoutSeconds := timeout } p.2 w u := ⟨ho.within, ho.session, ho.phase, ho.baseline⟩
  refine wp_bind.2 (wp_post ?_ (armSession_spec ho'))
  rintro (e | next) v hv
  · exact hv
  · exact wp_of_ret ⟨hv, hfirst⟩

theorem apply_spec {K : (FileName → Bool) → Prop} (hK : Clears R K) (hash : String) (timeout : Int) :
    Stops R (Apply R K w) (reloadWithConfirmIfMatch hash timeout) (fun _ _ => True) w := by
  have hrun : ∀ {s v}, Started R s w v → ∀ {first : Bool}, (first = true ↔ w.files .session = none) →
      Stops R (Apply R K w) ((onFirst first clearLastRevert).bind fun _ => applyInSession s) (fun _ _ => True) v := by
    intro s v hv first hfirst
    have hin : ∀ {u}, Forgetting v u → (w.files .session ≠ none → u = v) → ∀ {w'}, InSession R K s u w' → Apply R K w w' :=
      fun hu hne _ hw => Or.inr ⟨s, v, _, hv, hu, hne, hw⟩
    have hcall : ∀ {u}, Forgetting v u → (w.files .session ≠ none → u = v) →
        Stops R (Apply R K w) (applyInSession s) (fun _ _ => True) u := fun hu hne =>
      (applyInSession_spec hK s).mono (fun _ h => hin hu hne h) fun _ _ _ _ => trivial
    cases first with
    | true =>
      have hnone : w.files .session = none := hfirst.mp rfl
      have hne : ∀ {u}, w.files .session ≠ none → u = v := fun h => absurd hnone h
      exact .call (f := fun _ => applyInSession s) clearLastRevert_spec (fun _ h => hin h hne (Or.inl (.refl _))) fun _ u h _ => hcall h hne
    | false =>
      exact .bind (P := fun _ w' => w' = v) (.ret (hin (.refl v) (fun _ => rfl) (Or.inl (.refl v))) rfl)
        fun _ _ _ h => by subst h; exact hcall (.refl _) fun _ => rfl
  refine .of_wp (wp_bind.2 (wp_mono (R := R.withCrash (ArmingApply R w)) (fun _ _ _ h => h) ?_ ?_ (armApply_spec hash timeout)))
  · rintro w' (h | ⟨s, h⟩)
    · exact Or.inl h
    · exact Or.inr ⟨s, w', w', h, .refl w', fun _ => rfl, Or.inl (.refl w')⟩
  · rintro (e | p) v hv
    · exact ⟨Or.inl hv, nofun⟩
    · exact (hrun hv.1 hv.2).wp

/-! ## The other operations on a session -/

/-- Where a confirm may stop. -/
structure Confirming (K : (FileName → Bool) → Prop) (w w' : World Γ) : Prop where
  within : refusesE.Within w w'
  begun : w'.begun = w.begun
  issued : w'.issued = w.issued
  outcome : w' = w ∨ ∃ s kept, OnRecord w s ∧ s.phase = .active ∧ K kept ∧ w'.files = (w.clearSession kept).files ∧
    (w'.timers = w.timers ∨ w'.timers = w.timers.filter (· ≠ s.token) ∧ w'.files .session = none)

theorem confirmApply_spec {K : (FileName → Bool) → Prop} (hK : Clears R K) :
    Stops R (Confirming K w) confirmApply (fun _ w' => w'.files .session = none ∧ w.files .session ≠ none) w := by
  have h₀ : Confirming K w w := ⟨.refl w, rfl, rfl, Or.inl rfl⟩
  refine .bind (P := fun _ w' => w = w') (stops_acquireApplyLock h₀ rfl) fun _ _ _ h => ?_
  subst h
  refine .bind (P := fun r w' => w = w' ∧ ∀ s, r = some s → OnRecord w s) (stops_readConfirmSession h₀ (fun _ => ⟨rfl, nofun⟩)
    fun s h => ⟨rfl, fun s' hs' => by cases hs'; exact h⟩) fun r _ _ h => ?_
  obtain ⟨rfl, hs⟩ := h
  cases r with
  | none => exact .fail h₀
  | some s =>
  have hs := hs s rfl
  refine .ite (fun _ => .fail h₀) fun hphase => ?_
  have hphase := not_not.mp hphase
  have hclear : ∀ {kept}, K kept → Confirming K w (w.clearSession kept) := fun hk =>
    ⟨within_clearSession fun _ hf => hf, rfl, rfl, Or.inr ⟨s, _, hs, hphase, hk, rfl, Or.inl rfl⟩⟩
  refine .call (stops_wrapErr (removeSessionDir_spec hK)) (fun w' h => ?_) fun _ w₁ _ h => ?_
  · obtain ⟨kept, hk, rfl⟩ := h
    exact hclear hk
  -- The session is over. What is left is to stop its timer.
  have h₁ : Confirming K w w₁ := by rw [h]; exact hclear hK.none
  have hnone : w₁.files .session = none := by rw [h]; simp [FileName.inSession]
  have h₂ : Confirming K w { w₁ with timers := w₁.timers.filter (· ≠ s.token) } := by
    subst h
    exact ⟨(within_clearSession fun _ hf => hf).trans (within_of_timers trivial rfl rfl rfl rfl), rfl, rfl,
      Or.inr ⟨s, _, hs, hphase, hK.none, rfl, Or.inr ⟨rfl, by simp [FileName.inSession]⟩⟩⟩
  refine .call (U := fun (w' : World Γ) => Confirming K w w' ∧ w'.files .session = none) (P := fun _ _ => True)
    (.of_wp (wp_post (fun _ _ h => ⟨h.2, fun _ _ => trivial⟩) (wp_stopRevertTimer ⟨h₁, hnone⟩ ⟨h₂, hnone⟩)))
    (fun _ h => h.1) fun _ v hv _ => ?_
  refine (stops_frame (E := readsE) (uses_emitConfirmEvent _)).mono (fun v' hv' => ?_) fun _ v' hv' _ =>
    ⟨(hv'.files _ id).trans hv.2, hs.ne_none⟩
  have hf : v'.files = v.files := funext fun f => hv'.files f id
  refine ⟨hv.1.within.trans (hv'.mono readsE_le), (hv'.begun id).trans hv.1.begun, (hv'.issued id).trans hv.1.issued, ?_⟩
  rcases hv.1.outcome with rfl | ⟨s', kept, h1, h2, h3, h4, h5⟩
  · exact absurd hv.2 hs.ne_none
  · exact Or.inr ⟨s', kept, h1, h2, h3, hf.trans h4, by rw [hv'.timers id, hf]; exact h5⟩

/-- Where a revert may stop. A token that isn't on record reverts nothing. -/
def Revert (K : (FileName → Bool) → Prop) (reason : RevertReason) (token : String) (w w' : World Γ) : Prop :=
  w' = w ∨ ∃ s, OnRecord w s ∧ (token = "" ∨ token = s.token) ∧ Rollback K s reason true w w'

theorem acquireWithRetries_spec : ∀ (n : Nat) {w : World Γ}, Stops R (fun w' => w' = w) (acquireWithRetries n) (fun _ w' => w = w') w
  | 0, _ => stops_acquireApplyLock rfl rfl
  | n + 1, w => by
    have hlock : Stops R (fun w' => w' = w) acquireApplyLock (fun _ _ => True) w := stops_acquireApplyLock rfl trivial
    refine .bind hlock.attempt fun r _ h _ => ?_
    subst h
    cases r with
    | ok _ => exact .ret rfl rfl
    | error _ => exact acquireWithRetries_spec n

theorem revertApply_spec {K : (FileName → Bool) → Prop} (hK : Clears R K) (reason : RevertReason) (token : String) :
    Stops R (Revert K reason token w) (revertApply reason token)
      (fun _ w' => ∃ s, OnRecord w s ∧ RolledBack K s reason true w w') w := by
  refine .call (acquireWithRetries_spec _) (fun _ h => Or.inl h) fun _ _ _ h => ?_
  subst h
  refine .bind (P := fun r w' => w = w' ∧ ∀ s, r = some s → OnRecord w s) (stops_readConfirmSession (Or.inl rfl)
    (fun _ => ⟨rfl, nofun⟩) fun s h => ⟨rfl, fun s' hs' => by cases hs'; exact h⟩) fun r _ _ h => ?_
  obtain ⟨rfl, hs⟩ := h
  cases r with
  | none => exact .fail (Or.inl rfl)
  | some s =>
  have hs := hs s rfl
  refine .ite (fun _ => .fail (Or.inl rfl)) fun htok => ?_
  have htok : token = "" ∨ token = s.token := by
    by_cases ht : token = ""
    · exact Or.inl ht
    · exact Or.inr (not_not.mp fun h => htok ⟨ht, h⟩)
  exact (rollback_spec hK s reason true).mono (fun _ h => Or.inr ⟨s, hs, htok, h⟩) fun _ _ _ h => ⟨s, hs, h⟩

/-! ## Sessions that outlived their timer -/

theorem sessionOutlived_spec (s : ConfirmSession) : Stops R (fun w' => w' = w) (sessionOutlived s) (fun _ w' => w = w') w := by
  refine .ite (fun _ => ?_) fun _ => .ret rfl rfl
  refine .bind (P := fun _ w' => w = w') (.bind (P := fun _ w' => w = w') (stops_currentBootID rfl fun _ _ => rfl) ?_) ?_
  · rintro boot _ - rfl
    refine .ite (fun _ => .ret rfl rfl) fun _ => ?_
    refine .bind (P := fun _ w' => w = w') (stops_attempt_quiet (fun _ => rfl) (fun _ => rfl) rfl (fun _ _ _ => rfl) fun _ => rfl) ?_
    rintro r _ - rfl
    cases r with
    | ok _ => exact .ret rfl rfl
    | error _ => exact .ret rfl rfl
  · rintro r _ - rfl
    exact .ret rfl rfl

/-- Where a recovery may stop. -/
def Recover (K : (FileName → Bool) → Prop) (w w' : World Γ) : Prop :=
  w' = w ∨ ∃ s, OnRecord w s ∧ Rollback K s .interrupted false w w'

/-- A one-way reload goes on when there is no session, or when the session was rolled back. -/
theorem checkOneWayReload_spec {K : (FileName → Bool) → Prop} (hK : Clears R K) :
    Stops R (Recover K w) checkOneWayReload
      (fun _ w' => w.files .session = none ∧ w = w' ∨ ∃ s, OnRecord w s ∧ RolledBack K s .interrupted false w w') w := by
  refine .bind (P := fun r w' => w = w' ∧ (r = none → w.files .session = none) ∧ ∀ s, r = some s → OnRecord w s)
    (stops_readConfirmSession (Or.inl rfl) (fun h => ⟨rfl, fun _ => h, nofun⟩)
      fun s h => ⟨rfl, nofun, fun s' hs' => by cases hs'; exact h⟩) fun r _ _ h => ?_
  obtain ⟨rfl, hnone, hs⟩ := h
  cases r with
  | none => exact .ret (Or.inl rfl) (Or.inl ⟨hnone rfl, rfl⟩)
  | some s =>
  have hs := hs s rfl
  refine .call (sessionOutlived_spec s) (fun _ h => Or.inl h) fun b _ _ h => ?_
  subst h
  refine .ite (fun _ => ?_) fun _ => .fail (Or.inl rfl)
  exact (rollback_spec hK s .interrupted false).mono (fun _ h => Or.inr ⟨s, hs, h⟩) fun _ _ _ h => Or.inr ⟨s, hs, h⟩

theorem recoverConfirmSession_spec {K : (FileName → Bool) → Prop} (hK : Clears R K) :
    Stops R (Recover K w) recoverConfirmSession (fun _ _ => True) w := by
  have hread : Stops R (Recover K w) readConfirmSession (fun r w' => w = w' ∧ ∀ s, r = some s → OnRecord w s) w :=
    stops_readConfirmSession (Or.inl rfl) (fun _ => ⟨rfl, nofun⟩) fun s h => ⟨rfl, fun s' hs' => by cases hs'; exact h⟩
  refine .bind hread fun r _ _ h => ?_
  obtain ⟨rfl, -⟩ := h
  cases r with
  | none => exact .ret (Or.inl rfl) trivial
  | some _ =>
  refine .bind (P := fun _ w' => w = w') (stops_acquireApplyLock (Or.inl rfl) rfl) fun _ _ _ h => ?_
  subst h
  refine .bind hread fun r _ _ h => ?_
  obtain ⟨rfl, hs⟩ := h
  cases r with
  | none => exact .ret (Or.inl rfl) trivial
  | some s =>
  have hs := hs s rfl
  refine .call (sessionOutlived_spec s) (fun _ h => Or.inl h) fun b _ _ h => ?_
  subst h
  refine .ite (fun _ => ?_) fun _ => .ret (Or.inl rfl) trivial
  exact (rollback_spec hK s .interrupted false).mono (fun _ h => Or.inr ⟨s, hs, h⟩) fun _ _ _ _ => trivial

end EvuProxy

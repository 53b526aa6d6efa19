import EvuProxy.Api.Clients

/-!
# What each handler keeps

One specification for each program that a thread runs: what its answer and its trail say, under the terms of all threads.
-/

namespace EvuProxy

open Go Fault Fault.Prog

variable {Γ : Ctx} {ι : Type}

/-! ## Alone under the lock -/

theorem readFile_done {f : FileName} {ch : Choice Γ} {w w' : World Γ} {r : Except Err (Option Γ.Bytes)}
    (h : hostStep (.readFile f) ch w = .done r w') : w' = w ∧ (r = .ok (w.files f) ∨ ∃ m, r = .error (.sys m)) := by
  unfold hostStep at h
  cases hf : ch.fate with
  | ok =>
    rw [hf] at h
    obtain ⟨rfl, rfl⟩ := Outcome.done.inj h
    exact ⟨rfl, .inl rfl⟩
  | fail =>
    rw [hf] at h
    obtain ⟨rfl, rfl⟩ := Outcome.done.inj h
    refine ⟨?_, .inr ⟨_, rfl⟩⟩
    simp [Cmd.mayTake, broken]
  | kill =>
    rw [hf] at h
    cases h

theorem readFile_state {f : FileName} (ch : Choice Γ) (w : World Γ) : (hostStep (.readFile f) ch w).state = w := by
  unfold hostStep
  cases ch.fate <;> simp [Cmd.infallible, Cmd.mayTake, broken, effect, Outcome.state]

theorem writeFile_done {f : FileName} {b : Γ.Bytes} {ch : Choice Γ} {w w' : World Γ} {r : Except Err Unit}
    (h : hostStep (.writeFile f b) ch w = .done r w') : (r = .ok () ∧ w' = w.set f (some b)) ∨ ∃ m, r = .error (.sys m) ∧ w' = w := by
  unfold hostStep at h
  cases hf : ch.fate with
  | ok =>
    rw [hf] at h
    obtain ⟨rfl, rfl⟩ := Outcome.done.inj h
    exact .inl ⟨rfl, rfl⟩
  | fail =>
    rw [hf] at h
    obtain ⟨rfl, rfl⟩ := Outcome.done.inj h
    refine .inr ⟨_, rfl, ?_⟩
    simp [Cmd.mayTake, broken]
  | kill =>
    rw [hf] at h
    cases h

/-- The commands of thread `i` while it holds the lock. -/
def aloneRules (allows : ι → ThreadCmd (Cmd Γ) Note → LockState (watch Γ) ι → Prop) (i : ι) : Rules (watch Γ).alone where
  allows c _ st := ∃ s : LockState (watch Γ) ι, s.holder = some i ∧ (s.base, s.trail i) = st ∧ allows i (.call c) s
  crash _ := True

variable {allows : ι → ThreadCmd (Cmd Γ) Note → LockState (watch Γ) ι → Prop} {P : ι → Prop} {i : ι} {st : World Γ × Trail Γ}

theorem wp_aloneCall {c : Cmd Γ} {Q : Except Err (c.Ans Γ) → World Γ × Trail Γ → Prop}
    (h : ∀ ch r w', (aloneRules allows i).allows c ch st → hostStep c ch st.1 = .done r w' → Q r (w', Trail.saw c r st.1 st.2)) :
    wp (aloneRules allows i) c.run Q st := by
  refine wp_perform.2 fun ch hch => ?_
  dsimp only [Watch.alone]
  cases hstep : hostStep c ch st.1 with
  | done r w' => exact h ch r w' hch hstep
  | killed w' => trivial

/-- The check leaves everything as it is, and where it passes the file is one of those asked for. -/
theorem wp_checkRevision {revs : Option (List String)} :
    wp (aloneRules allows i) (checkRevision (Γ := Γ) revs) (fun r st' => st'.1 = st.1 ∧ st'.2.log = st.2.log ∧ (revs = none → st' = st) ∧
      (r = .ok () → ∀ rs, revs = some rs → ∃ b, st.1.files .config = some b ∧ Γ.sha256 b ∈ rs)) st := by
  cases revs with
  | none => exact wp_of_ret ⟨rfl, rfl, fun _ => rfl, fun _ _ h => by cases h⟩
  | some rs =>
    refine wp_bind.2 (wp_aloneCall fun ch r w' _ hstep => ?_)
    obtain ⟨rfl, hr⟩ := readFile_done hstep
    have hlog : (Trail.saw (.readFile .config) r st.1 st.2).log = st.2.log := by
      unfold Trail.saw
      dsimp only
      split <;> rfl
    rcases hr with rfl | ⟨m, rfl⟩
    · cases hb : st.1.files .config with
      | none => exact wp_of_fail ⟨rfl, hlog, nofun, nofun⟩
      | some b =>
        refine wp_ite (fun hmem => wp_of_ret ⟨rfl, hlog, nofun, fun _ rs' hrs => ⟨b, rfl, ?_⟩⟩) fun _ => wp_of_fail ⟨rfl, hlog, nofun, nofun⟩
        exact Option.some.inj hrs ▸ hmem
    · exact ⟨rfl, hlog, nofun, nofun⟩

/-- What a save leaves on the trail: nothing where the revision was stale, and one write where it went through, of a file that was asked
for, or of the one that was read before where none was asked for. -/
structure SaveResult (P : Prop) (c : Config) (revs : Option (List String)) (r : Except Err String) (t t' : Trail Γ) : Prop where
  stale : r = .error .configRevisionMismatch → t'.log = t.log
  saved : ∀ v, r = .ok v → ∃ old new, t'.log = t.log ++ [.wrote old new] ∧ Γ.marshalConfig c.normalize = .ok new ∧
    (∀ rs, revs = some rs → ∃ b, old = some b ∧ Γ.sha256 b ∈ rs) ∧ (P → revs = none → ∀ b, t.seen = some b → old = b)

/-- `SaveConfigYAMLIfMatch`, once it has the lock. -/
def saveLocked (c : Config) (revs : Option (List String)) : App Γ String := do
  checkRevision revs
  check (c.normalize.validate.mapError ValidationError.withCode)
  match Γ.marshalConfig c.normalize with
  | .error msg => fail (.wrap "marshal yaml" (.sys msg))
  | .ok out => do
    writeFile .config out
    configFileSHA256

theorem saveConfigYAMLIfMatch_eq (c : Config) (revs : Option (List String)) :
    saveConfigYAMLIfMatch (Γ := Γ) c revs = acquireApplyLock.bind fun _ => saveLocked c revs := rfl

theorem wp_configFileSHA256 {Q : Except Err String → World Γ × Trail Γ → Prop}
    (h : ∀ r st', st'.2.log = st.2.log → r ≠ .error .configRevisionMismatch → Q r st') :
    wp (aloneRules allows i) (configFileSHA256 (Γ := Γ)) Q st := by
  refine wp_bind.2 (wp_bind.2 (wp_aloneCall fun ch r w' _ hstep => ?_))
  obtain ⟨rfl, hr⟩ := readFile_done hstep
  have hlog : (Trail.saw (.readFile .config) r st.1 st.2).log = st.2.log := by
    unfold Trail.saw
    dsimp only
    split <;> rfl
  rcases hr with rfl | ⟨m, rfl⟩
  · cases hb : st.1.files .config with
    | none => exact wp_of_fail (h _ _ hlog nofun)
    | some b => exact wp_of_ret (wp_of_ret (h _ _ hlog nofun))
  · exact h _ _ hlog nofun

theorem wp_saveLocked {W : Prop} (hwrite : W → ∀ c s, allows i c s → SameWrite i c s) (c : Config) (revs : Option (List String)) :
    wp (aloneRules allows i) (saveLocked (Γ := Γ) c revs) (fun r st' => SaveResult W c revs r st.2 st'.2) st := by
  refine wp_bind.2 (wp_post (fun r st₁ h => ?_) wp_checkRevision)
  obtain ⟨hsame, hlog, hnone, hmatch⟩ := h
  cases r with
  | error e => exact ⟨fun _ => hlog, nofun⟩
  | ok u =>
  refine wp_bind.2 ?_
  rw [check, wp_ofExcept]
  cases c.normalize.validate with
  | error e => exact ⟨fun _ => hlog, nofun⟩
  | ok u =>
  show wp _ (match Γ.marshalConfig c.normalize with | .error msg => _ | .ok out => _) _ _
  cases hout : Γ.marshalConfig c.normalize with
  | error msg => exact wp_of_fail ⟨fun _ => hlog, nofun⟩
  | ok out =>
  refine wp_bind.2 (wp_aloneCall fun ch r w' hch hstep => ?_)
  rcases writeFile_done hstep with ⟨rfl, rfl⟩ | ⟨m, rfl, rfl⟩
  · refine wp_configFileSHA256 fun r st' hlog' hne => ⟨fun he => absurd he hne, fun v _ => ?_⟩
    refine ⟨st₁.1.files .config, out, ?_, hout, ?_, ?_⟩
    · rw [hlog', ← hlog]
      rfl
    · rw [hsame]
      exact hmatch rfl
    · intro hP hrevs b hseen
      obtain ⟨s, -, hs, hallows⟩ := hch
      rw [← hnone hrevs, ← hs] at hseen
      rw [← hs]
      exact hwrite hP _ _ hallows rfl b hseen
  · exact ⟨fun _ => by rw [← hlog]; rfl, nofun⟩

/-! ## Steps of a request -/

/-- Thread `i` does not hold the lock, and its trail shows no save beyond those in `s`. -/
structure Idle (i : ι) (s s' : LockState (watch Γ) ι) : Prop where
  free : s'.holder ≠ some i
  log : (s'.trail i).log = (s.trail i).log

variable {s : LockState (watch Γ) ι}

theorem Idle.trans {s' s'' : LockState (watch Γ) ι} (h : Idle i s s') (h' : Idle i s' s'') : Idle i s s'' := ⟨h'.free, h'.log.trans h.log⟩

theorem Idle.rely {s' s'' : LockState (watch Γ) ι} (h : Idle i s s') (h' : Undisturbed i s' s'') : Idle i s s'' :=
  ⟨h'.free h.free, by rw [h'.trail, h.log]⟩

/-- What `handleConfigPut` answers, by the trail. -/
structure PutResult (c : Config) (ifMatch : List String) (i : ι) (r : Except Err String) (s s' : LockState (watch Γ) ι) : Prop where
  free : s'.holder ≠ some i
  stale : r = .error .configRevisionMismatch → (s'.trail i).log = (s.trail i).log
  saved : ∀ v, r = .ok v → ∃ old new, (s'.trail i).log = (s.trail i).log ++ [.wrote old new] ∧ Γ.marshalConfig c.normalize = .ok new ∧
    ∀ rs, parseIfMatch ifMatch = some rs → ∃ b, old = some b ∧ Γ.sha256 b ∈ rs

theorem PutResult.lost {c : Config} {ifMatch : List String} {e : Err} {s' : LockState (watch Γ) ι} (hfree : s'.holder ≠ some i)
    (he : e ≠ .configRevisionMismatch) : PutResult c ifMatch i (.error e) s s' :=
  ⟨hfree, fun h => absurd (Except.error.inj h) he, nofun⟩

section steps

variable [DecidableEq ι]

/-- The pact of all threads. -/
abbrev savingPact (allows : ι → ThreadCmd (Cmd Γ) Note → LockState (watch Γ) ι → Prop) (P : ι → Prop) : Pact (locked (watch Γ) ι) :=
  (savingTerms allows P).pact

theorem keeps_opens (hs : s.holder ≠ some i) : Keeps (savingPact allows P) i (note .opens)
    (fun r s' => r = .ok () ∧ Idle i s s' ∧ (s'.trail i).seen = none) s := by
  refine keeps_note (fun h => h) fun s' hfree htrail => ⟨rfl, ⟨hfree hs, ?_⟩, ?_⟩
  · rw [htrail]
    rfl
  · rw [htrail]
    rfl

theorem keeps_outside' (msg : String) (hs : s.holder ≠ some i) : Keeps (savingPact allows P) i (outside msg)
    (fun r s' => (s'.holder ≠ some i ∧ s'.trail i = s.trail i) ∧ ∀ e, r = .error e → e = .sys msg) s := by
  refine keeps_mapErr (keeps_outside fun r s' h => ⟨⟨h.free hs, h.trail⟩, fun e he => ?_⟩)
  cases r with
  | ok u => cases he
  | error e' => exact (Except.error.inj he).symm

/-- Reading config.yaml without the lock. -/
theorem keeps_readExisting (hs : s.holder ≠ some i) : Keeps (savingPact allows P) i (lift (readExisting (Γ := Γ) .config))
    (fun r s' => Idle i s s' ∧ ∀ b, r = .ok b → (s'.trail i).seen = some (some b) ∧
      ((∀ c s, allows i c s → SameRead i c s) → ∀ x, (s.trail i).seen = some x → x = some b)) s := by
  rw [readExisting, bind_eq, lift_bind]
  refine keeps_bind (P := fun r s' => Idle i s s' ∧ ∀ x, r = .ok x → (s'.trail i).seen = some x ∧
      ((∀ c s, allows i c s → SameRead i c s) → ∀ y, (s.trail i).seen = some y → y = x)) ?_ ?_ ?_
  · refine keeps_read rfl (readFile_state) fun s' hrel ch hch r hstep s₁ hs₁ => ?_
    have htrail : s₁.trail i = Trail.saw (.readFile .config) r s'.base (s.trail i) := by
      rw [hs₁.trail, ← hrel.trail]
      exact Function.update_self ..
    refine ⟨⟨hs₁.free (fun he => hrel.free hs he), ?_⟩, fun x hx => ?_⟩
    · rw [htrail]
      unfold Trail.saw
      dsimp only
      split <;> rfl
    obtain ⟨-, rfl | ⟨m, rfl⟩⟩ := readFile_done hstep
    · obtain rfl := Except.ok.inj hx
      refine ⟨?_, fun hread y hy => ?_⟩
      · rw [htrail]
        rfl
      · exact (hread _ _ hch rfl (hrel.free hs) y (hrel.trail ▸ hy)).symm
    · cases hx
  · rintro x s' ⟨hidle, hx⟩
    obtain ⟨hseen, hread⟩ := hx x rfl
    cases x with
    | none => exact keeps_fail fun s'' hs'' => ⟨hidle.rely hs'', nofun⟩
    | some b =>
      refine keeps_ret fun s'' hs'' => ⟨hidle.rely hs'', fun b' hb => ?_⟩
      obtain rfl := Except.ok.inj hb
      exact ⟨by rw [hs''.trail, hseen], hread⟩
  · rintro e s' ⟨hidle, -⟩ s'' hs''
    exact ⟨hidle.rely hs'', nofun⟩

theorem keeps_configFileSHA256 (hs : s.holder ≠ some i) : Keeps (savingPact allows P) i (lift (configFileSHA256 (Γ := Γ)))
    (fun r s' => Idle i s s' ∧ ∀ rev, r = .ok rev → ∃ b, rev = Γ.sha256 b ∧ (s'.trail i).seen = some (some b)) s := by
  have hlift : (lift (configFileSHA256 (Γ := Γ)) : Thread Γ String) = (lift (readExisting .config)).bind fun b => .ret (Γ.sha256 b) :=
    lift_bind _ _
  rw [hlift]
  refine keeps_bind (keeps_readExisting hs) ?_ ?_
  · rintro b s' ⟨hidle, hb⟩
    refine keeps_ret fun s'' hs'' => ⟨hidle.rely hs'', fun rev hrev => ⟨b, (Except.ok.inj hrev).symm, ?_⟩⟩
    rw [hs''.trail]
    exact (hb b rfl).1
  · rintro e s' ⟨hidle, -⟩ s'' hs''
    exact ⟨hidle.rely hs'', nofun⟩

theorem keeps_loadConfig (hs : s.holder ≠ some i) : Keeps (savingPact allows P) i (lift (loadConfig (Γ := Γ) .config))
    (fun r s' => Idle i s s' ∧ ∀ c, r = .ok c → ∃ b, parseConfig Γ b = .ok c ∧ (s'.trail i).seen = some (some b) ∧
      ((∀ c s, allows i c s → SameRead i c s) → ∀ x, (s.trail i).seen = some x → x = some b)) s := by
  have hlift : (lift (loadConfig (Γ := Γ) .config) : Thread Γ Config) =
      (lift (readExisting .config)).bind fun b => settled ((parseConfig Γ b).mapError Err.invalid) :=
    (lift_bind _ _).trans (congrArg (Prog.bind _) (funext fun b => lift_ofExcept _))
  rw [hlift]
  refine keeps_bind (keeps_readExisting hs) ?_ ?_
  · rintro b s' ⟨hidle, hb⟩
    refine keeps_ofExcept fun s'' hs'' => ⟨hidle.rely hs'', fun c hc => ?_⟩
    cases hparse : parseConfig Γ b with
    | error e =>
      rw [hparse] at hc
      cases hc
    | ok c' =>
      rw [hparse] at hc
      obtain rfl := Except.ok.inj hc
      refine ⟨b, hparse, ?_, (hb b rfl).2⟩
      rw [hs''.trail]
      exact (hb b rfl).1
  · rintro e s' ⟨hidle, -⟩ s'' hs''
    exact ⟨hidle.rely hs'', fun c hc => by cases hc⟩

/-- A copy of the config that was read from a file as it goes with its entity tag. -/
def Copy.Valid (Γ : Ctx) (copy : Copy) : Prop := ∃ b, copy.etag = etagOf (Γ.sha256 b) ∧ parseConfig Γ b = .ok copy.config

/-- `handleConfigGet` answers a valid copy where its two reads find the same. -/
theorem keeps_handleConfigGet (hread : P i → ∀ c s, allows i c s → SameRead i c s) (hs : s.holder ≠ some i) :
    Keeps (savingPact allows P) i handleConfigGet
      (fun r s' => Idle i s s' ∧ (∀ copy, r = .ok copy → P i → copy.Valid Γ) ∧ r ≠ .error .configRevisionMismatch) s := by
  refine keeps_bind (keeps_opens hs) (fun u s₁ h₁ => ?_) fun e s₁ h₁ => nomatch h₁.1
  obtain ⟨-, hidle₁, -⟩ := h₁
  have herr : ∀ (e : Err) (s' : LockState (watch Γ) ι), Idle i s s' → Idle i s s' ∧
      (∀ copy, Except.mapError (fun _ => Err.sys "could not read configuration") (.error e) = .ok copy → P i → Copy.Valid Γ copy) ∧
      Except.mapError (fun _ => Err.sys "could not read configuration") (.error e : Except Err Copy) ≠ .error .configRevisionMismatch := by
    intro e s' hidle
    refine ⟨hidle, fun copy h => ?_, fun h => ?_⟩
    · cases h
    · cases h
  refine keeps_mapErr (keeps_bind (keeps_configFileSHA256 hidle₁.free) ?_ ?_)
  · rintro rev s₂ ⟨hidle₂, hrev⟩
    obtain ⟨b, rfl, hseen⟩ := hrev rev rfl
    refine keeps_bind (keeps_loadConfig hidle₂.free) ?_ ?_
    · rintro c s₃ ⟨hidle₃, hc⟩
      obtain ⟨b', hparse, -, hsame⟩ := hc c rfl
      refine keeps_ret fun s₄ hs₄ => ⟨((hidle₁.trans hidle₂).trans hidle₃).rely hs₄, fun copy hcopy hP => ?_, fun h => by cases h⟩
      obtain rfl := Except.ok.inj hcopy
      exact ⟨b, rfl, Option.some.inj (hsame (hread hP) _ hseen) ▸ hparse⟩
    · rintro e s₃ ⟨hidle₃, -⟩ s₄ hs₄
      exact herr e s₄ (((hidle₁.trans hidle₂).trans hidle₃).rely hs₄)
  · rintro e s₂ ⟨hidle₂, -⟩ s₃ hs₃
    exact herr e s₃ ((hidle₁.trans hidle₂).rely hs₃)

/-! ## Saving -/

theorem keeps_acquireApplyLock : Keeps (savingPact allows P) i (lift (acquireApplyLock (Γ := Γ)))
    (fun r s' => (r = .ok () → s'.holder = some i) ∧ (∀ e, r = .error e → s'.holder ≠ some i ∧ e ≠ .configRevisionMismatch) ∧
      s'.trail i = s.trail i) s := by
  have hlift : (lift (acquireApplyLock (Γ := Γ)) : Thread Γ Unit) =
      onError (Err.wrap "acquire apply lock") (lift (Cmd.acquireApplyLock (Γ := Γ)).run) := lift_mapErr _ _
  rw [hlift]
  refine keeps_mapErr (keeps_lock rfl (fun a s' r b hheld htrail => ⟨fun _ => hheld, nofun, htrail⟩)
    fun e s' r b hfree htrail => ⟨nofun, fun e' he => ⟨hfree, ?_⟩, htrail⟩)
  obtain rfl := Except.error.inj he
  exact nofun

/-- A save as a request of its own. -/
theorem keeps_saveRequest {W : Prop} (hwrite : W → ∀ c s, allows i c s → SameWrite i c s) (c : Config) (revs : Option (List String)) :
    Keeps (savingPact allows P) i (request (saveConfigYAMLIfMatch (Γ := Γ) c revs))
      (fun r s' => s'.holder ≠ some i ∧ SaveResult W c revs r (s.trail i) (s'.trail i)) s := by
  refine keeps_request (P := fun r s' => SaveResult W c revs r (s.trail i) (s'.trail i)) ?_ fun r s' s'' h hfree htrail =>
    ⟨hfree, htrail.symm ▸ h⟩
  rw [saveConfigYAMLIfMatch_eq, lift_bind]
  refine keeps_bind keeps_acquireApplyLock ?_ ?_
  · rintro ⟨⟩ s₁ ⟨hheld, -, htrail⟩
    have halone := keeps_alone (T := savingTerms allows P) (R := aloneRules allows i)
      (fun _ _ s' hh hallows => ⟨s', hh, rfl, hallows⟩) (hheld rfl) (wp_saveLocked hwrite c revs)
    refine halone.post fun r s' h => ?_
    rw [htrail] at h
    exact h.2
  · rintro e s₁ ⟨-, herr, htrail⟩ s₂ hs₂
    have hsame : s₂.trail i = s.trail i := hs₂.trail.trans htrail
    rw [hsame]
    exact ⟨fun he => absurd (Except.error.inj he) (herr e rfl).2, nofun⟩

theorem keeps_handleConfigPut (hs : s.holder ≠ some i) (c : Config) (ifMatch : List String) :
    Keeps (savingPact allows P) i (handleConfigPut c ifMatch) (fun r s' => PutResult c ifMatch i r s s') s := by
  refine keeps_bind (keeps_opens hs) (fun u s₁ h₁ => ?_) fun e s₁ h₁ => nomatch h₁.1
  obtain ⟨-, hidle₁, -⟩ := h₁
  refine keeps_bind (keeps_outside' _ hidle₁.free) ?_ ?_
  · rintro u s₂ ⟨⟨hfree₂, htrail₂⟩, -⟩
    have hlog₂ : (s₂.trail i).log = (s.trail i).log := by rw [htrail₂, hidle₁.log]
    refine keeps_mapErr (keeps_bind (keeps_saveRequest False.elim c (parseIfMatch ifMatch)) ?_ ?_)
    · rintro v s₃ ⟨hfree₃, h₃⟩
      obtain ⟨old, new, hlog, hnew, hmatch, -⟩ := h₃.saved v rfl
      refine keeps_ret fun s₄ hs₄ => ⟨hs₄.free hfree₃, nofun, fun v' _ => ⟨old, new, ?_, hnew, hmatch⟩⟩
      rw [hs₄.trail, hlog, hlog₂]
    · rintro e s₃ ⟨hfree₃, h₃⟩ s₄ hs₄
      refine ⟨hs₄.free hfree₃, fun he => ?_, fun v h => by cases h⟩
      have hstale : e = .configRevisionMismatch := by
        have he' : putError e = .configRevisionMismatch := Except.error.inj he
        cases e <;> first | rfl | cases he'
      rw [hs₄.trail, h₃.stale (by rw [hstale]), hlog₂]
  · rintro e s₂ ⟨⟨hfree₂, -⟩, he⟩ s₃ hs₃
    exact .lost (hs₃.free hfree₂) (by rw [he e rfl]; exact nofun)

/-! ## In the browser -/

def noAnswer : Err := .sys "No answer from the EvuProxy API."

/-- A request over the network: what the handler keeps, or no answer. -/
theorem keeps_api {α : Type} {handler : Thread Γ α} {Q : Except Err α → LockState (watch Γ) ι → Prop} (hs : s.holder ≠ some i)
    (hh : ∀ s₁, s₁.holder ≠ some i → s₁.trail i = s.trail i → Keeps (savingPact allows P) i handler Q s₁)
    (hfree : ∀ r s', Q r s' → s'.holder ≠ some i)
    (hend : ∀ r s' s'', Q r s' → s''.holder ≠ some i → s''.trail i = s'.trail i → Q r s'' ∧ Q (.error noAnswer) s'')
    (hlost : ∀ s', s'.holder ≠ some i → s'.trail i = s.trail i → Q (.error noAnswer) s') :
    Keeps (savingPact allows P) i (api handler) Q s := by
  refine keeps_bind (keeps_outside' _ hs) ?_ ?_
  · rintro u s₁ ⟨⟨hfree₁, htrail₁⟩, -⟩
    refine keeps_bind (P := fun r s' => ∃ x, r = .ok x ∧ Q x s') (keeps_attempt ((hh s₁ hfree₁ htrail₁).post fun r s' h => ⟨r, rfl, h⟩))
      ?_ ?_
    · rintro r s₂ ⟨x, hx, hQ⟩
      obtain rfl := Except.ok.inj hx
      refine keeps_bind (keeps_outside' _ (hfree r s₂ hQ)) ?_ ?_
      · rintro u s₃ ⟨⟨hfree₃, htrail₃⟩, -⟩
        exact keeps_ofExcept fun s₄ hs₄ => (hend r s₂ s₄ hQ (hs₄.free hfree₃) (hs₄.trail.trans htrail₃)).1
      · rintro e s₃ ⟨⟨hfree₃, htrail₃⟩, he⟩ s₄ hs₄
        rw [he e rfl]
        exact (hend r s₂ s₄ hQ (hs₄.free hfree₃) (hs₄.trail.trans htrail₃)).2
    · rintro e s₂ ⟨x, hx, -⟩
      cases hx
  · rintro e s₁ ⟨⟨hfree₁, htrail₁⟩, he⟩ s₂ hs₂
    rw [he e rfl]
    exact hlost s₂ (hs₂.free hfree₁) (hs₂.trail.trans htrail₁)

/-- `GET /v1/config` from a tab. -/
theorem keeps_fetch (hread : P i → ∀ c s, allows i c s → SameRead i c s) (hs : s.holder ≠ some i) :
    Keeps (savingPact allows P) i (api handleConfigGet)
      (fun r s' => Idle i s s' ∧ (∀ copy, r = .ok copy → P i → copy.Valid Γ) ∧ r ≠ .error .configRevisionMismatch) s := by
  have hno : ∀ s', Idle i s s' → Idle i s s' ∧ (∀ copy, (.error noAnswer : Except Err Copy) = .ok copy → P i → copy.Valid Γ) ∧
      (.error noAnswer : Except Err Copy) ≠ .error .configRevisionMismatch := by
    refine fun s' h => ⟨h, fun copy hc => ?_, fun he => ?_⟩
    · cases hc
    · cases he
  refine keeps_api hs (fun s₁ hfree htrail => (keeps_handleConfigGet hread hfree).post fun r s' h => ?_) (fun r s' h => h.1.free) ?_ ?_
  · exact ⟨⟨h.1.free, by rw [h.1.log, htrail]⟩, h.2⟩
  · intro r s' s'' h hfree htrail
    have hidle : Idle i s s'' := ⟨hfree, by rw [htrail, h.1.log]⟩
    exact ⟨⟨hidle, h.2⟩, hno s'' hidle⟩
  · exact fun s' hfree htrail => hno s' ⟨hfree, by rw [htrail]⟩

/-- `PUT /v1/config` from a tab. -/
theorem keeps_send (hs : s.holder ≠ some i) (c : Config) (ifMatch : List String) :
    Keeps (savingPact allows P) i (api (handleConfigPut c ifMatch)) (fun r s' => PutResult c ifMatch i r s s') s := by
  refine keeps_api hs (fun s₁ hfree htrail => (keeps_handleConfigPut hfree c ifMatch).post fun r s' h => ?_) (fun r s' h => h.free) ?_
    fun s' hfree _ => .lost hfree nofun
  · exact ⟨h.free, fun he => by rw [h.stale he, htrail], fun v hv => by rw [← htrail]; exact h.saved v hv⟩
  · intro r s' s'' h hfree htrail
    exact ⟨⟨hfree, fun he => by rw [htrail, h.stale he], fun v hv => by rw [htrail]; exact h.saved v hv⟩, .lost hfree nofun⟩

/-- A copy that a tab may go on from. -/
def HeldCopy (Γ : Ctx) (P : Prop) (copy : Option Copy) : Prop := ∀ c, copy = some c → P → c.etag ≠ "" → c.Valid Γ

theorem keeps_putConfigAtRevision (hread : P i → ∀ c s, allows i c s → SameRead i c s) (hs : s.holder ≠ some i) (cfg : Config) (revision : String) :
    Keeps (savingPact allows P) i (putConfigAtRevision cfg revision) (fun r s' => s'.holder ≠ some i ∧
      (r = .error .configRevisionMismatch → (s'.trail i).log = (s.trail i).log) ∧ ∀ copy, r = .ok copy → HeldCopy Γ (P i) (some copy) ∧
        ∃ old new, (s'.trail i).log = (s.trail i).log ++ [.wrote old new] ∧ Γ.marshalConfig cfg.normalize = .ok new ∧
          (revision ≠ "" → ∀ rs, parseIfMatch [revision] = some rs → ∃ b, old = some b ∧ Γ.sha256 b ∈ rs)) s := by
  refine keeps_bind (keeps_send hs _ _) ?_ ?_
  · rintro v s₁ h₁
    obtain ⟨old, new, hlog, hnew, hmatch⟩ := h₁.saved v rfl
    have hmatch' : revision ≠ "" → ∀ rs, parseIfMatch [revision] = some rs → ∃ b, old = some b ∧ Γ.sha256 b ∈ rs := by
      intro hne rs hrs
      exact hmatch rs (by rw [if_neg hne]; exact hrs)
    refine keeps_bind (P := fun r s' => ∃ x, r = .ok x ∧ Idle i s₁ s' ∧ ∀ copy, x = .ok copy → P i → copy.Valid Γ)
      (keeps_attempt ((keeps_fetch hread h₁.free).post fun r s' h => ⟨r, rfl, h.1, h.2.1⟩)) ?_ ?_
    · rintro r s₂ ⟨x, hx, hidle, hvalid⟩
      obtain rfl := Except.ok.inj hx
      have hend : ∀ s', Undisturbed i s₂ s' → (s'.trail i).log = (s.trail i).log ++ [.wrote old new] := by
        intro s' hs'
        rw [hs'.trail, hidle.log, hlog]
      cases r with
      | ok copy =>
        refine keeps_ret fun s₃ hs₃ => ⟨hs₃.free hidle.free, fun he => (by cases he), fun copy' hc => ?_⟩
        obtain rfl := Except.ok.inj hc
        exact ⟨fun c hc hP _ => Option.some.inj hc ▸ hvalid copy rfl hP, old, new, hend s₃ hs₃, hnew, hmatch'⟩
      | error e =>
        refine keeps_ret fun s₃ hs₃ => ⟨hs₃.free hidle.free, fun he => (by cases he), fun copy' hc => ?_⟩
        obtain rfl := Except.ok.inj hc
        refine ⟨fun c hc _ hne => ?_, old, new, hend s₃ hs₃, hnew, hmatch'⟩
        obtain rfl := Option.some.inj hc
        exact absurd rfl hne
    · rintro e s₂ ⟨x, hx, -⟩
      cases hx
  · rintro e s₁ h₁ s₂ hs₂
    refine ⟨hs₂.free h₁.free, fun he => ?_, fun copy hc => (by cases hc)⟩
    rw [hs₂.trail, h₁.stale (congrArg Except.error (Except.error.inj he))]

/-- What holds of SHA-256 as it is used for revisions: no other file has the hash of a config, and a hash is written in hexadecimal. -/
structure Revisions (Γ : Ctx) : Prop where
  inj : ∀ a b c, parseConfig Γ a = .ok c → Γ.sha256 a = Γ.sha256 b → a = b
  hex : ∀ b, IsHex (Γ.sha256 b)

theorem etagOf_ne_empty (rev : String) : etagOf rev ≠ "" := by
  intro h
  have hlen := congrArg (fun s => s.toList.length) h
  simp [etagOf, String.toList_append] at hlen

/-- What a tab keeps when a save of it ends. -/
def SaveEnded (Γ : Ctx) (P : Prop) (i : ι) (r : Except Err (Option Copy × Except Err Unit)) (s' : LockState (watch Γ) ι) : Prop :=
  s'.holder ≠ some i ∧ ∀ v, r = .ok v → HeldCopy Γ P v.1

theorem keeps_ended {v : Option Copy × Except Err Unit} (hs : s.holder ≠ some i) (h : HeldCopy Γ (P i) v.1) :
    Keeps (savingPact allows P) i (.ret v) (SaveEnded Γ (P i) i) s :=
  keeps_ret fun _ hs' => ⟨hs'.free hs, fun _ hv => Except.ok.inj hv ▸ h⟩

theorem keeps_saveAttempts (hrev : P i → Revisions Γ) (hread : P i → ∀ c s, allows i c s → SameRead i c s) (edit : Edit) : ∀ (n : Nat) {base : Copy} {s : LockState (watch Γ) ι}
    {pre : List (Entry Γ)}, s.holder ≠ some i → (s.trail i).log = pre ++ [.began] → (P i → base.Valid Γ) →
      Keeps (savingPact allows P) i (saveAttempts edit n base) (SaveEnded Γ (P i) i) s
  | 0, base, s, pre, hs, _, hbase => keeps_ended hs fun c hc hP _ => Option.some.inj hc ▸ hbase hP
  | n + 1, base, s, pre, hs, hlog, hbase => by
    have hheld : HeldCopy Γ (P i) (some base) := fun c hc hP _ => Option.some.inj hc ▸ hbase hP
    unfold saveAttempts
    cases hedit : edit base.config with
    | error e => exact keeps_ended hs hheld
    | ok d =>
    cases d with
    | none => exact keeps_ended hs hheld
    | some draft =>
    refine keeps_bind (P := fun r (s' : LockState (watch Γ) ι) => ∃ x, r = .ok x ∧ s'.holder ≠ some i ∧
        (x = .error .configRevisionMismatch → (s'.trail i).log = (s.trail i).log) ∧ ∀ copy, x = .ok copy → HeldCopy Γ (P i) (some copy) ∧
          ∃ old new, (s'.trail i).log = (s.trail i).log ++ [.wrote old new] ∧ Γ.marshalConfig draft.normalize = .ok new ∧
            (base.etag ≠ "" → ∀ rs, parseIfMatch [base.etag] = some rs → ∃ b, old = some b ∧ Γ.sha256 b ∈ rs))
      (keeps_attempt ((keeps_putConfigAtRevision hread hs draft base.etag).post fun r s' h => ⟨r, rfl, h⟩)) ?_ ?_
    · rintro r s₁ ⟨x, hx, hfree, hstale, hok⟩
      obtain rfl := Except.ok.inj hx
      cases r with
      | ok copy =>
        obtain ⟨hcopy, old, new, hlog', hnew, hmatch⟩ := hok copy rfl
        -- The write replaced the file that the copy was read from.
        have hnote : (P i → Kept (s₁.trail i).log) → P i → Kept ((s₁.trail i).log ++ [.saved edit base.config draft]) := by
          intro hkept hP
          obtain ⟨b, hetag, hparse⟩ := hbase hP
          obtain ⟨b', rfl, hb'⟩ := hmatch (hetag ▸ etagOf_ne_empty _) _ (hetag ▸ parseIfMatch_etagOf ((hrev hP).hex b))
          obtain rfl := (hrev hP).inj b b' _ hparse (List.mem_singleton.mp hb').symm
          have hkept' := hkept hP
          have hsplit : (s₁.trail i).log = pre ++ [.began, .wrote (some b) new] := by rw [hlog', hlog, List.append_assoc]; rfl
          rw [hsplit] at hkept' ⊢
          exact hkept'.saved hedit hparse hnew
        refine keeps_bind (P := fun r (s' : LockState (watch Γ) ι) => r = .ok () ∧ s'.holder ≠ some i)
          (keeps_note hnote fun s' hfree' _ => ⟨rfl, hfree' hfree⟩) ?_ ?_
        · rintro u s₂ ⟨-, hfree₂⟩
          exact keeps_ended hfree₂ hcopy
        · rintro e s₂ ⟨he, -⟩
          cases he
      | error e =>
        by_cases he : e = .configRevisionMismatch
        · subst he
          refine keeps_bind (P := fun r s' => ∃ x, r = .ok x ∧ Idle i s₁ s' ∧ ∀ copy, x = .ok copy → P i → copy.Valid Γ)
            (keeps_attempt ((keeps_fetch hread hfree).post fun r s' h => ⟨r, rfl, h.1, h.2.1⟩)) ?_ ?_
          · rintro r s₂ ⟨x, hx, hidle, hvalid⟩
            obtain rfl := Except.ok.inj hx
            cases r with
            | ok fresh =>
              exact keeps_saveAttempts hrev hread edit n hidle.free (by rw [hidle.log, hstale rfl, hlog]) (hvalid fresh rfl)
            | error e => exact keeps_ended hidle.free hheld
          · rintro e s₂ ⟨x, hx, -⟩
            cases hx
        · have hend : Keeps (savingPact allows P) i (.ret (some base, .error e)) (SaveEnded Γ (P i) i) s₁ := keeps_ended hfree hheld
          cases e with
          | configRevisionMismatch => exact absurd rfl he
          | _ => exact hend
    · rintro e s₁ ⟨x, hx, -⟩
      cases hx

theorem keeps_began (hs : s.holder ≠ some i) : Keeps (savingPact allows P) i (note .began)
    (fun r s' => r = .ok () ∧ s'.holder ≠ some i ∧ s'.trail i = { s.trail i with log := (s.trail i).log ++ [.began] }) s :=
  keeps_note (fun h hP => (h hP).snoc fun _ _ _ he => by cases he) fun _ hfree htrail => ⟨rfl, hfree hs, htrail⟩

theorem keeps_saveConfigEdit (hrev : P i → Revisions Γ) (hread : P i → ∀ c s, allows i c s → SameRead i c s) (hs : s.holder ≠ some i) (edit : Edit) {lastConfig : Option Copy}
    (hlast : HeldCopy Γ (P i) lastConfig) : Keeps (savingPact allows P) i (saveConfigEdit edit lastConfig) (SaveEnded Γ (P i) i) s := by
  refine keeps_bind (keeps_began hs) ?_ ?_
  · rintro u s₁ ⟨-, hfree₁, htrail⟩
    have hlog : (s₁.trail i).log = (s.trail i).log ++ [.began] := by rw [htrail]
    cases hfilter : lastConfig.filter (·.etag ≠ "") with
    | some base =>
      obtain ⟨hbase, hne⟩ := Option.filter_eq_some_iff.mp hfilter
      exact keeps_saveAttempts hrev hread edit maxSaveAttempts hfree₁ hlog fun hP => hlast base hbase hP (of_decide_eq_true hne)
    | none =>
      refine keeps_bind (P := fun r (s' : LockState (watch Γ) ι) => ∃ x, r = .ok x ∧ Idle i s₁ s' ∧
          ∀ copy, x = .ok copy → P i → copy.Valid Γ)
        (keeps_attempt ((keeps_fetch hread hfree₁).post fun r s' h => ⟨r, rfl, h.1, h.2.1⟩)) ?_ ?_
      · rintro r s₂ ⟨x, hx, hidle, hvalid⟩
        obtain rfl := Except.ok.inj hx
        cases r with
        | ok base => exact keeps_saveAttempts hrev hread edit maxSaveAttempts hidle.free (by rw [hidle.log, hlog]) (hvalid base rfl)
        | error e => exact keeps_ended hidle.free hlast
      · rintro e s₂ ⟨x, hx, -⟩
        cases hx
  · rintro e s₁ ⟨he, -⟩
    cases he

theorem keeps_tab (hrev : P i → Revisions Γ) (hread : P i → ∀ c s, allows i c s → SameRead i c s) : ∀ (t : Tab) {lastConfig : Option Copy} {s : LockState (watch Γ) ι},
    s.holder ≠ some i → HeldCopy Γ (P i) lastConfig → Keeps (savingPact allows P) i (t.prog lastConfig) (fun _ _ => True) s
  | .closed, _, _, _, _ => keeps_ret fun _ _ => trivial
  | Tab.edit e next, lastConfig, s, hs, hlast => by
    refine keeps_bind (keeps_saveConfigEdit hrev hread hs e hlast) ?_ fun _ _ _ _ _ => trivial
    rintro v s₁ ⟨hfree, hheld⟩
    exact keeps_tab hrev hread (next v.1 v.2) hfree (hheld v rfl)
  | .refresh next, lastConfig, s, hs, hlast => by
    refine keeps_bind (P := fun r (s' : LockState (watch Γ) ι) => ∃ x, r = .ok x ∧ Idle i s s' ∧
        ∀ copy, x = .ok copy → P i → copy.Valid Γ)
      (keeps_attempt ((keeps_fetch hread hs).post fun r s' h => ⟨r, rfl, h.1, h.2.1⟩)) ?_ fun _ _ _ _ _ => trivial
    rintro r s₁ ⟨x, hx, hidle, hvalid⟩
    obtain rfl := Except.ok.inj hx
    cases r with
    | ok copy => exact keeps_tab hrev hread (next (some copy)) hidle.free fun c hc hP _ => Option.some.inj hc ▸ hvalid copy rfl hP
    | error e => exact keeps_tab hrev hread (next lastConfig) hidle.free hlast

/-! ## The other clients -/

/-- A request that does nothing before it has the lock keeps the pact whatever it does with it. -/
theorem keeps_lockedRequest {α : Type} {f : Unit → App Γ α} :
    Keeps (savingPact allows P) i (request ((acquireApplyLock (Γ := Γ)).bind f)) (fun _ _ => True) s := by
  refine keeps_request (P := fun _ _ => True) ?_ fun _ _ _ _ _ _ => trivial
  rw [lift_bind]
  refine keeps_bind keeps_acquireApplyLock ?_ fun _ _ _ _ _ => trivial
  rintro ⟨⟩ s₁ ⟨hheld, -, -⟩
  have hany : wp (aloneRules allows i) (f ()) (fun _ _ => True) (s₁.base, s₁.trail i) := wp_any fun _ => trivial
  exact (keeps_alone (T := savingTerms allows P) (R := aloneRules allows i) (fun _ _ s' hh hallows => ⟨s', hh, rfl, hallows⟩) (hheld rfl) hany).post
    fun _ _ _ => trivial

/-- A handler that saves nothing of its own: it may be refused, and then runs a request under the lock. -/
theorem keeps_mutating {α : Type} {f : Unit → App Γ α} {g : Err → Err} (hs : s.holder ≠ some i) :
    Keeps (savingPact allows P) i ((note .opens).bind fun _ => tryMutatingLock.bind fun _ => onError g (request (acquireApplyLock.bind f)))
      (fun _ _ => True) s := by
  refine keeps_bind (keeps_opens hs) ?_ fun _ _ _ _ _ => trivial
  rintro u s₁ ⟨-, hidle, -⟩
  refine keeps_bind (keeps_outside' _ hidle.free) ?_ fun _ _ _ _ _ => trivial
  rintro u s₂ ⟨⟨hfree, -⟩, -⟩
  exact keeps_mapErr keeps_lockedRequest

/-- A peer command: its write replaces the file that it loaded, if it finds that file there. -/
theorem keeps_peer (hwrite : P i → ∀ c s, allows i c s → SameWrite i c s) (hs : s.holder ≠ some i) (p : PeerCommand) :
    Keeps (savingPact allows P) i p.prog (fun _ _ => True) s := by
  refine keeps_bind (keeps_opens hs) ?_ fun _ _ _ _ _ => trivial
  rintro u s₁ ⟨-, hidle₁, -⟩
  refine keeps_bind (P := fun _ (s' : LockState (watch Γ) ι) => Idle i s s') (keeps_ofExcept fun _ hs' => hidle₁.rely hs') ?_
    fun _ _ _ _ _ => trivial
  intro u s₂ hidle₂
  refine keeps_bind (keeps_began hidle₂.free) ?_ fun _ _ _ _ _ => trivial
  rintro u s₃ ⟨-, hfree₃, htrail₃⟩
  refine keeps_bind (keeps_loadConfig hfree₃) ?_ fun _ _ _ _ _ => trivial
  rintro base s₄ ⟨hidle₄, hload⟩
  obtain ⟨b, hparse, hseen, -⟩ := hload base rfl
  have hlog₄ : (s₄.trail i).log = (s₂.trail i).log ++ [.began] := by rw [hidle₄.log, htrail₃]
  refine keeps_bind (keeps_outside' _ hidle₄.free) ?_ fun _ _ _ _ _ => trivial
  rintro u s₅ ⟨⟨hfree₅, htrail₅⟩, -⟩
  refine keeps_bind (P := fun r (s' : LockState (watch Γ) ι) => r = (p.change base).mapError Err.invalid ∧ s'.holder ≠ some i ∧
    s'.trail i = s₄.trail i) (keeps_ofExcept fun s' hs' => ⟨rfl, hs'.free hfree₅, hs'.trail.trans htrail₅⟩) ?_ fun _ _ _ _ _ => trivial
  rintro draft s₆ ⟨hchange, hfree₆, htrail₆⟩
  have hedit : p.edit base = .ok (some draft) := by
    unfold PeerCommand.edit
    rw [← hchange]
    rfl
  refine keeps_bind (keeps_saveRequest hwrite draft none) ?_ fun _ _ _ _ _ => trivial
  rintro v s₇ ⟨hfree₇, h₇⟩
  obtain ⟨old, new, hlog₇, hnew, -, hold⟩ := h₇.saved v rfl
  rw [htrail₆] at hlog₇ hold
  refine keeps_note (fun hkept hP => ?_) fun _ _ _ => trivial
  obtain rfl := hold hP rfl (some b) hseen
  have hsplit : (s₇.trail i).log = (s₂.trail i).log ++ [.began, .wrote (some b) new] := by rw [hlog₇, hlog₄, List.append_assoc]; rfl
  have hkept' := hkept hP
  show Kept ((s₇.trail i).log ++ [.saved p.edit base draft])
  rw [hsplit] at hkept' ⊢
  exact hkept'.saved hedit hparse hnew

/-- Every actor keeps the pact, if the condition on the commands is what its trail rests on. -/
theorem keeps_actor {actor : Actor} (htab : ∀ t, actor = .tab t → (P i → Revisions Γ) ∧ (P i → ∀ c s, allows i c s → SameRead i c s))
    (hpeer : ∀ p, actor = .peer p → P i → ∀ c s, allows i c s → SameWrite i c s) (hs : s.holder ≠ some i) :
    Keeps (savingPact allows P) i actor.prog (fun _ _ => True) s := by
  cases actor with
  | tab t => exact keeps_tab (htab t rfl).1 (htab t rfl).2 t hs fun c hc => by cases hc
  | put c ifMatch =>
    exact keeps_bind (keeps_handleConfigPut hs c ifMatch) (fun _ _ _ => keeps_ret fun _ _ => trivial) fun _ _ _ _ _ => trivial
  | discard => exact keeps_mutating hs
  | restorePrevious => exact keeps_mutating hs
  | peer p => exact keeps_peer (hpeer p rfl) hs p

end steps

end EvuProxy

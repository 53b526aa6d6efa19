import EvuProxy.Apply.Update
import EvuProxy.Fault.Stops

/-!
# What a command does

One rule for each command that the proofs step through, and the frame rule: a program changes nothing beyond what its commands may
change.
-/

namespace EvuProxy

open Fault Fault.Prog

variable {Γ : Ctx}

/-! ## Frames -/

/-- What a program may change: some files, the kernel, the timers. -/
structure Effects where
  files : FileName → Prop
  host : Prop := False
  timers : Prop := False

/-- A state that differs from another in nothing but what may change. -/
structure Effects.Within (E : Effects) (w w' : World Γ) : Prop where
  files : ∀ f, ¬E.files f → w'.files f = w.files f
  nft : ¬E.host → w'.nft = w.nft
  wg : ¬E.host → w'.wg = w.wg
  timers : ¬E.timers → w'.timers = w.timers
  issued : ¬E.timers → w'.issued = w.issued
  begun : ¬E.timers → w'.begun = w.begun
  boot : w'.boot = w.boot

theorem Effects.Within.refl {E : Effects} (w : World Γ) : E.Within w w :=
  ⟨fun _ _ => rfl, fun _ => rfl, fun _ => rfl, fun _ => rfl, fun _ => rfl, fun _ => rfl, rfl⟩

theorem Effects.Within.trans {E : Effects} {a b c : World Γ} (h : E.Within a b) (h' : E.Within b c) : E.Within a c where
  files f hf := (h'.files f hf).trans (h.files f hf)
  nft hn := (h'.nft hn).trans (h.nft hn)
  wg hn := (h'.wg hn).trans (h.wg hn)
  timers hn := (h'.timers hn).trans (h.timers hn)
  issued hn := (h'.issued hn).trans (h.issued hn)
  begun hn := (h'.begun hn).trans (h.begun hn)
  boot := h'.boot.trans h.boot

/-- The files a command may change. -/
def Cmd.writes : Cmd Γ → FileName → Prop
  | .writeFile g _, f => f = g
  | .remove g, f => f = g
  | .rename g h, f => f = g ∨ f = h
  | .removeSessionDir, f => f.inSession = true
  | _, _ => False

/-- The commands that change the kernel. -/
def Cmd.changesHost : Cmd Γ → Prop
  | .nftLoad _ => True
  | .wgSyncconf _ _ => True
  | .ipAddrReplace _ _ => True
  | .wgQuickUp _ _ => True
  | _ => False

/-- The commands that change the timers or the tokens. -/
def Cmd.changesTimers : Cmd Γ → Prop
  | .randomToken => True
  | .systemdRun _ _ => True
  | .systemctlStop _ => True
  | .rollbackBegins _ => True
  | _ => False

/-- A command that changes nothing beyond `E`. -/
structure Cmd.within (E : Effects) (c : Cmd Γ) : Prop where
  files : ∀ f, c.writes f → E.files f
  host : c.changesHost → E.host
  timers : c.changesTimers → E.timers

@[simp] theorem set_files (w : World Γ) (f g : FileName) (b : Option Γ.Bytes) :
    (w.set f b).files g = if g = f then b else w.files g := rfl

@[simp] theorem set_nft (w : World Γ) (f : FileName) (b : Option Γ.Bytes) : (w.set f b).nft = w.nft := rfl
@[simp] theorem set_wg (w : World Γ) (f : FileName) (b : Option Γ.Bytes) : (w.set f b).wg = w.wg := rfl
@[simp] theorem set_timers (w : World Γ) (f : FileName) (b : Option Γ.Bytes) : (w.set f b).timers = w.timers := rfl
@[simp] theorem set_issued (w : World Γ) (f : FileName) (b : Option Γ.Bytes) : (w.set f b).issued = w.issued := rfl
@[simp] theorem set_begun (w : World Γ) (f : FileName) (b : Option Γ.Bytes) : (w.set f b).begun = w.begun := rfl
@[simp] theorem set_boot (w : World Γ) (f : FileName) (b : Option Γ.Bytes) : (w.set f b).boot = w.boot := rfl

@[simp] theorem clearSession_files (w : World Γ) (kept : FileName → Bool) (g : FileName) :
    (w.clearSession kept).files g = if g.inSession ∧ ¬kept g then none else w.files g := rfl

theorem within_set {E : Effects} {w : World Γ} {f : FileName} {b : Option Γ.Bytes} (hf : E.files f) : E.Within w (w.set f b) where
  files g hg := by
    have hgf : g ≠ f := fun h => hg (h ▸ hf)
    simp [hgf]
  nft _ := rfl
  wg _ := rfl
  timers _ := rfl
  issued _ := rfl
  begun _ := rfl
  boot := rfl

theorem within_clearSession {E : Effects} {w : World Γ} {kept : FileName → Bool} (hE : ∀ f, f.inSession = true → E.files f) :
    E.Within w (w.clearSession kept) where
  files g hg := by
    have hgs : g.inSession ≠ true := fun h => hg (hE g h)
    simp [hgs]
  nft _ := rfl
  wg _ := rfl
  timers _ := rfl
  issued _ := rfl
  begun _ := rfl
  boot := rfl

/-- A state that differs in the kernel alone. -/
theorem within_of_host {E : Effects} {w w' : World Γ} (hE : E.host) (hf : w'.files = w.files) (ht : w'.timers = w.timers)
    (hi : w'.issued = w.issued) (hb : w'.begun = w.begun) (hboot : w'.boot = w.boot) : E.Within w w' where
  files _ _ := by rw [hf]
  nft h := absurd hE h
  wg h := absurd hE h
  timers _ := ht
  issued _ := hi
  begun _ := hb
  boot := hboot

/-- A state that differs in the timers alone. -/
theorem within_of_timers {E : Effects} {w w' : World Γ} (hE : E.timers) (hf : w'.files = w.files) (hn : w'.nft = w.nft)
    (hw : w'.wg = w.wg) (hboot : w'.boot = w.boot) : E.Within w w' where
  files _ _ := by rw [hf]
  nft _ := hn
  wg _ := hw
  timers h := absurd hE h
  issued h := absurd hE h
  begun h := absurd hE h
  boot := hboot

theorem within_effect {E : Effects} {w : World Γ} {ch : Choice Γ} {c : Cmd Γ} (h : c.within E) : E.Within w (effect w ch c) := by
  cases c
  case writeFile f b => exact within_set (h.files f rfl)
  case remove f => exact within_set (h.files f rfl)
  case rename f g =>
    simp only [effect]
    split
    · exact (within_set (h.files g (Or.inr rfl))).trans (within_set (h.files f (Or.inl rfl)))
    · exact .refl w
  case removeSessionDir => exact within_clearSession fun f hf => h.files f hf
  case randomToken => exact within_of_timers (h.timers trivial) rfl rfl rfl rfl
  case systemdRun t n => exact within_of_timers (h.timers trivial) rfl rfl rfl rfl
  case systemctlStop t =>
    simp only [effect]
    split
    · exact .refl w
    · exact within_of_timers (h.timers trivial) rfl rfl rfl rfl
  case rollbackBegins t => exact within_of_timers (h.timers trivial) rfl rfl rfl rfl
  case nftLoad f =>
    simp only [effect]
    split
    · exact within_of_host (h.host trivial) rfl rfl rfl rfl rfl
    · exact .refl w
  case wgSyncconf i f =>
    simp only [effect]
    split
    · exact within_of_host (h.host trivial) rfl rfl rfl rfl rfl
    · exact .refl w
  case ipAddrReplace a i => exact within_of_host (h.host trivial) rfl rfl rfl rfl rfl
  case wgQuickUp i f =>
    simp only [effect]
    split
    · exact within_of_host (h.host trivial) rfl rfl rfl rfl rfl
    · exact .refl w
  all_goals exact .refl w

theorem within_broken {E : Effects} {w : World Γ} {ch : Choice Γ} {c : Cmd Γ} (h : c.within E) : E.Within w (broken w ch c) := by
  cases c
  case removeSessionDir => exact within_clearSession fun f hf => h.files f hf
  all_goals exact .refl w

theorem within_step {E : Effects} {w : World Γ} {ch : Choice Γ} {c : Cmd Γ} (h : c.within E) :
    E.Within w (hostStep c ch w).state := by
  unfold hostStep
  cases ch.fate with
  | ok => exact within_effect h
  | kill => exact within_broken h
  | fail =>
    dsimp only
    split
    · exact within_effect h
    · dsimp only [Outcome.state]
      split
      · exact within_effect h
      · exact within_broken h

/-- The frame rule. -/
theorem wp_frame {R : Rules (host Γ)} {E : Effects} {α : Type} {p : App Γ α} (hp : p.Uses (Cmd.within E)) {w : World Γ} :
    wp (R.withCrash (E.Within w)) p (fun _ w' => E.Within w w') w :=
  wp_of_uses (M := host Γ) Effects.Within.refl Effects.Within.trans (fun _ hc _ _ _ => within_step hc) hp

/-- A call of which only its footprint and its result matter. -/
theorem wp_call {R : Rules (host Γ)} {E : Effects} {α : Type} {p : App Γ α} {Q : Except Err α → World Γ → Prop} {w : World Γ}
    (hp : p.Uses (Cmd.within E)) (hcrash : ∀ w', E.Within w w' → R.crash w')
    (hpost : ∀ r w', E.Within w w' → (∀ a, r = .ok a → p.CanReturn a) → Q r w') : wp R p Q w :=
  wp_mono (R := R.withCrash (E.Within w)) (fun _ _ _ h => h) hcrash (fun r w' h => hpost r w' h.1 h.2)
    (wp_canReturn (wp_frame hp))

/-! ## Commands -/

section Commands

variable {R : Rules (host Γ)} {w : World Γ}

/-- The process may be killed at this command. -/
def MayKill (R : Rules (host Γ)) (c : Cmd Γ) (w : World Γ) : Prop := ∃ ch : Choice Γ, R.allows c ch w ∧ ch.fate = .kill

/-- The command may fail. -/
def MayFail (R : Rules (host Γ)) (c : Cmd Γ) (w : World Γ) : Prop := ∃ ch : Choice Γ, R.allows c ch w ∧ ch.fate = .fail

theorem wp_run {c : Cmd Γ} {Q : Except Err (c.Ans Γ) → World Γ → Prop}
    (hkill : ∀ ch : Choice Γ, R.allows c ch w → ch.fate = .kill → R.crash (broken w ch c))
    (hfail : ∀ ch : Choice Γ, R.allows c ch w → ch.fate = .fail →
      Q (.error (.sys ch.msg)) (if ch.took ∧ c.mayTake then effect w { ch with took := false } c else broken w ch c))
    (hok : ∀ ch : Choice Γ, R.allows c ch w → Q (respond w ch c) (effect w ch c)) : wp R c.run Q w := by
  refine wp_perform.2 fun ch hch => ?_
  change Outcome.Sat _ _ (hostStep c ch w)
  unfold hostStep
  cases hf : ch.fate with
  | ok => exact hok ch hch
  | kill => exact hkill ch hch hf
  | fail =>
    dsimp only
    split
    · exact hok ch hch
    · exact hfail ch hch hf

theorem wp_readFile {f : FileName} {Q : Except Err (Option Γ.Bytes) → World Γ → Prop}
    (hkill : MayKill R (.readFile f) w → R.crash w) (hfail : MayFail R (.readFile f) w → ∀ e, Q (.error e) w)
    (hok : Q (.ok (w.files f)) w) : wp R (readFile f) Q w := by
  refine wp_run (fun ch hch hf => hkill ⟨ch, hch, hf⟩) (fun ch hch hf => ?_) fun ch _ => hok
  rw [if_neg (by simp [Cmd.mayTake])]
  exact hfail ⟨ch, hch, hf⟩ (.sys ch.msg)

theorem wp_readExisting {f : FileName} {Q : Except Err Γ.Bytes → World Γ → Prop}
    (hkill : MayKill R (.readFile f) w → R.crash w) (hfail : MayFail R (.readFile f) w ∨ w.files f = none → ∀ e, Q (.error e) w)
    (hok : ∀ b, w.files f = some b → Q (.ok b) w) : wp R (readExisting f) Q w := by
  refine wp_bind.2 (wp_readFile hkill (fun h e => hfail (Or.inl h) e) ?_)
  cases hb : w.files f with
  | none => exact wp_of_fail (hfail (Or.inr hb) _)
  | some b => exact wp_of_ret (hok b hb)

theorem wp_stat {f : FileName} {Q : Except Err (Option Γ.Bytes) → World Γ → Prop}
    (hkill : MayKill R (.stat f) w → R.crash w) (hfail : MayFail R (.stat f) w → ∀ e, Q (.error e) w)
    (hok : Q (.ok (w.files f)) w) : wp R (Cmd.stat f).run Q w := by
  refine wp_run (fun ch hch hf => hkill ⟨ch, hch, hf⟩) (fun ch hch hf => ?_) fun ch _ => hok
  rw [if_neg (by simp [Cmd.mayTake])]
  exact hfail ⟨ch, hch, hf⟩ (.sys ch.msg)

theorem wp_writeFile {f : FileName} {b : Γ.Bytes} {Q : Except Err Unit → World Γ → Prop}
    (hkill : MayKill R (.writeFile f b) w → R.crash w) (hfail : MayFail R (.writeFile f b) w → ∀ e, Q (.error e) w)
    (hok : Q (.ok ()) (w.set f (some b))) : wp R (writeFile f b) Q w := by
  refine wp_run (fun ch hch hf => hkill ⟨ch, hch, hf⟩) (fun ch hch hf => ?_) fun ch _ => hok
  rw [if_neg (by simp [Cmd.mayTake])]
  exact hfail ⟨ch, hch, hf⟩ (.sys ch.msg)

theorem wp_removeIfExists {f : FileName} {Q : Except Err Unit → World Γ → Prop}
    (hkill : MayKill R (.remove f) w → R.crash w) (hfail : MayFail R (.remove f) w → ∀ e, Q (.error e) w)
    (hok : Q (.ok ()) (w.set f none)) : wp R (removeIfExists f) Q w := by
  refine wp_bind.2 (wp_run (fun ch hch hf => hkill ⟨ch, hch, hf⟩) (fun ch hch hf => ?_) fun ch _ => wp_of_ret hok)
  rw [if_neg (by simp [Cmd.mayTake])]
  exact hfail ⟨ch, hch, hf⟩ (.sys ch.msg)

theorem wp_renameFile {f g : FileName} {Q : Except Err Bool → World Γ → Prop}
    (hkill : MayKill R (.rename f g) w → R.crash w) (hfail : MayFail R (.rename f g) w → ∀ e, Q (.error e) w)
    (hnone : w.files f = none → Q (.ok false) w)
    (hok : ∀ b, w.files f = some b → Q (.ok true) ((w.set g (some b)).set f none)) : wp R (renameFile f g) Q w := by
  refine wp_run (fun ch hch hf => hkill ⟨ch, hch, hf⟩) (fun ch hch hf => ?_) fun ch _ => ?_
  · rw [if_neg (by simp [Cmd.mayTake])]
    exact hfail ⟨ch, hch, hf⟩ (.sys ch.msg)
  · cases hb : w.files f with
    | none =>
      simp only [respond, effect, hb]
      exact hnone hb
    | some b =>
      simp only [respond, effect, hb]
      exact hok b hb

theorem wp_nftLoad {f : FileName} {b : Γ.Bytes} {Q : Except Err Unit → World Γ → Prop} (hb : w.files f = some b)
    (hkill : MayKill R (.nftLoad f) w → R.crash w) (hfail : MayFail R (.nftLoad f) w → ∀ e, Q (.error e) w)
    (htook : MayFail R (.nftLoad f) w → ∀ e, Q (.error e) { w with nft := b :: w.nft })
    (hok : Q (.ok ()) { w with nft := b :: w.nft }) : wp R (Cmd.nftLoad f).run Q w := by
  refine wp_run (fun ch hch hf => hkill ⟨ch, hch, hf⟩) (fun ch hch hf => ?_) fun ch _ => ?_
  · split
    · simp only [effect, hb]
      exact htook ⟨ch, hch, hf⟩ (.sys ch.msg)
    · exact hfail ⟨ch, hch, hf⟩ (.sys ch.msg)
  · simp only [respond, effect, hb, Option.isSome_some, if_true]
    exact hok

/-- A tool that gives WireGuard something: `x` is what it loads when it takes effect. -/
theorem wp_loadWG {c : Cmd Γ} {x : WGLoad Γ} {Q : Except Err (c.Ans Γ) → World Γ → Prop}
    (hx : ∀ ch, effect w ch c = { w with wg := x :: w.wg }) (hb : ∀ ch, broken w ch c = w)
    (hkill : R.crash w) (hfail : ∀ e, Q (.error e) w) (htook : ∀ e, Q (.error e) { w with wg := x :: w.wg })
    (hok : ∀ ch, Q (respond w ch c) { w with wg := x :: w.wg }) : wp R c.run Q w := by
  refine wp_run (fun ch _ _ => by rw [hb]; exact hkill) (fun ch _ _ => ?_) fun ch _ => by rw [hx]; exact hok ch
  split
  · rw [hx]; exact htook _
  · rw [hb]; exact hfail _

theorem wp_ignore {α : Type} {p : App Γ α} {Q : Except Err Unit → World Γ → Prop}
    (h : wp R p (fun _ w' => Q (.ok ()) w') w) : wp R (ignore p) Q w :=
  wp_bind.2 (wp_attempt.2 (wp_post (fun _ _ hq => wp_of_ret hq) h))

theorem wp_check {α : Type} {x : Except ValidationError α} {Q : Except Err α → World Γ → Prop}
    (herr : ∀ e, x = .error e → Q (.error (.invalid e)) w) (hok : ∀ a, x = .ok a → Q (.ok a) w) : wp R (check x) Q w := by
  cases x with
  | ok a => exact wp_of_ret (hok a rfl)
  | error e => exact wp_of_fail (herr e rfl)

end Commands

/-! ## Programs that keep a predicate -/

section Stops

variable {R : Rules (host Γ)} {T : World Γ → Prop} {w : World Γ} {α β : Type}

/-- A program of which only its footprint and its result matter. -/
theorem stops_frame {E : Effects} {p : App Γ α} (hp : p.Uses (Cmd.within E)) :
    Stops R (E.Within w) p (fun a _ => p.CanReturn a) w :=
  .of_uses (M := host Γ) Effects.Within.refl Effects.Within.trans (fun _ hc _ _ _ => within_step hc) hp

/-- A command of which only its footprint matters. -/
theorem stops_run {c : Cmd Γ} {P : c.Ans Γ → World Γ → Prop} (hbroken : ∀ ch : Choice Γ, R.allows c ch w → T (broken w ch c))
    (htook : ∀ ch : Choice Γ, R.allows c ch w → T (effect w ch c))
    (hmayTake : ∀ ch : Choice Γ, c.mayTake → T (effect w { ch with took := false } c))
    (hok : ∀ (ch : Choice Γ) a, R.allows c ch w → respond w ch c = .ok a → P a (effect w ch c)) : Stops R T c.run P w := by
  refine .of_wp <| wp_run (fun ch hch _ => hbroken ch hch) (fun ch hch _ => ?_) fun ch hch => ⟨htook ch hch, fun a ha => hok ch a hch ha⟩
  split
  · next h => exact ⟨hmayTake ch h.2, nofun⟩
  · exact ⟨hbroken ch hch, nofun⟩

theorem stops_readFile {f : FileName} {P : Option Γ.Bytes → World Γ → Prop} (hT : T w) (hP : P (w.files f) w) :
    Stops R T (readFile f) P w := by
  exact .of_wp <| wp_readFile (fun _ => hT) (fun _ _ => ⟨hT, nofun⟩) ⟨hT, fun a ha => by cases ha; exact hP⟩

theorem stops_readExisting {f : FileName} {P : Γ.Bytes → World Γ → Prop} (hT : T w) (hP : ∀ b, w.files f = some b → P b w) :
    Stops R T (readExisting f) P w := by
  exact .of_wp <| wp_readExisting (fun _ => hT) (fun _ _ => ⟨hT, nofun⟩) fun b hb => ⟨hT, fun a ha => by cases ha; exact hP b hb⟩

theorem stops_stat {f : FileName} {P : Option Γ.Bytes → World Γ → Prop} (hT : T w) (hP : P (w.files f) w) :
    Stops R T (Cmd.stat f).run P w := by
  exact .of_wp <| wp_stat (fun _ => hT) (fun _ _ => ⟨hT, nofun⟩) ⟨hT, fun a ha => by cases ha; exact hP⟩

theorem stops_writeFile {f : FileName} {b : Γ.Bytes} {P : Unit → World Γ → Prop} (hT : T w) (hset : T (w.set f (some b)))
    (hP : P () (w.set f (some b))) : Stops R T (writeFile f b) P w := by
  exact .of_wp <| wp_writeFile (fun _ => hT) (fun _ _ => ⟨hT, nofun⟩) ⟨hset, fun _ _ => hP⟩

theorem stops_removeIfExists {f : FileName} {P : Unit → World Γ → Prop} (hT : T w) (hset : T (w.set f none))
    (hP : P () (w.set f none)) : Stops R T (removeIfExists f) P w := by
  exact .of_wp <| wp_removeIfExists (fun _ => hT) (fun _ _ => ⟨hT, nofun⟩) ⟨hset, fun _ _ => hP⟩

theorem stops_renameExisting {f g : FileName} {P : Unit → World Γ → Prop} (hT : T w)
    (hset : ∀ b, w.files f = some b → T ((w.set g (some b)).set f none))
    (hP : ∀ b, w.files f = some b → P () ((w.set g (some b)).set f none)) : Stops R T (renameExisting f g) P w := by
  refine .of_wp <| wp_bind.2 (wp_renameFile (fun _ => hT) (fun _ _ => ⟨hT, nofun⟩) (fun _ => ?_) fun b hb => ?_)
  · exact wp_of_fail ⟨hT, nofun⟩
  · exact wp_of_ret ⟨hset b hb, fun _ _ => hP b hb⟩

theorem stops_ignore {p : App Γ α} {P : α → World Γ → Prop} {Q : Unit → World Γ → Prop} (hp : Stops R T p P w)
    (hQ : ∀ w', T w' → Q () w') : Stops R T (ignore p) Q w :=
  .bind hp.attempt fun _ w' hT _ => .ret hT (hQ w' hT)

theorem stops_wrapErr {p : App Γ α} {pre : String} {P : α → World Γ → Prop} (hp : Stops R T p P w) :
    Stops R T (wrapErr pre p) P w :=
  .mapErr _ hp

theorem stops_check {x : Except ValidationError α} {P : α → World Γ → Prop} (hT : T w) (hP : ∀ a, x = .ok a → P a w) :
    Stops R T (check x) P w :=
  .ofExcept hT fun a ha => hP a (by cases x with | ok b => (cases ha; rfl) | error e => cases ha)

theorem stops_loadConfig {f : FileName} {P : Config → World Γ → Prop} (hT : T w)
    (hP : ∀ b c, w.files f = some b → parseConfig Γ b = .ok c → P c w) : Stops R T (loadConfig f) P w :=
  .bind (P := fun b w' => w' = w ∧ w.files f = some b) (stops_readExisting hT fun _ hb => ⟨rfl, hb⟩) fun b w' _ h => by
    obtain ⟨rfl, hb⟩ := h
    exact stops_check hT fun c hc => hP b c hb hc

end Stops

end EvuProxy

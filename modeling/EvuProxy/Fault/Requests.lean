import EvuProxy.Fault.Threads

/-!
# Requests under a lock

Threads that run programs of a machine one request at a time. One command of the machine takes a lock, and the end of a request gives it
back. The pact of such threads: nobody changes the state without the lock. So a thread that holds it runs as if it were alone, and what was
proved of its program by itself holds (`keeps_alone`).

Each thread leaves a trail, which its commands and its notes add to. It is no part of the machine: it says what happened.
-/

namespace Fault

/-- The commands of a thread: those of the machine, giving the lock back, something outside that can fail, and a note for the trail. -/
inductive ThreadCmd (C N : Type) where
  | call (c : C)
  | release
  | outside
  | note (n : N)

/-- The commands of the threads of a machine. -/
abbrev threadSig (S : Sig) (N : Type) : Sig where
  Cmd := ThreadCmd S.Cmd N
  Ans
    | .call c => S.Ans c
    | _ => Unit
  Err := S.Err

variable {S : Sig} {N ι α β : Type}

/-- Run a program of the machine in a thread. -/
def lift : Prog S α → Prog (threadSig S N) α
  | .ret a => .ret a
  | .fail e => .fail e
  | .cmd c k => .cmd (S := threadSig S N) (.call c) fun r => lift (k r)

/-- One request: the lock is given back at its end, however it ends. -/
def request (p : Prog S α) : Prog (threadSig S N) α := do
  let r ← (lift p).attempt
  Prog.perform (S := threadSig S N) .release
  Prog.ofExcept r

theorem lift_bind (p : Prog S α) (f : α → Prog S β) :
    (lift (p.bind f) : Prog (threadSig S N) β) = (lift p).bind fun a => lift (f a) := by
  induction p with
  | ret a => rfl
  | fail e => rfl
  | cmd c k ih => exact congrArg (Prog.cmd (S := threadSig S N) (.call c)) (funext fun r => ih r)

theorem lift_ofExcept (x : Except S.Err α) :
    (lift (Prog.ofExcept x) : Prog (threadSig S N) α) = Prog.ofExcept (S := threadSig S N) x := by
  cases x <;> rfl

theorem lift_mapErr (p : Prog S α) (g : S.Err → S.Err) :
    (lift (p.mapErr g) : Prog (threadSig S N) α) = Prog.mapErr (S := threadSig S N) g (lift p) := by
  induction p with
  | ret a => rfl
  | fail e => rfl
  | cmd c k ih => exact congrArg (Prog.cmd (S := threadSig S N) (.call c)) (funext fun r => ih r)

/-! ## The machine -/

/-- What threads do to a machine: the command that takes the lock, and what each one leaves on its trail. -/
structure Watch (B : Machine S) (N : Type) where
  Trail : Type
  isLock : S.Cmd → Bool
  saw : (c : S.Cmd) → Except S.Err (S.Ans c) → B.State → Trail → Trail
  noted : N → Trail → Trail

/-- The state of a machine that threads share. -/
structure LockState {B : Machine S} (W : Watch B N) (ι : Type) where
  base : B.State
  holder : Option ι := none
  trail : ι → W.Trail

/-- What is decided at a turn: the choice of the machine, and whether something outside fails. -/
structure LockChoice (B : Machine S) where
  base : B.Choice
  outside : Option S.Err := none

variable {B : Machine S} {W : Watch B N}

section machine

variable [DecidableEq ι]

/-- The holder of the lock when a thread gives it back. -/
def LockState.released (s : LockState W ι) (i : ι) : Option ι := if s.holder = some i then none else s.holder

/-- The state after a call of a thread that the machine answered. -/
def LockState.called (s : LockState W ι) (i : ι) (c : S.Cmd) (r : Except S.Err (S.Ans c)) (b : B.State) : LockState W ι where
  base := b
  holder := if W.isLock c ∧ r.isOk then some i else s.holder
  trail := Function.update s.trail i (W.saw c r s.base (s.trail i))

/-- A turn of a thread. The lock is waited for. -/
def lockStep (i : ι) (c : ThreadCmd S.Cmd N) (ch : LockChoice B) (s : LockState W ι) :
    Option (Outcome S.Err ((threadSig S N).Ans c) (LockState W ι)) :=
  match c with
  | .call c =>
    if W.isLock c ∧ s.holder.isSome then none
    else match B.step c ch.base s.base with
      | .done r b => some (.done r (s.called i c r b))
      | .killed b => some (.killed { s with base := b, holder := s.released i })
  | .release => some (.done (.ok ()) { s with holder := s.released i })
  | .outside => some (.done (match ch.outside with | some e => .error e | none => .ok ()) s)
  | .note n => some (.done (.ok ()) { s with trail := Function.update s.trail i (W.noted n (s.trail i)) })

/-- The threads of a machine. -/
abbrev locked (W : Watch B N) (ι : Type) [DecidableEq ι] : Shared (threadSig S N) ι where
  State := LockState W ι
  Choice := LockChoice B
  step := lockStep

end machine

/-! ## The pact -/

/-- What a thread relies on: its trail is its own, nobody takes the lock from it, and nobody changes the machine while it holds the lock. -/
structure Undisturbed (i : ι) (s s' : LockState W ι) : Prop where
  trail : s'.trail i = s.trail i
  held : s.holder = some i → s'.holder = some i ∧ s'.base = s.base
  free : s.holder ≠ some i → s'.holder ≠ some i

/-- What the trails keep, so that the machine cannot break it, and what the choices are. -/
structure Terms (W : Watch B N) (ι : Type) where
  allows : ι → ThreadCmd S.Cmd N → LockChoice B → LockState W ι → Prop
  inv : ι → W.Trail → Prop
  saw : ∀ i c r b g, inv i g → inv i (W.saw c r b g)
  /-- Taking the lock does nothing else. -/
  lock : ∀ c ch b, W.isLock c → (B.step c ch b).state = b

/-- The pact of the threads. -/
abbrev Terms.pact [DecidableEq ι] (T : Terms W ι) : Pact (locked W ι) where
  allows := T.allows
  rely := Undisturbed
  inv i s := T.inv i (s.trail i)
  refl _ _ := ⟨rfl, fun h => ⟨h, rfl⟩, fun h => h⟩
  trans h h' := ⟨h'.trail.trans h.trail,
    fun hs => ⟨(h'.held (h.held hs).1).1, (h'.held (h.held hs).1).2.trans (h.held hs).2⟩, fun hs => h'.free (h.free hs)⟩
  stable h hinv := h.trail.symm ▸ hinv

variable [DecidableEq ι] {T : Terms W ι} {i : ι} {s s' : LockState W ι}

/-- A call by the holder of the lock, or one that changes nothing, leaves the others undisturbed. -/
theorem gives_called {c : S.Cmd} {r : Except S.Err (S.Ans c)} {b : B.State} (hlock : W.isLock c = false)
    (hs : s.holder = some i ∨ b = s.base) (hinv : T.inv i (s.trail i)) : T.pact.Gives i s (s.called i c r b) := by
  have hholder : (s.called i c r b).holder = s.holder := by simp [LockState.called, hlock]
  refine ⟨fun j hj => ⟨Function.update_of_ne hj _ _, fun hheld => ⟨hholder.trans hheld, ?_⟩, fun hfree => hholder ▸ hfree⟩, ?_⟩
  · rcases hs with hs | hs
    · exact absurd (Option.some.inj (hheld.symm.trans hs)) hj
    · exact hs
  · show T.inv i (Function.update s.trail i _ i)
    rw [Function.update_self]
    exact T.saw i c r s.base _ hinv

/-- A thread that is killed gives the lock back. -/
theorem gives_killed {b : B.State} (hs : s.holder = some i ∨ b = s.base) (hinv : T.inv i (s.trail i)) :
    T.pact.Gives i s { s with base := b, holder := s.released i } := by
  refine ⟨fun j hj => ⟨rfl, fun hheld => ?_, fun hfree => ?_⟩, hinv⟩
  · have hne : s.holder ≠ some i := fun he => hj (Option.some.inj (hheld.symm.trans he))
    refine ⟨?_, hs.resolve_left hne⟩
    show s.released i = some j
    rw [LockState.released, if_neg hne, hheld]
  · show s.released i ≠ some j
    unfold LockState.released
    split
    · exact nofun
    · exact hfree

/-! ## Rules -/

/-- A command that changes nothing, by a thread that needs no lock for it. -/
theorem keeps_read {c : S.Cmd} {Q : Except S.Err (S.Ans c) → LockState W ι → Prop} (hlock : W.isLock c = false)
    (hread : ∀ ch b, (B.step c ch b).state = b)
    (h : ∀ s', Undisturbed i s s' → ∀ ch, T.allows i (.call c) ch s' → ∀ r, B.step c ch.base s'.base = .done r s'.base →
      ∀ s₁, Undisturbed i (s'.called i c r s'.base) s₁ → Q r s₁) :
    Keeps T.pact i (lift (Prog.perform c) : Prog (threadSig S N) (S.Ans c)) Q s := by
  intro s' hs hinv ch hch o ho
  have hstep : lockStep i (.call c) ch s' = some o := ho
  rw [lockStep, if_neg (by simp [hlock])] at hstep
  cases hb : B.step c ch.base s'.base with
  | done r b =>
    have hsame : b = s'.base := by
      have hstate := hread ch.base s'.base
      rwa [hb] at hstate
    subst hsame
    rw [hb] at hstep
    obtain rfl := Option.some.inj hstep
    refine ⟨gives_called hlock (.inr rfl) hinv, ?_⟩
    cases r with
    | ok a => exact fun s₁ hs₁ => h s' hs ch hch _ hb s₁ hs₁
    | error e => exact fun s₁ hs₁ => h s' hs ch hch _ hb s₁ hs₁
  | killed b =>
    have hsame : b = s'.base := by
      have hstate := hread ch.base s'.base
      rwa [hb] at hstate
    rw [hb] at hstep
    obtain rfl := Option.some.inj hstep
    exact ⟨gives_killed (.inr hsame) hinv, trivial⟩

/-- Taking the lock. -/
theorem keeps_lock {c : S.Cmd} {Q : Except S.Err (S.Ans c) → LockState W ι → Prop} (hlock : W.isLock c = true)
    (hok : ∀ a s' r b, s'.holder = some i → s'.trail i = W.saw c r b (s.trail i) → Q (.ok a) s')
    (herr : ∀ e s' r b, s'.holder ≠ some i → s'.trail i = W.saw c r b (s.trail i) → Q (.error e) s') :
    Keeps T.pact i (lift (Prog.perform c) : Prog (threadSig S N) (S.Ans c)) Q s := by
  intro s' hrel hinv ch hch o ho
  have hstep : lockStep i (.call c) ch s' = some o := ho
  have hnone : s'.holder = none := by
    cases hh : s'.holder with
    | none => rfl
    | some j =>
      rw [lockStep, if_pos ⟨hlock, by simp [hh]⟩] at hstep
      cases hstep
  rw [lockStep, if_neg (by simp [hnone])] at hstep
  have hstate := T.lock c ch.base s'.base hlock
  cases hb : B.step c ch.base s'.base with
  | done r b =>
    rw [hb] at hstep hstate
    have hsame : b = s'.base := hstate
    obtain rfl := Option.some.inj hstep
    have htrail : (s'.called i c r b).trail i = W.saw c r s'.base (s.trail i) := by
      show Function.update s'.trail i _ i = _
      rw [Function.update_self, hrel.trail]
    refine ⟨⟨fun j hj => ⟨Function.update_of_ne hj _ _, fun hheld => ?_, fun _ => ?_⟩, ?_⟩, ?_⟩
    · rw [hnone] at hheld
      cases hheld
    · show (if _ then some i else s'.holder) ≠ some j
      split
      · exact fun he => hj (Option.some.inj he).symm
      · rw [hnone]
        exact nofun
    · show T.inv i ((s'.called i c r b).trail i)
      rw [htrail]
      exact T.saw i c r _ _ (hrel.trail ▸ hinv)
    · cases r with
      | ok a =>
        intro s₁ hs₁
        have hheld : (s'.called i c (.ok a) b).holder = some i := by simp [LockState.called, hlock, Except.isOk, Except.toBool]
        exact hok a s₁ _ _ (hs₁.held hheld).1 (hs₁.trail.trans htrail)
      | error e =>
        intro s₁ hs₁
        have hfree : (s'.called i c (.error e) b).holder ≠ some i := by simp [LockState.called, hnone, Except.isOk, Except.toBool]
        exact herr e s₁ _ _ (hs₁.free hfree) (hs₁.trail.trans htrail)
  | killed b =>
    rw [hb] at hstep hstate
    obtain rfl := Option.some.inj hstep
    exact ⟨gives_killed (.inr hstate) hinv, trivial⟩

/-- Giving the lock back. -/
theorem keeps_release {Q : Except S.Err Unit → LockState W ι → Prop}
    (h : ∀ s', s'.holder ≠ some i → s'.trail i = s.trail i → Q (.ok ()) s') :
    Keeps T.pact i (Prog.perform (S := threadSig S N) .release) Q s := by
  refine keeps_perform fun s' hs hinv ch _ o ho => ?_
  obtain rfl := Option.some.inj (show some _ = some o from ho)
  refine ⟨gives_killed (.inr rfl) hinv, fun r s'' heq s₁ hs₁ => ?_⟩
  obtain ⟨rfl, rfl⟩ := Outcome.done.inj heq
  have hfree : s'.released i ≠ some i := by
    unfold LockState.released
    split
    · exact nofun
    · rename_i hne
      exact hne
  exact h s₁ (hs₁.free hfree) (hs₁.trail.trans hs.trail)

/-- Something outside, which may fail. -/
theorem keeps_outside {Q : Except S.Err Unit → LockState W ι → Prop} (h : ∀ r s', Undisturbed i s s' → Q r s') :
    Keeps T.pact i (Prog.perform (S := threadSig S N) .outside) Q s := by
  refine keeps_perform fun s' hs hinv ch _ o ho => ?_
  obtain rfl := Option.some.inj (show some _ = some o from ho)
  refine ⟨⟨fun j _ => T.pact.refl j _, hinv⟩, fun r s'' heq s₁ hs₁ => ?_⟩
  obtain ⟨-, rfl⟩ := Outcome.done.inj heq
  exact h r s₁ (T.pact.trans hs hs₁)

/-- A note on the trail. -/
theorem keeps_note {n : N} {Q : Except S.Err Unit → LockState W ι → Prop} (hinv : T.inv i (s.trail i) → T.inv i (W.noted n (s.trail i)))
    (h : ∀ s', (s.holder ≠ some i → s'.holder ≠ some i) → s'.trail i = W.noted n (s.trail i) → Q (.ok ()) s') :
    Keeps T.pact i (Prog.perform (S := threadSig S N) (.note n)) Q s := by
  refine keeps_perform fun s' hs hinv' ch _ o ho => ?_
  obtain rfl := Option.some.inj (show some _ = some o from ho)
  refine ⟨⟨fun j hj => ⟨Function.update_of_ne hj _ _, fun hheld => ⟨hheld, rfl⟩, fun hfree => hfree⟩, ?_⟩, fun r s'' heq s₁ hs₁ => ?_⟩
  · show T.inv i (Function.update s'.trail i _ i)
    rw [Function.update_self, hs.trail]
    exact hinv (hs.trail ▸ hinv')
  · obtain ⟨rfl, rfl⟩ := Outcome.done.inj heq
    refine h s₁ (fun hfree => hs₁.free (hs.free hfree)) ?_
    rw [hs₁.trail]
    show Function.update s'.trail i _ i = _
    rw [Function.update_self, hs.trail]

/-- A request ends as its program does, without the lock. -/
theorem keeps_request {p : Prog S α} {P Q : Except S.Err α → LockState W ι → Prop}
    (hp : Keeps T.pact i (lift p : Prog (threadSig S N) α) P s)
    (hQ : ∀ r s' s'', P r s' → s''.holder ≠ some i → s''.trail i = s'.trail i → Q r s'') : Keeps T.pact i (request p) Q s := by
  refine keeps_bind (P := fun r s' => ∃ x, r = .ok x ∧ P x s') (keeps_attempt (hp.post fun r s' h => ⟨r, rfl, h⟩)) ?_ ?_
  · rintro r s' ⟨x, hx, hP⟩
    obtain rfl := Except.ok.inj hx
    refine keeps_bind (keeps_release (Q := fun u s'' => u = .ok () ∧ s''.holder ≠ some i ∧ s''.trail i = s'.trail i)
      fun s'' hfree htrail => ⟨rfl, hfree, htrail⟩) ?_ ?_
    · rintro ⟨⟩ s'' ⟨-, hfree, htrail⟩
      exact keeps_ofExcept fun s₁ hs₁ => hQ r s' s₁ hP (hs₁.free hfree) (hs₁.trail.trans htrail)
    · rintro e s'' ⟨he, -⟩
      cases he
  · rintro e s' ⟨x, hx, -⟩
    cases hx

/-! ## Alone under the lock -/

/-- The machine as a single thread sees it: its trail is part of the state. -/
abbrev Watch.alone (W : Watch B N) : Machine S where
  State := B.State × W.Trail
  Choice := B.Choice
  calm := B.calm
  step c ch s :=
    match B.step c ch s.1 with
    | .done r b => .done r (b, W.saw c r s.1 s.2)
    | .killed b => .killed (b, s.2)

/-- What holds of a program by itself holds of it in a thread that has the lock. -/
theorem keeps_alone {R : Rules W.alone} {p : Prog S α} {Q : Except S.Err α → W.alone.State → Prop}
    (hR : ∀ c ch s', s'.holder = some i → T.allows i (.call c) ch s' → R.allows c ch.base (s'.base, s'.trail i))
    (hs : s.holder = some i) (h : wp R p Q (s.base, s.trail i)) :
    Keeps T.pact i (lift p : Prog (threadSig S N) α) (fun r s' => s'.holder = some i ∧ Q r (s'.base, s'.trail i)) s := by
  have hsame : ∀ {s₁ s₂ : LockState W ι}, s₁.holder = some i → Undisturbed i s₁ s₂ →
      s₂.holder = some i ∧ (s₂.base, s₂.trail i) = (s₁.base, s₁.trail i) := fun hh hrel =>
    ⟨(hrel.held hh).1, by rw [(hrel.held hh).2, hrel.trail]⟩
  induction p generalizing s with
  | ret a =>
    intro s' hrel
    obtain ⟨hh, heq⟩ := hsame hs hrel
    rw [wp_ret] at h
    exact ⟨hh, heq.symm ▸ h⟩
  | fail e =>
    intro s' hrel
    obtain ⟨hh, heq⟩ := hsame hs hrel
    rw [wp_fail] at h
    exact ⟨hh, heq.symm ▸ h⟩
  | cmd c k ih =>
    intro s' hrel hinv ch hch o ho
    obtain ⟨hh, heq⟩ := hsame hs hrel
    have hstep : lockStep i (.call c) ch s' = some o := ho
    have hlock : W.isLock c = false := by
      by_contra hl
      rw [lockStep, if_pos ⟨Bool.not_eq_false _ ▸ hl, by simp [hh]⟩] at hstep
      cases hstep
    rw [lockStep, if_neg (by simp [hlock])] at hstep
    rw [← heq] at h
    have hnext := wp_cmd.1 h ch.base (hR c ch s' hh hch)
    cases hb : B.step c ch.base s'.base with
    | done r b =>
      rw [hb] at hstep
      obtain rfl := Option.some.inj hstep
      refine ⟨gives_called hlock (.inl hh) hinv, ?_⟩
      have hheld : (s'.called i c r b).holder = some i := by simp [LockState.called, hlock, hh]
      refine ih r hheld ?_
      have htrail : (s'.called i c r b).trail i = W.saw c r s'.base (s'.trail i) := Function.update_self ..
      rw [htrail]
      dsimp only [Watch.alone] at hnext
      rw [hb] at hnext
      exact hnext
    | killed b =>
      rw [hb] at hstep
      obtain rfl := Option.some.inj hstep
      exact ⟨gives_killed (.inl hh) hinv, trivial⟩

end Fault

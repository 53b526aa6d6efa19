import EvuProxy.Fault.Prog

/-!
# Running a program, and what holds of every run

`wp R p Q s` says that every run of `p` from `s` whose choices the rules `R` allow ends, if it is not killed, with a result and
a state that satisfy `Q`, and if it is killed, in a state that satisfies `R.crash`. Since a script may kill the program before any
command, `R.crash` is also what holds of every state on the way.
-/

namespace Fault

/-- How a run ends: with a result, or killed on the way. -/
inductive Outcome (ε α σ : Type) where
  | done (r : Except ε α) (s : σ)
  | killed (s : σ)

/-- The state a run ends in. -/
def Outcome.state {ε α σ : Type} : Outcome ε α σ → σ
  | .done _ s => s
  | .killed s => s

/-- What the commands of `S` do to a state. -/
structure Machine (S : Sig) where
  State : Type
  Choice : Type
  calm : Choice
  step : (c : S.Cmd) → Choice → State → Outcome S.Err (S.Ans c) State

variable {S : Sig} {M : Machine S} {α β : Type}

/-- The run of a program under a script. -/
def Machine.run (M : Machine S) : Prog S α → List M.Choice → M.State → Outcome S.Err α M.State
  | .ret a, _, s => .done (.ok a) s
  | .fail e, _, s => .done (.error e) s
  | .cmd c k, cs, s =>
    match M.step c (cs.headD M.calm) s with
    | .done r s' => M.run (k r) cs.tail s'
    | .killed s' => .killed s'

/-! ## Calm runs -/

section calm

/-- The run of a program in which every choice is the calm one ends with a result and a state. -/
def RunsTo (M : Machine S) (p : Prog S α) (s : M.State) (r : Except S.Err α) (s' : M.State) : Prop := M.run p [] s = .done r s'

variable {s s₁ s' : M.State} {p : Prog S α} {f : α → Prog S β}

theorem RunsTo.unique {r r' : Except S.Err α} (h : RunsTo M p s r s₁) (h' : RunsTo M p s r' s') : r = r' ∧ s₁ = s' := by
  obtain ⟨hr, hs⟩ := Outcome.done.inj (h.symm.trans h')
  exact ⟨hr, hs⟩

theorem runsTo_ret {a : α} : RunsTo M (.ret a : Prog S α) s (.ok a) s := rfl

theorem runsTo_ofExcept {x : Except S.Err α} : RunsTo M (Prog.ofExcept x) s x s := by
  cases x <;> rfl

theorem runsTo_perform {c : S.Cmd} {r : Except S.Err (S.Ans c)} (h : M.step c M.calm s = .done r s') : RunsTo M (Prog.perform c) s r s' := by
  unfold RunsTo
  simp only [Prog.perform, Machine.run, List.headD_nil, h]
  cases r <;> rfl

theorem runsTo_bind {a : α} {r : Except S.Err β} (hp : RunsTo M p s (.ok a) s₁) (hf : RunsTo M (f a) s₁ r s') : RunsTo M (p.bind f) s r s' := by
  unfold RunsTo at hp hf ⊢
  induction p generalizing s with
  | ret b =>
    cases hp
    exact hf
  | fail e => cases hp
  | cmd c k ih =>
    simp only [Prog.bind, Machine.run] at hp ⊢
    cases hm : M.step c ([].headD M.calm) s with
    | killed s₂ =>
      rw [hm] at hp
      cases hp
    | done r s₂ =>
      rw [hm] at hp
      exact ih r hp

theorem runsTo_bind_error {e : S.Err} (hp : RunsTo M p s (.error e) s') : RunsTo M (p.bind f) s (.error e) s' := by
  unfold RunsTo at hp ⊢
  induction p generalizing s with
  | ret b => cases hp
  | fail e =>
    cases hp
    rfl
  | cmd c k ih =>
    simp only [Prog.bind, Machine.run] at hp ⊢
    cases hm : M.step c ([].headD M.calm) s with
    | killed s₂ =>
      rw [hm] at hp
      cases hp
    | done r s₂ =>
      rw [hm] at hp
      exact ih r hp

theorem runsTo_attempt {r : Except S.Err α} (hp : RunsTo M p s r s') : RunsTo M p.attempt s (.ok r) s' := by
  unfold RunsTo at hp ⊢
  induction p generalizing s with
  | ret b =>
    cases hp
    rfl
  | fail e =>
    cases hp
    rfl
  | cmd c k ih =>
    simp only [Prog.attempt, Machine.run] at hp ⊢
    cases hm : M.step c ([].headD M.calm) s with
    | killed s₂ =>
      rw [hm] at hp
      cases hp
    | done r s₂ =>
      rw [hm] at hp
      exact ih r hp

theorem runsTo_if {c : Prop} [Decidable c] {q : Prog S α} {r : Except S.Err α} (hc : c) (hp : RunsTo M p s r s') :
    RunsTo M (if c then p else q) s r s' := by
  rw [if_pos hc]
  exact hp

theorem runsTo_mapErr {g : S.Err → S.Err} {r : Except S.Err α} (hp : RunsTo M p s r s') : RunsTo M (p.mapErr g) s (r.mapError g) s' := by
  unfold RunsTo at hp ⊢
  induction p generalizing s with
  | ret b =>
    cases hp
    rfl
  | fail e =>
    cases hp
    rfl
  | cmd c k ih =>
    simp only [Prog.mapErr, Machine.run] at hp ⊢
    cases hm : M.step c ([].headD M.calm) s with
    | killed s₂ =>
      rw [hm] at hp
      cases hp
    | done r s₂ =>
      rw [hm] at hp
      exact ih r hp

end calm

/-- The choices that are allowed at each command, and what must hold of a state in which the program is killed. -/
structure Rules (M : Machine S) where
  allows : S.Cmd → M.Choice → M.State → Prop
  crash : M.State → Prop

/-- The same choices, with something else required of the states on the way. -/
def Rules.withCrash (R : Rules M) (I : M.State → Prop) : Rules M := { R with crash := I }

/-- Every choice of the script that the run comes to is allowed. -/
def Allowed (R : Rules M) : Prog S α → List M.Choice → M.State → Prop
  | .ret _, _, _ => True
  | .fail _, _, _ => True
  | .cmd c k, cs, s =>
    R.allows c (cs.headD M.calm) s ∧
      match M.step c (cs.headD M.calm) s with
      | .done r s' => Allowed R (k r) cs.tail s'
      | .killed _ => True

/-- The weakest precondition of a program. -/
def wp (R : Rules M) : Prog S α → (Except S.Err α → M.State → Prop) → M.State → Prop
  | .ret a, Q, s => Q (.ok a) s
  | .fail e, Q, s => Q (.error e) s
  | .cmd c k, Q, s =>
    ∀ ch, R.allows c ch s →
      match M.step c ch s with
      | .done r s' => wp R (k r) Q s'
      | .killed s' => R.crash s'

/-- How a run has to end. -/
def Outcome.Sat {ε σ : Type} (I : σ → Prop) (Q : Except ε α → σ → Prop) : Outcome ε α σ → Prop
  | .done r s => Q r s
  | .killed s => I s

/-- The weakest precondition is sound. -/
theorem run_sat {R : Rules M} {p : Prog S α} {Q : Except S.Err α → M.State → Prop} :
    ∀ {cs : List M.Choice} {s : M.State}, wp R p Q s → Allowed R p cs s → (M.run p cs s).Sat R.crash Q := by
  induction p with
  | ret a => intro cs s h _; exact h
  | fail e => intro cs s h _; exact h
  | cmd c k ih =>
    intro cs s h ha
    simp only [Allowed] at ha
    obtain ⟨hc, ht⟩ := ha
    have hs := h _ hc
    simp only [Machine.run]
    cases hm : M.step c (cs.headD M.calm) s with
    | done r s' =>
      rw [hm] at hs ht
      exact ih r hs ht
    | killed s' =>
      rw [hm] at hs
      exact hs

/-- An error ends a sequence. -/
theorem run_bind_error {p : Prog S α} {f : α → Prog S β} {e : S.Err} {s' : M.State} :
    ∀ {cs : List M.Choice} {s : M.State}, M.run p cs s = .done (.error e) s' → M.run (p.bind f) cs s = .done (.error e) s' := by
  induction p with
  | ret a => intro cs s h; cases h
  | fail e' => intro cs s h; cases h; rfl
  | cmd c k ih =>
    intro cs s h
    simp only [Machine.run, Prog.bind] at h ⊢
    cases hm : M.step c (cs.headD M.calm) s with
    | done r v =>
      rw [hm] at h
      exact ih r h
    | killed v =>
      rw [hm] at h
      cases h

/-- A script that is allowed for a sequence is allowed for its first part. -/
theorem Allowed.of_bind {R : Rules M} {p : Prog S α} {f : α → Prog S β} :
    ∀ {cs : List M.Choice} {s : M.State}, Allowed R (p.bind f) cs s → Allowed R p cs s := by
  induction p with
  | ret a => intro cs s _; trivial
  | fail e => intro cs s _; trivial
  | cmd c k ih =>
    intro cs s h
    simp only [Allowed, Prog.bind] at h ⊢
    refine ⟨h.1, ?_⟩
    have ht := h.2
    cases hm : M.step c (cs.headD M.calm) s with
    | done r v =>
      rw [hm] at ht
      exact ih r ht
    | killed v => trivial

theorem Allowed.withCrash {R : Rules M} {I : M.State → Prop} {p : Prog S α} :
    ∀ {cs : List M.Choice} {s : M.State}, Allowed R p cs s → Allowed (R.withCrash I) p cs s := by
  induction p with
  | ret a => intro cs s _; trivial
  | fail e => intro cs s _; trivial
  | cmd c k ih =>
    intro cs s h
    simp only [Allowed] at h ⊢
    refine ⟨h.1, ?_⟩
    have ht := h.2
    cases hm : M.step c (cs.headD M.calm) s with
    | done r s' =>
      rw [hm] at ht
      exact ih r ht
    | killed s' => trivial

instance Allowed.decidable (R : Rules M) [∀ c ch s, Decidable (R.allows c ch s)] :
    ∀ (p : Prog S α) (cs : List M.Choice) (s : M.State), Decidable (Allowed R p cs s)
  | .ret _, _, _ => .isTrue trivial
  | .fail _, _, _ => .isTrue trivial
  | .cmd c k, cs, s =>
    haveI : Decidable (match M.step c (cs.headD M.calm) s with
        | .done r s' => Allowed R (k r) cs.tail s'
        | .killed _ => True) :=
      match M.step c (cs.headD M.calm) s with
      | .done r s' => Allowed.decidable R (k r) cs.tail s'
      | .killed _ => .isTrue trivial
    decidable_of_iff _ (Iff.of_eq (Allowed.eq_3 R cs s c k).symm)

variable {R : Rules M} {s : M.State}

/-! ## The rules -/

/-- What is left to show of the rest of a program: it runs on from a value, an error ends the whole. -/
def andThen (R : Rules M) (f : α → Prog S β) (Q : Except S.Err β → M.State → Prop) (r : Except S.Err α) (s : M.State) : Prop :=
  match r with
  | .ok a => wp R (f a) Q s
  | .error e => Q (.error e) s

@[simp] theorem andThen_ok (f : α → Prog S β) (Q : Except S.Err β → M.State → Prop) (a : α) :
    andThen R f Q (.ok a) s = wp R (f a) Q s := rfl

@[simp] theorem andThen_error (f : α → Prog S β) (Q : Except S.Err β → M.State → Prop) (e : S.Err) :
    andThen R f Q (.error e) s = Q (.error e) s := rfl

@[simp] theorem wp_ret (Q : Except S.Err α → M.State → Prop) (a : α) : wp R (.ret a : Prog S α) Q s = Q (.ok a) s := rfl

@[simp] theorem wp_fail (Q : Except S.Err α → M.State → Prop) (e : S.Err) :
    wp R (.fail e : Prog S α) Q s = Q (.error e) s := rfl

theorem wp_of_ret {Q : Except S.Err α → M.State → Prop} {a : α} (h : Q (.ok a) s) : wp R (.ret a : Prog S α) Q s := h

theorem wp_of_fail {Q : Except S.Err α → M.State → Prop} {e : S.Err} (h : Q (.error e) s) :
    wp R (.fail e : Prog S α) Q s := h

theorem wp_cmd {c : S.Cmd} {k : Except S.Err (S.Ans c) → Prog S α} {Q : Except S.Err α → M.State → Prop} :
    wp R (.cmd c k) Q s ↔ ∀ ch, R.allows c ch s →
      match M.step c ch s with
      | .done r s' => wp R (k r) Q s'
      | .killed s' => R.crash s' := Iff.rfl

theorem wp_bind {p : Prog S α} {f : α → Prog S β} {Q : Except S.Err β → M.State → Prop} :
    wp R (p.bind f) Q s ↔ wp R p (andThen R f Q) s := by
  induction p generalizing s with
  | ret a => exact Iff.rfl
  | fail e => exact Iff.rfl
  | cmd c k ih =>
    refine forall_congr' fun ch => imp_congr_right fun _ => ?_
    cases M.step c ch s with
    | done r s' => exact ih r
    | killed s' => exact Iff.rfl

theorem wp_attempt {p : Prog S α} {Q : Except S.Err (Except S.Err α) → M.State → Prop} :
    wp R p.attempt Q s ↔ wp R p (fun r s' => Q (.ok r) s') s := by
  induction p generalizing s with
  | ret a => exact Iff.rfl
  | fail e => exact Iff.rfl
  | cmd c k ih =>
    refine forall_congr' fun ch => imp_congr_right fun _ => ?_
    cases M.step c ch s with
    | done r s' => exact ih r
    | killed s' => exact Iff.rfl

theorem wp_mapErr {g : S.Err → S.Err} {p : Prog S α} {Q : Except S.Err α → M.State → Prop} :
    wp R (p.mapErr g) Q s ↔ wp R p (fun r s' => Q (r.mapError g) s') s := by
  induction p generalizing s with
  | ret a => exact Iff.rfl
  | fail e => exact Iff.rfl
  | cmd c k ih =>
    refine forall_congr' fun ch => imp_congr_right fun _ => ?_
    cases M.step c ch s with
    | done r s' => exact ih r
    | killed s' => exact Iff.rfl

@[simp] theorem wp_ofExcept {x : Except S.Err α} {Q : Except S.Err α → M.State → Prop} :
    wp R (Prog.ofExcept x) Q s = Q x s := by
  cases x <;> rfl

theorem wp_ite {b : Prop} [Decidable b] {p q : Prog S α} {Q : Except S.Err α → M.State → Prop} (hp : b → wp R p Q s)
    (hq : ¬b → wp R q Q s) : wp R (if b then p else q) Q s := by
  split
  · next h => exact hp h
  · next h => exact hq h

theorem wp_perform {c : S.Cmd} {Q : Except S.Err (S.Ans c) → M.State → Prop} :
    wp R (Prog.perform c) Q s ↔ ∀ ch, R.allows c ch s → (M.step c ch s).Sat R.crash Q := by
  refine forall_congr' fun ch => imp_congr_right fun _ => ?_
  cases M.step c ch s with
  | done r s' => cases r <;> exact Iff.rfl
  | killed s' => exact Iff.rfl

/-- Consequence: fewer choices, weaker requirements. -/
theorem wp_mono {R R' : Rules M} {p : Prog S α} {Q Q' : Except S.Err α → M.State → Prop}
    (ha : ∀ c ch s, R'.allows c ch s → R.allows c ch s) (hI : ∀ s, R.crash s → R'.crash s)
    (hQ : ∀ r s, Q r s → Q' r s) (h : wp R p Q s) : wp R' p Q' s := by
  induction p generalizing s with
  | ret a => exact hQ _ _ h
  | fail e => exact hQ _ _ h
  | cmd c k ih =>
    intro ch hch
    have hs := h ch (ha _ _ _ hch)
    cases hm : M.step c ch s with
    | done r s' =>
      rw [hm] at hs
      exact ih r hs
    | killed s' =>
      rw [hm] at hs
      exact hI _ hs

/-- Consequence for the postcondition alone. -/
theorem wp_post {p : Prog S α} {Q Q' : Except S.Err α → M.State → Prop} (hQ : ∀ r s, Q r s → Q' r s) (h : wp R p Q s) :
    wp R p Q' s :=
  wp_mono (fun _ _ _ => id) (fun _ => id) hQ h

/-- Every program ends somehow. -/
theorem wp_any {p : Prog S α} (hcrash : ∀ s, R.crash s) : wp R p (fun _ _ => True) s := by
  induction p generalizing s with
  | ret a => trivial
  | fail e => trivial
  | cmd c k ih =>
    intro ch _
    cases M.step c ch s with
    | done r s' => exact ih r
    | killed s' => exact hcrash s'

/-- Where no choice kills a program, nothing is required of a killed one. -/
theorem wp_unkilled {I : M.State → Prop} {p : Prog S α} {Q : Except S.Err α → M.State → Prop}
    (halive : ∀ c ch s s', R.allows c ch s → M.step c ch s ≠ .killed s') (h : wp (R.withCrash I) p Q s) : wp R p Q s := by
  induction p generalizing s with
  | ret a => exact h
  | fail e => exact h
  | cmd c k ih =>
    intro ch hch
    have hs := h ch hch
    cases hm : M.step c ch s with
    | done r s' =>
      rw [hm] at hs
      exact ih r hs
    | killed s' => exact absurd hm (halive c ch s s' hch)

/-- Two facts about the same runs. -/
theorem wp_and {R R' : Rules M} {p : Prog S α} {Q Q' : Except S.Err α → M.State → Prop}
    (h : wp R p Q s) (h' : wp R' p Q' s) :
    wp ⟨fun c ch s => R.allows c ch s ∧ R'.allows c ch s, fun s => R.crash s ∧ R'.crash s⟩ p
      (fun r s => Q r s ∧ Q' r s) s := by
  induction p generalizing s with
  | ret a => exact ⟨h, h'⟩
  | fail e => exact ⟨h, h'⟩
  | cmd c k ih =>
    intro ch hch
    have hs := h ch hch.1
    have hs' := h' ch hch.2
    cases hm : M.step c ch s with
    | done r s' =>
      rw [hm] at hs hs'
      exact ih r hs hs'
    | killed s' =>
      rw [hm] at hs hs'
      exact ⟨hs, hs'⟩

/-- The frame rule: a program whose commands all keep a relation keeps it, wherever it stops. -/
theorem wp_of_uses {A : S.Cmd → Prop} {T : M.State → M.State → Prop} {p : Prog S α} (hrefl : ∀ s, T s s)
    (htrans : ∀ {a b c}, T a b → T b c → T a c)
    (hA : ∀ c, A c → ∀ ch s, R.allows c ch s → T s (M.step c ch s).state) (hp : p.Uses A) {s : M.State} :
    wp (R.withCrash (T s)) p (fun _ s' => T s s') s := by
  suffices h : ∀ s₀, T s₀ s → wp (R.withCrash (T s₀)) p (fun _ s' => T s₀ s') s from h s (hrefl s)
  intro s₀ h₀
  induction p generalizing s with
  | ret a => exact h₀
  | fail e => exact h₀
  | cmd c k ih =>
    intro ch hch
    have hc := Prog.uses_cmd.1 hp
    have hs := htrans h₀ (hA c hc.1 ch s hch)
    cases hm : M.step c ch s with
    | done r s' =>
      rw [hm] at hs
      exact ih r (hc.2 r) hs
    | killed s' =>
      rw [hm] at hs
      exact hs

/-- Whatever a program returns is a value it can return. -/
theorem wp_canReturn {p : Prog S α} {Q : Except S.Err α → M.State → Prop} (h : wp R p Q s) :
    wp R p (fun r s' => Q r s' ∧ ∀ a, r = .ok a → p.CanReturn a) s := by
  induction p generalizing s with
  | ret a => exact ⟨h, fun b hb => Prog.canReturn_ret.2 (Except.ok.inj hb)⟩
  | fail e => exact ⟨h, fun b hb => nomatch hb⟩
  | cmd c k ih =>
    intro ch hch
    have hs := h ch hch
    cases hm : M.step c ch s with
    | done r s' =>
      rw [hm] at hs
      exact wp_post (fun r' s'' hq => ⟨hq.1, fun a ha => Prog.canReturn_cmd.2 ⟨r, hq.2 a ha⟩⟩) (ih r hs)
    | killed s' =>
      rw [hm] at hs
      exact hs

/-- A loop keeps an invariant that each round keeps. -/
theorem wp_forEach {f : α → Prog S Unit} {J : M.State → Prop} {E : S.Err → M.State → Prop} :
    ∀ {as : List α} {s : M.State},
      (∀ a ∈ as, ∀ s, J s → wp R (f a) (fun r s' => match r with | .ok () => J s' | .error e => E e s') s) → J s →
      wp R (Prog.forEach as f) (fun r s' => match r with | .ok () => J s' | .error e => E e s') s
  | [], _, _, hJ => hJ
  | a :: as, s, hf, hJ => by
    refine wp_bind.2 (wp_post ?_ (hf a (by simp) s hJ))
    rintro (e | ⟨⟩) s' h
    · exact h
    · exact wp_forEach (fun b hb => hf b (by simp [hb])) h

-- The rules above are all that proofs use.
attribute [irreducible] wp

end Fault

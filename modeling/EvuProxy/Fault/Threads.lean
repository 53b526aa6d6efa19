import EvuProxy.Fault.Machine
import Mathlib.Logic.Function.Basic

/-!
# Threads

Several programs that share a state. A schedule is the list of the turns: who takes it, and the choice made at its command. In between
the turns of a thread the others take theirs, so what a thread proves about its run holds under whatever it may rely on them for. A pact
says what that is; a thread that keeps the pact gives the others what they rely on, and a pool of threads that all keep it does so at
every turn.
-/

namespace Fault

/-- A machine that several threads share. A command is blocked where it has no outcome. -/
structure Shared (S : Sig) (ι : Type) where
  State : Type
  Choice : Type
  step : ι → (c : S.Cmd) → Choice → State → Option (Outcome S.Err (S.Ans c) State)

variable {S : Sig} {ι : Type} {M : Shared S ι} {α β : Type}

/-- The shared state, and what each thread has yet to run: nothing once it was killed. -/
structure Pool (M : Shared S ι) (α : Type) where
  state : M.State
  rest : ι → Option (Prog S α)

namespace Pool

variable [DecidableEq ι]

/-- A turn of a thread. A thread that has ended, or whose command is blocked, passes. -/
def turn (p : Pool M α) (i : ι) (ch : M.Choice) : Pool M α :=
  match p.rest i with
  | some (.cmd c k) =>
    match M.step i c ch p.state with
    | some (.done r s) => ⟨s, Function.update p.rest i (some (k r))⟩
    | some (.killed s) => ⟨s, Function.update p.rest i none⟩
    | none => p
  | _ => p

/-- The pool after a schedule. -/
def after (sched : List (ι × M.Choice)) (p : Pool M α) : Pool M α := sched.foldl (fun p t => p.turn t.1 t.2) p

@[simp] theorem after_nil (p : Pool M α) : p.after [] = p := rfl

@[simp] theorem after_cons (t : ι × M.Choice) (sched : List (ι × M.Choice)) (p : Pool M α) :
    p.after (t :: sched) = (p.turn t.1 t.2).after sched := rfl

end Pool

/-- What the threads agree on: the choices that are made, what a thread relies on the others for while it waits for its turn, and what it
keeps true of the state. -/
structure Pact (M : Shared S ι) where
  allows : ι → S.Cmd → M.Choice → M.State → Prop
  rely : ι → M.State → M.State → Prop
  inv : ι → M.State → Prop
  refl : ∀ i s, rely i s s
  trans : ∀ {i s s' s''}, rely i s s' → rely i s' s'' → rely i s s''
  stable : ∀ {i s s'}, rely i s s' → inv i s → inv i s'

variable {A : Pact M} {i : ι} {s s' : M.State}

/-- A turn of thread `i` gives the others what they rely on, and keeps the invariant. -/
def Pact.Gives (A : Pact M) (i : ι) (s s' : M.State) : Prop := (∀ j, j ≠ i → A.rely j s s') ∧ A.inv i s'

/-- Thread `i` keeps the pact while it runs a program, and ends with a result and a state that satisfy `Q`. Before each turn, and after the
last, the others may have done what it relies on. The invariant of the thread is what it finds at each turn. -/
def Keeps (A : Pact M) (i : ι) : Prog S α → (Except S.Err α → M.State → Prop) → M.State → Prop
  | .ret a, Q, s => ∀ s', A.rely i s s' → Q (.ok a) s'
  | .fail e, Q, s => ∀ s', A.rely i s s' → Q (.error e) s'
  | .cmd c k, Q, s =>
    ∀ s', A.rely i s s' → A.inv i s' → ∀ ch, A.allows i c ch s' → ∀ o, M.step i c ch s' = some o →
      A.Gives i s' o.state ∧
        match o with
        | .done r s'' => Keeps A i (k r) Q s''
        | .killed _ => True

/-! ## Rules -/

/-- What the others do in the meantime changes nothing. -/
theorem Keeps.rely {p : Prog S α} {Q : Except S.Err α → M.State → Prop} (h : Keeps A i p Q s) (hs : A.rely i s s') :
    Keeps A i p Q s' := by
  cases p with
  | ret a => exact fun s'' hs' => h s'' (A.trans hs hs')
  | fail e => exact fun s'' hs' => h s'' (A.trans hs hs')
  | cmd c k => exact fun s'' hs' => h s'' (A.trans hs hs')

theorem keeps_ret {Q : Except S.Err α → M.State → Prop} {a : α} (h : ∀ s', A.rely i s s' → Q (.ok a) s') :
    Keeps A i (.ret a : Prog S α) Q s := h

theorem keeps_fail {Q : Except S.Err α → M.State → Prop} {e : S.Err} (h : ∀ s', A.rely i s s' → Q (.error e) s') :
    Keeps A i (.fail e : Prog S α) Q s := h

theorem Keeps.post {p : Prog S α} {Q Q' : Except S.Err α → M.State → Prop} (h : Keeps A i p Q s) (hQ : ∀ r s', Q r s' → Q' r s') :
    Keeps A i p Q' s := by
  induction p generalizing s with
  | ret a => exact fun s' hs => hQ _ _ (h s' hs)
  | fail e => exact fun s' hs => hQ _ _ (h s' hs)
  | cmd c k ih =>
    intro s' hs hinv ch hch o ho
    obtain ⟨hgives, hrest⟩ := h s' hs hinv ch hch o ho
    refine ⟨hgives, ?_⟩
    cases o with
    | done r s'' => exact ih r hrest
    | killed s'' => trivial

/-- The program of a thread goes on from what its first part ended with. -/
theorem keeps_bind {p : Prog S α} {f : α → Prog S β} {P : Except S.Err α → M.State → Prop} {Q : Except S.Err β → M.State → Prop}
    (hp : Keeps A i p P s) (hf : ∀ a s', P (.ok a) s' → Keeps A i (f a) Q s')
    (he : ∀ e s', P (.error e) s' → ∀ s'', A.rely i s' s'' → Q (.error e) s'') : Keeps A i (p.bind f) Q s := by
  induction p generalizing s with
  | ret a => exact hf a s (hp s (A.refl i s))
  | fail e => exact fun s' hs => he e s (hp s (A.refl i s)) s' hs
  | cmd c k ih =>
    intro s' hs hinv ch hch o ho
    obtain ⟨hgives, hrest⟩ := hp s' hs hinv ch hch o ho
    refine ⟨hgives, ?_⟩
    cases o with
    | done r s'' => exact ih r hrest
    | killed s'' => trivial

theorem keeps_attempt {p : Prog S α} {Q : Except S.Err (Except S.Err α) → M.State → Prop}
    (hp : Keeps A i p (fun r s' => Q (.ok r) s') s) : Keeps A i p.attempt Q s := by
  induction p generalizing s with
  | ret a => exact hp
  | fail e => exact hp
  | cmd c k ih =>
    intro s' hs hinv ch hch o ho
    obtain ⟨hgives, hrest⟩ := hp s' hs hinv ch hch o ho
    refine ⟨hgives, ?_⟩
    cases o with
    | done r s'' => exact ih r hrest
    | killed s'' => trivial

theorem keeps_mapErr {p : Prog S α} {g : S.Err → S.Err} {Q : Except S.Err α → M.State → Prop}
    (hp : Keeps A i p (fun r s' => Q (r.mapError g) s') s) : Keeps A i (p.mapErr g) Q s := by
  induction p generalizing s with
  | ret a => exact hp
  | fail e => exact hp
  | cmd c k ih =>
    intro s' hs hinv ch hch o ho
    obtain ⟨hgives, hrest⟩ := hp s' hs hinv ch hch o ho
    refine ⟨hgives, ?_⟩
    cases o with
    | done r s'' => exact ih r hrest
    | killed s'' => trivial

theorem keeps_ofExcept {x : Except S.Err α} {Q : Except S.Err α → M.State → Prop} (h : ∀ s', A.rely i s s' → Q x s') :
    Keeps A i (Prog.ofExcept x) Q s := by
  cases x with
  | ok a => exact h
  | error e => exact h

/-- One command. -/
theorem keeps_perform {c : S.Cmd} {Q : Except S.Err (S.Ans c) → M.State → Prop}
    (h : ∀ s', A.rely i s s' → A.inv i s' → ∀ ch, A.allows i c ch s' → ∀ o, M.step i c ch s' = some o →
      A.Gives i s' o.state ∧ ∀ r s'', o = .done r s'' → ∀ s₁, A.rely i s'' s₁ → Q r s₁) : Keeps A i (Prog.perform c) Q s := by
  intro s' hs hinv ch hch o ho
  obtain ⟨hgives, hpost⟩ := h s' hs hinv ch hch o ho
  refine ⟨hgives, ?_⟩
  cases o with
  | killed s'' => trivial
  | done r s'' =>
    cases r with
    | ok a => exact fun s₁ hs₁ => hpost _ _ rfl s₁ hs₁
    | error e => exact fun s₁ hs₁ => hpost _ _ rfl s₁ hs₁

/-! ## Pools -/

section pools

variable [DecidableEq ι]

/-- Every turn of a schedule makes a choice that the pact allows. -/
def Pool.Legal (A : Pact M) : List (ι × M.Choice) → Pool M α → Prop
  | [], _ => True
  | t :: sched, p => (∀ c k, p.rest t.1 = some (.cmd c k) → A.allows t.1 c t.2 p.state) ∧ Legal A sched (p.turn t.1 t.2)

section legal

variable {p : Pool M α} {t : ι × M.Choice} {sched : List (ι × M.Choice)}

theorem Pool.legal_cons_cmd {c : S.Cmd} {k : Except S.Err (S.Ans c) → Prog S α} (h : p.rest t.1 = some (.cmd c k)) :
    Legal A (t :: sched) p ↔ A.allows t.1 c t.2 p.state ∧ Legal A sched (p.turn t.1 t.2) := by
  refine ⟨fun hlegal => ⟨hlegal.1 c k h, hlegal.2⟩, fun hlegal => ⟨fun c' k' he => ?_, hlegal.2⟩⟩
  obtain ⟨rfl, -⟩ := Prog.cmd.inj (Option.some.inj (h.symm.trans he))
  exact hlegal.1

theorem Pool.legal_cons_ended (h : ∀ c k, p.rest t.1 ≠ some (.cmd c k)) :
    Legal A (t :: sched) p ↔ Legal A sched (p.turn t.1 t.2) :=
  ⟨fun hlegal => hlegal.2, fun hlegal => ⟨fun c k he => absurd he (h c k), hlegal⟩⟩

/-- Every schedule is legal under a pact that allows every choice. -/
theorem Pool.legal_of_all (h : ∀ i c ch s, A.allows i c ch s) : ∀ (sched : List (ι × M.Choice)) (p : Pool M α), p.Legal A sched := by
  intro sched
  induction sched with
  | nil => exact fun _ => trivial
  | cons t sched ih => exact fun p => ⟨fun c _ _ => h t.1 c t.2 p.state, ih _⟩

instance Pool.decidableLegal [∀ i c ch s, Decidable (A.allows i c ch s)] :
    ∀ (sched : List (ι × M.Choice)) (p : Pool M α), Decidable (p.Legal A sched)
  | [], _ => isTrue trivial
  | t :: sched, p =>
    have hnext := decidableLegal sched (p.turn t.1 t.2)
    match hrest : p.rest t.1 with
    | some (.cmd _ _) => decidable_of_iff' _ (legal_cons_cmd hrest)
    | some (.ret _) => decidable_of_iff' _ (legal_cons_ended (by simp [hrest]))
    | some (.fail _) => decidable_of_iff' _ (legal_cons_ended (by simp [hrest]))
    | none => decidable_of_iff' _ (legal_cons_ended (by simp [hrest]))

end legal

/-- Every thread of the pool keeps the pact from here on. -/
def Pool.Keeping (A : Pact M) (p : Pool M α) : Prop :=
  ∀ i, A.inv i p.state ∧ ∀ q, p.rest i = some q → ∃ Q, Keeps A i q Q p.state

/-- The turn of a thread, for a pool that keeps the pact. -/
theorem Pool.Keeping.turn {p : Pool M α} (h : p.Keeping A) {ch : M.Choice}
    (hch : ∀ c k, p.rest i = some (.cmd c k) → A.allows i c ch p.state) : (p.turn i ch).Keeping A := by
  unfold Pool.turn
  split
  · rename_i c k hrest
    cases ho : M.step i c ch p.state with
    | none => exact h
    | some o =>
      obtain ⟨Q, hQ⟩ := (h i).2 _ hrest
      obtain ⟨hgives, hnext⟩ := hQ p.state (A.refl i p.state) (h i).1 ch (hch c k hrest) o ho
      -- The others keep what they kept, since the turn gives them what they rely on.
      have hothers : ∀ j, j ≠ i → A.inv j o.state ∧ ∀ q, p.rest j = some q → ∃ Q, Keeps A j q Q o.state := by
        intro j hj
        obtain ⟨hinv, hkeeps⟩ := h j
        refine ⟨A.stable (hgives.1 j hj) hinv, fun q hq => ?_⟩
        obtain ⟨Q, hQ⟩ := hkeeps q hq
        exact ⟨Q, hQ.rely (hgives.1 j hj)⟩
      cases o with
      | done r s'' =>
        intro j
        dsimp only
        by_cases hj : j = i
        · subst hj
          refine ⟨hgives.2, fun q hq => ⟨Q, ?_⟩⟩
          rw [Function.update_self] at hq
          exact Option.some.inj hq ▸ hnext
        · refine ⟨(hothers j hj).1, fun q hq => (hothers j hj).2 q ?_⟩
          rwa [Function.update_of_ne hj] at hq
      | killed s'' =>
        intro j
        dsimp only
        by_cases hj : j = i
        · subst hj
          refine ⟨hgives.2, fun q hq => ?_⟩
          rw [Function.update_self] at hq
          cases hq
        · refine ⟨(hothers j hj).1, fun q hq => (hothers j hj).2 q ?_⟩
          rwa [Function.update_of_ne hj] at hq
  · exact h

/-- A pool that keeps the pact does so after every legal schedule. -/
theorem Pool.Keeping.after : ∀ {sched : List (ι × M.Choice)} {p : Pool M α}, p.Keeping A → p.Legal A sched → (p.after sched).Keeping A
  | [], _, h, _ => h
  | _ :: _, _, h, hlegal => (h.turn hlegal.1).after hlegal.2

/-- What every thread keeps true holds after every legal schedule. -/
theorem Pool.Keeping.inv {p : Pool M α} (h : p.Keeping A) {sched : List (ι × M.Choice)} (hlegal : p.Legal A sched) (i : ι) :
    A.inv i (p.after sched).state :=
  ((h.after hlegal) i).1

end pools

end Fault

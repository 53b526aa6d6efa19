import Mathlib.Logic.Basic

/-!
# Programs that can fail and be killed

A program is a tree of commands. Each command answers with a value or with an error, and the program goes on from the answer.
A machine gives commands their meaning: it performs a command on a state, guided by a choice (whether the command fails, what
it answers, whether the process is killed while it runs). A script, the list of the choices, makes a run deterministic; a
script that runs out goes on with the calm choice, so that the empty script is the run without faults.
-/

namespace Fault

/-- The commands a program can issue, what each one answers when it succeeds, and the errors. -/
structure Sig where
  Cmd : Type
  Ans : Cmd → Type
  Err : Type

/-- A program over the commands of `S` that returns a value or fails with an error. -/
inductive Prog (S : Sig) (α : Type) : Type where
  | ret (a : α)
  | fail (e : S.Err)
  | cmd (c : S.Cmd) (k : Except S.Err (S.Ans c) → Prog S α)

namespace Prog

variable {S : Sig} {α β γ : Type}

/-- Run the first program, then the second on its result. An error ends the whole. -/
def bind : Prog S α → (α → Prog S β) → Prog S β
  | .ret a, f => f a
  | .fail e, _ => .fail e
  | .cmd c k, f => .cmd c fun r => (k r).bind f

instance : Monad (Prog S) where
  pure := .ret
  bind := .bind

/-- The program that issues one command. -/
def perform (c : S.Cmd) : Prog S (S.Ans c) :=
  .cmd c fun
    | .ok a => .ret a
    | .error e => .fail e

/-- The program that returns what another ended with, be it an error. -/
def attempt : Prog S α → Prog S (Except S.Err α)
  | .ret a => .ret (.ok a)
  | .fail e => .ret (.error e)
  | .cmd c k => .cmd c fun r => (k r).attempt

/-- Rewrite the error a program fails with. -/
def mapErr (g : S.Err → S.Err) : Prog S α → Prog S α
  | .ret a => .ret a
  | .fail e => .fail (g e)
  | .cmd c k => .cmd c fun r => (k r).mapErr g

/-- Return the value or fail with the error. -/
def ofExcept : Except S.Err α → Prog S α
  | .ok a => .ret a
  | .error e => .fail e

/-- Run a program on each element of a list, in order, until one fails. -/
def forEach : List α → (α → Prog S Unit) → Prog S Unit
  | [], _ => .ret ()
  | a :: as, f => (f a).bind fun _ => forEach as f

@[simp] theorem pure_eq (a : α) : (pure a : Prog S α) = .ret a := rfl

@[simp] theorem bind_eq (p : Prog S α) (f : α → Prog S β) : p >>= f = p.bind f := rfl

@[simp] theorem ret_bind (a : α) (f : α → Prog S β) : (Prog.ret a).bind f = f a := rfl

@[simp] theorem fail_bind (e : S.Err) (f : α → Prog S β) : (Prog.fail e : Prog S α).bind f = .fail e := rfl

@[simp] theorem ofExcept_ok_bind (a : α) (f : α → Prog S β) : (ofExcept (.ok a) : Prog S α).bind f = f a := rfl

@[simp] theorem ofExcept_error_bind (e : S.Err) (f : α → Prog S β) : (ofExcept (.error e) : Prog S α).bind f = .fail e := rfl

theorem bind_assoc (p : Prog S α) (f : α → Prog S β) (g : β → Prog S γ) :
    (p.bind f).bind g = p.bind fun a => (f a).bind g := by
  induction p with
  | ret a => rfl
  | fail e => rfl
  | cmd c k ih => exact congrArg (Prog.cmd c) (funext fun r => ih r)

/-! ## The commands of a program and the values it can return -/

/-- Every command of the program satisfies `A`, whatever the commands before it answered. -/
def Uses (A : S.Cmd → Prop) : Prog S α → Prop
  | .ret _ => True
  | .fail _ => True
  | .cmd c k => A c ∧ ∀ r, (k r).Uses A

/-- The program can return `a`, for some answers to its commands. -/
def CanReturn : Prog S α → α → Prop
  | .ret b, a => b = a
  | .fail _, _ => False
  | .cmd _ k, a => ∃ r, (k r).CanReturn a

@[simp] theorem uses_ret {A : S.Cmd → Prop} (a : α) : (ret a : Prog S α).Uses A := trivial

@[simp] theorem uses_fail {A : S.Cmd → Prop} (e : S.Err) : (fail e : Prog S α).Uses A := trivial

theorem uses_cmd {A : S.Cmd → Prop} {c : S.Cmd} {k : Except S.Err (S.Ans c) → Prog S α} :
    (cmd c k).Uses A ↔ A c ∧ ∀ r, (k r).Uses A := Iff.rfl

theorem uses_bind {A : S.Cmd → Prop} {p : Prog S α} {f : α → Prog S β} (hp : p.Uses A) (hf : ∀ a, (f a).Uses A) :
    (p.bind f).Uses A := by
  induction p with
  | ret a => exact hf a
  | fail e => trivial
  | cmd c k ih => exact ⟨hp.1, fun r => ih r (hp.2 r)⟩

theorem uses_perform {A : S.Cmd → Prop} {c : S.Cmd} (hc : A c) : (perform c).Uses A :=
  ⟨hc, fun r => by cases r <;> trivial⟩

theorem uses_attempt {A : S.Cmd → Prop} {p : Prog S α} (hp : p.Uses A) : p.attempt.Uses A := by
  induction p with
  | ret a => trivial
  | fail e => trivial
  | cmd c k ih => exact ⟨hp.1, fun r => ih r (hp.2 r)⟩

theorem uses_mapErr {A : S.Cmd → Prop} {p : Prog S α} (g : S.Err → S.Err) (hp : p.Uses A) : (p.mapErr g).Uses A := by
  induction p with
  | ret a => trivial
  | fail e => trivial
  | cmd c k ih => exact ⟨hp.1, fun r => ih r (hp.2 r)⟩

theorem uses_ofExcept {A : S.Cmd → Prop} (x : Except S.Err α) : (ofExcept x : Prog S α).Uses A := by
  cases x <;> trivial

theorem uses_forEach {A : S.Cmd → Prop} {f : α → Prog S Unit} :
    ∀ {as : List α}, (∀ a ∈ as, (f a).Uses A) → (forEach as f).Uses A
  | [], _ => trivial
  | a :: _, h => uses_bind (h a (by simp)) fun _ => uses_forEach fun b hb => h b (by simp [hb])

theorem uses_ite {A : S.Cmd → Prop} {b : Prop} [Decidable b] {p q : Prog S α} (hp : p.Uses A) (hq : q.Uses A) :
    (if b then p else q).Uses A := by
  split
  · exact hp
  · exact hq

theorem Uses.mono {A B : S.Cmd → Prop} {p : Prog S α} (h : ∀ c, A c → B c) (hp : p.Uses A) : p.Uses B := by
  induction p with
  | ret a => trivial
  | fail e => trivial
  | cmd c k ih => exact ⟨h c hp.1, fun r => ih r (hp.2 r)⟩

@[simp] theorem canReturn_ret {a b : α} : (ret a : Prog S α).CanReturn b ↔ a = b := Iff.rfl

@[simp] theorem canReturn_fail {e : S.Err} {a : α} : ¬(fail e : Prog S α).CanReturn a := id

theorem canReturn_cmd {c : S.Cmd} {k : Except S.Err (S.Ans c) → Prog S α} {a : α} :
    (cmd c k).CanReturn a ↔ ∃ r, (k r).CanReturn a := Iff.rfl

/-- What the second program can return, it can return on something that the first can return. -/
theorem canReturn_bind {p : Prog S α} {f : α → Prog S β} {b : β} :
    (p.bind f).CanReturn b ↔ ∃ a, p.CanReturn a ∧ (f a).CanReturn b := by
  induction p with
  | ret a =>
    constructor
    · intro h
      exact ⟨a, rfl, h⟩
    · rintro ⟨a', ha, h⟩
      rwa [canReturn_ret.1 ha]
  | fail e => exact ⟨False.elim, fun ⟨_, h, _⟩ => h⟩
  | cmd c k ih =>
    constructor
    · rintro ⟨r, h⟩
      obtain ⟨a, ha, hb⟩ := (ih r).1 h
      exact ⟨a, ⟨r, ha⟩, hb⟩
    · rintro ⟨a, ⟨r, ha⟩, hb⟩
      exact ⟨r, (ih r).2 ⟨a, ha, hb⟩⟩

/-- The commands of two programs, one after the other: those of the second count as far as the first can return. -/
theorem uses_bind_iff {A : S.Cmd → Prop} {p : Prog S α} {f : α → Prog S β} :
    (p.bind f).Uses A ↔ p.Uses A ∧ ∀ a, p.CanReturn a → (f a).Uses A := by
  induction p with
  | ret a =>
    constructor
    · intro h
      exact ⟨trivial, fun b hb => canReturn_ret.1 hb ▸ h⟩
    · intro h
      exact h.2 a rfl
  | fail e => exact ⟨fun _ => ⟨trivial, fun _ h => h.elim⟩, fun _ => trivial⟩
  | cmd c k ih =>
    constructor
    · rintro ⟨hc, hk⟩
      exact ⟨⟨hc, fun r => ((ih r).1 (hk r)).1⟩, fun a ⟨r, ha⟩ => ((ih r).1 (hk r)).2 a ha⟩
    · rintro ⟨⟨hc, hk⟩, hf⟩
      exact ⟨hc, fun r => (ih r).2 ⟨hk r, fun a ha => hf a ⟨r, ha⟩⟩⟩

theorem uses_perform_iff {A : S.Cmd → Prop} {c : S.Cmd} : (perform c).Uses A ↔ A c := ⟨fun h => h.1, uses_perform⟩

theorem uses_attempt_iff {A : S.Cmd → Prop} {p : Prog S α} : p.attempt.Uses A ↔ p.Uses A := by
  induction p with
  | ret a => exact Iff.rfl
  | fail e => exact Iff.rfl
  | cmd c k ih => exact and_congr_right fun _ => forall_congr' fun r => ih r

/-- A command that succeeds returns any of its answers. -/
theorem canReturn_perform {c : S.Cmd} (a : S.Ans c) : (perform c).CanReturn a := ⟨.ok a, rfl⟩

theorem canReturn_attempt_ok {p : Prog S α} {a : α} : p.attempt.CanReturn (.ok a) ↔ p.CanReturn a := by
  induction p with
  | ret b => exact ⟨fun h => Except.ok.inj h, fun h => congrArg Except.ok h⟩
  | fail e => exact ⟨fun h => (nomatch (show Except.error e = Except.ok a from h)), False.elim⟩
  | cmd c k ih => exact exists_congr fun r => ih r

theorem canReturn_mapErr {p : Prog S α} {g : S.Err → S.Err} {a : α} : (p.mapErr g).CanReturn a ↔ p.CanReturn a := by
  induction p with
  | ret a => exact Iff.rfl
  | fail e => exact Iff.rfl
  | cmd c k ih => exact exists_congr fun r => ih r

theorem canReturn_ofExcept {x : Except S.Err α} {a : α} : (ofExcept x : Prog S α).CanReturn a ↔ x = .ok a := by
  cases x with
  | error e => exact ⟨False.elim, nofun⟩
  | ok b => exact ⟨fun h => congrArg Except.ok h, fun h => Except.ok.inj h⟩

-- The rules above are all that proofs use, and unfolding the predicates would evaluate the conditions of the program.
attribute [irreducible] Uses CanReturn

end Prog
end Fault

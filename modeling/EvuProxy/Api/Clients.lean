import Mathlib.Data.List.Induction
import EvuProxy.Web.ConfigSave
import EvuProxy.Cmd.Peers

/-!
# Everyone who saves the config

Browser tabs, other clients of the API, and the peer commands, each with a thread of its own, in any number and any order of their steps.
What each thread keeps is said of its trail: a save that is reported replaced exactly what its edit was computed from.
-/

namespace EvuProxy

open Fault Fault.Prog

variable {Γ : Ctx} {ι : Type}

/-- Someone who reads or writes config.yaml. -/
inductive Actor where
  | tab (t : Tab)
  | put (c : Config) (ifMatch : List String)
  | discard
  | restorePrevious
  | peer (p : PeerCommand)

/-- Whether an actor is a tab. -/
abbrev Actor.IsTab : Actor → Bool
  | .tab _ => true
  | _ => false

/-- Whether an actor is a peer command. -/
abbrev Actor.IsPeer : Actor → Bool
  | .peer _ => true
  | _ => false

/-- The program of an actor. -/
def Actor.prog : Actor → Thread Γ Unit
  | .tab t => t.prog none
  | .put c ifMatch => do
    let _ ← handleConfigPut (Γ := Γ) c ifMatch
  | .discard => handleConfigDiscard
  | .restorePrevious => handleConfigRestorePreviousApplied
  | .peer p => p.prog

/-- The actors on a host, before any of them has done a step. -/
def clients [DecidableEq ι] (actors : ι → Actor) (w : World Γ) : Pool (locked (watch Γ) ι) Unit where
  state := { base := w, trail := fun _ => {} }
  rest i := some (actors i).prog

/-! ## What a trail shows -/

/-- Every save that was reported to be successful was one write since it began, and that write replaced exactly the config that the edit was
computed from by that config with the edit applied once. -/
def Kept (log : List (Entry Γ)) : Prop :=
  ∀ pre edit base draft post, log = pre ++ .saved edit base draft :: post →
    ∃ pre' old new, pre = pre' ++ [.began, .wrote (some old) new] ∧ edit base = .ok (some draft) ∧
      parseConfig Γ old = .ok base ∧ Γ.marshalConfig draft.normalize = .ok new

theorem kept_nil : Kept ([] : List (Entry Γ)) := by
  intro pre edit base draft post h
  exact absurd (congrArg List.length h) (by simp)

/-- A list that ends with `x` and holds `y`: `y` is `x` or stands in the list before it. -/
theorem snoc_eq_split {α : Type} {xs pre post : List α} {x y : α} (h : xs ++ [x] = pre ++ y :: post) :
    (∃ post', post = post' ++ [x] ∧ xs = pre ++ y :: post') ∨ post = [] ∧ y = x ∧ pre = xs := by
  cases post using List.reverseRecOn with
  | nil =>
    obtain ⟨hpre, hy⟩ := List.append_inj' h rfl
    exact Or.inr ⟨rfl, (List.cons.inj hy).1.symm, hpre.symm⟩
  | append_singleton post' z =>
    have h' : xs ++ [x] = (pre ++ y :: post') ++ [z] := by rw [h, List.append_assoc, List.cons_append]
    obtain ⟨hxs, hz⟩ := List.append_inj' h' rfl
    exact Or.inl ⟨post', by rw [(List.cons.inj hz).1], hxs⟩

/-- Only a report can break what a trail shows. -/
theorem Kept.snoc {log : List (Entry Γ)} {e : Entry Γ} (h : Kept log) (he : ∀ edit base draft, e ≠ .saved edit base draft) :
    Kept (log ++ [e]) := by
  intro pre edit base draft post hsplit
  rcases snoc_eq_split hsplit with ⟨post', -, hlog⟩ | ⟨-, heq, -⟩
  · exact h pre edit base draft post' hlog
  · exact absurd heq.symm (he edit base draft)

theorem Kept.saved {pre : List (Entry Γ)} {edit : Edit} {base draft : Config} {old new : Γ.Bytes}
    (h : Kept (pre ++ [.began, .wrote (some old) new])) (hedit : edit base = .ok (some draft)) (hold : parseConfig Γ old = .ok base)
    (hnew : Γ.marshalConfig draft.normalize = .ok new) :
    Kept (pre ++ [.began, .wrote (some old) new] ++ [.saved edit base draft]) := by
  intro pre' edit' base' draft' post hsplit
  rcases snoc_eq_split hsplit with ⟨post', -, hlog⟩ | ⟨-, heq, hpre⟩
  · exact h pre' edit' base' draft' post' hlog
  · obtain ⟨rfl, rfl, rfl⟩ := Entry.saved.inj heq
    exact ⟨pre, old, new, hpre, hedit, hold, hnew⟩

/-! ## The terms -/

/-- A request that reads config.yaml again without the lock finds what it found before. -/
def SameRead (i : ι) (c : ThreadCmd (Cmd Γ) Note) (s : LockState (watch Γ) ι) : Prop :=
  match c with
  | .call (.readFile f) => f = .config → s.holder ≠ some i → ∀ b, (s.trail i).seen = some b → s.base.files .config = b
  | _ => True

/-- A request that replaces config.yaml finds in it what it has read. -/
def SameWrite (i : ι) (c : ThreadCmd (Cmd Γ) Note) (s : LockState (watch Γ) ι) : Prop :=
  match c with
  | .call (.writeFile f _) => f = .config → ∀ b, (s.trail i).seen = some b → s.base.files .config = b
  | _ => True

section decidable

variable [DecidableEq ι] [DecidableEq Γ.Bytes]

instance (b : Option Γ.Bytes) (t : Option (Option Γ.Bytes)) : Decidable (∀ b', t = some b' → b = b') :=
  match t with
  | none => isTrue nofun
  | some b' => decidable_of_iff (b = b') ⟨fun h _ he => Option.some.inj he ▸ h, fun h => h b' rfl⟩

instance (i : ι) (c : ThreadCmd (Cmd Γ) Note) (s : LockState (watch Γ) ι) : Decidable (SameRead i c s) := by
  unfold SameRead
  split <;> infer_instance

instance (i : ι) (c : ThreadCmd (Cmd Γ) Note) (s : LockState (watch Γ) ι) : Decidable (SameWrite i c s) := by
  unfold SameWrite
  split <;> infer_instance

end decidable

theorem kept_saw {c : Cmd Γ} {r : Except Err (c.Ans Γ)} {w : World Γ} {t : Trail Γ} (h : Kept t.log) : Kept (Trail.saw c r w t).log := by
  cases c with
  | readFile f =>
    unfold Trail.saw
    dsimp only
    split
    · exact h
    · exact h
  | writeFile f b =>
    unfold Trail.saw
    dsimp only
    split
    · exact h.snoc fun _ _ _ he => by cases he
    · exact h
  | _ => exact h

theorem lock_state {c : Cmd Γ} (ch : Choice Γ) (w : World Γ) (hlock : c.isLock = true) : (hostStep c ch w).state = w := by
  cases c with
  | acquireApplyLock =>
    unfold hostStep
    cases ch.fate <;> simp [Cmd.infallible, Cmd.mayTake, broken, effect, Outcome.state]
  | _ => exact absurd hlock Bool.false_ne_true

/-- The terms of the actors in `P`: a condition on the commands, and trails that show that no save was lost. -/
def savingTerms (allows : ι → ThreadCmd (Cmd Γ) Note → LockState (watch Γ) ι → Prop) (P : ι → Prop) : Terms (watch Γ) ι where
  allows i c _ s := allows i c s
  inv i t := P i → Kept t.log
  saw _ _ _ _ _ h hP := kept_saw (h hP)
  lock _ ch w hlock := lock_state ch w hlock

instance {allows : ι → ThreadCmd (Cmd Γ) Note → LockState (watch Γ) ι → Prop} {P : ι → Prop} [∀ i c s, Decidable (allows i c s)]
    (i : ι) (c : ThreadCmd (Cmd Γ) Note) (ch : LockChoice (host Γ)) (s : LockState (watch Γ) ι) :
    Decidable ((savingTerms allows P).allows i c ch s) :=
  inferInstanceAs (Decidable (allows i c s))

end EvuProxy

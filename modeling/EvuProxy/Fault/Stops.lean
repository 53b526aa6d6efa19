import EvuProxy.Fault.Machine

/-!
# Programs that keep a predicate wherever they stop

`Stops R T p P s` says of every run of `p` from `s`: wherever the run stops, be it killed, failed or done, the state satisfies `T`, and
if it returns `a`, the state satisfies `P a` as well. `T` is what a caller relies on after a failure, `P` what it relies on after a
success.
-/

namespace Fault

variable {S : Sig} {M : Machine S} {α β γ : Type} {R : Rules M} {T U : M.State → Prop} {s : M.State}

/-- Wherever a run of `p` stops `T` holds, and `P` if it returns. -/
def Stops (R : Rules M) (T : M.State → Prop) (p : Prog S α) (P : α → M.State → Prop) (s : M.State) : Prop :=
  wp (R.withCrash T) p (fun r s' => T s' ∧ ∀ a, r = .ok a → P a s') s

namespace Stops

theorem of_wp {p : Prog S α} {P : α → M.State → Prop}
    (h : wp (R.withCrash T) p (fun r s' => T s' ∧ ∀ a, r = .ok a → P a s') s) : Stops R T p P s := h

theorem wp {p : Prog S α} {P : α → M.State → Prop} (h : Stops R T p P s) :
    wp (R.withCrash T) p (fun r s' => T s' ∧ ∀ a, r = .ok a → P a s') s := h

theorem ret {P : α → M.State → Prop} {a : α} (hT : T s) (hP : P a s) : Stops R T (.ret a) P s :=
  wp_of_ret ⟨hT, fun b hb => by cases hb; exact hP⟩

theorem fail {P : α → M.State → Prop} {e : S.Err} (hT : T s) : Stops R T (.fail e : Prog S α) P s := wp_of_fail ⟨hT, nofun⟩

theorem bind {p : Prog S α} {f : α → Prog S β} {P : α → M.State → Prop} {Q : β → M.State → Prop} (hp : Stops R T p P s)
    (hf : ∀ a s', T s' → P a s' → Stops R T (f a) Q s') : Stops R T (p.bind f) Q s := by
  refine wp_bind.2 (wp_post ?_ hp)
  rintro (e | a) s' ⟨hT, hP⟩
  · exact ⟨hT, nofun⟩
  · exact hf a s' hT (hP a rfl)

theorem mono {p : Prog S α} {P Q : α → M.State → Prop} (hT : ∀ s', T s' → U s') (hPQ : ∀ a s', T s' → P a s' → Q a s')
    (hp : Stops R T p P s) : Stops R U p Q s :=
  wp_mono (R := R.withCrash T) (fun _ _ _ h => h) hT
    (fun _ _ h => ⟨hT _ h.1, fun a ha => hPQ a _ h.1 (h.2 a ha)⟩) hp

/-- Consequence for what holds when a program returns. -/
theorem post {p : Prog S α} {P Q : α → M.State → Prop} (hPQ : ∀ a s', T s' → P a s' → Q a s') (hp : Stops R T p P s) :
    Stops R T p Q s :=
  hp.mono (fun _ h => h) hPQ

/-- The program is called from a program that keeps more: `s'` is what the call does to the state. -/
theorem call {p : Prog S α} {f : α → Prog S β} {P : α → M.State → Prop} {Q : β → M.State → Prop} (hp : Stops R U p P s)
    (hT : ∀ s', U s' → T s') (hf : ∀ a s', U s' → P a s' → Stops R T (f a) Q s') : Stops R T (p.bind f) Q s :=
  bind (P := fun a s' => U s' ∧ P a s') (hp.mono hT fun _ _ h h' => ⟨h, h'⟩) fun a s' _ h => hf a s' h.1 h.2

theorem attempt {p : Prog S α} {P : α → M.State → Prop} (hp : Stops R T p P s) :
    Stops R T p.attempt (fun r s' => T s' ∧ ∀ a, r = .ok a → P a s') s :=
  wp_attempt.2 (wp_post (fun _ _ h => ⟨h.1, fun _ hr => by cases hr; exact h⟩) hp)

/-- An attempt, where what holds after a failure is not what holds wherever the program stops. -/
theorem attempt_of_wp {p : Prog S α} {P : Except S.Err α → M.State → Prop}
    (h : Fault.wp (R.withCrash T) p (fun r s' => T s' ∧ P r s') s) : Stops R T p.attempt P s :=
  wp_attempt.2 (wp_post (fun _ _ h => ⟨h.1, fun _ hr => by cases hr; exact h.2⟩) h)

theorem mapErr {p : Prog S α} {P : α → M.State → Prop} (g : S.Err → S.Err) (hp : Stops R T p P s) : Stops R T (p.mapErr g) P s :=
  wp_mapErr.2 (wp_post (fun r _ h => ⟨h.1, fun a ha => h.2 a (by cases r with | ok b => exact ha | error e => cases ha)⟩) hp)

theorem ofExcept {x : Except S.Err α} {P : α → M.State → Prop} (hT : T s) (hP : ∀ a, x = .ok a → P a s) :
    Stops R T (Prog.ofExcept x) P s := by
  rw [Stops, wp_ofExcept]
  exact ⟨hT, hP⟩

theorem ite {b : Prop} [Decidable b] {p q : Prog S α} {P : α → M.State → Prop} (hp : b → Stops R T p P s)
    (hq : ¬b → Stops R T q P s) : Stops R T (if b then p else q) P s :=
  wp_ite hp hq

theorem forEach {f : α → Prog S Unit} {J : List α → M.State → Prop} :
    ∀ {as : List α} {s : M.State}, (∀ a as s, T s → J (a :: as) s → Stops R T (f a) (fun _ s' => J as s') s) → T s → J as s →
      Stops R T (Prog.forEach as f) (fun _ s' => J [] s') s
  | [], _, _, hT, hJ => .ret hT hJ
  | a :: as, _, hf, hT, hJ => .bind (hf a as _ hT hJ) fun _ _ hT' hJ' => forEach hf hT' hJ'

/-- A program of which only what its commands may do matters. -/
theorem of_uses {A : S.Cmd → Prop} {F : M.State → M.State → Prop} {p : Prog S α} (hrefl : ∀ s, F s s)
    (htrans : ∀ {a b c}, F a b → F b c → F a c)
    (hA : ∀ c, A c → ∀ ch s, R.allows c ch s → F s (M.step c ch s).state) (hp : p.Uses A) :
    Stops R (F s) p (fun a _ => p.CanReturn a) s :=
  wp_post (fun _ _ h => ⟨h.1, h.2⟩) (wp_canReturn (wp_of_uses hrefl htrans hA hp))

/-- The run of a program. -/
theorem sat {p : Prog S α} {P : α → M.State → Prop} {cs : List M.Choice} (hp : Stops R T p P s) (ha : Allowed R p cs s) :
    T (M.run p cs s).state ∧ ∀ a s', M.run p cs s = .done (.ok a) s' → P a s' := by
  have h := run_sat hp ha.withCrash
  cases hr : M.run p cs s with
  | done r s' =>
    rw [hr] at h
    exact ⟨h.1, fun a s'' he => by cases he; exact h.2 a rfl⟩
  | killed s' =>
    rw [hr] at h
    exact ⟨h, nofun⟩

end Stops

-- The rules above are all that proofs use.
attribute [irreducible] Stops

end Fault

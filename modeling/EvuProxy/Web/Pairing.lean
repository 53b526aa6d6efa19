import Mathlib.Data.List.Sort

/-!
# Pairing two lists by a key

One pass over the free places of two lists pairs each place on the left with the first free place on the right that has its key. What
is paired and what is left over add up to what was free, and two lists with the same keys are paired place by place.
-/

namespace Pairing

variable {κ : Type} [DecidableEq κ]

/-- What a pass makes of the free places: the pairs, and the places that stay free on either side. -/
structure Paired where
  pairs : List (Nat × Nat)
  left : List Nat
  right : List Nat
  deriving DecidableEq

/-- One pass over the free places. A place without a key is not paired. -/
def pass (keyLeft keyRight : Nat → Option κ) : List Nat → List Nat → Paired
  | [], free => { pairs := [], left := [], right := free }
  | b :: bs, free =>
    match (keyLeft b).bind fun k => free.find? fun a => keyRight a = some k with
    | none =>
      let rest := pass keyLeft keyRight bs free
      { rest with left := b :: rest.left }
    | some a =>
      let rest := pass keyLeft keyRight bs (free.erase a)
      { rest with pairs := (b, a) :: rest.pairs }

section

variable (keyLeft keyRight : Nat → Option κ)

theorem pass_cons_none {b : Nat} {bs free : List Nat} (h : ((keyLeft b).bind fun k => free.find? fun a => keyRight a = some k) = none) :
    pass keyLeft keyRight (b :: bs) free =
      { pass keyLeft keyRight bs free with left := b :: (pass keyLeft keyRight bs free).left } := by
  rw [pass, h]

theorem pass_cons_some {b a : Nat} {bs free : List Nat}
    (h : ((keyLeft b).bind fun k => free.find? fun a => keyRight a = some k) = some a) :
    pass keyLeft keyRight (b :: bs) free =
      { pass keyLeft keyRight bs (free.erase a) with pairs := (b, a) :: (pass keyLeft keyRight bs (free.erase a)).pairs } := by
  rw [pass, h]

/-- Every place on the left is paired or left over. -/
theorem pass_left (bs free : List Nat) :
    bs.Perm ((pass keyLeft keyRight bs free).pairs.map Prod.fst ++ (pass keyLeft keyRight bs free).left) := by
  induction bs generalizing free with
  | nil => simp [pass]
  | cons b bs ih =>
    cases h : (keyLeft b).bind fun k => free.find? fun a => keyRight a = some k with
    | none =>
      rw [pass_cons_none _ _ h]
      exact ((ih free).cons b).trans List.perm_middle.symm
    | some a =>
      rw [pass_cons_some _ _ h]
      exact (ih (free.erase a)).cons b

/-- What a place is paired with was free, and has its key. -/
theorem found {b a : Nat} {free : List Nat} (h : ((keyLeft b).bind fun k => free.find? fun a => keyRight a = some k) = some a) :
    a ∈ free ∧ ∃ k, keyLeft b = some k ∧ keyRight a = some k := by
  obtain ⟨k, hk, hfind⟩ := Option.bind_eq_some_iff.1 h
  exact ⟨List.mem_of_find?_eq_some hfind, k, hk, by simpa using List.find?_some hfind⟩

/-- Every place on the right is paired or left over. -/
theorem pass_right (bs free : List Nat) :
    free.Perm ((pass keyLeft keyRight bs free).pairs.map Prod.snd ++ (pass keyLeft keyRight bs free).right) := by
  induction bs generalizing free with
  | nil => simp [pass]
  | cons b bs ih =>
    cases h : (keyLeft b).bind fun k => free.find? fun a => keyRight a = some k with
    | none =>
      rw [pass_cons_none _ _ h]
      exact ih free
    | some a =>
      rw [pass_cons_some _ _ h]
      have hperm := List.perm_cons_erase (found keyLeft keyRight h).1
      exact hperm.trans ((ih (free.erase a)).cons a)

/-- The two places of a pair have the same key. -/
theorem pass_keys (bs free : List Nat) {p : Nat × Nat} (hp : p ∈ (pass keyLeft keyRight bs free).pairs) :
    ∃ k, keyLeft p.1 = some k ∧ keyRight p.2 = some k := by
  induction bs generalizing free with
  | nil => simp [pass] at hp
  | cons b bs ih =>
    cases h : (keyLeft b).bind fun k => free.find? fun a => keyRight a = some k with
    | none =>
      rw [pass_cons_none _ _ h] at hp
      exact ih free hp
    | some a =>
      rw [pass_cons_some _ _ h] at hp
      rcases List.mem_cons.1 hp with rfl | hp
      · exact (found keyLeft keyRight h).2
      · exact ih _ hp

/-- Lists with the same keys are paired place by place. -/
theorem pass_self (bs : List Nat) (h : ∀ b ∈ bs, (keyLeft b).isSome ∧ keyLeft b = keyRight b) :
    pass keyLeft keyRight bs bs = { pairs := bs.map fun b => (b, b), left := [], right := [] } := by
  induction bs with
  | nil => rfl
  | cons b bs ih =>
    have ih := ih fun c hc => h c (List.mem_cons_of_mem b hc)
    obtain ⟨hsome, hkey⟩ := h b List.mem_cons_self
    obtain ⟨k, hk⟩ := Option.isSome_iff_exists.1 hsome
    have hfind : ((keyLeft b).bind fun k => (b :: bs).find? fun a => keyRight a = some k) = some b := by
      simp [hk, ← hkey]
    rw [pass_cons_some _ _ hfind, List.erase_cons_head, ih]
    rfl

end

end Pairing

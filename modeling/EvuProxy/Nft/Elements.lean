import EvuProxy.Nft.Text
import Mathlib.Logic.Function.Basic

/-!
# What a file leaves in the sets

The elements of every set after a file is loaded, from those before. A table that is declared adds to its sets, since `nft -f` merges
a declaration with what is there.
-/

namespace Nft

/-- A set: the family and the name of its table, and its own name. -/
abbrev SetKey := String × String × String

/-- The elements of the sets. -/
abbrev SetState := SetKey → List String

/-- The elements that a table declares for a set. -/
def Table.elements (t : Table) (k : SetKey) : List String :=
  if k.1 = t.family ∧ k.2.1 = t.name then t.sets.flatMap fun d => if d.name = k.2.2 then d.elements else [] else []

/-- What a command makes of the elements. -/
def Command.load (m : SetState) : Command → SetState
  | .deleteTable f t => fun k => if k.1 = f ∧ k.2.1 = t then [] else m k
  | .table t => fun k => m k ++ t.elements k
  | .flushSet f t s => Function.update m (f, t, s) []
  | .addElement f t s es => Function.update m (f, t, s) (m (f, t, s) ++ es)
  | _ => m

/-- What a file makes of the elements. -/
def loadScript (s : Script) (m : SetState) : SetState := s.foldl Command.load m

variable {m : SetState}

@[simp]
theorem loadScript_nil : loadScript [] m = m := rfl

@[simp]
theorem loadScript_cons (c : Command) (s : Script) : loadScript (c :: s) m = loadScript s (c.load m) := rfl

theorem loadScript_append (s t : Script) : loadScript (s ++ t) m = loadScript t (loadScript s m) := List.foldl_append

/-- Empty a set of a table and fill it again. -/
def refill (family table set : String) (elems : List String) : Script :=
  [.flushSet family table set, .addElement family table set elems]

theorem loadScript_refill {f t s : String} {es : List String} : loadScript (refill f t s es) m = Function.update m (f, t, s) es := by
  funext k
  simp only [refill, loadScript_cons, loadScript_nil, Command.load, Function.update_self, List.nil_append]
  by_cases hk : k = (f, t, s)
  · rw [hk, Function.update_self, Function.update_self]
  · rw [Function.update_of_ne hk, Function.update_of_ne hk, Function.update_of_ne hk]

/-- Empty sets of a table and fill them again, in several families. -/
def refillAll (families : List String) (table : String) (sets : List (String × List String)) : Script :=
  sets.flatMap fun p => families.flatMap fun f => refill f table p.1 p.2

theorem loadScript_families {fs : List String} {t s : String} {es : List String} (k : SetKey) :
    loadScript (fs.flatMap fun f => refill f t s es) m k = if k.1 ∈ fs ∧ k.2 = (t, s) then es else m k := by
  induction fs generalizing m with
  | nil => simp
  | cons f fs ih =>
    rw [List.flatMap_cons, loadScript_append, loadScript_refill, ih]
    by_cases hin : k.1 ∈ fs ∧ k.2 = (t, s)
    · rw [if_pos hin, if_pos ⟨List.mem_cons_of_mem _ hin.1, hin.2⟩]
    · rw [if_neg hin]
      by_cases hk : k = (f, t, s)
      · rw [hk, Function.update_self, if_pos ⟨List.mem_cons_self, rfl⟩]
      · rw [Function.update_of_ne hk, if_neg]
        rintro ⟨hmem, hset⟩
        rcases List.mem_cons.mp hmem with hf | hmem
        · exact hk (Prod.ext hf hset)
        · exact hin ⟨hmem, hset⟩

variable {families : List String} {f t n : String} {sets : List (String × List String)}

theorem refillAll_cons (p : String × List String) : refillAll families t (p :: sets) =
    (families.flatMap fun f => refill f t p.1 p.2) ++ refillAll families t sets := List.flatMap_cons

/-- A set that is not refilled keeps its elements. -/
theorem loadScript_refillAll_of_notMem (h : n ∉ sets.map Prod.fst) : loadScript (refillAll families t sets) m (f, t, n) = m (f, t, n) := by
  induction sets generalizing m with
  | nil => rfl
  | cons p sets ih =>
    rw [List.map_cons, List.mem_cons, not_or] at h
    rw [refillAll_cons, loadScript_append, ih h.2, loadScript_families, if_neg]
    rintro ⟨-, hset⟩
    exact h.1 (Prod.mk.inj hset).2

/-- A set that is refilled once holds what it was refilled with. -/
theorem loadScript_refillAll {es : List String} (hf : f ∈ families) (hnodup : (sets.map Prod.fst).Nodup) (h : (n, es) ∈ sets) :
    loadScript (refillAll families t sets) m (f, t, n) = es := by
  induction sets generalizing m with
  | nil => cases h
  | cons p sets ih =>
    rw [List.map_cons, List.nodup_cons] at hnodup
    rw [refillAll_cons, loadScript_append]
    rcases List.mem_cons.mp h with rfl | h
    · rw [loadScript_refillAll_of_notMem hnodup.1, loadScript_families, if_pos ⟨hf, rfl⟩]
    · exact ih hnodup.2 h

end Nft

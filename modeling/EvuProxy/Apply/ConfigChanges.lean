import Mathlib.Algebra.Order.Group.Multiset
import Mathlib.Algebra.Order.Sub.Basic
import Mathlib.Data.Multiset.OrderedMonoid
import EvuProxy.Go.Yaml

/-!
# Counting changes

`internal/apply/config_changes.go`: how many things differ between two config files.
-/

namespace EvuProxy

open Go

variable {α : Type} [DecidableEq α] (text : α → String)

/-- The loop over the rows of `b`: the rows of `a` that are left, and how many of `b` were not among them. -/
def takeRows : List String → List String → Nat → List String × Nat
  | seen, [], onlyB => (seen, onlyB)
  | seen, key :: keys, onlyB =>
    if key ∈ seen then takeRows (seen.erase key) keys onlyB else takeRows seen keys (onlyB + 1)

/-- `countListChanges`. -/
def countListChanges (a b : List (Yaml α)) : Nat :=
  let left := takeRows (a.map (Yaml.text text)) (b.map (Yaml.text text)) 0
  max left.1.length left.2

/-- `countValueChanges` of a value where there was none. -/
def countNewValue : Yaml α → Nat
  | .null => 0
  | .list rows => rows.length
  | _ => 1

mutual

/-- `countValueChanges`. -/
def countValueChanges : Yaml α → Yaml α → Nat
  | .map am, .map bm =>
    countFields am bm + ((bm.filter (·.1 ∉ am.map Prod.fst)).map fun f => countNewValue f.2).sum
  | .list al, .list bl => countListChanges text al bl
  | .list al, .null => countListChanges text al []
  | .null, .list bl => bl.length
  | a, b => if Yaml.deepEqual a b then 0 else 1

/-- The fields of the first map. -/
def countFields : List (String × Yaml α) → List (String × Yaml α) → Nat
  | [], _ => 0
  | (key, av) :: am, bm => countValueChanges av (Yaml.get bm key) + countFields am bm

end

/-- `configChangeCount`. -/
def configChangeCount (unmarshal : String → Option (Document α)) (a b : String) : Nat :=
  match unmarshal a, unmarshal b with
  | some av, some bv => countValueChanges text av.value bv.value
  | _, _ => 0

/-! ## Lists -/

omit [DecidableEq α] in
theorem takeRows_eq : ∀ (seen keys : List String) (n : Nat), takeRows seen keys n = (seen.diff keys, n + (keys.diff seen).length)
  | seen, [], n => by
    rw [takeRows, List.diff_nil, List.nil_diff, List.length_nil, Nat.add_zero]
  | seen, key :: keys, n => by
    unfold takeRows
    rw [List.diff_cons, List.cons_diff]
    by_cases hkey : key ∈ seen
    · rw [if_pos hkey, if_pos hkey, takeRows_eq]
    · rw [if_neg hkey, if_neg hkey, takeRows_eq, List.erase_of_not_mem hkey, List.length_cons, Nat.add_assoc, Nat.add_comm 1]

omit [DecidableEq α] in
theorem countListChanges_eq (a b : List (Yaml α)) : countListChanges text a b =
    max ((a.map (Yaml.text text)).diff (b.map (Yaml.text text))).length ((b.map (Yaml.text text)).diff (a.map (Yaml.text text))).length := by
  rw [countListChanges, takeRows_eq, Nat.zero_add]

omit [DecidableEq α] in
theorem countListChanges_comm (a b : List (Yaml α)) : countListChanges text a b = countListChanges text b a := by
  rw [countListChanges_eq, countListChanges_eq, Nat.max_comm]

/-- Nothing is left of a list when another is taken from it, just when it is part of that. -/
theorem diff_eq_nil {β : Type} [DecidableEq β] {xs ys : List β} : xs.diff ys = [] ↔ (xs : Multiset β) ≤ ys := by
  rw [← tsub_eq_zero_iff_le, Multiset.coe_sub, Multiset.coe_eq_zero]

omit [DecidableEq α] in
/-- Lists differ by nothing where their rows print as the same texts. -/
theorem countListChanges_eq_zero (a b : List (Yaml α)) :
    countListChanges text a b = 0 ↔ (a.map (Yaml.text text)).Perm (b.map (Yaml.text text)) := by
  rw [countListChanges_eq, Nat.max_eq_zero_iff, List.length_eq_zero_iff, List.length_eq_zero_iff, diff_eq_nil, diff_eq_nil,
    ← Multiset.coe_eq_coe]
  exact ⟨fun h => le_antisymm h.1 h.2, fun h => ⟨h.le, h.ge⟩⟩

end EvuProxy

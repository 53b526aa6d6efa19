import EvuProxy.Go.Lexical
import EvuProxy.Wg.Syntax

/-!
# Allowed addresses

The prefixes of an `AllowedIPs` value, and the addresses they cover. The bits of an address after its prefix do not count.
-/

namespace Wg

open Go

/-- A prefix: an address, and how many of its bits count. -/
abbrev Prefix := Addr × Nat

/-- Whether an address begins with the bits of a prefix. -/
def InPrefix : Prefix → Addr → Prop
  | (.v4 a, n), .v4 b => b / 2 ^ (32 - n) = a / 2 ^ (32 - n)
  | (.v6 a, n), .v6 b => b / 2 ^ (128 - n) = a / 2 ^ (128 - n)
  | _, _ => False

instance : ∀ (p : Prefix) (b : Addr), Decidable (InPrefix p b)
  | (.v4 _, _), .v4 _ | (.v6 _, _), .v6 _ => inferInstanceAs (Decidable (_ = _))
  | (.v4 _, _), .v6 _ | (.v6 _, _), .v4 _ => isFalse id

/-- An entry of an `AllowedIPs` value: an address counts as the prefix of all its bits. -/
def readPrefix (s : String) : Option Prefix :=
  if containsChar s '/' then parseCIDR s else (parseIP s).map fun a => (a, a.bitLen)

/-- The prefixes of an `AllowedIPs` value. -/
def allowedIPs (value : String) : List Prefix := (listOf value).filterMap readPrefix

/-- Whether an `AllowedIPs` value lets an address through. -/
def Allows (value : String) (b : Addr) : Prop := ∃ p ∈ allowedIPs value, InPrefix p b

instance (value : String) (b : Addr) : Decidable (Allows value b) := inferInstanceAs (Decidable (∃ p ∈ allowedIPs value, InPrefix p b))

/-! ## One host -/

/-- The prefix of all bits of an address covers that address alone. -/
theorem inPrefix_host (a b : Addr) : InPrefix (a, a.bitLen) b ↔ b = a := by
  cases a <;> cases b <;> simp [InPrefix, Addr.bitLen]

/-- A shorter prefix of an IPv6 address covers another address as well. -/
theorem inPrefix_another {a n : Nat} (hn : n < 128) : ∃ b, b ≠ Addr.v6 a ∧ InPrefix (.v6 a, n) b := by
  -- The last bit does not count.
  refine ⟨.v6 (2 * (a / 2) + (1 - a % 2)), fun h => ?_, ?_⟩
  · have := Addr.v6.inj h
    omega
  · have hpow : (2 : Nat) ^ (128 - n) = 2 * 2 ^ (127 - n) := by
      rw [← Nat.pow_succ']
      congr 1
      omega
    show _ / _ = _ / _
    rw [hpow, ← Nat.div_div_eq_div_mul, ← Nat.div_div_eq_div_mul]
    congr 1
    omega

theorem allowedIPs_single {s : String} (h : ∀ c ∈ s.toList, c ≠ ',' ∧ isBlank c = false) :
    allowedIPs s = (readPrefix s).toList := by
  have hlist : listOf s = [s] := by
    unfold listOf
    rw [splitList_noSep fun c hc => beq_eq_false_iff_ne.mpr (h c hc).1, List.map_singleton, trim_of_not_blank fun c hc => (h c hc).2,
      String.ofList_toList]
  rw [allowedIPs, hlist]
  cases hp : readPrefix s <;> simp [hp]

/-- An address with a prefix length after it. -/
theorem parseCIDR_slash {s : String} {a : Addr} {n : Nat} (hs : '/' ∉ s.toList) (ha : parseIP s = some a) (hn : n ≤ a.bitLen) :
    parseCIDR (s ++ "/" ++ toString n) = some (a, n) := by
  have hcut : cut (s ++ "/" ++ toString n) '/' = some (s, toString n) := by
    have h := @cut_of_toList (s ++ "/" ++ toString n) s '/' (toString n).toList hs (by simp)
    rwa [String.ofList_toList] at h
  have hval : digitsVal (toString n).toList = n := digitsVal_toString n
  have hmask : (toString n).toList ≠ [] ∧ (toString n).toList.all isDigit ∧ digitsVal (toString n).toList ≤ a.bitLen :=
    ⟨toString_ne_nil n, List.all_eq_true.mpr (isDigit_toString n), by rwa [hval]⟩
  unfold parseCIDR
  rw [hcut]
  simp only [bind, Option.bind, ha]
  rw [if_pos hmask, hval]

end Wg

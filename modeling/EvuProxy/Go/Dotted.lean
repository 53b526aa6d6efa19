import EvuProxy.Go.Net
import EvuProxy.Go.Numeral
import EvuProxy.Go.Path

/-!
# Dotted decimal

An IPv4 address that is written in dotted decimal, alone or with a prefix length, is read back as itself.
-/

namespace Go

theorem parseOctet_toString {n : Nat} (h : n < 256) : parseOctet (toString n).toList = some n := by
  have hall : ∀ n : Fin 256, parseOctet (toString n.val).toList = some n.val := by decide +kernel
  exact hall ⟨n, h⟩

theorem toString_noDot (n : Nat) : ∀ c ∈ (toString n).toList, (c == '.') = false := by
  intro c hc
  refine beq_eq_false_iff_ne.mpr ?_
  rintro rfl
  exact absurd (isDigit_toString n _ hc) (by decide)

theorem ipv4String_toList (a : Nat) : (ipv4String a).toList = (toString (a / 2 ^ 24)).toList ++ '.' :: ((toString (a / 2 ^ 16 % 256)).toList ++
    '.' :: ((toString (a / 2 ^ 8 % 256)).toList ++ '.' :: (toString (a % 256)).toList)) := by
  have hdot : ".".toList = ['.'] := by decide
  simp only [ipv4String, String.toList_append, hdot, List.append_assoc, List.cons_append, List.nil_append]

theorem ipv4String_ne (a : Nat) : ipv4String a ≠ "" := by
  intro h
  have hmem : '.' ∈ (ipv4String a).toList := by
    rw [ipv4String_toList]
    simp
  rw [h] at hmem
  exact absurd hmem List.not_mem_nil

theorem parseIPv4_ipv4String {a : Nat} (h : a < 2 ^ 32) : parseIPv4 (ipv4String a).toList = some a := by
  have hdot : ('.' == '.') = true := by decide
  have hsplit : splitList (· == '.') (ipv4String a).toList = [(toString (a / 2 ^ 24)).toList, (toString (a / 2 ^ 16 % 256)).toList,
      (toString (a / 2 ^ 8 % 256)).toList, (toString (a % 256)).toList] := by
    rw [ipv4String_toList, splitList_append (p := (· == '.')) hdot, splitList_append (p := (· == '.')) hdot,
      splitList_append (p := (· == '.')) hdot, splitList_noSep (toString_noDot _), splitList_noSep (toString_noDot _),
      splitList_noSep (toString_noDot _), splitList_noSep (toString_noDot _)]
    rfl
  unfold parseIPv4
  rw [hsplit]
  dsimp only
  rw [parseOctet_toString (by omega), parseOctet_toString (by omega), parseOctet_toString (by omega), parseOctet_toString (by omega)]
  simp only [Option.bind_eq_bind, Option.bind_some, Option.some.injEq]
  omega

/-- The characters of dotted decimal. -/
theorem ipv4String_chars (a : Nat) : ∀ c ∈ (ipv4String a).toList, isDigit c = true ∨ c = '.' := by
  intro c hc
  rw [ipv4String_toList] at hc
  simp only [List.mem_append, List.mem_cons] at hc
  rcases hc with hc | rfl | hc | rfl | hc | rfl | hc
  · exact .inl (isDigit_toString _ c hc)
  · exact .inr rfl
  · exact .inl (isDigit_toString _ c hc)
  · exact .inr rfl
  · exact .inl (isDigit_toString _ c hc)
  · exact .inr rfl
  · exact .inl (isDigit_toString _ c hc)

theorem ipv4String_noChar {a : Nat} {c : Char} (hd : isDigit c = false) (hp : c ≠ '.') : c ∉ (ipv4String a).toList := by
  intro hc
  rcases ipv4String_chars a c hc with h | h
  · rw [h] at hd
    cases hd
  · exact hp h

theorem parseIP_ipv4String {a : Nat} (h : a < 2 ^ 32) : parseIP (ipv4String a) = some (.v4 a) := by
  have hcolon : (ipv4String a).toList.contains ':' = false := by
    simpa using ipv4String_noChar (a := a) (c := ':') (by decide) (by decide)
  unfold parseIP
  rw [hcolon, if_neg Bool.false_ne_true, parseIPv4_ipv4String h]
  rfl

/-- An address and a prefix length are cut at the slash between them. -/
theorem cut_addr_len (a n : Nat) : cut (ipv4String a ++ "/" ++ toString n) '/' = some (ipv4String a, toString n) :=
  cut_slash (ipv4String_noChar (by decide) (by decide)) _

theorem parseCIDR_prefix {a n : Nat} (h : a < 2 ^ 32) (hn : n ≤ 32) :
    parseCIDR (ipv4String a ++ "/" ++ toString n) = some (.v4 a, n) := by
  have hne : (toString n).toList ≠ [] := by
    rw [toList_toString]
    exact Nat.toDigits_ne_nil
  have hmask : (toString n).toList ≠ [] ∧ (toString n).toList.all isDigit ∧ digitsVal (toString n).toList ≤ (Addr.v4 a).bitLen :=
    ⟨hne, List.all_eq_true.mpr (isDigit_toString n), by rw [digitsVal_toString]; exact hn⟩
  unfold parseCIDR
  rw [cut_addr_len]
  simp only [Option.bind_eq_bind, Option.bind_some, parseIP_ipv4String h]
  rw [if_pos hmask, digitsVal_toString]

end Go

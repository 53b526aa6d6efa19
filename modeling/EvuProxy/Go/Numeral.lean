import EvuProxy.Go.Text

/-!
# Decimal numerals

A natural number that is written in decimal is read back as itself, so that names that end in a number differ when the numbers do.
-/

namespace Go

theorem digitVal_digitChar {n : Nat} (h : n < 10) : digitVal n.digitChar = n := by
  have : ∀ n : Fin 10, digitVal n.val.digitChar = n.val := by decide
  exact this ⟨n, h⟩

theorem isDigit_digitChar {n : Nat} (h : n < 10) : isDigit n.digitChar = true := by
  have : ∀ n : Fin 10, isDigit n.val.digitChar = true := by decide
  exact this ⟨n, h⟩

theorem digitsVal_append (cs : List Char) (c : Char) : digitsVal (cs ++ [c]) = digitsVal cs * 10 + digitVal c := by
  unfold digitsVal
  rw [List.foldl_append]
  rfl

theorem digitsVal_toDigits (n : Nat) : digitsVal (Nat.toDigits 10 n) = n := by
  induction n using Nat.strongRecOn with
  | ind n ih =>
    by_cases h : n < 10
    · rw [Nat.toDigits_of_lt_base h]
      have hval : digitsVal [n.digitChar] = digitVal n.digitChar := by simp [digitsVal]
      rw [hval, digitVal_digitChar h]
    · rw [Nat.toDigits_of_base_le (by decide) (Nat.le_of_not_lt h), digitsVal_append, ih (n / 10) (by omega),
        digitVal_digitChar (Nat.mod_lt _ (by decide))]
      omega

theorem isDigit_toDigits (n : Nat) : ∀ c ∈ Nat.toDigits 10 n, isDigit c = true := by
  induction n using Nat.strongRecOn with
  | ind n ih =>
    intro c hc
    by_cases h : n < 10
    · rw [Nat.toDigits_of_lt_base h, List.mem_singleton] at hc
      rw [hc, isDigit_digitChar h]
    · rw [Nat.toDigits_of_base_le (by decide) (Nat.le_of_not_lt h), List.mem_append, List.mem_singleton] at hc
      rcases hc with hc | rfl
      · exact ih (n / 10) (by omega) c hc
      · exact isDigit_digitChar (Nat.mod_lt _ (by decide))

/-- A positive number is written without a leading zero. -/
theorem head_toDigits {n : Nat} (h : 0 < n) : (Nat.toDigits 10 n).head? ≠ some '0' := by
  induction n using Nat.strongRecOn with
  | ind n ih =>
    by_cases hlt : n < 10
    · rw [Nat.toDigits_of_lt_base hlt]
      have hall : ∀ n : Fin 10, 0 < n.val → [n.val.digitChar].head? ≠ some '0' := by decide
      exact hall ⟨n, hlt⟩ h
    · rw [Nat.toDigits_of_base_le (by decide) (Nat.le_of_not_lt hlt), List.head?_append_of_ne_nil _ Nat.toDigits_ne_nil]
      exact ih (n / 10) (by omega) (by omega)

theorem toList_toString (n : Nat) : (toString n).toList = Nat.toDigits 10 n := Nat.toList_repr

theorem digitsVal_toString (n : Nat) : digitsVal (toString n).toList = n := by
  rw [toList_toString, digitsVal_toDigits]

theorem isDigit_toString (n : Nat) : ∀ c ∈ (toString n).toList, isDigit c = true := by
  rw [toList_toString]
  exact isDigit_toDigits n

theorem toString_inj {n m : Nat} : toString n = toString m ↔ n = m := by
  refine ⟨fun h => ?_, fun h => h ▸ rfl⟩
  rw [← digitsVal_toString n, h, digitsVal_toString]

/-- Two texts that are a numeral followed by a character that is no digit start with the same numeral. -/
theorem numeral_inj {n m : Nat} {c : Char} {cs ds : List Char} (hc : isDigit c = false)
    (h : (toString n).toList ++ c :: cs = (toString m).toList ++ c :: ds) : n = m := by
  have hspan : ∀ {k : Nat} {es : List Char}, ((toString k).toList ++ c :: es).takeWhile isDigit = (toString k).toList := by
    intro k es
    rw [List.takeWhile_append_of_pos (isDigit_toString k), List.takeWhile_cons_of_neg (by simp [hc]), List.append_nil]
  have heq : (toString n).toList = (toString m).toList := by rw [← @hspan n cs, h, hspan]
  exact toString_inj.mp (String.toList_inj.mp heq)

theorem numeral_space_inj {n m : Nat} {s t : String} (h : toString n ++ (" " ++ s) = toString m ++ (" " ++ t)) : n = m := by
  have hlist := congrArg String.toList h
  have hspace : " ".toList = [' '] := by decide
  simp only [String.toList_append, hspace, List.singleton_append] at hlist
  exact numeral_inj (by decide) hlist

end Go

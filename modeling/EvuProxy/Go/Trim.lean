import Mathlib.Data.List.DropRight
import EvuProxy.Go.Text

/-!
# Trimmed text

What `strings.TrimSpace` leaves: neither end is white space, and trimming once more changes nothing.
-/

namespace Go

/-- A text that `strings.TrimSpace` leaves alone. -/
def Trimmed (s : String) : Prop := trimSpace s = s

instance (s : String) : Decidable (Trimmed s) := inferInstanceAs (Decidable (trimSpace s = s))

/-! ## Trimming -/

section trimming

variable {q : Char → Bool} {cs : List Char}

/-- Drop the characters that satisfy `q` from both ends. -/
def trimBy (q : Char → Bool) (cs : List Char) : List Char := (cs.dropWhile q).rdropWhile q

/-- A list neither of whose ends is dropped is left alone. -/
theorem trimBy_eq_self (hhead : ∀ h : 0 < cs.length, ¬q cs[0]) (hlast : ∀ h : cs ≠ [], ¬q (cs.getLast h)) : trimBy q cs = cs := by
  rw [trimBy, List.dropWhile_eq_self_iff.mpr hhead, List.rdropWhile_eq_self_iff.mpr hlast]

theorem trimBy_start (q : Char → Bool) (cs : List Char) : trimBy q cs <+: cs.dropWhile q := List.rdropWhile_prefix q _

theorem trimBy_head (h : 0 < (trimBy q cs).length) : ¬q (trimBy q cs)[0] := by
  obtain ⟨ds, hds⟩ := trimBy_start q cs
  have hlen : 0 < (cs.dropWhile q).length := by
    rw [← hds, List.length_append]
    omega
  have hget : (cs.dropWhile q)[0] = (trimBy q cs)[0] := by
    simp only [← hds]
    exact List.getElem_append_left h
  rw [← hget]
  exact List.dropWhile_get_zero_not q cs hlen

theorem trimBy_last (h : trimBy q cs ≠ []) : ¬q ((trimBy q cs).getLast h) := List.rdropWhile_last_not q (cs.dropWhile q) h

theorem trimBy_trimBy : trimBy q (trimBy q cs) = trimBy q cs := trimBy_eq_self trimBy_head trimBy_last

theorem mem_trimBy {c : Char} (h : c ∈ trimBy q cs) : c ∈ cs := (List.dropWhile_sublist q).subset ((trimBy_start q cs).subset h)

end trimming

/-- A list neither of whose ends is white space is left alone. -/
theorem trimList_eq_self {cs : List Char} (hhead : ∀ h : 0 < cs.length, ¬isSpace cs[0]) (hlast : ∀ h : cs ≠ [], ¬isSpace (cs.getLast h)) :
    trimList cs = cs :=
  trimBy_eq_self hhead hlast

theorem trimList_start (cs : List Char) : trimList cs <+: cs.dropWhile isSpace := trimBy_start isSpace cs

theorem trimList_head {cs : List Char} (h : 0 < (trimList cs).length) : ¬isSpace (trimList cs)[0] := trimBy_head h

theorem trimList_last {cs : List Char} (h : trimList cs ≠ []) : ¬isSpace ((trimList cs).getLast h) := trimBy_last h

theorem trimList_trimList (cs : List Char) : trimList (trimList cs) = trimList cs := trimBy_trimBy

@[simp]
theorem trimSpace_trimSpace (s : String) : trimSpace (trimSpace s) = trimSpace s := by
  simp only [trimSpace, String.toList_ofList, trimList_trimList]

theorem trimmed_trimSpace (s : String) : Trimmed (trimSpace s) := trimSpace_trimSpace s

theorem mem_trimList {cs : List Char} {c : Char} (h : c ∈ trimList cs) : c ∈ cs := mem_trimBy h

end Go

import EvuProxy.Config.Claims
import EvuProxy.Go.Pieces

/-!
# Lists in braces

The tokens of an entry of `ports` that stands in braces: the pieces between the commas, trimmed.
-/

namespace EvuProxy

open Go

/-- A text between braces. -/
theorem isBraceList_toList {t : String} (h : isBraceList t = true) : ∃ inner, t.toList = '{' :: inner ++ ['}'] := by
  unfold isBraceList hasPrefix hasSuffix at h
  obtain ⟨hpre, hsuf⟩ := Bool.and_eq_true_iff.mp h
  have hopen : "\x7b".toList = ['{'] := by decide
  have hclose : "\x7d".toList = ['}'] := by decide
  obtain ⟨xs, hxs⟩ := List.isPrefixOf_iff_prefix.mp hpre
  obtain ⟨ys, hys⟩ := List.isSuffixOf_iff_suffix.mp hsuf
  rw [hopen] at hxs
  rw [hclose] at hys
  cases ys with
  | nil =>
    rw [← hys] at hxs
    cases hxs
  | cons y ys =>
    rw [← hys, List.singleton_append, List.cons_append] at hxs
    obtain ⟨rfl, -⟩ := List.cons.inj hxs
    exact ⟨ys, hys.symm⟩

/-- Neither white space nor a character of a number is a comma or a brace. -/
theorem not_comma_or_brace {c : Char} (h : isSpace c = true ∨ numChar c = true) : (c == ',') = false ∧ c ≠ '{' ∧ c ≠ '}' := by
  refine ⟨beq_eq_false_iff_ne.mpr ?_, ?_, ?_⟩ <;> rintro rfl <;> exact absurd h (by decide)

theorem map_trim_pieces (cs : List Char) :
    (splitList (· == ',') (trimList cs)).map trimList = (splitList (· == ',') cs).map trimList := by
  obtain ⟨ws, vs, hws, hvs, hcs⟩ := trimList_between cs
  conv_rhs => rw [hcs]
  rw [trimmed_pieces_between (fun c hc => (not_comma_or_brace (.inl hc)).1) hws hvs]

/-- The tokens of a list in braces, in the words of `ExpandRoutePortNumbers`. -/
theorem braceTokens_eq {t : String} {inner : List Char} (ht : t.toList = '{' :: inner ++ ['}']) :
    (split (braceInner t) ',').map trimSpace = ((splitList (· == ',') inner).map trimList).map String.ofList := by
  have hmiddle : t.toList.tail.dropLast = inner := by
    rw [ht, List.cons_append, List.tail_cons, List.dropLast_concat]
  unfold split braceInner
  rw [hmiddle, trimSpace, String.toList_ofList, String.toList_ofList, ← map_trim_pieces, List.map_map, List.map_map]
  congr 1
  funext cs
  simp [trimSpace]

theorem filter_ofList (css : List (List Char)) :
    (css.map String.ofList).filter (· ≠ "") = (css.filter (· ≠ [])).map String.ofList := by
  rw [List.filter_map]
  congr 1
  refine List.filter_congr fun q _ => ?_
  simp [String.ofList_eq_empty_iff]

/-- What stands between the braces holds none, when its tokens are ports and ranges. -/
theorem braceTokens_chars {inner : List Char}
    (h : ∀ q ∈ (splitList (· == ',') inner).map trimList, q ≠ [] → ∃ qs, expandPortToken (String.ofList q) = .ok qs) :
    ∀ c ∈ inner, c ≠ '{' ∧ c ≠ '}' := by
  intro c hc
  rcases @mem_splitList (· == ',') c inner hc with hcomma | ⟨q, hq, hcq⟩
  · rw [beq_iff_eq.mp hcomma]
    decide
  · by_cases hspace : isSpace c = true
    · exact (not_comma_or_brace (.inl hspace)).2
    · have hmem := @mem_trimSpace_or (String.ofList q) c (by rwa [String.toList_ofList])
      rw [trimSpace, String.toList_ofList, String.toList_ofList, or_iff_right hspace] at hmem
      obtain ⟨qs, hqs⟩ := h (trimList q) (List.mem_map_of_mem hq) (List.ne_nil_of_mem hmem)
      exact (not_comma_or_brace (expandPortToken_chars hqs c (by rwa [String.toList_ofList]))).2

end EvuProxy

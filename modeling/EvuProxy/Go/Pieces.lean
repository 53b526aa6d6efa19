import EvuProxy.Go.Trim
import EvuProxy.Go.Path

/-!
# Pieces of trimmed text

Cutting a text at a separator and trimming the pieces: the white space around the text does not matter.
-/

namespace Go

/-- A character at the end belongs to the last piece. -/
theorem splitList_snoc {p : Char → Bool} {c : Char} (hc : p c = false) : ∀ {cs : List Char} {init : List (List Char)} {last : List Char},
    splitList p cs = init ++ [last] → splitList p (cs ++ [c]) = init ++ [last ++ [c]]
  | [], init, last, h => by
    obtain ⟨rfl, hlast⟩ := List.append_inj' (show [] ++ [[]] = init ++ [last] from h) rfl
    rw [← List.singleton_inj.mp hlast, List.nil_append, splitList.eq_2, hc]
    rfl
  | x :: cs, init, last, h => by
    rw [List.cons_append, splitList.eq_2]
    rw [splitList.eq_2] at h
    cases hx : p x with
    | true =>
      rw [hx] at h
      cases init with
      | nil =>
        have hnil : splitList p cs = [] := (List.cons.inj h).2
        exact absurd hnil (splitList_ne_nil _ _)
      | cons r init =>
        obtain ⟨rfl, hrest⟩ := List.cons.inj h
        exact congrArg ([] :: ·) (splitList_snoc hc hrest)
    | false =>
      rw [hx] at h
      cases hs : splitList p cs with
      | nil => exact absurd hs (splitList_ne_nil _ _)
      | cons q qs =>
        rw [hs] at h
        cases init with
        | nil =>
          obtain ⟨rfl, rfl⟩ := List.cons.inj h
          rw [@splitList_snoc p c hc cs [] q hs]
          rfl
        | cons r init =>
          obtain ⟨rfl, rfl⟩ := List.cons.inj h
          rw [@splitList_snoc p c hc cs (q :: init) last hs]
          rfl

/-! ## Trimming -/

section trimming

variable {q r p : Char → Bool}

theorem trimBy_cons {c : Char} {cs : List Char} (hc : q c = true) : trimBy q (c :: cs) = trimBy q cs := by
  rw [trimBy, trimBy, List.dropWhile_cons_of_pos hc]

theorem trimBy_snoc {c : Char} {cs : List Char} (hc : q c = true) : trimBy q (cs ++ [c]) = trimBy q cs := by
  rw [trimBy, trimBy, List.dropWhile_append]
  split
  · rename_i hnil
    rw [List.isEmpty_iff.mp hnil, List.dropWhile_cons_of_pos hc, List.dropWhile_nil]
  · rw [List.rdropWhile_concat_pos _ _ _ hc]

theorem trimBy_append_left {cs ds : List Char} (hcs : ∀ c ∈ cs, q c = true) : trimBy q (cs ++ ds) = trimBy q ds := by
  induction cs with
  | nil => rfl
  | cons c cs ih => rw [List.cons_append, trimBy_cons (hcs c List.mem_cons_self), ih fun d hd => hcs d (List.mem_cons_of_mem _ hd)]

theorem trimBy_append_right {cs ds : List Char} (hds : ∀ c ∈ ds, q c = true) : trimBy q (cs ++ ds) = trimBy q cs := by
  induction ds generalizing cs with
  | nil => rw [List.append_nil]
  | cons d ds ih =>
    rw [← List.singleton_append, ← List.append_assoc, ih fun c hc => hds c (List.mem_cons_of_mem _ hc), trimBy_snoc (hds d List.mem_cons_self)]

/-- A list is what trimming leaves, between characters that are dropped. -/
theorem trimBy_between (q : Char → Bool) (cs : List Char) :
    ∃ ws vs, (∀ c ∈ ws, q c = true) ∧ (∀ c ∈ vs, q c = true) ∧ cs = ws ++ trimBy q cs ++ vs := by
  refine ⟨cs.takeWhile q, ((cs.dropWhile q).rtakeWhile q), fun c hc => List.mem_takeWhile_imp hc,
    fun c hc => List.mem_rtakeWhile_imp hc, ?_⟩
  rw [trimBy, List.append_assoc, List.rdropWhile_append_rtakeWhile, List.takeWhile_append_dropWhile]

/-- What less trimming leaves is trimmed to the same. -/
theorem trimBy_of_le (hle : ∀ c, r c = true → q c = true) (cs : List Char) : trimBy q (trimBy r cs) = trimBy q cs := by
  obtain ⟨ws, vs, hws, hvs, hcs⟩ := trimBy_between r cs
  conv_rhs => rw [hcs]
  rw [trimBy_append_right fun c hc => hle c (hvs c hc), trimBy_append_left fun c hc => hle c (hws c hc)]

/-- Trimming looks at no other characters than those of the list. -/
theorem trimBy_congr {cs : List Char} (h : ∀ c ∈ cs, q c = r c) : trimBy q cs = trimBy r cs := by
  have hdrop : ∀ {ds : List Char}, (∀ c ∈ ds, q c = r c) → ds.dropWhile q = ds.dropWhile r := by
    intro ds hds
    induction ds with
    | nil => rfl
    | cons d ds ih =>
      rw [List.dropWhile_cons, List.dropWhile_cons, hds d List.mem_cons_self, ih fun c hc => hds c (List.mem_cons_of_mem _ hc)]
  rw [trimBy, trimBy, hdrop h, List.rdropWhile, List.rdropWhile, hdrop]
  exact fun c hc => h c ((List.dropWhile_sublist r).subset (List.mem_reverse.mp hc))

/-- The pieces of a list, trimmed, do not depend on what is dropped around the list. -/
theorem trimmedBy_pieces_between (hp : ∀ c, q c = true → p c = false) {ws vs : List Char} (hws : ∀ c ∈ ws, q c = true)
    (hvs : ∀ c ∈ vs, q c = true) (cs : List Char) :
    (splitList p (ws ++ cs ++ vs)).map (trimBy q) = (splitList p cs).map (trimBy q) := by
  have hend : ∀ cs, (splitList p (cs ++ vs)).map (trimBy q) = (splitList p cs).map (trimBy q) := by
    clear hws
    induction vs with
    | nil => simp
    | cons v vs ih =>
      intro cs
      have hv := hvs v List.mem_cons_self
      have hsplit := splitList_snoc (hp v hv) (List.dropLast_concat_getLast (splitList_ne_nil p cs)).symm
      rw [← List.singleton_append, ← List.append_assoc, ih (fun c hc => hvs c (List.mem_cons_of_mem _ hc)), hsplit,
        List.map_append, List.map_singleton, trimBy_snoc hv, ← List.map_singleton, ← List.map_append,
        List.dropLast_concat_getLast]
  rw [hend]
  clear hend hvs
  induction ws with
  | nil => rfl
  | cons w ws ih =>
    have hw := hws w List.mem_cons_self
    rw [List.cons_append, splitList.eq_2, hp w hw]
    have ih := ih fun c hc => hws c (List.mem_cons_of_mem _ hc)
    cases hs : splitList p (ws ++ cs) with
    | nil => exact absurd hs (splitList_ne_nil _ _)
    | cons q qs =>
      rw [hs] at ih
      rw [← ih, List.map_cons, List.map_cons, trimBy_cons hw]

end trimming

/-- A list is what trimming leaves, between white space. -/
theorem trimList_between (cs : List Char) :
    ∃ ws vs, (∀ c ∈ ws, isSpace c = true) ∧ (∀ c ∈ vs, isSpace c = true) ∧ cs = ws ++ trimList cs ++ vs :=
  trimBy_between isSpace cs

/-- The pieces of a list, trimmed, do not depend on the white space around the list. -/
theorem trimmed_pieces_between {p : Char → Bool} (hp : ∀ c, isSpace c = true → p c = false) {ws vs : List Char}
    (hws : ∀ c ∈ ws, isSpace c = true) (hvs : ∀ c ∈ vs, isSpace c = true) (cs : List Char) :
    (splitList p (ws ++ cs ++ vs)).map trimList = (splitList p cs).map trimList :=
  trimmedBy_pieces_between hp hws hvs cs

/-- A text is cut at the first separator. -/
theorem cut_of_toList {s a : String} {sep : Char} {bs : List Char} (h : sep ∉ a.toList) (hs : s.toList = a.toList ++ sep :: bs) :
    cut s sep = some (a, String.ofList bs) := by
  have hpos : ∀ x ∈ a.toList, decide (x ≠ sep) = true := fun x hx => decide_eq_true fun he => h (he ▸ hx)
  unfold cut
  rw [hs, List.span_eq_takeWhile_dropWhile, List.takeWhile_append_of_pos hpos, List.dropWhile_append_of_pos hpos,
    List.takeWhile_cons_of_neg (by simp), List.dropWhile_cons_of_neg (by simp), List.append_nil]
  simp

end Go

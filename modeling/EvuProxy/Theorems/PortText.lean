import EvuProxy.Config.Braces
import EvuProxy.Gen.Words
import EvuProxy.Nft.PortExpr
import EvuProxy.Theorems.PublicPorts

/-!
# What port texts mean to nft

Port texts are checked with Go's functions, passed on as they are, and read with nft's grammar. The two agree on a port text whose
characters nft knows and whose numerals name the same ports when the ones that start with a zero are octal.
-/

namespace EvuProxy

open Go Nft

/-! ## Numerals -/

/-- A character of a port or range to nft. -/
def entryChar (c : Char) : Bool := isDigit c || c == '-' || isBlank c

/-- The one or two numerals of a port or range. -/
def numerals (t : String) : List String :=
  match cut t '-' with
  | some (lo, hi) => [trimBlanks isBlank lo, trimBlanks isBlank hi]
  | none => [trimBlanks isBlank t]

/-- A numeral that starts with a zero has no 8 and no 9. -/
def octalNumeral (s : String) : Bool := s.toList.head? ≠ some '0' || s.toList.all fun c => digitVal c < 8

/-- The number that a numeral names to nft. -/
def nftValue (s : String) : Nat :=
  if s.toList.head? = some '0' then s.toList.foldl (fun n c => n * 8 + digitVal c) 0 else digitsVal s.toList

/-- The number that a numeral names in decimal. -/
def decimalValue (s : String) : Nat := digitsVal s.toList

/-- The first and the last port of a port or range. -/
def span (value : String → Nat) (t : String) : Nat × Nat :=
  match cut t '-' with
  | some (lo, hi) => (value (trimBlanks isBlank lo), value (trimBlanks isBlank hi))
  | none => (value (trimBlanks isBlank t), value (trimBlanks isBlank t))

/-- A port or range that nft can read: it knows the characters, the numerals that start with a zero are octal ones, and the range goes
up. -/
structure PlainEntry (t : String) : Prop where
  chars : ∀ c ∈ t.toList, entryChar c = true
  octal : ∀ s ∈ numerals t, octalNumeral s = true
  ordered : (span nftValue t).1 ≤ (span nftValue t).2

/-- A numeral is some digits. -/
def Digits (s : String) : Prop := s.toList ≠ [] ∧ s.toList.all isDigit = true

theorem readNumeral_eq_some {s : String} {n : Nat} : readNumeral s = some n ↔ Digits s ∧ octalNumeral s = true ∧ n = nftValue s := by
  unfold readNumeral Digits octalNumeral nftValue
  rcases s.toList with _ | ⟨c, cs⟩
  · exact iff_of_false nofun fun h => h.1.1 rfl
  · by_cases hc : c = '0'
    · subst hc
      have hzero : digitVal '0' = 0 := by decide
      have hoctal : (cs.all fun c => isDigit c && digitVal c < 8) = true ↔
          ('0' :: cs).all isDigit = true ∧ (('0' :: cs).all fun c => digitVal c < 8) = true := by
        rw [List.all_cons, List.all_cons, show isDigit '0' = true by decide, hzero, List.all_eq_true, Bool.true_and, List.all_eq_true,
          decide_eq_true (by omega : 0 < 8), Bool.true_and, List.all_eq_true, ← forall₂_and]
        simp only [Bool.and_eq_true]
      have hvalue : cs.foldl (fun n c => n * 8 + digitVal c) 0 = ('0' :: cs).foldl (fun n c => n * 8 + digitVal c) 0 := by
        rw [List.foldl_cons, hzero]
      change (if (cs.all fun c => isDigit c && digitVal c < 8) = true then some (cs.foldl (fun n c => n * 8 + digitVal c) 0) else none) =
        some n ↔ _
      rw [hvalue, Option.ite_none_right_eq_some, hoctal, Option.some.injEq, List.head?_cons, if_pos rfl, decide_eq_false (not_not.mpr rfl),
        Bool.false_or, and_assoc, and_iff_right (List.cons_ne_nil _ _), eq_comm (a := n)]
    · have hhead : (c :: cs).head? ≠ some '0' := by simpa using hc
      rw [if_neg hhead, decide_eq_true hhead, Bool.true_or, and_iff_right (List.cons_ne_nil _ _), and_iff_right rfl]
      split
      · rename_i hnil
        cases hnil
      · rename_i heq
        exact absurd (List.cons.inj heq).1 hc
      · rw [Option.ite_none_right_eq_some, Option.some.injEq, eq_comm (a := n)]

theorem readEntry_eq_some {t : String} {r : Nat × Nat} : readEntry t = some r ↔
    (∀ s ∈ numerals t, Digits s ∧ octalNumeral s = true) ∧ (span nftValue t).1 ≤ (span nftValue t).2 ∧ r = span nftValue t := by
  unfold readEntry numerals span
  rcases cut t '-' with _ | ⟨lo, hi⟩
  · simp only [Option.map_eq_some_iff, readNumeral_eq_some, List.mem_singleton, forall_eq, Nat.le_refl, true_and]
    constructor
    · rintro ⟨n, hn, hr⟩
      rw [hn.2.2] at hr
      exact ⟨⟨hn.1, hn.2.1⟩, hr.symm⟩
    · rintro ⟨⟨hd, ho⟩, rfl⟩
      exact ⟨_, ⟨hd, ho, rfl⟩, rfl⟩
  · simp only [Option.bind_eq_some_iff, readNumeral_eq_some, List.mem_cons, List.not_mem_nil, or_false, forall_eq_or_imp, forall_eq]
    constructor
    · rintro ⟨a, ha, b, hb, h⟩
      rw [Option.ite_none_right_eq_some, Option.some.injEq, ha.2.2, hb.2.2] at h
      exact ⟨⟨⟨ha.1, ha.2.1⟩, hb.1, hb.2.1⟩, h.1, h.2.symm⟩
    · rintro ⟨⟨⟨hd, ho⟩, hd', ho'⟩, hle, rfl⟩
      exact ⟨_, ⟨hd, ho, rfl⟩, _, ⟨hd', ho', rfl⟩, if_pos hle⟩

/-! ## Entries -/

theorem isSpace_of_isListBlank {c : Char} (h : isListBlank c = true) : isSpace c = true := by
  simp only [isListBlank, isBlank, Bool.or_eq_true, beq_iff_eq] at h
  rcases h with (rfl | rfl) | rfl <;> decide

theorem isListBlank_of_isBlank {c : Char} (h : isBlank c = true) : isListBlank c = true := by
  rw [isListBlank, h, Bool.true_or]

/-- To nft and to Go the same characters of a port text are white space. -/
theorem isSpace_eq_isBlank {c : Char} (h : entryChar c = true) : isSpace c = isBlank c := by
  simp only [entryChar, Bool.or_eq_true] at h
  rcases h with (hd | hd) | hb
  · have hspace := isDigit_space hd
    have hblank : isBlank c = false := by
      by_contra hb
      rw [isSpace_of_isListBlank (isListBlank_of_isBlank (Bool.not_eq_false _ ▸ hb))] at hspace
      cases hspace
    rw [hspace, hblank]
  · rw [beq_iff_eq.mp hd]
    decide
  · rw [hb, isSpace_of_isListBlank (isListBlank_of_isBlank hb)]

theorem trimSpace_eq_trimBlanks {s : String} (h : ∀ c ∈ s.toList, entryChar c = true) : trimSpace s = trimBlanks isBlank s := by
  rw [trimSpace, trimBlanks]
  exact congrArg String.ofList (trimBy_congr fun c hc => isSpace_eq_isBlank (h c hc))

theorem mem_trimBlanks_or {q : Char → Bool} {s : String} {c : Char} (h : c ∈ s.toList) : q c = true ∨ c ∈ (trimBlanks q s).toList := by
  obtain ⟨ws, vs, hws, hvs, hs⟩ := trimBy_between q s.toList
  rw [hs, List.mem_append, List.mem_append] at h
  rw [trimBlanks, String.toList_ofList]
  rcases h with (hc | hc) | hc
  · exact .inl (hws c hc)
  · exact .inr hc
  · exact .inl (hvs c hc)

/-- A text that nft reads has only characters that it knows. -/
theorem chars_of_digits {t : String} (h : ∀ s ∈ numerals t, Digits s) : ∀ c ∈ t.toList, entryChar c = true := by
  have hside : ∀ {s : String}, Digits (trimBlanks isBlank s) → ∀ c ∈ s.toList, entryChar c = true := by
    intro s hs c hc
    rcases @mem_trimBlanks_or isBlank s c hc with hb | hc
    · rw [entryChar, hb, Bool.or_true]
    · rw [entryChar, List.all_eq_true.mp hs.2 c hc]
      rfl
  intro c hc
  unfold numerals at h
  rcases hcut : cut t '-' with _ | ⟨lo, hi⟩
  · rw [hcut] at h
    exact hside (h _ (List.mem_singleton_self _)) c hc
  · rw [hcut] at h
    rcases mem_cut hcut hc with hc | rfl | hc
    · exact hside (h _ List.mem_cons_self) c hc
    · decide
    · exact hside (h _ (List.mem_cons_of_mem _ (List.mem_singleton_self _))) c hc

/-- A positive number without a plus sign is written in digits. -/
theorem atoi_unsigned {s : String} {n : Int} (h : atoi s = some n) (hplus : '+' ∉ s.toList) (hpos : 1 ≤ n) :
    Digits s ∧ n = decimalValue s := by
  have hdigits : ∀ {cs : List Char} {b : Nat}, ((if cs ≠ [] ∧ cs.all isDigit then some (digitsVal cs) else none).bind fun n =>
      if n < b then some (n : Int) else none) = some n → (cs ≠ [] ∧ cs.all isDigit = true) ∧ n = digitsVal cs := by
    intro cs b h
    obtain ⟨m, hm, h⟩ := Option.bind_eq_some_iff.mp h
    rw [Option.ite_none_right_eq_some, Option.some.injEq] at hm h
    rw [← h.2, ← hm.2]
    exact ⟨hm.1, rfl⟩
  unfold atoi at h
  dsimp only at h
  rcases hs : s.toList with _ | ⟨c, cs⟩
  · rw [hs] at h
    exact absurd rfl (hdigits h).1.1
  · rw [hs] at h hplus
    by_cases hminus : c = '-'
    · rw [hminus] at h
      obtain ⟨m, -, h⟩ := Option.bind_eq_some_iff.mp h
      rw [Option.ite_none_right_eq_some, Option.some.injEq] at h
      omega
    · have hne : c ≠ '+' := fun he => hplus (he ▸ List.mem_cons_self)
      rw [Digits, decimalValue, hs]
      split at h
      · rename_i heq
        exact absurd (List.cons.inj heq).1 hminus
      · rename_i heq
        exact absurd (List.cons.inj heq).1 hne
      · exact hdigits h

/-- A token that is accepted, in characters that nft knows, is written in digits and means the same to both in decimal. -/
theorem numerals_of_ok {t : String} {qs : List Nat} (ht : Trimmed t) (h : expandPortToken t = .ok qs) (hchars : ∀ c ∈ t.toList, entryChar c = true) :
    (∀ s ∈ numerals t, Digits s) ∧ ∀ p, p ∈ qs ↔ Within p (span decimalValue t) := by
  have hplus : ∀ {s : String}, (∀ c ∈ s.toList, entryChar c = true) → '+' ∉ (trimSpace s).toList := by
    intro s hs hmem
    rw [trimSpace, String.toList_ofList] at hmem
    exact absurd (hs '+' (mem_trimList hmem)) (by decide)
  unfold expandPortToken at h
  dsimp only at h
  rw [show trimSpace t = t from ht] at h
  obtain ⟨_, h⟩ := ite_errorf_ok.mp h
  unfold numerals span
  rcases hcut : cut t '-' with _ | ⟨lo, hi⟩
  · rw [hcut] at h
    dsimp only at h ⊢
    rcases ha : atoi t with _ | a
    · rw [ha] at h
      cases h
    · rw [ha] at h
      dsimp only at h
      obtain ⟨hbounds, h⟩ := ite_errorf_ok.mp h
      cases h
      have htrim : trimBlanks isBlank t = t := (trimSpace_eq_trimBlanks hchars).symm.trans ht
      have hplus := hplus hchars
      rw [show trimSpace t = t from ht] at hplus
      obtain ⟨hdigits, rfl⟩ := atoi_unsigned ha hplus (by omega)
      rw [htrim]
      refine ⟨fun s hs => by rwa [List.mem_singleton.mp hs], fun p => ?_⟩
      rw [List.mem_singleton, Within]
      dsimp only
      omega
  · have hlo : ∀ c ∈ lo.toList, entryChar c = true := fun c hc => hchars c (by rw [toList_of_cut hcut]; exact List.mem_append_left _ hc)
    have hhi : ∀ c ∈ hi.toList, entryChar c = true := fun c hc => hchars c (by rw [toList_of_cut hcut]; exact List.mem_append_right _ (List.mem_cons_of_mem _ hc))
    rw [hcut] at h
    dsimp only at h ⊢
    rcases ha : atoi (trimSpace lo) with _ | a
    · rw [ha] at h
      cases h
    · rcases hb : atoi (trimSpace hi) with _ | b
      · rw [ha, hb] at h
        cases h
      · rw [ha, hb] at h
        dsimp only at h
        obtain ⟨hbounds, h⟩ := ite_errorf_ok.mp h
        cases h
        obtain ⟨hlod, hlov⟩ := atoi_unsigned ha (hplus hlo) (by omega)
        obtain ⟨hhid, hhiv⟩ := atoi_unsigned hb (hplus hhi) (by omega)
        rw [trimSpace_eq_trimBlanks hlo] at hlod hlov
        rw [trimSpace_eq_trimBlanks hhi] at hhid hhiv
        refine ⟨fun s hs => ?_, fun p => ?_⟩
        · rcases List.mem_cons.mp hs with rfl | hs
          · exact hlod
          · rwa [List.mem_singleton.mp hs]
        · rw [List.mem_range'_1, Within]
          dsimp only
          omega

/-- A text as it stands between the commas of a list or alone, and that is accepted if it is not empty. -/
structure EntryText (t : String) : Prop where
  trimmed : trimBlanks isListBlank t = t
  accepted : trimSpace t = "" ∨ ∃ qs, expandPortToken t = .ok qs

theorem EntryText.goTrimmed {t : String} (h : EntryText t) (hchars : ∀ c ∈ t.toList, entryChar c = true) : Trimmed t := by
  have hlist : ∀ c ∈ t.toList, isBlank c = isListBlank c := by
    intro c hc
    have hne : c ≠ '\n' := by
      rintro rfl
      exact absurd (hchars _ hc) (by decide)
    rw [isListBlank, beq_eq_false_iff_ne.mpr hne, Bool.or_false]
  rw [Trimmed, trimSpace_eq_trimBlanks hchars, trimBlanks, trimBy_congr hlist]
  exact h.trimmed

theorem EntryText.ports {t : String} (h : EntryText t) (hne : t ≠ "") (hchars : ∀ c ∈ t.toList, entryChar c = true) :
    ∃ qs, expandPortToken t = .ok qs := by
  rcases h.accepted with hempty | hqs
  · exact absurd ((h.goTrimmed hchars).symm.trans hempty) hne
  · exact hqs

/-- nft reads an accepted entry just when it is plain. -/
theorem EntryText.isSome_iff {t : String} (h : EntryText t) : (readEntry t).isSome ↔ t ≠ "" ∧ PlainEntry t := by
  rw [Option.isSome_iff_exists]
  simp only [readEntry_eq_some]
  constructor
  · rintro ⟨r, hnum, hle, -⟩
    refine ⟨?_, chars_of_digits fun s hs => (hnum s hs).1, fun s hs => (hnum s hs).2, hle⟩
    rintro rfl
    exact (hnum "" (by decide)).1.1 rfl
  · rintro ⟨hne, hplain⟩
    obtain ⟨qs, hqs⟩ := h.ports hne hplain.chars
    obtain ⟨hdigits, -⟩ := numerals_of_ok (h.goTrimmed hplain.chars) hqs hplain.chars
    exact ⟨_, fun s hs => ⟨hdigits s hs, hplain.octal s hs⟩, hplain.ordered, rfl⟩

theorem readEntry_span {t : String} {r : Nat × Nat} (h : readEntry t = some r) : r = span nftValue t := (readEntry_eq_some.mp h).2.2

/-! ## Members -/

/-- The ports and ranges of an entry of `ports`, as nft cuts it. -/
def writtenMembers (t : String) : List String :=
  match inBraces t.toList with
  | some inner => listMembers inner
  | none => [t]

/-- Without braces, commas cut as they do in Go. -/
theorem splitMembers_eq {cs : List Char} (h : ∀ c ∈ cs, c ≠ '{' ∧ c ≠ '}') : splitMembers 0 cs = splitList (· == ',') cs := by
  induction cs with
  | nil => rfl
  | cons c cs ih =>
    obtain ⟨hopen, hclose⟩ := h c List.mem_cons_self
    rw [splitMembers, splitList.eq_2, ← ih fun d hd => h d (List.mem_cons_of_mem _ hd)]
    by_cases hcomma : c = ','
    · rw [if_pos ⟨hcomma, rfl⟩, hcomma]
      rfl
    · rw [if_neg fun hc => hcomma hc.1, if_neg hopen, if_neg hclose, beq_eq_false_iff_ne.mpr hcomma]
      cases splitMembers 0 cs <;> rfl

/-- The member that a piece between commas is. -/
def memberOf (q : List Char) : String := String.ofList (trimBy isListBlank q)

theorem mem_listMembers {inner : List Char} (h : ∀ c ∈ inner, c ≠ '{' ∧ c ≠ '}') {m : String} (hm : m ∈ listMembers inner) :
    ∃ q ∈ splitList (· == ',') inner, m = memberOf q := by
  rw [listMembers, splitMembers_eq h] at hm
  have hmem : m ∈ (splitList (· == ',') inner).map memberOf := by
    split at hm
    · exact List.dropLast_subset _ hm
    · exact hm
  obtain ⟨q, hq, rfl⟩ := List.mem_map.mp hmem
  exact ⟨q, hq, rfl⟩

theorem memberOf_mem {inner : List Char} (h : ∀ c ∈ inner, c ≠ '{' ∧ c ≠ '}') {q : List Char} (hq : q ∈ splitList (· == ',') inner)
    (hne : memberOf q ≠ "") : memberOf q ∈ listMembers inner := by
  have hmem : memberOf q ∈ (splitList (· == ',') inner).map memberOf := List.mem_map_of_mem hq
  rw [listMembers, splitMembers_eq h]
  change memberOf q ∈ if 1 < ((splitList (· == ',') inner).map memberOf).length ∧ ((splitList (· == ',') inner).map memberOf).getLast? = some "" then
    ((splitList (· == ',') inner).map memberOf).dropLast else (splitList (· == ',') inner).map memberOf
  split
  · rename_i hlast
    rw [← List.dropLast_append_getLast? "" hlast.2, List.mem_append, List.mem_singleton] at hmem
    exact hmem.resolve_right hne
  · exact hmem

theorem trimSpace_memberOf (q : List Char) : trimSpace (memberOf q) = String.ofList (trimList q) := by
  rw [trimSpace, memberOf, String.toList_ofList]
  exact congrArg String.ofList (trimBy_of_le (fun c hc => isSpace_of_isListBlank hc) q)

theorem trimBlanks_memberOf (q : List Char) : trimBlanks isListBlank (memberOf q) = memberOf q := by
  rw [trimBlanks, memberOf, String.toList_ofList, trimBy_trimBy]

/-- An entry of `ports`, or a text for `input_allows`, whose tokens are ports and ranges. -/
structure EntryRead (t : String) : Prop where
  trimmed : Trimmed t
  filled : t ≠ ""
  ports : ∀ tok ∈ portTokens [t], ∃ qs, expandPortToken tok = .ok qs

/-- How nft and Go cut an entry. -/
structure EntryCut (t : String) : Prop where
  texts : ∀ m ∈ writtenMembers t, EntryText m
  bare : ∀ m ∈ writtenMembers t, inBraces m.toList = none
  tokens : (∀ m ∈ writtenMembers t, m ≠ "" ∧ PlainEntry m) → ∀ tok, tok ∈ portTokens [t] ↔ tok ∈ writtenMembers t
  whole : Whole t.toList
  braces : isBraceList t = (inBraces t.toList).isSome

/-- A text that does not start with a brace. -/
theorem inBraces_eq_none {cs : List Char} (h : ∀ c ∈ cs, c ≠ '{') : inBraces cs = none := by
  unfold inBraces
  split
  · exact absurd rfl (h '{' List.mem_cons_self)
  · rfl

theorem trimBlanks_of_trimmed {t : String} (h : Trimmed t) : trimBlanks isListBlank t = t := by
  have htrim : trimList t.toList = t.toList := by
    have := congrArg String.toList (show trimSpace t = t from h)
    rwa [trimSpace, String.toList_ofList] at this
  have hself : trimBy isListBlank (trimList t.toList) = trimList t.toList :=
    trimBy_eq_self (fun hlt hb => trimList_head hlt (isSpace_of_isListBlank hb)) fun hne hb => trimList_last hne (isSpace_of_isListBlank hb)
  rw [htrim] at hself
  rw [trimBlanks, hself, String.ofList_toList]

theorem EntryRead.cut {t : String} (h : EntryRead t) : EntryCut t := by
  have hports := h.ports
  have htrim : trimSpace t = t := h.trimmed
  rw [portTokens_singleton, htrim, if_neg h.filled] at hports
  by_cases hbrace : isBraceList t = true
  · obtain ⟨inner, hinner⟩ := isBraceList_toList hbrace
    have hin : inBraces t.toList = some inner := by
      rw [hinner, List.cons_append]
      exact inBraces_braced inner
    have htokens : portTokens [t] = ((splitList (· == ',') inner).map fun q => String.ofList (trimList q)).filter (· ≠ "") := by
      rw [portTokens_singleton, htrim, if_neg h.filled, if_pos hbrace, braceTokens_eq hinner, List.map_map]
      rfl
    rw [if_pos hbrace, braceTokens_eq hinner, List.map_map] at hports
    have hpiece : ∀ q ∈ splitList (· == ',') inner, trimList q ≠ [] → ∃ qs, expandPortToken (String.ofList (trimList q)) = .ok qs := by
      intro q hq hne
      refine hports _ (List.mem_filter.mpr ⟨List.mem_map.mpr ⟨q, hq, rfl⟩, decide_eq_true fun he => hne ?_⟩)
      exact String.ofList_eq_empty_iff.mp he
    have hchars : ∀ c ∈ inner, c ≠ '{' ∧ c ≠ '}' := by
      refine braceTokens_chars fun q hq hne => ?_
      obtain ⟨p, hp, rfl⟩ := List.mem_map.mp hq
      exact hpiece p hp hne
    have hwritten : writtenMembers t = listMembers inner := by rw [writtenMembers, hin]
    have htext : ∀ q ∈ splitList (· == ',') inner, EntryText (memberOf q) := by
      intro q hq
      refine ⟨trimBlanks_memberOf q, ?_⟩
      rw [trimSpace_memberOf]
      by_cases hnil : trimList q = []
      · exact .inl (String.ofList_eq_empty_iff.mpr hnil)
      · right
        rw [← expandPortToken_trim, trimSpace_memberOf]
        exact hpiece q hq hnil
    refine
      { texts := fun m hm => ?_
        bare := fun m hm => ?_
        tokens := fun hplain tok => ?_
        whole := ?_
        braces := by rw [hbrace, hin]; rfl }
    · rw [hwritten] at hm
      obtain ⟨q, hq, rfl⟩ := mem_listMembers hchars hm
      exact htext q hq
    · rw [hwritten] at hm
      obtain ⟨q, hq, rfl⟩ := mem_listMembers hchars hm
      refine inBraces_eq_none fun c hc => ?_
      rw [memberOf, String.toList_ofList] at hc
      exact (hchars c (mem_of_mem_splitList (mem_trimBy hc) hq)).1
    · rw [hwritten] at hplain ⊢
      have hself : ∀ m ∈ listMembers inner, EntryText m → trimSpace m = m := fun m hm htext => htext.goTrimmed (hplain m hm).2.chars
      rw [htokens, List.mem_filter, decide_eq_true_eq, List.mem_map]
      constructor
      · rintro ⟨⟨q, hq, rfl⟩, hne⟩
        have hfilled : memberOf q ≠ "" := by
          intro he
          rw [← trimSpace_memberOf, he] at hne
          exact hne (by decide)
        have hmem := memberOf_mem hchars hq hfilled
        rw [← trimSpace_memberOf, hself _ hmem (htext q hq)]
        exact hmem
      · intro hm
        obtain ⟨q, hq, rfl⟩ := mem_listMembers hchars hm
        have hsame := hself _ hm (htext q hq)
        rw [trimSpace_memberOf] at hsame
        exact ⟨⟨q, hq, hsame⟩, (hplain _ hm).1⟩
    · rw [hinner]
      exact whole_of_braces hchars
  · rw [if_neg hbrace] at hports
    obtain ⟨qs, hqs⟩ := hports t (List.mem_singleton_self _)
    have hchars := expandPortToken_chars hqs
    have hplain : ∀ c ∈ t.toList, c ≠ '{' ∧ c ≠ '}' ∧ c ≠ ',' := fun c hc =>
      ⟨(not_comma_or_brace (hchars c hc)).2.1, (not_comma_or_brace (hchars c hc)).2.2, beq_eq_false_iff_ne.mp (not_comma_or_brace (hchars c hc)).1⟩
    have hnone := inBraces_eq_none fun c hc => (hplain c hc).1
    have hwritten : writtenMembers t = [t] := by rw [writtenMembers, hnone]
    refine
      { texts := fun m hm => ?_
        bare := fun m hm => ?_
        tokens := fun _ tok => ?_
        whole := whole_of_plain hplain
        braces := by rw [hnone]; exact Bool.eq_false_iff.mpr hbrace }
    · rw [hwritten, List.mem_singleton] at hm
      rw [hm]
      exact ⟨trimBlanks_of_trimmed h.trimmed, .inr ⟨qs, hqs⟩⟩
    · rw [hwritten, List.mem_singleton] at hm
      rw [hm]
      exact hnone
    · rw [hwritten, portTokens_singleton, htrim, if_neg h.filled, if_neg hbrace]

/-! ## Reading entries -/

section reading

variable {t : String} {depth p : Nat}

/-- nft reads a member without braces as it reads a port or range. -/
theorem readMember_bare {m : String} (h : inBraces m.toList = none) : readMember depth m = (readEntry m).map ([·]) := by
  cases depth with
  | zero => rfl
  | succ n => rw [readMember, h]

theorem namesPort_bare {m : String} (h : inBraces m.toList = none) (hm : (readEntry m).isSome) :
    NamesPort (readMember depth m) p ↔ Within p (span nftValue m) := by
  obtain ⟨r, hr⟩ := Option.isSome_iff_exists.mp hm
  rw [readMember_bare h, hr, readEntry_span hr]
  simp only [NamesPort, Option.map_some, Option.some.injEq, exists_eq_left', List.mem_singleton, exists_eq_left]

/-- The members of an entry are plain. -/
def PlainMembers (t : String) : Prop := ∀ m ∈ writtenMembers t, m ≠ "" ∧ PlainEntry m

/-- A port is one of those that the numerals of an entry name. -/
def Listed (value : String → Nat) (t : String) (p : Nat) : Prop := ∃ m ∈ writtenMembers t, Within p (span value m)

theorem EntryCut.isSome_iff (h : EntryCut t) : (readMember depth t).isSome ↔ (depth = 0 → isBraceList t = false) ∧ PlainMembers t := by
  have hentry : ∀ {n : Nat}, ∀ m ∈ writtenMembers t, (readMember n m).isSome ↔ m ≠ "" ∧ PlainEntry m := by
    intro n m hm
    rw [readMember_bare (h.bare m hm), Option.isSome_map, (h.texts m hm).isSome_iff]
  rw [h.braces]
  rcases hin : inBraces t.toList with _ | inner
  · have hwritten : writtenMembers t = [t] := by rw [writtenMembers, hin]
    have ht : t ∈ writtenMembers t := hwritten ▸ List.mem_singleton_self t
    rw [hentry t ht, PlainMembers, hwritten, List.forall_mem_singleton, Option.isSome_none, and_iff_right fun _ : depth = 0 => rfl]
  · have hwritten : writtenMembers t = listMembers inner := by rw [writtenMembers, hin]
    cases depth with
    | zero =>
      refine iff_of_false (fun hread => ?_) fun hno => Bool.noConfusion (hno.1 rfl)
      rw [readMember, Option.isSome_map, Option.isSome_iff_exists] at hread
      obtain ⟨r, hr⟩ := hread
      have hchars := chars_of_digits fun s hs => ((readEntry_eq_some.mp hr).1 s hs).1
      have hopen : '{' ∈ t.toList := by
        by_contra hno
        rw [inBraces_eq_none fun c hc he => hno (he ▸ hc)] at hin
        cases hin
      exact absurd (hchars '{' hopen) (by decide)
    | succ n =>
      rw [readMember, hin]
      dsimp only
      rw [isSome_readAll, ← hwritten, PlainMembers, and_iff_right fun h0 => absurd h0 (Nat.succ_ne_zero n)]
      exact forall₂_congr hentry

theorem EntryCut.namesPort_iff (h : EntryCut t) (hread : (readMember depth t).isSome) : NamesPort (readMember depth t) p ↔ Listed nftValue t p := by
  obtain ⟨hdepth, hplain⟩ := h.isSome_iff.mp hread
  have hsome : ∀ m ∈ writtenMembers t, (readEntry m).isSome := fun m hm => (h.texts m hm).isSome_iff.mpr (hplain m hm)
  rcases hin : inBraces t.toList with _ | inner
  · have hwritten : writtenMembers t = [t] := by rw [writtenMembers, hin]
    rw [Listed, namesPort_bare hin (hsome t (hwritten ▸ List.mem_singleton_self t)), hwritten]
    simp only [List.mem_singleton, exists_eq_left]
  · have hwritten : writtenMembers t = listMembers inner := by rw [writtenMembers, hin]
    cases depth with
    | zero =>
      have hno := hdepth rfl
      rw [h.braces, hin] at hno
      cases hno
    | succ n =>
      rw [Listed, readMember, hin]
      dsimp only
      rw [namesPort_readAll, ← hwritten]
      · refine exists_congr fun m => and_congr_right fun hm => ?_
        exact namesPort_bare (h.bare m hm) (hsome m hm)
      · intro m hm
        rw [← hwritten] at hm
        rw [readMember_bare (h.bare m hm), Option.isSome_map]
        exact hsome m hm

/-- Go's ports of a plain entry are those that its numerals name in decimal. -/
theorem EntryCut.inTokens_iff (h : EntryCut t) (hplain : PlainMembers t) : InTokens p (portTokens [t]) ↔ Listed decimalValue t p := by
  simp only [InTokens, h.tokens hplain, Listed]
  refine exists_congr fun m => and_congr_right fun hm => ?_
  have htext := h.texts m hm
  obtain ⟨hne, hentry⟩ := hplain m hm
  obtain ⟨qs, hqs⟩ := htext.ports hne hentry.chars
  rw [← (numerals_of_ok (htext.goTrimmed hentry.chars) hqs hentry.chars).2 p, hqs]
  simp

end reading

/-! ## Routes -/

/-- The port expressions of a route: the list of its entries, and the lines that rewrite its packets. Where lists may stand in lists to a
depth, they are well formed and mean the ports that the entries expand to. -/
def RoutePortsRight (depth : Nat) (r : ForwardRoute) : Prop :=
  ∃ e ls ps, formatPortSets r.ports = some e ∧ buildRouteDNATLines r (normalizedPortTokens r.ports) = .ok ls ∧
    expandRoutePortNumbers r.ports = .ok ps ∧ Means (readPorts (depth + 1) e.text) (· ∈ ps) ∧
    (∀ l ∈ ls, (readPorts (depth + 1) l.publicDport).isSome) ∧
    ∀ p, (∃ l ∈ ls, NamesPort (readPorts (depth + 1) l.publicDport) p) ↔ p ∈ ps

theorem RoutePortsRight.means {depth : Nat} {r : ForwardRoute} (h : RoutePortsRight depth r) {e : Ports} {ps : List Nat}
    (he : formatPortSets r.ports = some e) (hps : expandRoutePortNumbers r.ports = .ok ps) : Means (readPorts (depth + 1) e.text) (· ∈ ps) := by
  obtain ⟨e', ls, ps', he', -, hps', hmeans, -⟩ := h
  obtain rfl := Option.some.inj (he'.symm.trans he)
  obtain rfl := Except.ok.inj (hps'.symm.trans hps)
  exact hmeans

/-- An entry that is mapped port by port. -/
def rangeMapped (maps : List PortMap) (tok : String) : Bool := (maps.find? fun m => trimSpace m.pub = tok).any PortMap.isRange

/-- The text of a route's ports: with one pair of braces no entry is a list, what nft cuts is plain, and numerals that start with a zero
change no ports, on the whole and in the lines that take an entry as it is. -/
structure PlainRoute (depth : Nat) (r : ForwardRoute) : Prop where
  braces : depth = 0 → ∀ t ∈ normalizedPortTokens r.ports, isBraceList t = false
  members : ∀ t ∈ normalizedPortTokens r.ports, PlainMembers t
  same : ∀ p, (∃ t ∈ normalizedPortTokens r.ports, Listed nftValue t p) ↔ ∃ t ∈ normalizedPortTokens r.ports, Listed decimalValue t p
  lines : ∀ p, (∃ t ∈ normalizedPortTokens r.ports, Listed (if rangeMapped r.portMaps t then decimalValue else nftValue) t p) ↔
    ∃ t ∈ normalizedPortTokens r.ports, Listed decimalValue t p

section routes

variable {r : ForwardRoute} {tok : String} {depth p : Nat}

/-- The lines of an entry: one for each of its ports, or one with the entry as it is. -/
theorem tokenLines_ports (hmaps : PortMapsChecked r.ports r.portMaps) (ht : Trimmed tok) {ls : List RouteDNATLine}
    (h : buildTokenDNATLines r tok = .ok ls) :
    (rangeMapped r.portMaps tok = true → ∃ ps, expandPortToken tok = .ok ps ∧ ls.map (·.publicDport) = ps.map toString) ∧
      (rangeMapped r.portMaps tok = false → ls.map (·.publicDport) = [tok]) := by
  have htrim : trimSpace tok = tok := ht
  unfold buildTokenDNATLines at h
  obtain ⟨pairs, hpairs, h⟩ := bind_ok.mp h
  have hsingle : pairs = none → ls.map (·.publicDport) = [tok] := by
    rintro rfl
    obtain ⟨dest, -, h⟩ := bind_ok.mp h
    cases h
    rfl
  rw [rangeMapped]
  cases hfind : r.portMaps.find? fun m => trimSpace m.pub = tok with
  | none =>
    have hnone := @rangePortPairs_none tok r.portMaps fun m hm hpub => by
      have hno := List.find?_eq_none.mp hfind m hm
      rw [decide_eq_true_iff, ← htrim] at hno
      exact absurd hpub hno
    exact ⟨nofun, fun _ => hsingle (Except.ok.inj (hpairs.symm.trans hnone))⟩
  | some m =>
    have hm := List.mem_of_find?_eq_some hfind
    have hpub : trimSpace m.pub = tok := by simpa using List.find?_some hfind
    rw [Option.any_some]
    refine ⟨fun hrange => ?_, fun hrange => ?_⟩
    · have hfind' : r.portMaps.find? (fun m => trimSpace m.pub = trimSpace tok) = some m := by rw [htrim, hfind]
      obtain ⟨ps, qs, hps, -, hlen, hsome⟩ := rangePortPairs_some hrange hmaps.rows hfind'
      obtain rfl := Except.ok.inj (hpairs.symm.trans hsome)
      have hls : (ps.zip qs).map (pairLine (trimSpace r.targetIP)) = ls := Except.ok.inj h
      rw [htrim] at hps
      refine ⟨ps, hps, ?_⟩
      rw [← hls]
      have hfst : (ps.zip qs).map Prod.fst = ps := List.map_fst_zip (Nat.le_of_eq hlen)
      conv_rhs => rw [← hfst]
      rw [List.map_map, List.map_map]
      exact List.map_congr_left fun q _ => rfl
    · have hnone := @rangePortPairs_none tok r.portMaps fun m' hm' hpub' => by
        have heq : m' = m := List.inj_on_of_nodup_map hmaps.nodup hm' hm (by rw [hpub', htrim, hpub])
        rw [heq]
        exact hrange
      exact hsingle (Except.ok.inj (hpairs.symm.trans hnone))

theorem buildRouteDNATLines_mem {toks : List String} {ls : List RouteDNATLine} (h : buildRouteDNATLines r toks = .ok ls) {l : RouteDNATLine} :
    l ∈ ls ↔ ∃ t ∈ toks, ∃ tls, buildTokenDNATLines r t = .ok tls ∧ l ∈ tls := by
  induction toks generalizing ls with
  | nil =>
    cases h
    simp
  | cons t toks ih =>
    unfold buildRouteDNATLines at h
    obtain ⟨tls, htls, h⟩ := bind_ok.mp h
    obtain ⟨rest, hrest, h⟩ := bind_ok.mp h
    cases h
    rw [List.mem_append, ih hrest, List.exists_mem_cons_iff, htls]
    simp

/-- A port number as a text means itself. -/
theorem readPorts_toString {n : Nat} (hlo : 1 ≤ n) : readPorts depth (toString n) = some [(n, n)] := by
  have hnum := readNumeral_toString hlo
  have hblank : ∀ {c : Char}, c ∈ (toString n).toList → isBlank c = false := by
    intro c hc
    have hdigit := isDigit_toString n c hc
    have hspace := isSpace_eq_isBlank (c := c) (by rw [entryChar, hdigit]; rfl)
    rw [← hspace, isDigit_space hdigit]
  have htrim : trimBlanks isBlank (toString n) = toString n := by
    rw [trimBlanks, trimBy_eq_self, String.ofList_toList]
    · intro hlt hb
      rw [hblank (List.getElem_mem hlt)] at hb
      cases hb
    · intro hne hb
      rw [hblank (List.getLast_mem hne)] at hb
      cases hb
  have hentry : readEntry (toString n) = some (n, n) := by
    rw [readEntry, cut_none (not_mem_toString (by decide))]
    dsimp only
    rw [htrim, hnum]
    rfl
  rw [readPorts, htrim, readMember_bare, hentry]
  · rfl
  · exact inBraces_eq_none fun c hc he => absurd (isDigit_toString n c hc) (by rw [he]; decide)

/-- The entries of an accepted route. -/
theorem entryRead_of_mem (h : ∀ tok ∈ portTokens r.ports, ∃ qs, expandPortToken tok = .ok qs) {t : String}
    (ht : t ∈ normalizedPortTokens r.ports) : EntryRead t := by
  obtain ⟨raw, hraw, hraweq, hne⟩ := mem_normalizedPortTokens.mp ht
  refine ⟨trimmed_of_mem_normalized ht, hne, fun tok htok => h tok (mem_portTokens.mpr ⟨t, ht, htok⟩)⟩

/-- Entries are read by nft as they stand. -/
theorem readPorts_entry {t : String} (h : EntryRead t) : readPorts depth t = readMember depth t := by
  have hblank : trimBlanks isBlank t = t := by
    have hself := trimBlanks_of_trimmed h.trimmed
    rw [trimBlanks] at hself ⊢
    have hcs : trimBy isListBlank t.toList = t.toList := by
      have := congrArg String.toList hself
      rwa [String.toList_ofList] at this
    have hsame : trimBy isBlank t.toList = t.toList := by
      refine trimBy_eq_self (fun hlt hb => ?_) fun hne hb => ?_
      · have := @trimBy_head isListBlank t.toList (by rwa [hcs])
        simp only [hcs] at this
        exact this (isListBlank_of_isBlank hb)
      · have := @trimBy_last isListBlank t.toList (by rwa [hcs])
        simp only [hcs] at this
        exact this (isListBlank_of_isBlank hb)
    rw [hsame, String.ofList_toList]
  rw [readPorts, hblank]

/-- What nft makes of the list of entries. -/
theorem means_set (h : ∀ tok ∈ portTokens r.ports, ∃ qs, expandPortToken tok = .ok qs) (hne : normalizedPortTokens r.ports ≠ [])
    {S : Nat → Prop} : Means (readPorts (depth + 1) (Ports.set (normalizedPortTokens r.ports)).text) S ↔
      (∀ t ∈ normalizedPortTokens r.ports, (depth = 0 → isBraceList t = false) ∧ PlainMembers t) ∧
        ∀ p, (∃ t ∈ normalizedPortTokens r.ports, Listed nftValue t p) ↔ S p := by
  have hcut : ∀ t ∈ normalizedPortTokens r.ports, EntryCut t := fun t ht => (entryRead_of_mem h ht).cut
  rw [readPorts_set hne (fun t ht => (hcut t ht).whole) (fun t ht => trimBlanks_of_trimmed (trimmed_of_mem_normalized ht))
    fun hempty => (entryRead_of_mem h hempty).filled rfl, means_readAll]
  have hsome : (∀ t ∈ normalizedPortTokens r.ports, (readMember depth t).isSome) ↔
      ∀ t ∈ normalizedPortTokens r.ports, (depth = 0 → isBraceList t = false) ∧ PlainMembers t :=
    forall₂_congr fun t ht => (hcut t ht).isSome_iff
  rw [← hsome]
  refine and_congr_right fun hread => forall_congr' fun p => iff_congr ?_ Iff.rfl
  exact exists_congr fun t => and_congr_right fun ht => (hcut t ht).namesPort_iff (hread t ht)

theorem buildRouteDNATLines_tokens {toks : List String} {ls : List RouteDNATLine} (h : buildRouteDNATLines r toks = .ok ls) :
    ∀ t ∈ toks, ∃ tls, buildTokenDNATLines r t = .ok tls := by
  induction toks generalizing ls with
  | nil => exact fun t ht => absurd ht List.not_mem_nil
  | cons t toks ih =>
    unfold buildRouteDNATLines at h
    obtain ⟨tls, htls, h⟩ := bind_ok.mp h
    obtain ⟨rest, hrest, h⟩ := bind_ok.mp h
    intro u hu
    rcases List.mem_cons.mp hu with rfl | hu
    · exact ⟨tls, htls⟩
    · exact ih hrest u hu

/-- What nft makes of the lines of an entry. -/
theorem tokenLines_read (hmaps : PortMapsChecked r.ports r.portMaps) (hentry : EntryRead tok) (hplain : PlainMembers tok)
    {ls : List RouteDNATLine} (h : buildTokenDNATLines r tok = .ok ls) :
    (∀ l ∈ ls, (readPorts (depth + 1) l.publicDport).isSome) ∧
      ((∃ l ∈ ls, NamesPort (readPorts (depth + 1) l.publicDport) p) ↔
        Listed (if rangeMapped r.portMaps tok then decimalValue else nftValue) tok p) := by
  have hlines := tokenLines_ports hmaps hentry.trimmed h
  have hall : ∀ P : String → Prop, (∀ l ∈ ls, P l.publicDport) ↔ ∀ d ∈ ls.map (·.publicDport), P d := fun P => by simp
  have hex : ∀ P : String → Prop, (∃ l ∈ ls, P l.publicDport) ↔ ∃ d ∈ ls.map (·.publicDport), P d := fun P => by simp
  rw [hall fun d => (readPorts (depth + 1) d).isSome = true, hex fun d => NamesPort (readPorts (depth + 1) d) p]
  by_cases hrange : rangeMapped r.portMaps tok = true
  · obtain ⟨ps, hps, hls⟩ := hlines.1 hrange
    rw [if_pos hrange]
    have hread : ∀ n ∈ ps, readPorts (depth + 1) (toString n) = some [(n, n)] := fun n hn =>
      readPorts_toString (expandPortToken_range hps n hn).1
    rw [hls, ← hentry.cut.inTokens_iff hplain, inTokens_singleton hentry.trimmed hps]
    refine ⟨fun d hd => ?_, ?_⟩
    · obtain ⟨n, hn, rfl⟩ := List.mem_map.mp hd
      rw [hread n hn]
      rfl
    · constructor
      · rintro ⟨d, hd, l, hl, q, hq, hp⟩
        obtain ⟨n, hn, rfl⟩ := List.mem_map.mp hd
        rw [hread n hn] at hl
        obtain rfl := Option.some.inj hl
        rw [List.mem_singleton.mp hq, Within] at hp
        dsimp only at hp
        rwa [show p = n by omega]
      · intro hp
        exact ⟨toString p, List.mem_map_of_mem hp, _, hread p hp, _, List.mem_singleton_self _, Nat.le_refl p, Nat.le_refl p⟩
  · have hsome : (readMember (depth + 1) tok).isSome := hentry.cut.isSome_iff.mpr ⟨nofun, hplain⟩
    rw [if_neg hrange, hlines.2 (Bool.eq_false_iff.mpr hrange)]
    simp only [List.mem_singleton, forall_eq, exists_eq_left, readPorts_entry hentry]
    exact ⟨hsome, hentry.cut.namesPort_iff hsome⟩

/-- A route's port texts mean to nft what they mean to the config just when they are plain. -/
theorem routePortsRight_iff {c : Config} {i : Nat} (hc : RouteChecked c i r)
    (h : ∀ tok ∈ portTokens r.ports, ∃ qs, expandPortToken tok = .ok qs) : RoutePortsRight depth r ↔ PlainRoute depth r := by
  have hentry : ∀ t ∈ normalizedPortTokens r.ports, EntryRead t := fun t ht => entryRead_of_mem h ht
  have hdecimal : (∀ t ∈ normalizedPortTokens r.ports, PlainMembers t) → ∀ {ps : List Nat}, expandRoutePortNumbers r.ports = .ok ps →
      ∀ p, p ∈ ps ↔ ∃ t ∈ normalizedPortTokens r.ports, Listed decimalValue t p := by
    intro hplain ps hps p
    obtain ⟨seen, rfl, -, -, hmem⟩ := expandRoutePortNumbers_ok hps
    rw [List.mem_insertionSort, hmem]
    constructor
    · rintro ⟨t, ht, hp⟩
      obtain ⟨u, hu, ht⟩ := mem_portTokens.mp ht
      exact ⟨u, hu, ((hentry u hu).cut.inTokens_iff (hplain u hu)).mp ⟨t, ht, hp⟩⟩
    · rintro ⟨u, hu, hp⟩
      obtain ⟨t, ht, hp⟩ := ((hentry u hu).cut.inTokens_iff (hplain u hu)).mpr hp
      exact ⟨t, mem_portTokens.mpr ⟨u, hu, ht⟩, hp⟩
  have hlines : (∀ t ∈ normalizedPortTokens r.ports, PlainMembers t) → ∀ {ls : List RouteDNATLine},
      buildRouteDNATLines r (normalizedPortTokens r.ports) = .ok ls →
      (∀ l ∈ ls, (readPorts (depth + 1) l.publicDport).isSome) ∧ ∀ p, (∃ l ∈ ls, NamesPort (readPorts (depth + 1) l.publicDport) p) ↔
        ∃ t ∈ normalizedPortTokens r.ports, Listed (if rangeMapped r.portMaps t then decimalValue else nftValue) t p := by
    intro hplain ls hls
    refine ⟨fun l hl => ?_, fun p => ?_⟩
    · obtain ⟨t, ht, tls, htls, hl⟩ := (buildRouteDNATLines_mem hls).mp hl
      exact (@tokenLines_read r t depth 0 hc.maps (hentry t ht) (hplain t ht) tls htls).1 l hl
    · constructor
      · rintro ⟨l, hl, hp⟩
        obtain ⟨t, ht, tls, htls, hl⟩ := (buildRouteDNATLines_mem hls).mp hl
        exact ⟨t, ht, (tokenLines_read hc.maps (hentry t ht) (hplain t ht) htls).2.mp ⟨l, hl, hp⟩⟩
      · rintro ⟨t, ht, hp⟩
        obtain ⟨tls, htls⟩ := buildRouteDNATLines_tokens hls t ht
        obtain ⟨l, hl, hp⟩ := (tokenLines_read hc.maps (hentry t ht) (hplain t ht) htls).2.mpr hp
        exact ⟨l, (buildRouteDNATLines_mem hls).mpr ⟨t, ht, tls, htls, hl⟩, hp⟩
  have hformat : formatPortSets r.ports = some (.set (normalizedPortTokens r.ports)) := if_neg hc.ports
  constructor
  · rintro ⟨e, ls, ps, he, hls, hps, hmeans, -, hnames⟩
    obtain rfl := Option.some.inj (hformat.symm.trans he)
    obtain ⟨hread, hsame⟩ := (means_set h hc.ports).mp hmeans
    have hplain := fun t ht => (hread t ht).2
    refine ⟨fun h0 t ht => (hread t ht).1 h0, hplain, fun p => ?_, fun p => ?_⟩
    · rw [hsame, hdecimal hplain hps]
    · rw [← (hlines hplain hls).2, hnames, hdecimal hplain hps]
  · intro hroute
    obtain ⟨ls, hls⟩ := buildRouteDNATLines_ok hc.maps.rows (normalizedPortTokens r.ports)
    obtain ⟨seen, hseen, -⟩ := @expandTokens_total "ports" (fun _ e => e) _ _ portList_nil h
    have hps : expandRoutePortNumbers r.ports = .ok (seen.insertionSort (· ≤ ·)) := by
      rw [expandRoutePortNumbers, hseen]
      rfl
    have hset : Means (readPorts (depth + 1) (Ports.set (normalizedPortTokens r.ports)).text) (· ∈ seen.insertionSort (· ≤ ·)) := by
      refine (means_set h hc.ports).mpr ⟨fun t ht => ⟨fun h0 => hroute.braces h0 t ht, hroute.members t ht⟩, fun p => ?_⟩
      rw [hroute.same, hdecimal hroute.members hps]
    refine ⟨_, ls, _, hformat, hls, hps, hset, (hlines hroute.members hls).1, fun p => ?_⟩
    rw [(hlines hroute.members hls).2, hroute.lines, hdecimal hroute.members hps]

end routes

/-! ## Open ports of the host -/

/-- The range that `parsePort` reads in a token. -/
def parsedRange (tok : String) : Option (Nat × Nat) :=
  match cut tok '-' with
  | none => (parsePort tok).toOption.map fun n => (n, n)
  | some (lo, hi) => (parsePort lo).toOption.bind fun a => (parsePort hi).toOption.map fun b => (a, b)

/-- The tokens of a `dport` that `ValidateInputAllowDport` checks. -/
def dportTokens (d : String) : List String := if containsChar d '{' then (split (braceInner d) ',').map trimSpace else [d]

/-- A port that is checked for an entry of `input_allows`. -/
def CheckedPort (d : String) (p : Nat) : Prop := ∃ tok ∈ dportTokens d, ∃ r, parsedRange tok = some r ∧ Within p r

/-- The text of a `dport`: what nft cuts is plain, and numerals that start with a zero change no ports. -/
structure PlainDport (d : String) : Prop where
  members : PlainMembers d
  same : ∀ p, Listed nftValue d p ↔ Listed decimalValue d p

theorem parsePort_ok {s : String} {n : Nat} (h : parsePort s = .ok n) : Digits s ∧ n = decimalValue s ∧ 1 ≤ n ∧ n ≤ 65535 := by
  unfold parsePort at h
  obtain ⟨htext, h⟩ := ite_errorf_ok.mp h
  obtain ⟨hrange, h⟩ := ite_errorf_ok.mp h
  cases h
  simp only [not_or, not_not] at htext
  refine ⟨⟨fun he => htext.1 (String.toList_eq_nil_iff.mp he), htext.2.2⟩, rfl, by omega, by omega⟩

theorem atoi_digits {s : String} (h : Digits s) (hlt : decimalValue s < 2 ^ 63) : atoi (trimSpace s) = some (decimalValue s : Int) := by
  have htrim : trimSpace s = s := trimmed_of_noSpace fun c hc => isDigit_space (List.all_eq_true.mp h.2 c hc)
  rw [htrim]
  unfold atoi
  dsimp only
  split
  · rename_i cs hcs
    have hdigit := List.all_eq_true.mp h.2 '-' (hcs ▸ List.mem_cons_self)
    exact absurd hdigit (by decide)
  · rename_i cs hcs
    have hdigit := List.all_eq_true.mp h.2 '+' (hcs ▸ List.mem_cons_self)
    exact absurd hdigit (by decide)
  · rw [if_pos (show s.toList ≠ [] ∧ s.toList.all isDigit = true from h), Option.bind_some]
    exact if_pos hlt

/-- A token that passes the check of `input_allows` is a token of routes as well, with the ports that the check reads. -/
theorem plainDport_ok {m : String} (h : validatePlainDportToken m = .ok ()) :
    ∃ qs, expandPortToken (trimSpace m) = .ok qs ∧ ∀ p, p ∈ qs ↔ ∃ r, parsedRange (trimSpace m) = some r ∧ Within p r := by
  unfold validatePlainDportToken at h
  dsimp only at h
  obtain ⟨hne, h⟩ := ite_errorf_ok.mp h
  obtain ⟨-, h⟩ := ite_errorf_ok.mp h
  unfold expandPortToken parsedRange
  dsimp only
  rw [trimSpace_trimSpace, if_neg hne]
  rcases hcut : cut (trimSpace m) '-' with _ | ⟨lo, hi⟩
  · rw [hcut] at h
    obtain ⟨n, hn, -⟩ := bind_ok.mp h
    obtain ⟨hdigits, hvalue, hlo, hhi⟩ := parsePort_ok hn
    have hatoi := atoi_digits hdigits (by omega)
    rw [trimSpace_trimSpace, ← hvalue] at hatoi
    have hbounds : ¬((n : Int) < 1 ∨ 65535 < (n : Int)) := by omega
    dsimp only
    rw [hatoi]
    dsimp only
    rw [if_neg hbounds, hn]
    refine ⟨_, rfl, fun p => ?_⟩
    simp only [Int.toNat_natCast, List.mem_singleton, Except.toOption, Option.map_some, Option.some.injEq, exists_eq_left', Within]
    omega
  · rw [hcut] at h
    obtain ⟨a, ha, h⟩ := bind_ok.mp h
    obtain ⟨b, hb, h⟩ := bind_ok.mp h
    obtain ⟨hle, -⟩ := ite_errorf_ok.mp h
    obtain ⟨hdigits, hvalue, hlo, hhi⟩ := parsePort_ok ha
    obtain ⟨hdigits', hvalue', hlo', hhi'⟩ := parsePort_ok hb
    have hatoi := atoi_digits hdigits (by omega)
    have hatoi' := atoi_digits hdigits' (by omega)
    rw [← hvalue] at hatoi
    rw [← hvalue'] at hatoi'
    have hbounds : ¬((a : Int) < 1 ∨ (b : Int) < 1 ∨ 65535 < (a : Int) ∨ 65535 < (b : Int) ∨ (b : Int) < a) := by omega
    dsimp only
    rw [hatoi, hatoi']
    dsimp only
    rw [if_neg hbounds, ha, hb]
    refine ⟨_, rfl, fun p => ?_⟩
    simp only [Int.toNat_natCast, List.mem_range'_1, Except.toOption, Option.bind_some, Option.map_some, Option.some.injEq, exists_eq_left', Within]
    omega

/-- The tokens of an accepted `dport` are those of an entry of `ports`. -/
theorem dport_read {d : String} (h : validateInputAllowDport d = .ok ()) :
    EntryRead (trimSpace d) ∧ ∀ p, InTokens p (portTokens [trimSpace d]) ↔ CheckedPort (trimSpace d) p := by
  have htrimmed : Trimmed (trimSpace d) := trimmed_trimSpace d
  have hself : trimSpace (trimSpace d) = trimSpace d := htrimmed
  unfold validateInputAllowDport at h
  dsimp only at h
  obtain ⟨hne, h⟩ := ite_errorf_ok.mp h
  obtain ⟨-, h⟩ := ite_errorf_ok.mp h
  have hread : ∀ {toks : List String}, portTokens [trimSpace d] = toks → dportTokens (trimSpace d) = toks →
      (∀ tok ∈ toks, ∃ m, tok = trimSpace m ∧ validatePlainDportToken m = .ok ()) →
      EntryRead (trimSpace d) ∧ ∀ p, InTokens p (portTokens [trimSpace d]) ↔ CheckedPort (trimSpace d) p := by
    intro toks hports hdport hplain
    simp only [CheckedPort, hdport]
    refine ⟨⟨htrimmed, hne, fun tok htok => ?_⟩, fun p => ?_⟩
    · rw [hports] at htok
      obtain ⟨m, rfl, hm⟩ := hplain tok htok
      obtain ⟨qs, hqs, -⟩ := plainDport_ok hm
      exact ⟨qs, hqs⟩
    · rw [hports]
      refine exists_congr fun tok => and_congr_right fun htok => ?_
      obtain ⟨m, rfl, hm⟩ := hplain tok htok
      obtain ⟨qs, hqs, hmem⟩ := plainDport_ok hm
      rw [← hmem, hqs]
      simp
  by_cases hbrace : containsChar (trimSpace d) '{' = true
  · rw [if_pos hbrace] at h
    unfold validateBraceDport at h
    dsimp only at h
    rw [hself] at h
    obtain ⟨hlist, h⟩ := ite_errorf_ok.mp h
    obtain ⟨-, h⟩ := ite_errorf_ok.mp h
    have hparts : ∀ part ∈ split (braceInner (trimSpace d)) ',', trimSpace part ≠ "" ∧ validatePlainDportToken (trimSpace part) = .ok () := by
      intro part hpart
      obtain ⟨hpne, hone⟩ := ite_errorf_ok.mp (forIdx_ok_mem.mp h part hpart)
      exact ⟨hpne, (ite_errorf_ok.mp hone).2⟩
    refine @hread ((split (braceInner (trimSpace d)) ',').map trimSpace) ?_ ?_ ?_
    · rw [portTokens_singleton, hself, if_neg hne, if_pos (not_not.mp hlist), List.filter_eq_self]
      intro tok htok
      obtain ⟨part, hpart, rfl⟩ := List.mem_map.mp htok
      exact decide_eq_true (hparts part hpart).1
    · rw [dportTokens, if_pos hbrace]
    · intro tok htok
      obtain ⟨part, hpart, rfl⟩ := List.mem_map.mp htok
      exact ⟨trimSpace part, (trimSpace_trimSpace part).symm, (hparts part hpart).2⟩
  · rw [if_neg hbrace] at h
    refine @hread [trimSpace d] ?_ ?_ ?_
    · have hchars := validatePlainDportToken_chars h
      rw [hself] at hchars
      rw [portTokens_singleton, hself, if_neg hne, not_braceList fun ch hch => .inr (hchars ch hch), if_neg Bool.false_ne_true]
    · rw [dportTokens, if_neg hbrace]
    · intro tok htok
      rw [List.mem_singleton.mp htok]
      exact ⟨trimSpace d, hself.symm, h⟩

/-- An accepted `dport` means to nft what was checked just when it is plain. -/
theorem dportRight_iff {d : String} {depth : Nat} (h : validateInputAllowDport d = .ok ()) :
    Means (readPorts (depth + 1) (trimSpace d)) (CheckedPort (trimSpace d)) ↔ PlainDport (trimSpace d) := by
  obtain ⟨hentry, hchecked⟩ := dport_read h
  have hsome : (readMember (depth + 1) (trimSpace d)).isSome ↔ PlainMembers (trimSpace d) := by
    rw [hentry.cut.isSome_iff]
    exact and_iff_right nofun
  rw [readPorts_entry hentry, means_iff]
  constructor
  · rintro ⟨hread, hnames⟩
    have hplain := hsome.mp hread
    refine ⟨hplain, fun p => ?_⟩
    rw [← hentry.cut.namesPort_iff hread, hnames, ← hchecked, hentry.cut.inTokens_iff hplain]
  · intro hplain
    have hread := hsome.mpr hplain.members
    refine ⟨hread, fun p => ?_⟩
    rw [hentry.cut.namesPort_iff hread, hplain.same, ← hchecked, hentry.cut.inTokens_iff hplain.members]

/-! ## The config -/

/-- The port texts of an accepted config mean to nft what was checked just where they are plain. -/
theorem portText_iff {c : Config} (hv : c.validate = .ok ()) (depth : Nat) :
    (∀ (i : Nat) r, c.forwarding.routes[i]? = some r → r.disabled = false → (RoutePortsRight depth r ↔ PlainRoute depth r)) ∧
    ∀ a ∈ c.inputAllows, a.disabled = false → ∀ proto d, inputAllowProtoPort a = .ok (proto, d) →
      (Means (readPorts (depth + 1) (Ports.tok d).text) (CheckedPort d) ↔ PlainDport d) := by
  have hc := Config.checked hv
  refine ⟨fun i r hr hd => ?_, fun a ha hd proto d hport => ?_⟩
  · obtain ⟨ps, hps⟩ := hc.ports_expand hr hd
    exact routePortsRight_iff (hc.routes i r hr hd) (portTokens_ok hps)
  · rw [inputAllowProtoPort_port hport]
    exact dportRight_iff (hc.inputAllows a ha hd)

/-- A config with a route and an open port. -/
def openPortsConfig : Config :=
  { mapConfig ["80-81", "443"] [⟨"80-81", "8080-8081"⟩] with inputAllows := [{ proto := "tcp", dport := "\x7b22, 8443\x7d" }] }

theorem portText_iff_sample :
    (RoutePortsRight 0 (mapRoute ["80-81", "443"] [⟨"80-81", "8080-8081"⟩]) ↔ PlainRoute 0 (mapRoute ["80-81", "443"] [⟨"80-81", "8080-8081"⟩])) ∧
    (Means (readPorts 1 (Ports.tok "\x7b22, 8443\x7d").text) (CheckedPort "\x7b22, 8443\x7d") ↔ PlainDport "\x7b22, 8443\x7d") := by
  have h := portText_iff (c := openPortsConfig) (by decide +kernel) 0
  exact ⟨h.1 0 _ rfl rfl, h.2 _ (List.mem_singleton_self _) rfl .tcp _ (by decide +kernel)⟩

/-- nft opens port 8 for a route to port 010, which is 10 to the checks; and it does not read `+80`, nor, with one pair of braces, a
list among the entries. -/
theorem octal_port_opened : (mapConfig ["010"] []).validate = .ok () ∧ expandRoutePortNumbers ["010"] = .ok [10] ∧
    (formatPortSets ["010"]).map (fun e => readPorts 1 e.text) = some (some [(8, 8)]) ∧ ¬RoutePortsRight 0 (mapRoute ["010"] []) ∧
    (mapConfig ["+80"] []).validate = .ok () ∧ (formatPortSets ["+80"]).map (fun e => readPorts 1 e.text) = some none ∧
    (mapConfig ["\x7b80,443\x7d", "22"] []).validate = .ok () ∧
    (formatPortSets ["\x7b80,443\x7d", "22"]).map (fun e => readPorts 1 e.text) = some none := by
  have hread : readPorts 1 (Ports.set ["010"]).text = some [(8, 8)] := by decide +kernel
  have hformat : formatPortSets ["010"] = some (.set ["010"]) := by decide +kernel
  have hports : expandRoutePortNumbers ["010"] = .ok [10] := by decide +kernel
  refine ⟨by decide +kernel, hports, by decide +kernel, fun hright => ?_, by decide +kernel, by decide +kernel, by decide +kernel, by decide +kernel⟩
  obtain ⟨rs, hrs, hmeans⟩ := hright.means hformat hports
  obtain rfl := Option.some.inj (hrs.symm.trans hread)
  have height := (hmeans 8).mp ⟨(8, 8), List.mem_singleton_self _, Nat.le_refl 8, Nat.le_refl 8⟩
  exact absurd height (by decide)

end EvuProxy

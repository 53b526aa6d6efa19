import EvuProxy.Go.Numeral

/-!
# Searching a text

What a regular expression and `strings.Contains` do on a text: a reader is tried from every place of it on, and the leftmost that reads
something counts. A search passes over text from no place of which the reader can start.
-/

namespace Go

/-! ## Readers -/

/-- The white space of a regular expression. -/
def isBlankRE (c : Char) : Bool := c == '\t' || c == '\n' || c == '\x0c' || c == '\r' || c == ' '

/-- A literal text: what follows it. -/
def lit (l : String) (cs : List Char) : Option (List Char) :=
  if l.toList.isPrefixOf cs then some (cs.drop l.toList.length) else none

/-- `\s+`: what follows it. -/
def blanks (cs : List Char) : Option (List Char) := if cs.takeWhile isBlankRE = [] then none else some (cs.dropWhile isBlankRE)

/-- `(\d+)`: the digits, and what follows them. -/
def digits (cs : List Char) : Option (List Char × List Char) :=
  if cs.takeWhile isDigit = [] then none else some (cs.takeWhile isDigit, cs.dropWhile isDigit)

/-- What a reader reads from the leftmost place from which it reads something. -/
def search {α : Type} (p : List Char → Option α) : List Char → Option α
  | [] => p []
  | c :: cs => (p (c :: cs)).or (search p cs)

/-- `strings.Contains`. -/
def contains (s sub : String) : Bool := (search (lit sub) s.toList).isSome

theorem lit_eq_some {l : String} {cs rest : List Char} : lit l cs = some rest ↔ cs = l.toList ++ rest := by
  unfold lit
  split
  · rename_i h
    obtain ⟨t, rfl⟩ := List.isPrefixOf_iff_prefix.mp h
    rw [List.drop_left, Option.some.injEq, List.append_cancel_left_eq]
  · rename_i h
    refine iff_of_false (Option.some_ne_none _).symm fun hcs => h ?_
    rw [hcs]
    exact List.isPrefixOf_iff_prefix.mpr (List.prefix_append _ _)

theorem lit_append (l : String) (rest : List Char) : lit l (l.toList ++ rest) = some rest := lit_eq_some.mpr rfl

theorem digits_append {ds rest : List Char} (hne : ds ≠ []) (hds : ∀ c ∈ ds, isDigit c = true)
    (hrest : ∀ c, rest.head? = some c → isDigit c = false) : digits (ds ++ rest) = some (ds, rest) := by
  have htake : (ds ++ rest).takeWhile isDigit = ds := by
    rw [List.takeWhile_append_of_pos hds]
    cases rest with
    | nil => rw [List.takeWhile_nil, List.append_nil]
    | cons c rest => rw [List.takeWhile_cons_of_neg (by simp [hrest c rfl]), List.append_nil]
  have hdrop : (ds ++ rest).dropWhile isDigit = rest := by
    rw [List.dropWhile_append_of_pos hds]
    cases rest with
    | nil => rfl
    | cons c rest => rw [List.dropWhile_cons_of_neg (by simp [hrest c rfl])]
  rw [digits, htake, hdrop, if_neg hne]

theorem digits_toString {n : Nat} {rest : List Char} (hrest : ∀ c, rest.head? = some c → isDigit c = false) :
    digits ((toString n).toList ++ rest) = some ((toString n).toList, rest) := by
  refine digits_append ?_ (isDigit_toString n) hrest
  rw [toList_toString]
  exact Nat.toDigits_ne_nil

theorem blanks_space {c : Char} {rest : List Char} (hc : isBlankRE c = false) : blanks (' ' :: c :: rest) = some (c :: rest) := by
  rw [blanks, List.takeWhile_cons_of_pos (by decide), if_neg (List.cons_ne_nil _ _), List.dropWhile_cons_of_pos (by decide),
    List.dropWhile_cons_of_neg (by simp [hc])]

theorem blanks_eq_some {cs rest : List Char} (h : blanks cs = some rest) :
    ∃ c t, cs = c :: t ∧ isBlankRE c = true ∧ rest = t.dropWhile isBlankRE := by
  unfold blanks at h
  split at h
  · cases h
  · rename_i hne
    cases cs with
    | nil => exact absurd rfl hne
    | cons c t =>
      by_cases hc : isBlankRE c = true
      · rw [List.dropWhile_cons_of_pos hc] at h
        exact ⟨c, t, rfl, hc, (Option.some.inj h).symm⟩
      · exact absurd (List.takeWhile_cons_of_neg hc) hne

/-! ## What a search passes over -/

section search

variable {α : Type} {p : List Char → Option α} {seg seg' rest : List Char}

theorem search_found {cs : List Char} {a : α} (h : p cs = some a) : search p cs = some a := by
  cases cs with
  | nil => exact h
  | cons c cs => rw [search, h, Option.some_or]

/-- What can be read at some place is found there or before. -/
theorem search_isSome {pre cs : List Char} (h : (p cs).isSome) : (search p (pre ++ cs)).isSome := by
  induction pre with
  | nil =>
    obtain ⟨a, ha⟩ := Option.isSome_iff_exists.mp h
    rw [List.nil_append, search_found ha, Option.isSome_some]
  | cons c pre ih =>
    rw [List.cons_append, search]
    cases p (c :: (pre ++ cs)) with
    | none => rwa [Option.none_or]
    | some a => rw [Option.some_or, Option.isSome_some]

/-- A search passes over what the reader cannot start in. -/
theorem search_skip (h : ∀ v, v ≠ [] → v <:+ seg → p (v ++ rest) = none) : search p (seg ++ rest) = search p rest := by
  induction seg with
  | nil => rfl
  | cons c seg ih =>
    rw [List.cons_append, search, ← List.cons_append, h _ (List.cons_ne_nil _ _) List.suffix_rfl, Option.none_or]
    exact ih fun v hv hsuf => h v hv (hsuf.trans (List.suffix_cons c seg))

/-- A reader starts nowhere in a text, whatever follows it. -/
def Clear (p : List Char → Option α) (seg : List Char) : Prop := ∀ v rest, v ≠ [] → v <:+ seg → p (v ++ rest) = none

theorem Clear.search_eq (h : Clear p seg) : search p (seg ++ rest) = search p rest := search_skip fun v hv hsuf => h v rest hv hsuf

theorem clear_nil : Clear p [] := fun _ _ hv hsuf => absurd (List.suffix_nil.mp hsuf) hv

theorem Clear.append (h : Clear p seg) (h' : Clear p seg') : Clear p (seg ++ seg') := by
  rintro v rest hv ⟨t, ht⟩
  rcases List.append_eq_append_iff.mp ht with ⟨u, rfl, rfl⟩ | ⟨u, -, rfl⟩
  · rw [List.append_assoc]
    by_cases hnil : u = []
    · subst hnil
      exact h' seg' rest hv List.suffix_rfl
    · exact h u _ hnil (List.suffix_append t u)
  · exact h' v rest hv (List.suffix_append u v)

theorem contains_append (pre sub post : String) : contains (pre ++ sub ++ post) sub = true := by
  unfold contains
  rw [String.toList_append, String.toList_append, List.append_assoc]
  refine search_isSome ?_
  rw [lit_append, Option.isSome_some]

/-! ## Readers that start with two words -/

/-- A reader reads something only where the one word stands, white space after it and then the start of the other. -/
def TwoWords (p : List Char → Option α) (first second : List Char) : Prop := ∀ cs, p cs ≠ none →
  ∃ c t, cs = first ++ c :: t ∧ isBlankRE c = true ∧ second <+: t.dropWhile isBlankRE

variable {first second : List Char}

/-- A reader that begins with a literal of two words. -/
theorem twoWords_of_lit {l : String} {b : Char} (hl : l.toList = first ++ ' ' :: b :: second) (hb : isBlankRE b = false)
    (h : ∀ cs, p cs ≠ none → lit l cs ≠ none) : TwoWords p first (b :: second) := by
  intro cs hcs
  obtain ⟨rest, hrest⟩ := Option.ne_none_iff_exists'.mp (h cs hcs)
  refine ⟨' ', b :: second ++ rest, ?_, by decide, ?_⟩
  · rw [lit_eq_some.mp hrest, hl, List.append_assoc, List.cons_append]
  · rw [List.cons_append, List.dropWhile_cons_of_neg (by simp [hb])]
    exact List.prefix_append (b :: second) rest

/-- No start of a text can be the start of a word. -/
def apart (w : List Char) : List Char → Bool
  | [] => true
  | c :: cs => !((c :: cs).isPrefixOf w || w.isPrefixOf (c :: cs)) && apart w cs

theorem clear_of_apart (h : TwoWords p first second) (hapart : apart first seg = true) : Clear p seg := by
  rintro v rest hv ⟨t, rfl⟩
  induction t with
  | nil =>
    cases v with
    | nil => exact absurd rfl hv
    | cons c v =>
      rw [List.nil_append, apart, Bool.and_eq_true, Bool.not_eq_true', Bool.or_eq_false_iff] at hapart
      by_contra hsome
      obtain ⟨d, u, heq, -, -⟩ := h _ hsome
      rcases List.append_eq_append_iff.mp heq with ⟨u', hfirst, -⟩ | ⟨u', hseg, -⟩
      · rw [hfirst, List.isPrefixOf_iff_prefix.mpr (List.prefix_append _ _)] at hapart
        exact Bool.noConfusion hapart.1.1
      · rw [hseg, List.isPrefixOf_iff_prefix.mpr (List.prefix_append _ _)] at hapart
        exact Bool.noConfusion hapart.1.2
  | cons c t ih =>
    rw [List.cons_append, apart, Bool.and_eq_true] at hapart
    exact ih hapart.2

/-- A text without the first letter of the word. -/
theorem clear_of_not_mem {a : Char} {w : List Char} (h : TwoWords p (a :: w) second) (ha : a ∉ seg) : Clear p seg := by
  rintro v rest hv ⟨t, rfl⟩
  cases v with
  | nil => exact absurd rfl hv
  | cons c v =>
    by_contra hsome
    obtain ⟨d, u, heq, -, -⟩ := h _ hsome
    rw [List.cons_append, List.cons_append] at heq
    exact ha ((List.cons.inj heq).1 ▸ List.mem_append_right _ List.mem_cons_self)

/-- A text without the second letter of the word, up to a last character that is not the first letter. -/
theorem clear_of_second {a b z : Char} {w : List Char} (h : TwoWords p (a :: b :: w) second) (hz : z ≠ a) (hb : b ∉ seg ++ [z]) :
    Clear p (seg ++ [z]) := by
  rintro v rest hv ⟨t, ht⟩
  by_contra hsome
  obtain ⟨d, u, heq, -, -⟩ := h _ hsome
  cases v with
  | nil => exact hv rfl
  | cons c v =>
    rw [List.cons_append, List.cons_append] at heq
    obtain ⟨rfl, htail⟩ := List.cons.inj heq
    cases v with
    | nil =>
      have hlast := congrArg List.getLast? ht
      rw [List.getLast?_concat, List.getLast?_concat] at hlast
      exact hz (Option.some.inj hlast).symm
    | cons e v =>
      rw [List.cons_append, List.cons_append] at htail
      obtain ⟨rfl, -⟩ := List.cons.inj htail
      exact hb (ht ▸ List.mem_append_right _ (List.mem_cons_of_mem _ List.mem_cons_self))

/-! ## Quoted names -/

/-- White space as it stands in a quoted text. -/
def quotedSpace (cs : List Char) : List Char := cs.flatMap quoteChar

theorem quoteChar_space {c : Char} (h : isSpace c = true) :
    quoteChar c = [c] ∧ (c = ' ' ∨ 128 ≤ c.toNat) ∨ ∃ e, quoteChar c = ['\\', e] ∧ e ∈ ['n', 'r', 't', 'v', 'f'] := by
  have hofNat : Char.ofNat c.toNat = c := Char.ofNat_toNat c
  by_cases hlow : c.toNat < 128
  · have hcases : c.toNat = 9 ∨ c.toNat = 10 ∨ c.toNat = 11 ∨ c.toNat = 12 ∨ c.toNat = 13 ∨ c.toNat = 32 := by
      simp only [isSpace, Bool.or_eq_true, Bool.and_eq_true, decide_eq_true_eq, beq_iff_eq] at h
      omega
    rcases hcases with hc | hc | hc | hc | hc | hc <;> rw [← hofNat, hc]
    · exact .inr ⟨'t', by decide⟩
    · exact .inr ⟨'n', by decide⟩
    · exact .inr ⟨'v', by decide⟩
    · exact .inr ⟨'f', by decide⟩
    · exact .inr ⟨'r', by decide⟩
    · exact .inl (by decide)
  · have hne : ∀ d : Char, d.toNat < 128 → c ≠ d := fun d hd hcd => hlow (hcd ▸ hd)
    refine .inl ⟨?_, .inr (by omega)⟩
    unfold quoteChar
    rw [if_neg (hne _ (by decide)), if_neg (hne _ (by decide)), if_neg (hne _ (by decide)), if_neg (hne _ (by decide)),
      if_neg (hne _ (by decide)), if_neg (by omega), if_neg (by omega), if_neg (by omega), if_neg (by omega), if_neg (by omega)]

/-- The characters of white space in a quoted text. -/
theorem mem_quotedSpace {cs : List Char} (hcs : ∀ c ∈ cs, isSpace c = true) {d : Char} (hd : d ∈ quotedSpace cs) :
    d ∈ [' ', '\\', 'n', 'r', 't', 'v', 'f'] ∨ 128 ≤ d.toNat := by
  obtain ⟨c, hc, hd⟩ := List.mem_flatMap.mp hd
  rcases quoteChar_space (hcs c hc) with ⟨hquote, hc⟩ | ⟨e, hquote, he⟩
  · rw [hquote, List.mem_singleton] at hd
    rcases hc with rfl | hc
    · rw [hd]
      exact .inl (by decide)
    · rw [hd]
      exact .inr hc
  · rw [hquote] at hd
    refine .inl ?_
    rcases List.mem_cons.mp hd with rfl | hd
    · decide
    · rw [List.mem_singleton.mp hd]
      exact List.mem_cons_of_mem _ (List.mem_cons_of_mem _ he)

/-- What follows the blanks in it is no letter. -/
theorem quotedSpace_start {cs : List Char} (hcs : ∀ c ∈ cs, isSpace c = true) :
    (∀ d, (quotedSpace cs).head? = some d → d = ' ' ∨ d = '\\' ∨ 128 ≤ d.toNat) ∧
    ∀ d, ((quotedSpace cs).dropWhile isBlankRE).head? = some d → d = '\\' ∨ 128 ≤ d.toNat := by
  induction cs with
  | nil => exact ⟨fun d hd => absurd hd (Option.some_ne_none d).symm, fun d hd => absurd hd (Option.some_ne_none d).symm⟩
  | cons c cs ih =>
    have ih := (ih fun d hd => hcs d (List.mem_cons_of_mem _ hd)).2
    unfold quotedSpace
    rw [List.flatMap_cons]
    rcases quoteChar_space (hcs c List.mem_cons_self) with ⟨hquote, rfl | hc⟩ | ⟨e, hquote, he⟩
    · rw [hquote, List.singleton_append, List.dropWhile_cons_of_pos (by decide)]
      exact ⟨fun d hd => .inl (Option.some.inj hd).symm, ih⟩
    · have hblank : isBlankRE c = false := by
        simp only [isBlankRE, Bool.or_eq_false_iff, beq_eq_false_iff_ne]
        refine ⟨⟨⟨⟨?_, ?_⟩, ?_⟩, ?_⟩, ?_⟩ <;> rintro rfl <;> exact absurd hc (by decide)
      rw [hquote, List.singleton_append, List.dropWhile_cons_of_neg (by simp [hblank])]
      exact ⟨fun d hd => .inr (.inr (Option.some.inj hd ▸ hc)), fun d hd => .inr (Option.some.inj hd ▸ hc)⟩
    · rw [hquote, List.cons_append, List.dropWhile_cons_of_neg (by decide)]
      exact ⟨fun d hd => .inr (.inl (Option.some.inj hd).symm), fun d hd => .inl (Option.some.inj hd).symm⟩

/-- A text that stands in quotes: white space, characters that are quoted as they are, and white space. -/
def quotedName (lead core trail : List Char) : List Char := '"' :: quotedSpace lead ++ core ++ quotedSpace trail ++ ['"']

/-- The start of a word that no quoted name has after its blanks, and that does not close one. -/
def startsPlainly : List Char → Bool
  | '"' :: e :: _ => e != ' '
  | b :: _ => b.toNat < 128 && b != '"' && b != '\\'
  | [] => false

/-- A word of small letters, the first of them none that white space has in a quoted text. -/
def isWord : List Char → Bool
  | a :: w => (a :: w).all (fun c => 97 ≤ c.toNat && c.toNat ≤ 122) && a ∉ ['n', 'r', 't', 'v', 'f']
  | [] => false

theorem isWord_letters (hfirst : isWord first = true) : ∀ c ∈ first, 97 ≤ c.toNat ∧ c.toNat ≤ 122 := by
  intro c hc
  cases first with
  | nil => exact absurd hc List.not_mem_nil
  | cons a w =>
    simp only [isWord, Bool.and_eq_true] at hfirst
    simpa using List.all_eq_true.mp hfirst.1 c hc

theorem startsPlainly_quote (hsecond : startsPlainly second = true) (hpre : second <+: '"' :: ' ' :: rest) : False := by
  obtain ⟨u, hu⟩ := hpre
  cases second with
  | nil => exact Bool.noConfusion hsecond
  | cons b second =>
    obtain ⟨rfl, htail⟩ := List.cons.inj hu
    cases second with
    | nil => exact Bool.noConfusion hsecond
    | cons e second =>
      obtain ⟨rfl, -⟩ := List.cons.inj htail
      exact Bool.noConfusion hsecond

theorem startsPlainly_other {d : Char} {ds : List Char} (hsecond : startsPlainly second = true) (hpre : second <+: d :: ds)
    (hd : d = '\\' ∨ 128 ≤ d.toNat) : False := by
  obtain ⟨u, hu⟩ := hpre
  have hquote : d ≠ '"' := by
    rintro rfl
    exact absurd hd (by decide)
  cases second with
  | nil => exact Bool.noConfusion hsecond
  | cons b second =>
    obtain ⟨rfl, -⟩ := List.cons.inj hu
    have hplain : (b.toNat < 128 && b != '"' && b != '\\') = true := by
      unfold startsPlainly at hsecond
      split at hsecond
      · rename_i heq
        exact absurd (List.cons.inj heq).1 hquote
      · rename_i heq
        rwa [← (List.cons.inj heq).1] at hsecond
      · rename_i heq
        exact absurd heq (List.cons_ne_nil _ _)
    simp only [Bool.and_eq_true, decide_eq_true_eq, bne_iff_ne] at hplain
    rcases hd with hd | hd
    · exact hplain.2 hd
    · omega

/-- After a name without blanks no reader of two words can go on into the end of its quotes. -/
theorem skip_core (h : TwoWords p first second) (hfirst : isWord first = true) (hsecond : startsPlainly second = true)
    {core trail : List Char} (hcore : ∀ c ∈ core, isBlankRE c = false) (htrail : ∀ c ∈ trail, isSpace c = true) {v : List Char}
    (hsuf : v <:+ core) : p (v ++ (quotedSpace trail ++ '"' :: ' ' :: rest)) = none := by
  by_contra hsome
  obtain ⟨c, t, heq, hblank, hpre⟩ := h _ hsome
  obtain ⟨hhead, hafter⟩ := quotedSpace_start htrail
  have hnone : ∀ d : Char, (d = '"' ∨ d = ' ' ∨ d = '\\' ∨ 128 ≤ d.toNat) → d ∉ first := by
    intro d hd hmem
    obtain ⟨hlo, hhi⟩ := isWord_letters hfirst d hmem
    rcases hd with rfl | rfl | rfl | hd
    · exact absurd hlo (by decide)
    · exact absurd hlo (by decide)
    · exact absurd hlo (by decide)
    · omega
  -- The first blank stands after the name, and nothing between the name and it is a letter.
  obtain ⟨u, hfirst', htail⟩ : ∃ u, first = v ++ u ∧ quotedSpace trail ++ '"' :: ' ' :: rest = u ++ c :: t := by
    rcases List.append_eq_append_iff.mp heq with ⟨u, hu, htail⟩ | ⟨u, hv, htail⟩
    · exact ⟨u, hu, htail⟩
    · cases u with
      | nil => exact ⟨[], by rw [hv, List.append_nil, List.append_nil], htail.symm⟩
      | cons d u =>
        obtain ⟨rfl, -⟩ := List.cons.inj htail
        have hmem : c ∈ v := hv ▸ List.mem_append_right _ List.mem_cons_self
        rw [hcore c (hsuf.subset hmem)] at hblank
        exact Bool.noConfusion hblank
  cases hq : quotedSpace trail with
  | nil =>
    rw [hq, List.nil_append] at htail
    cases u with
    | nil =>
      obtain ⟨rfl, -⟩ := List.cons.inj htail
      exact absurd hblank (by decide)
    | cons d u =>
      obtain ⟨rfl, -⟩ := List.cons.inj htail
      exact hnone '"' (.inl rfl) (hfirst' ▸ List.mem_append_right _ List.mem_cons_self)
  | cons d ds =>
    rw [hq] at htail hhead hafter
    cases u with
    | cons e u =>
      obtain ⟨rfl, -⟩ := List.cons.inj htail
      exact hnone d (.inr (hhead d rfl)) (hfirst' ▸ List.mem_append_right _ List.mem_cons_self)
    | nil =>
      obtain ⟨rfl, rfl⟩ := List.cons.inj htail
      rw [List.dropWhile_cons_of_pos hblank] at hafter
      rw [List.append_eq] at hpre
      cases hdrop : ds.dropWhile isBlankRE with
      | nil =>
        rw [List.dropWhile_append, hdrop, List.isEmpty_nil, if_pos rfl, List.dropWhile_cons_of_neg (by decide)] at hpre
        exact startsPlainly_quote hsecond hpre
      | cons e es =>
        rw [List.dropWhile_append, hdrop, List.isEmpty_cons, if_neg Bool.false_ne_true] at hpre
        rw [hdrop] at hafter
        exact startsPlainly_other hsecond hpre (hafter e rfl)

/-- A search for a word and the start of another passes over a quoted name. -/
theorem search_quotedName (h : TwoWords p first second) (hfirst : isWord first = true) (hsecond : startsPlainly second = true)
    {lead core trail : List Char} (hlead : ∀ c ∈ lead, isSpace c = true) (hcore : ∀ c ∈ core, isBlankRE c = false)
    (htrail : ∀ c ∈ trail, isSpace c = true) : search p (quotedName lead core trail ++ ' ' :: rest) = search p (' ' :: rest) := by
  have hskip := fun v (_ : v ≠ []) (hsuf : v <:+ core) => @skip_core _ _ rest _ _ h hfirst hsecond core trail hcore htrail v hsuf
  cases first with
  | nil => exact Bool.noConfusion hfirst
  | cons a w =>
    have ha : a ∉ ['"', ' ', '\\', 'n', 'r', 't', 'v', 'f'] ∧ a.toNat < 128 := by
      obtain ⟨hlo, hhi⟩ := isWord_letters hfirst a List.mem_cons_self
      simp only [isWord, Bool.and_eq_true, decide_eq_true_eq] at hfirst
      refine ⟨fun hmem => ?_, by omega⟩
      rcases List.mem_cons.mp hmem with rfl | hmem
      · exact absurd hlo (by decide)
      · rcases List.mem_cons.mp hmem with rfl | hmem
        · exact absurd hlo (by decide)
        · rcases List.mem_cons.mp hmem with rfl | hmem
          · exact absurd hlo (by decide)
          · exact hfirst.2 hmem
    have hspace : ∀ {cs : List Char}, (∀ c ∈ cs, isSpace c = true) → a ∉ quotedSpace cs := by
      intro cs hcs hmem
      rcases mem_quotedSpace hcs hmem with hmem | hhigh
      · exact ha.1 (List.mem_cons_of_mem _ hmem)
      · omega
    have hpre : Clear p ('"' :: quotedSpace lead) := clear_of_not_mem h fun hmem => by
      rcases List.mem_cons.mp hmem with rfl | hmem
      · exact ha.1 List.mem_cons_self
      · exact hspace hlead hmem
    have hpost : Clear p (quotedSpace trail ++ ['"']) := clear_of_not_mem h fun hmem => by
      rcases List.mem_append.mp hmem with hmem | hmem
      · exact hspace htrail hmem
      · exact ha.1 (List.mem_singleton.mp hmem ▸ List.mem_cons_self)
    have hshape : quotedName lead core trail ++ ' ' :: rest =
        ('"' :: quotedSpace lead) ++ (core ++ (quotedSpace trail ++ '"' :: ' ' :: rest)) := by
      simp [quotedName]
    rw [hshape, hpre.search_eq, search_skip hskip]
    have htail := @Clear.search_eq _ _ _ (' ' :: rest) hpost
    rwa [List.append_assoc, List.singleton_append] at htail

end search

end Go

import EvuProxy.Config.Braces
import EvuProxy.Theorems.PublicPorts
import EvuProxy.Web.RoutePorts

/-!
# The ports of a route, in the browser and on the server

The two expand a list of ports alike but for one character: U+0085 is white space to Go and none to JavaScript.
-/

namespace EvuProxy

open Go

/-! ## White space -/

/-- U+0085, a line end to Go. -/
def nextLine : Char := Char.ofNat 0x85

/-- U+FEFF, white space to JavaScript. -/
def byteOrderMark : Char := Char.ofNat 0xFEFF

theorem isJsSpace_eq {c : Char} (hline : c ≠ nextLine) (hmark : c ≠ byteOrderMark) : isJsSpace c = isSpace c := by
  have hline : (c.toNat == 0x85) = false := beq_false_of_ne fun h => hline (Char.toNat_inj.mp h)
  have hmark : (c.toNat == 0xFEFF) = false := beq_false_of_ne fun h => hmark (Char.toNat_inj.mp h)
  simp only [isJsSpace, isSpace, hline, hmark, Bool.or_false]

theorem isJsSpace_numChar {c : Char} (h : numChar c = true) : ¬isJsSpace c = true := by
  have hrange : c.toNat < 0x3A ∧ 0x20 < c.toNat := by
    simp only [numChar, isDigit, Bool.or_eq_true, Bool.and_eq_true, decide_eq_true_eq, beq_iff_eq] at h
    rcases h with (⟨hlo, hhi⟩ | rfl) | rfl
    · have hlo : '0'.toNat ≤ c.toNat := hlo
      have hhi : c.toNat ≤ '9'.toNat := hhi
      exact ⟨Nat.lt_succ_of_le hhi, Nat.lt_of_lt_of_le (by decide) hlo⟩
    · decide
    · decide
  simp only [isJsSpace, Bool.or_eq_true, Bool.and_eq_true, decide_eq_true_eq, beq_iff_eq]
  omega

theorem isSpace_of_isJsSpace {c : Char} (hmark : c ≠ byteOrderMark) (h : isJsSpace c = true) : isSpace c = true := by
  by_cases hline : c = nextLine
  · subst hline
    exact absurd h (by decide)
  · rwa [← isJsSpace_eq hline hmark]

theorem jsTrim_eq_trimSpace {s : String} (h : ∀ c ∈ s.toList, isJsSpace c = isSpace c) : jsTrim s = trimSpace s :=
  congrArg String.ofList (trimBy_congr h)

theorem toList_jsTrim (s : String) : (jsTrim s).toList = trimBy isJsSpace s.toList := by
  rw [jsTrim, String.toList_ofList]
  rfl

theorem jsTrim_jsTrim (s : String) : jsTrim (jsTrim s) = jsTrim s := by
  have h : trimBy isJsSpace (jsTrim s).toList = (jsTrim s).toList := by
    rw [toList_jsTrim, trimBy_trimBy]
  exact (congrArg String.ofList h).trans (String.ofList_toList)

/-- Where JavaScript trims only white space of Go, trimming it first changes nothing. -/
theorem trimSpace_jsTrim {s : String} (h : byteOrderMark ∉ s.toList) : trimSpace (jsTrim s) = trimSpace s := by
  have hle : trimBy (fun c => isJsSpace c && isSpace c) s.toList = trimBy isJsSpace s.toList := by
    refine trimBy_congr fun c hc => ?_
    by_cases hjs : isJsSpace c = true
    · rw [hjs, isSpace_of_isJsSpace (fun he => h (he ▸ hc)) hjs]
      rfl
    · rw [Bool.not_eq_true] at hjs
      rw [hjs]
      rfl
  unfold trimSpace
  rw [toList_jsTrim, ← hle]
  exact congrArg String.ofList (trimBy_of_le (fun c hc => (Bool.and_eq_true_iff.mp hc).2) s.toList)

theorem nextLine_mem_jsTrim {s : String} (h : nextLine ∈ s.toList) : nextLine ∈ (jsTrim s).toList := by
  obtain ⟨ws, vs, hws, hvs, hs⟩ := trimBy_between isJsSpace s.toList
  rw [hs, List.mem_append, List.mem_append] at h
  rw [toList_jsTrim]
  rcases h with (h | h) | h
  · exact absurd (hws _ h) (by decide)
  · exact h
  · exact absurd (hvs _ h) (by decide)

theorem mem_jsTrim {s : String} {c : Char} (h : c ∈ (jsTrim s).toList) : c ∈ s.toList := by
  rw [toList_jsTrim] at h
  exact mem_trimBy h

/-! ## Numbers -/

theorem nextLine_mem_dropWhile {cs : List Char} (h : nextLine ∈ cs) : nextLine ∈ cs.dropWhile isDigit := by
  rw [← @List.takeWhile_append_dropWhile _ isDigit cs, List.mem_append] at h
  exact h.resolve_left fun hdigit => absurd (List.mem_takeWhile_imp hdigit) (by decide)

theorem nextLine_mem_tail {cs : List Char} {c : Char} (h : nextLine ∈ cs) (hhead : cs.head? = some c) (hc : nextLine ≠ c) :
    nextLine ∈ cs.tail := by
  cases cs with
  | nil => cases h
  | cons d cs =>
    rcases List.mem_cons.mp h with rfl | h
    · exact absurd (Option.some.inj hhead) hc
    · exact h

theorem jsDecimal_nextLine {cs : List Char} (h : nextLine ∈ cs) : jsDecimal cs = none := by
  unfold jsDecimal
  extract_lets int afterInt frac rest
  have hrest : nextLine ∈ rest := by
    unfold rest
    split
    · rename_i hdot
      exact nextLine_mem_dropWhile (nextLine_mem_tail (nextLine_mem_dropWhile h) hdot (by decide))
    · exact nextLine_mem_dropWhile h
  clear_value rest
  split
  · rfl
  · cases rest with
    | nil => cases hrest
    | cons e exponent =>
      dsimp only
      split
      · rfl
      · rename_i he
        have hexp : nextLine ∈ exponent := by
          rcases List.mem_cons.mp hrest with rfl | hexp
          · exact absurd ⟨by decide, by decide⟩ he
          · exact hexp
        have hdigits : nextLine ∈ if exponent.head? = some '+' ∨ exponent.head? = some '-' then exponent.tail else exponent := by
          split
          · rename_i hsign
            rcases hsign with hsign | hsign
            · exact nextLine_mem_tail hexp hsign (by decide)
            · exact nextLine_mem_tail hexp hsign (by decide)
          · exact hexp
        rw [if_pos (.inr fun hall => absurd (List.all_eq_true.mp hall _ hdigits) (by decide))]

theorem jsRadix_nextLine {base : Nat} {cs : List Char} (h : nextLine ∈ cs) : jsRadix base cs = none := by
  refine if_pos (.inr fun hall => ?_)
  exact absurd (List.all_eq_true.mp hall _ h) (by simp [show hexVal nextLine = none by decide])

/-- A text with U+0085 is no number to JavaScript. -/
theorem jsNumber_nextLine {s : String} (h : nextLine ∈ s.toList) : jsNumber s = none := by
  have htrim := nextLine_mem_jsTrim h
  unfold jsNumber
  have hcons : ∀ {d : Char} {ds : List Char}, nextLine ∈ d :: ds → nextLine ≠ d → nextLine ∈ ds :=
    fun hmem hne => (List.mem_cons.mp hmem).resolve_left hne
  generalize (jsTrim s).toList = cs at htrim
  split
  · cases htrim
  · exact jsRadix_nextLine (hcons (hcons htrim (by decide)) (by decide))
  · exact jsRadix_nextLine (hcons (hcons htrim (by decide)) (by decide))
  · exact jsRadix_nextLine (hcons (hcons htrim (by decide)) (by decide))
  · exact jsRadix_nextLine (hcons (hcons htrim (by decide)) (by decide))
  · exact jsRadix_nextLine (hcons (hcons htrim (by decide)) (by decide))
  · exact jsRadix_nextLine (hcons (hcons htrim (by decide)) (by decide))
  · exact jsDecimal_nextLine (hcons htrim (by decide))
  · rw [jsDecimal_nextLine (hcons htrim (by decide))]
    rfl
  · exact jsDecimal_nextLine htrim

/-- Digits are their number. -/
theorem jsDecimal_digits {cs : List Char} (hne : cs ≠ []) (hall : cs.all isDigit = true) : jsDecimal cs = some (digitsVal cs : ℚ) := by
  have hall := List.all_eq_true.mp hall
  unfold jsDecimal
  rw [List.takeWhile_eq_self_iff.mpr hall, List.dropWhile_eq_nil_iff.mpr hall]
  extract_lets int afterInt frac rest value
  have hfrac : frac = [] := if_neg (by decide)
  have hrest : rest = [] := if_neg (by decide)
  rw [if_neg fun h => hne h.1]
  rw [hrest]
  dsimp only
  have hvalue : value = digitsVal cs := by
    unfold value
    rw [hfrac]
    exact (congrArg ((digitsVal cs : ℚ) + ·) (by simp [digitsVal])).trans (add_zero _)
  rw [hvalue]

/-- A positive number that Go reads is read alike by JavaScript. -/
theorem jsNumber_atoi {s : String} {n : Int} (h : atoi s = some n) (hpos : 1 ≤ n) : jsNumber s = some (n : ℚ) := by
  have hsame : jsTrim s = s := by
    have hchars : ∀ c ∈ s.toList, ¬isJsSpace c = true := fun c hc => isJsSpace_numChar (atoi_chars h c hc)
    have htrim : trimBy isJsSpace s.toList = s.toList :=
      trimBy_eq_self (fun _ => hchars _ (List.getElem_mem _)) (fun hne => hchars _ (List.getLast_mem hne))
    exact (congrArg String.ofList htrim).trans String.ofList_toList
  have hunsigned : ∀ {cs : List Char} {m : Nat}, (if cs ≠ [] ∧ cs.all isDigit then some (digitsVal cs) else none) = some m →
      jsDecimal cs = some (m : ℚ) := by
    intro cs m hm
    split at hm
    · rename_i hcs
      rw [jsDecimal_digits hcs.1 hcs.2, Option.some.inj hm]
    · cases hm
  unfold jsNumber
  rw [hsame]
  unfold atoi at h
  dsimp only at h
  generalize s.toList = cs at h
  clear hsame
  split at h
  · obtain ⟨m, hm, hn⟩ := Option.bind_eq_some_iff.mp h
    split at hn
    · rw [← Option.some.inj hn] at hpos
      omega
    · cases hn
  · obtain ⟨m, hm, hn⟩ := Option.bind_eq_some_iff.mp h
    split at hn
    · rw [← Option.some.inj hn]
      exact (hunsigned hm).trans (congrArg some (Int.cast_natCast m).symm)
    · cases hn
  · obtain ⟨m, hm, hn⟩ := Option.bind_eq_some_iff.mp h
    have hall : cs.all isDigit = true := by
      by_contra hno
      rw [if_neg fun hcs => hno hcs.2] at hm
      cases hm
    have hdigit : ∀ c ∈ cs, isDigit c = true := List.all_eq_true.mp hall
    split at hn
    · rw [← Option.some.inj hn]
      refine Eq.trans ?_ ((hunsigned hm).trans (congrArg some (Int.cast_natCast m).symm))
      split
      · rw [if_neg fun hcs => hcs.1 rfl] at hm
        cases hm
      · exact absurd (hdigit 'x' (by simp)) (by decide)
      · exact absurd (hdigit 'X' (by simp)) (by decide)
      · exact absurd (hdigit 'o' (by simp)) (by decide)
      · exact absurd (hdigit 'O' (by simp)) (by decide)
      · exact absurd (hdigit 'b' (by simp)) (by decide)
      · exact absurd (hdigit 'B' (by simp)) (by decide)
      · exact absurd (hdigit '+' (by simp)) (by decide)
      · exact absurd (hdigit '-' (by simp)) (by decide)
      · rfl
    · cases hn

/-! ## Tokens -/

theorem byteOrderMark_notMem {tok : String} {qs : List Nat} (h : expandPortToken tok = .ok qs) : byteOrderMark ∉ tok.toList := fun hmem =>
  absurd (expandPortToken_chars h _ hmem) (by decide)

theorem trimSpace_ne_empty {tok : String} {qs : List Nat} (h : expandPortToken tok = .ok qs) : trimSpace tok ≠ "" := (ite_errorf_ok.mp h).1

theorem isWhole_intCast (n : Int) : isWhole (n : ℚ) = true := beq_iff_eq.mpr (Rat.den_intCast n)

/-- An accepted token without U+0085 has the same ports in JavaScript. -/
theorem expandTok_eq {tok : String} {qs : List Nat} (h : expandPortToken tok = .ok qs) (hline : nextLine ∉ tok.toList) : expandTok tok = qs := by
  have hjs : ∀ c ∈ tok.toList, isJsSpace c = isSpace c := fun c hc =>
    isJsSpace_eq (fun he => hline (he ▸ hc)) (fun he => byteOrderMark_notMem h (he ▸ hc))
  unfold expandPortToken at h
  unfold expandTok
  dsimp only at h ⊢
  rw [jsTrim_eq_trimSpace hjs]
  obtain ⟨hne, h⟩ := ite_errorf_ok.mp h
  rw [if_neg hne]
  rcases hcut : cut (trimSpace tok) '-' with _ | ⟨lo, hi⟩
  · rw [hcut] at h
    dsimp only at h ⊢
    rcases ha : atoi (trimSpace tok) with _ | p
    · rw [ha] at h
      cases h
    · rw [ha] at h
      dsimp only at h
      obtain ⟨hrange, h⟩ := ite_errorf_ok.mp h
      cases h
      have hlo : (1 : Int) ≤ p := by omega
      have hhi : p ≤ (65535 : Int) := by omega
      rw [jsNumber_atoi ha hlo]
      dsimp only
      rw [if_pos ⟨by exact_mod_cast hlo, by exact_mod_cast hhi, isWhole_intCast p⟩, Rat.num_intCast]
  · rw [hcut] at h
    dsimp only at h ⊢
    have hpiece : ∀ {s : String}, (∀ c ∈ s.toList, c ∈ (trimSpace tok).toList) → jsTrim s = trimSpace s := fun hs =>
      jsTrim_eq_trimSpace fun c hc => hjs c (by
      have hmem := hs c hc
      rw [trimSpace, String.toList_ofList] at hmem
      exact mem_trimList hmem)
    have hsides := toList_of_cut hcut
    rw [@hpiece lo fun c hc => hsides ▸ List.mem_append_left _ hc,
      @hpiece hi fun c hc => hsides ▸ List.mem_append_right _ (List.mem_cons_of_mem _ hc)]
    split at h
    · rename_i a b ha hb
      obtain ⟨hrange, h⟩ := ite_errorf_ok.mp h
      cases h
      have hlo : (1 : Int) ≤ a := by omega
      have hhi : b ≤ (65535 : Int) := by omega
      have hle : a ≤ b := by omega
      rw [jsNumber_atoi ha hlo, jsNumber_atoi hb (by omega)]
      dsimp only
      rw [if_pos ⟨by exact_mod_cast hlo, by exact_mod_cast hhi, by exact_mod_cast hle, isWhole_intCast a, isWhole_intCast b⟩, Rat.num_intCast,
        Rat.num_intCast]
    · cases h

/-- With U+0085 JavaScript drops a token. -/
theorem expandTok_nextLine {tok : String} (h : nextLine ∈ tok.toList) : expandTok tok = [] := by
  have htrim := nextLine_mem_jsTrim h
  unfold expandTok
  dsimp only
  split
  · rfl
  · split
    · rename_i lo hi hcut
      rcases mem_cut hcut htrim with hlo | he | hhi
      · rw [jsNumber_nextLine (nextLine_mem_jsTrim hlo)]
      · exact absurd he (by decide)
      · rw [jsNumber_nextLine (nextLine_mem_jsTrim hhi)]
        split
        · rename_i heq
          cases heq
        · rfl
    · rw [jsNumber_nextLine htrim]

/-- The ports that JavaScript reads in a piece of an accepted entry. -/
theorem mem_expandTok {piece : String} (h : trimSpace piece ≠ "" → ∃ qs, expandPortToken piece = .ok qs) (p : Nat) :
    p ∈ expandTok (jsTrim piece) ↔ nextLine ∉ piece.toList ∧ ∃ qs, expandPortToken piece = .ok qs ∧ p ∈ qs := by
  by_cases hline : nextLine ∈ piece.toList
  · rw [expandTok_nextLine (nextLine_mem_jsTrim hline)]
    exact iff_of_false List.not_mem_nil fun hno => hno.1 hline
  · have htrim : expandTok (jsTrim piece) = expandTok piece := by
      unfold expandTok
      rw [jsTrim_jsTrim]
    rw [htrim]
    by_cases hne : trimSpace piece = ""
    · have hjs : jsTrim piece = trimSpace piece := jsTrim_eq_trimSpace fun c hc => by
        rcases mem_trimSpace_or hc with hspace | hc
        · exact isJsSpace_eq (fun he => hline (he ▸ hc)) fun he => absurd (he ▸ hspace) (by decide)
        · rw [hne] at hc
          exact absurd hc List.not_mem_nil
      have htok : expandTok piece = [] := if_pos (hjs.trans hne)
      rw [htok]
      refine iff_of_false List.not_mem_nil ?_
      rintro ⟨-, qs, hqs, -⟩
      exact trimSpace_ne_empty hqs hne
    · obtain ⟨qs, hqs⟩ := h hne
      rw [expandTok_eq hqs hline]
      refine ⟨fun hp => ⟨hline, qs, hqs, hp⟩, fun ⟨_, qs', hqs', hp⟩ => ?_⟩
      rwa [Except.ok.inj (hqs.symm.trans hqs')]

/-! ## Entries -/

/-- The pieces of an entry, as JavaScript cuts it, in which U+0085 does not stand. -/
def cleanPieces (raw : String) : List String :=
  let s := jsTrim raw
  (if isBraceList s then split (String.ofList s.toList.tail.dropLast) ',' else [s]).filter fun piece => nextLine ∉ piece.toList

/-- The characters of an accepted entry. -/
theorem entry_noMark {raw : String} (h : ∀ tok ∈ portTokens [raw], ∃ qs, expandPortToken tok = .ok qs) : byteOrderMark ∉ raw.toList := by
  intro hmem
  have htrim : portTokens [trimSpace raw] = portTokens [raw] := by
    rw [portTokens_singleton, portTokens_singleton, trimSpace_trimSpace]
  rw [← htrim] at h
  rcases mem_trimSpace_or hmem with hspace | hmem
  · exact absurd hspace (by decide)
  · exact absurd (portTokens_chars (trimmed_trimSpace raw) h _ hmem) (by decide)

/-- How JavaScript cuts an accepted entry: as Go does, or U+0085 stands around its braces, or it has none. -/
theorem entry_cases {raw : String} (h : ∀ tok ∈ portTokens [raw], ∃ qs, expandPortToken tok = .ok qs) :
    isBraceList (jsTrim raw) = true ∧ trimSpace raw = jsTrim raw ∨
      isBraceList (jsTrim raw) = false ∧ (nextLine ∉ (jsTrim raw).toList → trimSpace raw = jsTrim raw) := by
  have hmark := entry_noMark h
  rw [← trimSpace_jsTrim hmark]
  cases hbrace : isBraceList (jsTrim raw) with
  | true =>
    obtain ⟨inner, hinner⟩ := isBraceList_toList hbrace
    refine .inl ⟨rfl, ?_⟩
    have htrim : trimList (jsTrim raw).toList = (jsTrim raw).toList := by
      rw [hinner]
      refine trimList_eq_self (fun _ => ?_) fun hne => ?_
      · rw [List.getElem_append_left (Nat.zero_lt_succ _), List.getElem_cons_zero]
        decide
      · rw [List.getLast_append_of_ne_nil _ (List.cons_ne_nil _ _), List.getLast_singleton]
        decide
    exact (congrArg String.ofList htrim).trans String.ofList_toList
  | false =>
    refine .inr ⟨rfl, fun hline => ?_⟩
    have hjs : ∀ c ∈ (jsTrim raw).toList, isJsSpace c = isSpace c := fun c hc =>
      isJsSpace_eq (fun he => hline (he ▸ hc)) fun he => hmark (he ▸ mem_jsTrim hc)
    rw [← jsTrim_eq_trimSpace hjs, jsTrim_jsTrim]

/-- A piece of a list in braces, as JavaScript cuts it, is a token to Go unless it is empty. -/
theorem piece_token {raw : String} (hbrace : isBraceList (jsTrim raw) = true)
    (htrim : trimSpace raw = jsTrim raw) {piece : String} (hpiece : piece ∈ split (String.ofList (jsTrim raw).toList.tail.dropLast) ',')
    (hne : trimSpace piece ≠ "") : trimSpace piece ∈ portTokens [raw] := by
  obtain ⟨inner, hinner⟩ := isBraceList_toList hbrace
  have hmiddle : (jsTrim raw).toList.tail.dropLast = inner := by
    rw [hinner, List.cons_append, List.tail_cons, List.dropLast_concat]
  have hfilled : jsTrim raw ≠ "" := by
    intro he
    rw [he] at hbrace
    exact absurd hbrace (by decide)
  rw [hmiddle, split, String.toList_ofList] at hpiece
  obtain ⟨cs, hcs, rfl⟩ := List.mem_map.mp hpiece
  rw [portTokens_singleton, htrim, if_neg hfilled, if_pos hbrace, braceTokens_eq hinner, List.map_map]
  refine List.mem_filter.mpr ⟨List.mem_map.mpr ⟨cs, hcs, ?_⟩, decide_eq_true hne⟩
  rw [trimSpace, String.toList_ofList]
  rfl

/-- Any other entry is one token. -/
theorem entry_token {raw : String} (hbrace : isBraceList (jsTrim raw) = false) (htrim : trimSpace raw = jsTrim raw) (hne : jsTrim raw ≠ "") :
    portTokens [raw] = [jsTrim raw] := by
  rw [portTokens_singleton, htrim, if_neg hne, hbrace, if_neg Bool.false_ne_true]

/-- The ports of an accepted entry are, in JavaScript, those of its clean pieces. -/
theorem mem_entryPorts {raw : String} (h : ∀ tok ∈ portTokens [raw], ∃ qs, expandPortToken tok = .ok qs) (p : Nat) :
    p ∈ entryPorts raw ↔ InTokens p (cleanPieces raw) := by
  unfold entryPorts cleanPieces
  dsimp only
  rcases entry_cases h with ⟨hbrace, htrim⟩ | ⟨hbrace, htrim⟩
  · have hfilled : jsTrim raw ≠ "" := by
      intro he
      rw [he] at hbrace
      exact absurd hbrace (by decide)
    rw [if_neg hfilled, if_pos hbrace, if_pos hbrace, List.mem_flatMap]
    simp only [InTokens, List.mem_filter, decide_eq_true_eq, and_assoc]
    refine exists_congr fun piece => and_congr_right fun hpiece => mem_expandTok (fun hne => ?_) p
    rw [← expandPortToken_trim]
    exact h _ (piece_token hbrace htrim hpiece hne)
  · have hentry : (if jsTrim raw = "" then [] else expandTok (jsTrim raw)) = expandTok (jsTrim (jsTrim raw)) := by
      rw [jsTrim_jsTrim]
      split
      · rename_i hempty
        rw [hempty]
        rfl
      · rfl
    rw [hbrace, if_neg Bool.false_ne_true, if_neg Bool.false_ne_true, hentry]
    by_cases hline : nextLine ∈ (jsTrim raw).toList
    · rw [expandTok_nextLine (nextLine_mem_jsTrim hline), List.filter_eq_nil_iff.mpr ?_]
      · refine iff_of_false List.not_mem_nil ?_
        rintro ⟨_, htok, _⟩
        exact List.not_mem_nil htok
      · intro piece hpiece
        rw [List.mem_singleton.mp hpiece]
        simpa using hline
    · have htrim := htrim hline
      have hpiece := @mem_expandTok (jsTrim raw) ?_ p
      · rw [hpiece]
        simp [InTokens, hline]
      · intro hne
        refine h _ ?_
        rw [entry_token hbrace htrim ?_]
        · exact List.mem_singleton_self _
        · intro hempty
          rw [hempty] at hne
          exact hne (by decide)

/-- A clean piece of an accepted entry is one of its tokens, white space apart. -/
theorem inTokens_of_clean {raw : String} (h : ∀ tok ∈ portTokens [raw], ∃ qs, expandPortToken tok = .ok qs) {p : Nat}
    (hp : InTokens p (cleanPieces raw)) : InTokens p (portTokens [raw]) := by
  obtain ⟨piece, hpiece, qs, hqs, hp⟩ := hp
  obtain ⟨hpiece, hline⟩ := List.mem_filter.mp hpiece
  have hline := of_decide_eq_true hline
  rcases entry_cases h with ⟨hbrace, htrim⟩ | ⟨hbrace, htrim⟩
  · rw [if_pos hbrace] at hpiece
    exact ⟨trimSpace piece, piece_token hbrace htrim hpiece (trimSpace_ne_empty hqs), qs, (expandPortToken_trim piece).trans hqs, hp⟩
  · rw [hbrace, if_neg Bool.false_ne_true] at hpiece
    obtain rfl := List.mem_singleton.mp hpiece
    have hne : jsTrim raw ≠ "" := by
      intro he
      rw [he] at hqs
      cases hqs
    rw [entry_token hbrace (htrim hline) hne]
    exact ⟨jsTrim raw, List.mem_singleton_self _, qs, hqs, hp⟩

/-! ## Lists -/

/-- Adding ports one by one. -/
theorem foldl_addPort {ns seen : List Nat} (hseen : PortList seen) (hns : ∀ n ∈ ns, 1 ≤ n ∧ n ≤ maxDistinctPortsPerRoute) :
    PortList (ns.foldl addPort seen) ∧ ∀ p, p ∈ ns.foldl addPort seen ↔ p ∈ seen ∨ p ∈ ns := by
  induction ns generalizing seen with
  | nil => exact ⟨hseen, fun p => by simp⟩
  | cons n ns ih =>
    obtain ⟨hlo, hhi⟩ := hns n List.mem_cons_self
    have hone : PortList (addPort seen n) ∧ ∀ p, p ∈ addPort seen n ↔ p ∈ seen ∨ p = n := by
      unfold addPort
      split
      · rename_i hnew
        refine ⟨⟨List.nodup_append.mpr ⟨hseen.nodup, List.nodup_singleton n, ?_⟩, fun q hq => ?_⟩, fun p => by simp⟩
        · rintro q hq q' hq' rfl
          exact hnew.2.2 (List.mem_singleton.mp hq' ▸ hq)
        · rcases List.mem_append.mp hq with hq | hq
          · exact hseen.range q hq
          · rw [List.mem_singleton.mp hq]
            exact ⟨hlo, hhi⟩
      · rename_i hold
        have hmem : n ∈ seen := by
          by_contra hno
          exact hold ⟨hlo, hhi, hno⟩
        refine ⟨hseen, fun p => ⟨.inl, ?_⟩⟩
        rintro (hp | rfl)
        · exact hp
        · exact hmem
    obtain ⟨hlist, hmem⟩ := ih hone.1 fun m hm => hns m (List.mem_cons_of_mem _ hm)
    refine ⟨hlist, fun p => ?_⟩
    rw [List.foldl_cons, hmem, hone.2, List.mem_cons, or_assoc]

theorem inTokens_flatMap {p : Nat} {f : String → List String} {raws : List String} :
    InTokens p (raws.flatMap f) ↔ ∃ raw ∈ raws, InTokens p (f raw) := by
  simp only [InTokens, List.mem_flatMap]
  constructor
  · rintro ⟨tok, ⟨raw, hraw, htok⟩, hp⟩
    exact ⟨raw, hraw, tok, htok, hp⟩
  · rintro ⟨raw, hraw, tok, htok, hp⟩
    exact ⟨tok, ⟨raw, hraw, htok⟩, hp⟩

/-- The browser lists the ports of an accepted list of entries as the server does, exactly where each of them is given by a piece
without U+0085 too. -/
theorem routePortTokens_iff {ports : List String} {ns : List Nat} (h : expandRoutePortNumbers ports = .ok ns) :
    expandRoutePortTokens ports = some ns ↔ ∀ p, InTokens p (portTokens ports) → InTokens p (ports.flatMap cleanPieces) := by
  obtain ⟨seen, rfl, hseen, htoks, hmem⟩ := expandRoutePortNumbers_ok h
  have hflat : portTokens ports = ports.flatMap fun raw => portTokens [raw] := by
    simp [portTokens]
  have hentry : ∀ raw ∈ ports, ∀ tok ∈ portTokens [raw], ∃ qs, expandPortToken tok = .ok qs := fun raw hraw tok htok =>
    htoks tok (hflat ▸ List.mem_flatMap.mpr ⟨raw, hraw, htok⟩)
  have hread : ∀ p, p ∈ ports.flatMap entryPorts ↔ InTokens p (ports.flatMap cleanPieces) := fun p => by
    rw [inTokens_flatMap, List.mem_flatMap]
    exact exists_congr fun raw => and_congr_right fun hraw => mem_entryPorts (hentry raw hraw) p
  have hclean : ∀ p, InTokens p (ports.flatMap cleanPieces) → InTokens p (portTokens ports) := fun p hp => by
    obtain ⟨raw, hraw, hp⟩ := inTokens_flatMap.mp hp
    rw [hflat, inTokens_flatMap]
    exact ⟨raw, hraw, inTokens_of_clean (hentry raw hraw) hp⟩
  obtain ⟨hlist, hjs⟩ := @foldl_addPort (ports.flatMap entryPorts) [] portList_nil fun p hp =>
    hseen.range p ((hmem p).mpr (hclean p ((hread p).mp hp)))
  have hexpand : expandRoutePortTokens ports = some (((ports.flatMap entryPorts).foldl addPort []).insertionSort (· ≤ ·)) :=
    if_neg (Nat.not_lt.mpr hlist.length_le)
  have hjs : ∀ p, p ∈ (ports.flatMap entryPorts).foldl addPort [] ↔ InTokens p (ports.flatMap cleanPieces) := fun p => by
    rw [hjs, ← hread p]
    simp
  rw [hexpand, Option.some.injEq]
  constructor
  · intro heq p hp
    rw [← hjs, ← List.mem_insertionSort (· ≤ ·), heq, List.mem_insertionSort, hmem]
    exact hp
  · intro hall
    refine hlist.sort_eq hseen fun p => ?_
    rw [hjs, hmem]
    exact ⟨hclean p, hall p⟩

theorem routePortTokens_iff_sample : expandRoutePortTokens ["80", "\x7b443, 8000-8002\x7d"] = some [80, 443, 8000, 8001, 8002] ↔
    ∀ p, InTokens p (portTokens ["80", "\x7b443, 8000-8002\x7d"]) → InTokens p (["80", "\x7b443, 8000-8002\x7d"].flatMap cleanPieces) :=
  routePortTokens_iff (by decide +kernel)

/-- A port with a line end before it that only Go takes off is on the server's list and not on the browser's. -/
theorem port_dropped : expandRoutePortNumbers ["22", "\u008580"] = .ok [22, 80] ∧ expandRoutePortTokens ["22", "\u008580"] = some [22] := by
  refine ⟨?_, ?_⟩ <;> decide +kernel

end EvuProxy

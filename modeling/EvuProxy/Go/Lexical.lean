import Mathlib.Data.List.TakeDrop
import EvuProxy.Go.Net
import EvuProxy.Go.Numeral
import EvuProxy.Go.Trim

/-!
# The characters of numbers and addresses

What Go reads as a number or as an address is made of the characters of one, and a decimal numeral is read as its number.
-/

namespace Go

/-! ## Pieces of a text -/

/-- A character of a text is a separator or stands in one of the pieces between. -/
theorem mem_splitList {p : Char → Bool} {c : Char} : ∀ {cs : List Char}, c ∈ cs → p c = true ∨ ∃ q ∈ splitList p cs, c ∈ q
  | [], h => absurd h List.not_mem_nil
  | d :: ds, h => by
    rcases List.mem_cons.mp h with rfl | h
    · cases hp : p c with
      | true => exact .inl rfl
      | false =>
        refine .inr ?_
        unfold splitList
        rw [hp]
        cases splitList p ds with
        | nil => exact ⟨[c], List.mem_cons_self, List.mem_cons_self⟩
        | cons q qs => exact ⟨c :: q, List.mem_cons_self, List.mem_cons_self⟩
    · rcases mem_splitList h with hp | ⟨q, hq, hc⟩
      · exact .inl hp
      · refine .inr ?_
        unfold splitList
        cases hd : p d with
        | true => exact ⟨q, List.mem_cons_of_mem _ hq, hc⟩
        | false =>
          cases hs : splitList p ds with
          | nil =>
            rw [hs] at hq
            cases hq
          | cons q' qs =>
            rw [hs] at hq
            rcases List.mem_cons.mp hq with rfl | hq
            · exact ⟨d :: q, List.mem_cons_self, List.mem_cons_of_mem _ hc⟩
            · exact ⟨q, List.mem_cons_of_mem _ hq, hc⟩

/-- A character of a piece is one of the text. -/
theorem mem_of_mem_splitList {p : Char → Bool} {c : Char} {q : List Char} (hc : c ∈ q) :
    ∀ {cs : List Char}, q ∈ splitList p cs → c ∈ cs
  | [], h => by
    rw [List.mem_singleton.mp h] at hc
    cases hc
  | d :: ds, h => by
    unfold splitList at h
    cases hd : p d with
    | true =>
      rw [hd] at h
      rcases List.mem_cons.mp h with rfl | h
      · cases hc
      · exact List.mem_cons_of_mem _ (mem_of_mem_splitList hc h)
    | false =>
      rw [hd] at h
      cases hs : splitList p ds with
      | nil =>
        rw [hs] at h
        rw [List.mem_singleton.mp h, List.mem_singleton] at hc
        exact hc ▸ List.mem_cons_self
      | cons r rs =>
        rw [hs] at h
        rcases List.mem_cons.mp h with rfl | h
        · rcases List.mem_cons.mp hc with rfl | hc
          · exact List.mem_cons_self
          · exact List.mem_cons_of_mem _ (mem_of_mem_splitList hc (hs ▸ List.mem_cons_self))
        · exact List.mem_cons_of_mem _ (mem_of_mem_splitList hc (hs ▸ List.mem_cons_of_mem _ h))

theorem splitList_ne_nil (p : Char → Bool) (cs : List Char) : splitList p cs ≠ [] := by
  cases cs with
  | nil => exact List.cons_ne_nil _ _
  | cons c cs =>
    unfold splitList
    split <;> exact List.cons_ne_nil _ _

theorem split_ne_nil (s : String) (sep : Char) : split s sep ≠ [] := by
  unfold split
  rw [ne_eq, List.map_eq_nil_iff]
  exact splitList_ne_nil _ _

theorem mem_split {s : String} {sep c : Char} (h : c ∈ s.toList) : c = sep ∨ ∃ t ∈ split s sep, c ∈ t.toList := by
  rcases @mem_splitList (· == sep) c s.toList h with hp | ⟨q, hq, hc⟩
  · exact .inl (beq_iff_eq.mp hp)
  · refine .inr ⟨String.ofList q, List.mem_map_of_mem hq, ?_⟩
    rwa [String.toList_ofList]

/-- What `strings.Cut` finds, put together. -/
theorem toList_of_cut {s a b : String} {sep : Char} (h : cut s sep = some (a, b)) : s.toList = a.toList ++ sep :: b.toList := by
  unfold cut at h
  have hspan := List.span_eq_takeWhile_dropWhile (fun x => decide (x ≠ sep)) s.toList
  rw [hspan] at h
  have happ := List.takeWhile_append_dropWhile (p := fun x => decide (x ≠ sep)) (l := s.toList)
  cases hd : s.toList.dropWhile fun x => decide (x ≠ sep) with
  | nil =>
    rw [hd] at h
    cases h
  | cons d ds =>
    rw [hd] at h
    obtain ⟨rfl, rfl⟩ := Prod.mk.inj (Option.some.inj h)
    have hsep : d = sep := by
      have hne := List.head_dropWhile_not (fun x => decide (x ≠ sep)) (l := s.toList) (by rw [hd]; exact List.cons_ne_nil _ _)
      simp only [hd, List.head_cons] at hne
      simpa using hne
    rw [hd, hsep] at happ
    rw [String.toList_ofList, String.toList_ofList]
    exact happ.symm

theorem mem_cut {s a b : String} {sep c : Char} (h : cut s sep = some (a, b)) (hc : c ∈ s.toList) :
    c ∈ a.toList ∨ c = sep ∨ c ∈ b.toList := by
  rwa [toList_of_cut h, List.mem_append, List.mem_cons] at hc

theorem cut_none {t : String} {sep : Char} (h : sep ∉ t.toList) : cut t sep = none := by
  unfold cut
  rw [List.span_eq_takeWhile_dropWhile]
  have hnil : t.toList.dropWhile (fun x => decide (x ≠ sep)) = [] :=
    List.dropWhile_eq_nil_iff.mpr fun x hx => decide_eq_true fun he : x = sep => h (he ▸ hx)
  rw [hnil]

theorem notMem_of_cut {t : String} {sep : Char} (h : cut t sep = none) : sep ∉ t.toList := by
  unfold cut at h
  rw [List.span_eq_takeWhile_dropWhile] at h
  cases hd : t.toList.dropWhile fun x => decide (x ≠ sep) with
  | nil =>
    intro hin
    have := List.dropWhile_eq_nil_iff.mp hd sep hin
    simp at this
  | cons d ds =>
    rw [hd] at h
    cases h

theorem mem_dropWhile_or {p : Char → Bool} {c : Char} : ∀ {cs : List Char}, c ∈ cs → p c = true ∨ c ∈ cs.dropWhile p
  | [], h => absurd h List.not_mem_nil
  | d :: ds, h => by
    cases hd : p d with
    | false =>
      rw [List.dropWhile_cons_of_neg (by simp [hd])]
      exact .inr h
    | true =>
      rw [List.dropWhile_cons_of_pos hd]
      rcases List.mem_cons.mp h with rfl | h
      · exact .inl hd
      · exact mem_dropWhile_or h

/-- A character that trimming takes away is white space. -/
theorem mem_trimSpace_or {s : String} {c : Char} (h : c ∈ s.toList) : isSpace c = true ∨ c ∈ (trimSpace s).toList := by
  rw [trimSpace, String.toList_ofList, trimList]
  rcases @mem_dropWhile_or isSpace c s.toList h with hs | h
  · exact .inl hs
  · rcases @mem_dropWhile_or isSpace c _ (List.mem_reverse.mpr h) with hs | h
    · exact .inl hs
    · exact .inr (List.mem_reverse.mpr h)

/-- A text without white space is left alone. -/
theorem trimmed_of_noSpace {s : String} (h : ∀ c ∈ s.toList, isSpace c = false) : Trimmed s := by
  have hlist : trimList s.toList = s.toList :=
    trimList_eq_self (fun hlen => by simp [h _ (List.getElem_mem hlen)]) fun hne => by simp [h _ (List.getLast_mem hne)]
  rw [Trimmed, trimSpace, hlist, String.ofList_toList]

/-- A text whose lower case has none of the two letters with a case of their own folds to its lower case. -/
theorem map_foldChar {s w : String} (h : toLower s = w) (hlong : 'ſ' ∉ w.toList) (hdotted : 'i' ∉ w.toList) :
    s.toList.map foldChar = w.toList := by
  have hlist : s.toList.map toLowerChar = w.toList := by rw [← h, toLower, String.toList_ofList]
  rw [← hlist]
  refine List.map_congr_left fun x hx => ?_
  have hmem : toLowerChar x ∈ w.toList := hlist ▸ List.mem_map_of_mem hx
  unfold foldChar
  by_cases hl : x.toNat = 0x17F
  · obtain rfl : x = 'ſ' := Char.toNat_inj.mp hl
    exact absurd hmem hlong
  · by_cases hd : x.toNat = 0x130
    · obtain rfl : x = 'İ' := Char.toNat_inj.mp hd
      exact absurd hmem hdotted
    · rw [if_neg hl, if_neg hd]

/-! ## Numbers -/

/-- A character of a number with its sign. -/
def numChar (c : Char) : Bool := isDigit c || c == '+' || c == '-'

theorem atoi_chars {s : String} {n : Int} (h : atoi s = some n) : ∀ c ∈ s.toList, numChar c = true := by
  have hunsigned : ∀ {cs : List Char} {m : Nat}, (if cs ≠ [] ∧ cs.all isDigit then some (digitsVal cs) else none) = some m →
      ∀ c ∈ cs, numChar c = true := by
    intro cs m hm c hc
    split at hm
    · rename_i hall
      simp [numChar, List.all_eq_true.mp hall.2 c hc]
    · cases hm
  unfold atoi at h
  dsimp only at h
  intro c hc
  split at h
  · rename_i cs hs
    obtain ⟨m, hm, _⟩ := Option.bind_eq_some_iff.mp h
    rw [hs] at hc
    rcases List.mem_cons.mp hc with rfl | hc
    · rfl
    · exact hunsigned hm c hc
  · rename_i cs hs
    obtain ⟨m, hm, _⟩ := Option.bind_eq_some_iff.mp h
    rw [hs] at hc
    rcases List.mem_cons.mp hc with rfl | hc
    · rfl
    · exact hunsigned hm c hc
  · obtain ⟨m, hm, _⟩ := Option.bind_eq_some_iff.mp h
    exact hunsigned hm c hc

theorem toString_ne_nil (n : Nat) : (toString n).toList ≠ [] := by
  rw [toList_toString]
  exact Nat.toDigits_ne_nil

/-- A numeral is read as its number, if that is an `int`. -/
theorem atoi_numeral (n : Nat) : atoi (toString n) = if n < 2 ^ 63 then some (n : Int) else none := by
  have hall : (toString n).toList.all isDigit = true := List.all_eq_true.mpr (isDigit_toString n)
  have hval := digitsVal_toString n
  have hnil := toString_ne_nil n
  unfold atoi
  dsimp only
  generalize (toString n).toList = cs at hall hval hnil
  have hplain : (if cs ≠ [] ∧ cs.all isDigit then some (digitsVal cs) else none).bind
      (fun m => if m < 2 ^ 63 then some (m : Int) else none) = if n < 2 ^ 63 then some (n : Int) else none := by
    rw [if_pos ⟨hnil, hall⟩, hval, Option.bind_some]
  split
  · exact absurd (List.all_eq_true.mp hall _ List.mem_cons_self) (by decide)
  · exact absurd (List.all_eq_true.mp hall _ List.mem_cons_self) (by decide)
  · exact hplain

theorem atoi_toString {n : Nat} (h : n < 2 ^ 63) : atoi (toString n) = some (n : Int) := by
  rw [atoi_numeral, if_pos h]

/-! ## Addresses -/

/-- A character of an address or of a range of addresses. -/
def addrChar (c : Char) : Bool :=
  isDigit c || ('a' ≤ c && c ≤ 'f') || ('A' ≤ c && c ≤ 'F') || c == '.' || c == ':' || c == '/'

theorem addrChar_of_isDigit {c : Char} (h : isDigit c = true) : addrChar c = true := by
  simp [addrChar, h]

theorem parseOctet_chars {cs : List Char} {n : Nat} (h : parseOctet cs = some n) : ∀ c ∈ cs, isDigit c = true := by
  unfold parseOctet at h
  split at h
  · cases h
  · rename_i hno
    push Not at hno
    exact List.all_eq_true.mp hno.2.2

theorem parseIPv4_chars {cs : List Char} {a : Nat} (h : parseIPv4 cs = some a) : ∀ c ∈ cs, isDigit c = true ∨ c = '.' := by
  unfold parseIPv4 at h
  intro c hc
  split at h
  · rename_i p q r s hsplit
    simp only [bind, Option.bind_eq_some_iff] at h
    obtain ⟨_, hp, _, hq, _, hr, _, hs, _⟩ := h
    rcases @mem_splitList (· == '.') c cs hc with hdot | ⟨piece, hpiece, hc⟩
    · exact .inr (beq_iff_eq.mp hdot)
    · rw [hsplit] at hpiece
      simp only [List.mem_cons, List.not_mem_nil, or_false] at hpiece
      rcases hpiece with rfl | rfl | rfl | rfl
      · exact .inl (parseOctet_chars hp c hc)
      · exact .inl (parseOctet_chars hq c hc)
      · exact .inl (parseOctet_chars hr c hc)
      · exact .inl (parseOctet_chars hs c hc)
  · cases h

theorem hexVal_chars {c : Char} {n : Nat} (h : hexVal c = some n) : addrChar c = true := by
  unfold hexVal at h
  split at h
  · rename_i hd
    exact addrChar_of_isDigit (by simpa [isDigit] using hd)
  · split at h
    · rename_i hd
      simp [addrChar, hd]
    · split at h
      · rename_i hd
        simp [addrChar, hd]
      · cases h

theorem foldl_hex_chars : ∀ {cs : List Char} {acc : Option Nat} {n : Nat},
    cs.foldl (fun acc c => acc.bind fun n => (hexVal c).map (n * 16 + ·)) acc = some n → acc.isSome ∧ ∀ c ∈ cs, addrChar c = true
  | [], _, _, h => ⟨Option.isSome_iff_exists.mpr ⟨_, h⟩, fun _ hc => absurd hc List.not_mem_nil⟩
  | c :: cs, acc, n, h => by
    obtain ⟨hsome, hcs⟩ := @foldl_hex_chars cs _ _ h
    obtain ⟨m, hm⟩ := Option.isSome_iff_exists.mp hsome
    obtain ⟨k, hk, hmap⟩ := Option.bind_eq_some_iff.mp hm
    obtain ⟨v, hv, _⟩ := Option.map_eq_some_iff.mp hmap
    exact ⟨Option.isSome_iff_exists.mpr ⟨k, hk⟩, List.forall_mem_cons.mpr ⟨hexVal_chars hv, hcs⟩⟩

theorem parseGroup_chars {cs : List Char} {n : Nat} (h : parseGroup cs = some n) : ∀ c ∈ cs, addrChar c = true := by
  unfold parseGroup at h
  split at h
  · cases h
  · exact (foldl_hex_chars h).2

theorem parseIPv4_addrChars {cs : List Char} {a : Nat} (h : parseIPv4 cs = some a) : ∀ c ∈ cs, addrChar c = true := by
  intro c hc
  rcases parseIPv4_chars h c hc with hd | rfl
  · exact addrChar_of_isDigit hd
  · decide

theorem parseGroups_chars {v4 : Bool} : ∀ {gs : List (List Char)} {ns : List Nat}, parseGroups v4 gs = some ns →
    ∀ g ∈ gs, ∀ c ∈ g, addrChar c = true
  | [], _, _, _, hg => absurd hg List.not_mem_nil
  | [g], _, h, g', hg => by
    rw [List.mem_singleton.mp hg]
    unfold parseGroups at h
    split at h
    · obtain ⟨a, ha, _⟩ := Option.map_eq_some_iff.mp h
      exact parseIPv4_addrChars ha
    · obtain ⟨n, hn, _⟩ := Option.map_eq_some_iff.mp h
      exact parseGroup_chars hn
  | g :: g₂ :: gs, _, h, g', hg => by
    unfold parseGroups at h
    simp only [bind, Option.bind_eq_some_iff] at h
    obtain ⟨n, hn, ns, hns, _⟩ := h
    rcases List.mem_cons.mp hg with rfl | hg
    · exact parseGroup_chars hn
    · exact parseGroups_chars hns g' hg

theorem groupsOf_chars {v4 : Bool} {cs : List Char} {ns : List Nat} (h : groupsOf v4 cs = some ns) : ∀ c ∈ cs, addrChar c = true := by
  intro c hc
  unfold groupsOf at h
  rw [if_neg (List.ne_nil_of_mem hc)] at h
  rcases @mem_splitList (· == ':') c cs hc with hcolon | ⟨g, hg, hc⟩
  · rw [beq_iff_eq.mp hcolon]
    decide
  · exact parseGroups_chars h g hg c hc

theorem mem_cutDoubleColon {c : Char} : ∀ {cs l r : List Char}, cutDoubleColon cs = some (l, r) → c ∈ cs → c ∈ l ∨ c = ':' ∨ c ∈ r
  | [], _, _, h, _ => by cases h
  | d :: ds, l, r, h, hc => by
    unfold cutDoubleColon at h
    split at h
    · rename_i heq
      obtain ⟨rfl, rfl⟩ := Prod.mk.inj (Option.some.inj h)
      rw [heq] at hc
      simp only [List.mem_cons] at hc
      rcases hc with rfl | rfl | hc
      · exact .inr (.inl rfl)
      · exact .inr (.inl rfl)
      · exact .inr (.inr hc)
    · rename_i heq
      obtain ⟨rfl, rfl⟩ := List.cons.inj heq
      obtain ⟨⟨l', r'⟩, hcut, hlr⟩ := Option.map_eq_some_iff.mp h
      obtain ⟨rfl, rfl⟩ := Prod.mk.inj hlr
      rcases List.mem_cons.mp hc with rfl | hc
      · exact .inl List.mem_cons_self
      · rcases mem_cutDoubleColon hcut hc with hc | hc
        · exact .inl (List.mem_cons_of_mem _ hc)
        · exact .inr hc
    · cases h

theorem parseIPv6_chars {cs : List Char} {a : Nat} (h : parseIPv6 cs = some a) : ∀ c ∈ cs, addrChar c = true := by
  intro c hc
  unfold parseIPv6 at h
  split at h
  · rename_i l r hcut
    simp only [bind, Option.bind_eq_some_iff] at h
    obtain ⟨ls, hls, rs, hrs, _⟩ := h
    rcases mem_cutDoubleColon hcut hc with hc | rfl | hc
    · exact groupsOf_chars hls c hc
    · decide
    · exact groupsOf_chars hrs c hc
  · simp only [bind, Option.bind_eq_some_iff] at h
    obtain ⟨gs, hgs, _⟩ := h
    exact groupsOf_chars hgs c hc

theorem parseIP_chars {s : String} {a : Addr} (h : parseIP s = some a) : ∀ c ∈ s.toList, addrChar c = true := by
  unfold parseIP at h
  split at h
  · obtain ⟨n, hn, _⟩ := Option.map_eq_some_iff.mp h
    exact parseIPv6_chars hn
  · obtain ⟨n, hn, _⟩ := Option.map_eq_some_iff.mp h
    exact parseIPv4_addrChars hn

/-- The text of an IPv4 address has no slash. -/
theorem parseIP_noSlash {s : String} {a : Nat} (h : parseIP s = some (.v4 a)) : '/' ∉ s.toList := by
  unfold parseIP at h
  split at h
  · obtain ⟨n, -, hn⟩ := Option.map_eq_some_iff.mp h
    cases hn
  · obtain ⟨n, hn, -⟩ := Option.map_eq_some_iff.mp h
    intro hmem
    rcases parseIPv4_chars hn '/' hmem with hdigit | hdot
    · exact absurd hdigit (by decide)
    · exact absurd hdot (by decide)

theorem parseCIDR_chars {s : String} {p : Addr × Nat} (h : parseCIDR s = some p) : ∀ c ∈ s.toList, addrChar c = true := by
  unfold parseCIDR at h
  simp only [bind, Option.bind_eq_some_iff] at h
  obtain ⟨⟨addr, mask⟩, hcut, a, ha, h⟩ := h
  intro c hc
  rcases mem_cut hcut hc with hc | rfl | hc
  · exact parseIP_chars ha c hc
  · decide
  · split at h
    · rename_i hmask
      exact addrChar_of_isDigit (List.all_eq_true.mp hmask.2.1 c hc)
    · cases h

end Go

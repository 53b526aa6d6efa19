import EvuProxy.Theorems.EventFile
import Mathlib.Data.List.Sort

/-!
# The tail of the events file

`ReadTail` puts the records of the file in the order of their times, which are whole seconds, and then cuts. What it returns is the newest
records where their times tell them apart from each other and from all that came before them.
-/

namespace EvuProxy.EventLog

/-! ## Cutting what was sorted -/

section sorting

variable {α : Type} (ts : α → Int)

/-- A list in the order of its times, the latest first. -/
def Descending (l : List α) : Prop := l.Pairwise fun a b => ts b ≤ ts a

/-- The times of the last `m` elements tell them apart: each is later than all before it, or the same. -/
def ToldApart (m : Nat) (l : List α) : Prop :=
  ∀ (i j : Nat) (a b : α), i < j → l.length - m ≤ j → l[i]? = some a → l[j]? = some b → ts a < ts b ∨ a = b

variable {ts}

theorem descending_iff_map {l : List α} : Descending ts l ↔ (l.map ts).Pairwise fun s t => t ≤ s := by
  rw [List.pairwise_map]
  rfl

theorem exists_descending (ts : α → Int) (l : List α) : ∃ sorted : List α, sorted.Perm l ∧ Descending ts sorted := by
  have : Std.Total fun a b : α => ts b ≤ ts a := ⟨fun a b => le_total (ts b) (ts a)⟩
  have : IsTrans α fun a b => ts b ≤ ts a := ⟨fun _ _ _ h h' => h'.trans h⟩
  exact ⟨l.insertionSort fun a b => ts b ≤ ts a, List.perm_insertionSort _ l, List.pairwise_insertionSort _ l⟩

/-- Elements that are told apart come out first, the newest of them in front. -/
theorem take_of_toldApart {sorted new : List α} : ∀ {old : List α}, sorted.Perm (old ++ new) → Descending ts sorted →
    (∀ a ∈ old, ∀ b ∈ new, ts a < ts b ∨ a = b) → (new.Pairwise fun a b => ts a < ts b ∨ a = b) →
    sorted.take new.length = new.reverse := by
  induction new using List.reverseRecOn generalizing sorted with
  | nil =>
    intro old _ _ _ _
    rfl
  | append_singleton new b ih =>
    intro old hperm hsorted hold hnew
    obtain ⟨hnewBefore, -, hlast⟩ := List.pairwise_append.1 hnew
    have hmem : b ∈ sorted := hperm.mem_iff.2 (by simp)
    obtain ⟨s, rest, rfl⟩ : ∃ s rest, sorted = s :: rest := List.exists_cons_of_ne_nil (List.ne_nil_of_mem hmem)
    obtain ⟨hfirst, hrest⟩ := List.pairwise_cons.1 hsorted
    -- The first of the sorted list is as late as the last element, and nothing else is.
    have hlate : ts b ≤ ts s := by
      rcases List.mem_cons.1 hmem with rfl | hmem
      · exact le_rfl
      · exact hfirst b hmem
    have hsame : s = b := by
      have hs : s ∈ old ++ (new ++ [b]) := hperm.mem_iff.1 List.mem_cons_self
      rcases List.mem_append.1 hs with hs | hs
      · exact (hold s hs b (by simp)).resolve_left (not_lt_of_ge hlate)
      · rcases List.mem_append.1 hs with hs | hs
        · exact (hlast s hs b (by simp)).resolve_left (not_lt_of_ge hlate)
        · exact List.mem_singleton.1 hs
    subst hsame
    have hpermRest : rest.Perm (old ++ new) := by
      have : (s :: rest).Perm (s :: (old ++ new)) := hperm.trans (by
        rw [← List.append_assoc]
        exact List.perm_append_singleton s (old ++ new))
      exact this.cons_inv
    have htake := ih hpermRest hrest (fun a ha c hc => hold a ha c (by simp [hc])) hnewBefore
    rw [List.length_append, List.length_singleton, List.take_succ_cons, htake, List.reverse_append]
    rfl

/-- Where the newest elements come out first whatever the sorting does, their times tell them apart. -/
theorem toldApart_of_take {m : Nat} {l : List α} (hm : m ≤ l.length)
    (h : ∀ sorted : List α, sorted.Perm l → Descending ts sorted → sorted.take m = (l.drop (l.length - m)).reverse) : ToldApart ts m l := by
  obtain ⟨sorted, hperm, hsorted⟩ := exists_descending ts l
  have htake := h sorted hperm hsorted
  have hlen : sorted.length = l.length := hperm.length_eq
  -- Two places with the same time may be exchanged, one of them in front of the cut.
  have hswap : ∀ p q (hp : p < sorted.length) (hq : q < sorted.length), p < m → p ≠ q → ts sorted[p] = ts sorted[q] →
      sorted[q] = sorted[p] := by
    intro p q hp hq hpm hne hts
    have hsameTimes : ((sorted.set p sorted[q]).set q sorted[p]).map ts = sorted.map ts := by
      rw [List.map_set, List.map_set]
      refine List.ext_getElem (by simp) fun k hk hk' => ?_
      rw [List.getElem_set, List.getElem_set, List.getElem_map]
      split
      · subst q
        exact hts
      · split
        · subst p
          exact hts.symm
        · rfl
    have htake' := h _ ((List.set_set_perm hp hq).trans hperm) (descending_iff_map.2 (hsameTimes ▸ descending_iff_map.1 hsorted))
    have hat := congrArg (fun r => r[p]?) (htake'.trans htake.symm)
    simp only [List.getElem?_take, if_pos hpm, List.getElem?_set, if_neg (Ne.symm hne), List.length_set, if_true, hp,
      List.getElem?_eq_getElem hp] at hat
    exact Option.some.inj hat
  -- The newest elements stand in front, in turn, and the others behind the cut.
  have hplace : ∀ k x, l.length - m ≤ k → l[k]? = some x → sorted[l.length - 1 - k]? = some x := by
    intro k x hk hx
    obtain ⟨hlt, -⟩ := List.getElem?_eq_some_iff.1 hx
    have hat := congrArg (fun r => r[l.length - 1 - k]?) htake
    simp only [List.getElem?_take, List.getElem?_reverse (show l.length - 1 - k < (l.drop (l.length - m)).length by
      rw [List.length_drop]; omega), List.getElem?_drop, List.length_drop] at hat
    rw [if_pos (by omega), show l.length - m + (l.length - (l.length - m) - 1 - (l.length - 1 - k)) = k by omega, hx] at hat
    exact hat
  have hbehind : ∀ k x, k < l.length - m → l[k]? = some x → ∃ q, m ≤ q ∧ sorted[q]? = some x := by
    intro k x hk hx
    have hpermBehind : (sorted.drop m).Perm (l.take (l.length - m)) := by
      have hparts : (l.take (l.length - m) ++ l.drop (l.length - m)).Perm (l.drop (l.length - m) ++ sorted.drop m) := by
        have hfront : (sorted.take m).Perm (l.drop (l.length - m)) := htake ▸ List.reverse_perm _
        rw [List.take_append_drop]
        refine hperm.symm.trans ?_
        conv_lhs => rw [← List.take_append_drop m sorted]
        exact hfront.append_right _
      exact ((List.perm_append_left_iff _).1 (List.perm_append_comm.trans hparts)).symm
    have hmem : x ∈ sorted.drop m := hpermBehind.mem_iff.2 (List.mem_iff_getElem?.2 ⟨k, by rw [List.getElem?_take, if_pos hk, hx]⟩)
    obtain ⟨q, hq⟩ := List.mem_iff_getElem?.1 hmem
    exact ⟨m + q, Nat.le_add_right m q, by rwa [List.getElem?_drop] at hq⟩
  intro i j a b hij hj ha hb
  obtain ⟨hjl, -⟩ := List.getElem?_eq_some_iff.1 hb
  obtain ⟨hp, hbp⟩ := List.getElem?_eq_some_iff.1 (hplace j b hj hb)
  obtain ⟨q, hpq, hq, haq⟩ : ∃ q, l.length - 1 - j < q ∧ ∃ hq : q < sorted.length, sorted[q] = a := by
    by_cases hi : l.length - m ≤ i
    · exact ⟨l.length - 1 - i, by omega, List.getElem?_eq_some_iff.1 (hplace i a hi ha)⟩
    · obtain ⟨q, hmq, hq⟩ := hbehind i a (by omega) ha
      exact ⟨q, by omega, List.getElem?_eq_some_iff.1 hq⟩
  subst haq hbp
  rcases lt_or_eq_of_le (List.pairwise_iff_getElem.1 hsorted _ q hp hq hpq) with hlt | heq
  · exact .inl hlt
  · exact .inr (hswap _ q hp hq (by omega) (by omega) heq.symm)

/-- What comes out in front is the newest elements, whatever the sorting does, if and only if their times tell them apart. -/
theorem take_iff_toldApart {m : Nat} {l : List α} (hm : m ≤ l.length) :
    (∀ sorted : List α, sorted.Perm l → Descending ts sorted → sorted.take m = (l.drop (l.length - m)).reverse) ↔ ToldApart ts m l := by
  refine ⟨toldApart_of_take hm, fun h sorted hperm hsorted => ?_⟩
  have hlen : (l.drop (l.length - m)).length = m := by
    rw [List.length_drop]
    omega
  rw [← List.take_append_drop (l.length - m) l] at hperm
  have htake := take_of_toldApart hperm hsorted (fun a ha b hb => ?_) ?_
  · rwa [hlen] at htake
  · obtain ⟨i, hi⟩ := List.mem_iff_getElem?.1 ha
    obtain ⟨j, hj⟩ := List.mem_iff_getElem?.1 hb
    rw [List.getElem?_take] at hi
    rw [List.getElem?_drop] at hj
    split at hi
    · exact h i (l.length - m + j) a b (by omega) (by omega) hi hj
    · cases hi
  · refine List.pairwise_iff_getElem.2 fun i j hi hj hij => ?_
    refine h (l.length - m + i) (l.length - m + j) _ _ (by omega) (by omega) ?_ ?_
    · rw [← List.getElem?_drop, List.getElem?_eq_getElem hi]
    · rw [← List.getElem?_drop, List.getElem?_eq_getElem hj]

end sorting

/-! ## Reading the file -/

section tail

variable {ρ : Type} {codec : Codec ρ} {maxBytes : Nat} {rs kept : List ρ} {file : Option (List UInt8)}

/-- A file of records is read as these records. -/
theorem readRecords_fileOf (kept : List ρ) : readRecords codec (fileOf codec kept) = kept := by
  have hsplit : (fileOf codec kept).splitOn newline = (kept.map codec.lineBytes).map LineBody.bytes ++ [[]] := by
    rw [fileOf_eq]
    exact splitOn_lines _
  have htrim : trimLine [] = [] := rfl
  rw [readRecords, hsplit, List.filterMap_append, List.map_map, List.filterMap_map]
  have hread : ∀ r ∈ kept, ((fun ln => if trimLine ln = [] then none else codec.unmarshal (trimLine ln)) ∘
      (LineBody.bytes ∘ codec.lineBytes)) r = some r := by
    intro r _
    simp only [Function.comp_apply, (codec.lineBytes r).trimmed, if_neg (codec.lineBytes r).notBlank, codec.unmarshal_lineBytes]
  rw [List.filterMap_congr hread]
  simp [htrim]

/-- Of a file within the cap all is looked at. -/
theorem tailBytes_eq {b : List UInt8} (h : b.length ≤ maxBytes) : tailBytes maxBytes b = b := by
  rw [tailBytes, Nat.min_eq_right h, Nat.sub_self]
  rfl

/-- The records of a file. -/
def recordsIn (codec : Codec ρ) (file : Option (List UInt8)) : List ρ := readRecords codec (file.getD [])

/-- The last records appended, as many as the limit allows and the file still holds, the newest first. -/
def newestFirst (codec : Codec ρ) (rs : List ρ) (file : Option (List UInt8)) (limit : Nat) : List ρ :=
  (rs.drop (rs.length - min limit (recordsIn codec file).length)).reverse

theorem HoldsNewest.recordsIn_eq (h : HoldsNewest codec maxBytes rs kept file) : recordsIn codec file = kept := by
  rw [recordsIn, h.bytes, readRecords_fileOf]

theorem HoldsNewest.newestFirst_eq (h : HoldsNewest codec maxBytes rs kept file) (limit : Nat) :
    newestFirst codec rs file limit = (kept.drop (kept.length - min limit kept.length)).reverse := by
  obtain ⟨p, rfl⟩ := h.suffix
  rw [newestFirst, h.recordsIn_eq, List.length_append, List.drop_append,
    List.drop_of_length_le (show p.length ≤ p.length + kept.length - min limit kept.length by omega), List.nil_append]
  congr 2
  omega

/-- What `ReadTail` may return of a file within the cap. -/
theorem HoldsNewest.readTail_iff (h : HoldsNewest codec maxBytes rs kept file) (limit : Nat) (hlow : 1 ≤ limit) (hhigh : limit ≤ 200)
    {out : List ρ} :
    ReadTail codec maxBytes limit file out ↔
      ∃ sorted : List ρ, sorted.Perm kept ∧ Descending codec.ts sorted ∧ out = sorted.take (min limit kept.length) := by
  have hlimit : tailLimit limit = limit := by
    rw [tailLimit, if_neg (by omega), Int.toNat_natCast]
    omega
  have hcut : ∀ sorted : List ρ, sorted.Perm kept → sorted.take limit = sorted.take (min limit kept.length) := fun sorted hperm => by
    rw [List.take_eq_take_iff, hperm.length_eq]
    omega
  have hbytes := h.bytes
  cases file with
  | none =>
    have hnil : kept = [] := by
      rw [← h.recordsIn_eq]
      rfl
    subst hnil
    simp [ReadTail, Descending]
  | some b =>
    obtain rfl : b = fileOf codec kept := hbytes
    simp only [ReadTail, hlimit, tailBytes_eq h.bounded, readRecords_fileOf, SortedNewest, and_assoc]
    refine exists_congr fun sorted => and_congr_right fun hperm => and_congr_right fun _ => ?_
    rw [hcut sorted hperm]

end tail

/-- A log that holds two short events of one second. -/
theorem two_in_a_second : ∃ file, Reached Sample.codec (loggerCap 0) [1, 2] file ∧
    HoldsNewest Sample.codec (loggerCap 0) [1, 2] [1, 2] file := by
  have hstart : HoldsNewest Sample.codec (loggerCap 0) [] [] none := ⟨List.nil_suffix, rfl, Nat.zero_le _⟩
  have hfirst : (fileOf Sample.codec []).length + recordSize Sample.codec 1 ≤ loggerCap 0 := by
    rw [length_fileOf, recordSize, Sample.recordLine_length, Sample.cap_eq]
    decide
  have hsecond : (fileOf Sample.codec [1]).length + recordSize Sample.codec 2 ≤ loggerCap 0 := by
    rw [length_fileOf, List.map_singleton, List.sum_singleton, recordSize, recordSize, Sample.recordLine_length, Sample.recordLine_length,
      Sample.cap_eq]
    decide
  have hone := hstart.snoc hfirst
  exact ⟨_, .appended 2 (.appended 1 .start (hstart.runsTo_fits (le_trans (Nat.le_add_left _ _) hfirst) hfirst))
    (hone.runsTo_fits (le_trans (Nat.le_add_left _ _) hsecond) hsecond), hone.snoc hsecond⟩

end EvuProxy.EventLog

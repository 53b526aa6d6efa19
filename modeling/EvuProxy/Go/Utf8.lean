/-!
# UTF-8

Well-formed code points in a string of bytes, as `unicode/utf8` decodes them, and what it means that a string can be walked from code
point to code point up to some place.
-/

namespace Go

/-- A continuation byte. -/
def isCont (b : UInt8) : Bool := 0x80 ≤ b && b ≤ 0xBF

/-- What a first byte asks for: the number of bytes that follow, and the range of the next one. -/
def leadByte (a : UInt8) : Option (Nat × UInt8 × UInt8) :=
  if a < 0x80 then some (0, 0x80, 0xBF)
  else if a < 0xC2 then none
  else if a ≤ 0xDF then some (1, 0x80, 0xBF)
  else if a = 0xE0 then some (2, 0xA0, 0xBF)
  else if a = 0xED then some (2, 0x80, 0x9F)
  else if a ≤ 0xEF then some (2, 0x80, 0xBF)
  else if a = 0xF0 then some (3, 0x90, 0xBF)
  else if a ≤ 0xF3 then some (3, 0x80, 0xBF)
  else if a = 0xF4 then some (3, 0x80, 0x8F)
  else none

/-- The bytes begin with `n` continuation bytes, the first of them in the given range. -/
def follows : Nat → UInt8 → UInt8 → List UInt8 → Bool
  | 0, _, _, _ => true
  | _ + 1, _, _, [] => false
  | n + 1, lo, hi, b :: s => lo ≤ b && b ≤ hi && follows n 0x80 0xBF s

/-- The length of the code point that a string begins with, 0 if it begins with none. -/
def runeLen : List UInt8 → Nat
  | [] => 0
  | a :: s =>
    match leadByte a with
    | none => 0
    | some (n, lo, hi) => if follows n lo hi s then n + 1 else 0

/-- The loop of `utf8.ValidString`, with the bytes of the code point that are still to be passed over. -/
def validFrom : Nat → List UInt8 → Bool
  | _, [] => true
  | skip + 1, _ :: s => validFrom skip s
  | 0, a :: s =>
    match runeLen (a :: s) with
    | 0 => false
    | w + 1 => validFrom w s

/-- `utf8.ValidString`. -/
def validString (s : List UInt8) : Bool := validFrom 0 s

/-! ## One code point -/

theorem leadByte_le {a : UInt8} {n : Nat} {lo hi : UInt8} (h : leadByte a = some (n, lo, hi)) : n ≤ 3 ∧ 0x80 ≤ lo ∧ hi ≤ 0xBF := by
  unfold leadByte at h
  repeat' split at h
  all_goals cases h
  all_goals decide

theorem follows_length {n : Nat} {lo hi : UInt8} {s : List UInt8} (h : follows n lo hi s = true) : n ≤ s.length := by
  induction n generalizing lo hi s with
  | zero => exact Nat.zero_le _
  | succ n ih =>
    cases s with
    | nil => cases h
    | cons b s =>
      simp only [follows, Bool.and_eq_true] at h
      have := ih h.2
      simpa using this

/-- Only the bytes that are asked for are looked at. -/
theorem follows_take {n k : Nat} {lo hi : UInt8} {s : List UInt8} (hk : n ≤ k) : follows n lo hi (s.take k) = follows n lo hi s := by
  induction n generalizing lo hi s k with
  | zero => rfl
  | succ n ih =>
    cases s with
    | nil => simp
    | cons b s =>
      obtain ⟨k, rfl⟩ : ∃ j, k = j + 1 := ⟨k - 1, by omega⟩
      rw [List.take_succ_cons, follows, follows, ih (by omega)]

theorem follows_cont {n : Nat} {lo hi : UInt8} {s : List UInt8} (hlo : 0x80 ≤ lo) (hhi : hi ≤ 0xBF) (h : follows n lo hi s = true)
    {i : Nat} (hi' : i < n) : ∃ b, s[i]? = some b ∧ isCont b = true := by
  induction n generalizing lo hi s i with
  | zero => omega
  | succ n ih =>
    cases s with
    | nil => cases h
    | cons b s =>
      simp only [follows, Bool.and_eq_true, decide_eq_true_eq] at h
      cases i with
      | zero => exact ⟨b, rfl, by simp only [isCont, Bool.and_eq_true, decide_eq_true_eq]; grind⟩
      | succ i => exact ih (by decide) (by decide) h.2 (by omega)

theorem runeLen_cons {a : UInt8} {s : List UInt8} {w : Nat} (hw : 0 < w) :
    runeLen (a :: s) = w ↔ ∃ lo hi, leadByte a = some (w - 1, lo, hi) ∧ follows (w - 1) lo hi s = true := by
  rw [runeLen]
  constructor
  · intro h
    split at h
    · omega
    · rename_i n lo hi hlead
      split at h
      · rename_i hfollows
        obtain rfl : n = w - 1 := by omega
        exact ⟨lo, hi, hlead, hfollows⟩
      · omega
  · rintro ⟨lo, hi, hlead, hfollows⟩
    rw [hlead]
    simp only [hfollows, if_true]
    omega

/-- A first byte is no continuation byte. -/
theorem leadByte_cont {a : UInt8} (h : isCont a = true) : leadByte a = none := by
  simp only [isCont, Bool.and_eq_true, decide_eq_true_eq] at h
  have hlow : ¬a < 0x80 := by
    rw [UInt8.not_lt]
    exact h.1
  have hhigh : a < 0xC2 := by
    have := h.2
    rw [UInt8.le_iff_toNat_le] at this
    rw [UInt8.lt_iff_toNat_lt]
    exact Nat.lt_of_le_of_lt this (by decide)
  rw [leadByte, if_neg hlow, if_pos hhigh]

theorem runeLen_le (s : List UInt8) : runeLen s ≤ 4 := by
  match s with
  | [] => exact Nat.zero_le _
  | a :: s =>
    by_cases hw : 0 < runeLen (a :: s)
    · obtain ⟨lo, hi, hlead, -⟩ := (runeLen_cons hw).1 rfl
      have := (leadByte_le hlead).1
      omega
    · omega

theorem runeLen_le_length (s : List UInt8) : runeLen s ≤ s.length := by
  match s with
  | [] => exact Nat.zero_le _
  | a :: s =>
    by_cases hw : 0 < runeLen (a :: s)
    · obtain ⟨lo, hi, -, hfollows⟩ := (runeLen_cons hw).1 rfl
      have := follows_length hfollows
      rw [List.length_cons]
      omega
    · omega

/-- The code point that a string begins with is all that is looked at. -/
theorem runeLen_take {s : List UInt8} {w k : Nat} (hw : 0 < w) (hk : w ≤ k) : runeLen (s.take k) = w ↔ runeLen s = w := by
  match s with
  | [] => simp
  | a :: s =>
    obtain ⟨k, rfl⟩ : ∃ j, k = j + 1 := ⟨k - 1, by omega⟩
    rw [List.take_succ_cons, runeLen_cons hw, runeLen_cons hw]
    refine exists_congr fun lo => exists_congr fun hi => and_congr_right fun _ => ?_
    rw [follows_take (by omega)]

/-! ## Walking a string -/

/-- A code point of `w` bytes stands at `i`. -/
def CodePointAt (s : List UInt8) (i w : Nat) : Prop := 0 < w ∧ runeLen (s.drop i) = w

/-- The byte at `i` belongs to a code point. -/
def InCodePoint (s : List UInt8) (i : Nat) : Prop := ∃ j w, CodePointAt s j w ∧ j ≤ i ∧ i < j + w

/-- A cut at `n` falls into the middle of a code point. -/
def Splits (s : List UInt8) (n : Nat) : Prop := ∃ i w, CodePointAt s i w ∧ i < n ∧ n < i + w

/-- A string can be walked from code point to code point, from the start to `n`. -/
inductive Walked (s : List UInt8) : Nat → Prop where
  | start : Walked s 0
  | hop {n w : Nat} : Walked s n → CodePointAt s n w → Walked s (n + w)

theorem CodePointAt.le_four {s : List UInt8} {i w : Nat} (h : CodePointAt s i w) : w ≤ 4 := h.2 ▸ runeLen_le _

theorem CodePointAt.end_le {s : List UInt8} {i w : Nat} (h : CodePointAt s i w) : i + w ≤ s.length := by
  have hlen := runeLen_le_length (s.drop i)
  have hpos := h.1
  rw [h.2, List.length_drop] at hlen
  omega

/-- The bytes of a code point after the first are continuation bytes. -/
theorem CodePointAt.cont {s : List UInt8} {i w j : Nat} (h : CodePointAt s i w) (hi : i < j) (hj : j < i + w) :
    ∃ b, s[j]? = some b ∧ isCont b = true := by
  obtain ⟨hw, hlen⟩ := h
  match hs : s.drop i, hlen with
  | [], hlen =>
    rw [runeLen] at hlen
    omega
  | a :: t, hlen =>
    obtain ⟨lo, hi', hlead, hfollows⟩ := (runeLen_cons hw).1 hlen
    obtain ⟨-, hlo, hhi⟩ := leadByte_le hlead
    obtain ⟨b, hb, hcont⟩ := follows_cont hlo hhi hfollows (i := j - i - 1) (by omega)
    refine ⟨b, ?_, hcont⟩
    have hget : (s.drop i)[j - i]? = (a :: t)[j - i]? := by rw [hs]
    rw [List.getElem?_drop, show j - i = (j - i - 1) + 1 by omega, List.getElem?_cons_succ, hb] at hget
    rwa [show i + (j - i - 1 + 1) = j by omega] at hget

/-- A code point does not begin with a continuation byte. -/
theorem CodePointAt.not_cont {s : List UInt8} {i w : Nat} {b : UInt8} (h : CodePointAt s i w) (hb : s[i]? = some b) : isCont b = false := by
  obtain ⟨hw, hlen⟩ := h
  rw [← Bool.not_eq_true]
  intro hcont
  have hdrop : s.drop i = b :: s.drop (i + 1) := by
    obtain ⟨hi, rfl⟩ := List.getElem?_eq_some_iff.1 hb
    exact List.drop_eq_getElem_cons hi
  rw [hdrop] at hlen
  obtain ⟨lo, hi, hlead, -⟩ := (runeLen_cons hw).1 hlen
  rw [leadByte_cont hcont] at hlead
  cases hlead

theorem Walked.le_length {s : List UInt8} {n : Nat} (h : Walked s n) : n ≤ s.length := by
  cases h with
  | start => exact Nat.zero_le _
  | hop _ hcp => exact hcp.end_le

/-- Every byte passed belongs to a code point. -/
theorem Walked.inCodePoint {s : List UInt8} {n i : Nat} (h : Walked s n) (hi : i < n) : InCodePoint s i := by
  induction h with
  | start => omega
  | @hop n w _ hcp ih =>
    by_cases hin : i < n
    · exact ih hin
    · exact ⟨n, w, hcp, by omega, hi⟩

/-- A walk ends in the middle of no code point. -/
theorem Walked.not_splits {s : List UInt8} {n : Nat} (h : Walked s n) : ¬Splits s n := by
  induction h with
  | start =>
    rintro ⟨i, w, -, hi, -⟩
    omega
  | @hop n v hwalk hcp ih =>
    rintro ⟨i, w, hat, hi, hw⟩
    rcases Nat.lt_trichotomy i n with hlt | rfl | hgt
    · exact ih ⟨i, w, hat, hlt, by omega⟩
    · have hv : v = w := hcp.2.symm.trans hat.2
      omega
    · obtain ⟨b, hb, hcont⟩ := hcp.cont hgt hi
      rw [hat.not_cont hb] at hcont
      cases hcont

/-- The code points of a string that is cut off. -/
theorem codePointAt_take {s : List UInt8} {n i w : Nat} : CodePointAt (s.take n) i w ↔ CodePointAt s i w ∧ i + w ≤ n := by
  rw [CodePointAt, CodePointAt, List.drop_take]
  constructor
  · rintro ⟨hw, hlen⟩
    have hle := runeLen_le_length ((s.drop i).take (n - i))
    rw [hlen, List.length_take] at hle
    exact ⟨⟨hw, (runeLen_take hw (by omega)).1 hlen⟩, by omega⟩
  · rintro ⟨⟨hw, hlen⟩, hn⟩
    exact ⟨hw, (runeLen_take hw (by omega)).2 hlen⟩

theorem validFrom_skip {s : List UInt8} {skip : Nat} (h : skip ≤ s.length) : validFrom skip s = validFrom 0 (s.drop skip) := by
  induction skip generalizing s with
  | zero => rfl
  | succ skip ih =>
    cases s with
    | nil => simp at h
    | cons b s =>
      rw [validFrom, List.drop_succ_cons]
      exact ih (by simpa using h)

/-- One turn of the loop of `utf8.ValidString`. -/
theorem validFrom_drop {s : List UInt8} {m : Nat} (hm : m < s.length) :
    validFrom 0 (s.drop m) = true ↔ ∃ w, CodePointAt s m w ∧ validFrom 0 (s.drop (m + w)) = true := by
  have hdrop : s.drop m = s[m] :: s.drop (m + 1) := List.drop_eq_getElem_cons hm
  have hle := runeLen_le_length (s.drop m)
  rw [List.length_drop] at hle
  cases hlen : runeLen (s.drop m) with
  | zero =>
    constructor
    · intro h
      rw [hdrop] at h hlen
      rw [validFrom, hlen] at h
      cases h
    · rintro ⟨w, ⟨hw, hw'⟩, -⟩
      omega
  | succ w =>
    have hturn : validFrom 0 (s.drop m) = validFrom 0 (s.drop (m + (w + 1))) := by
      have hskip : validFrom w (s.drop (m + 1)) = validFrom 0 ((s.drop (m + 1)).drop w) :=
        validFrom_skip (by rw [List.length_drop]; omega)
      rw [List.drop_drop, show m + 1 + w = m + (w + 1) by omega] at hskip
      rw [← hskip, hdrop]
      rw [hdrop] at hlen
      rw [validFrom, hlen]
    rw [hturn]
    constructor
    · intro h
      exact ⟨w + 1, ⟨by omega, hlen⟩, h⟩
    · rintro ⟨v, ⟨-, hv⟩, h⟩
      rwa [← hv, hlen] at h

/-- `utf8.ValidString` accepts what can be walked to its end. -/
theorem validString_take {s : List UInt8} {n : Nat} (hn : n ≤ s.length) : validString (s.take n) = true ↔ Walked s n := by
  have hlen : (s.take n).length = n := by rw [List.length_take]; omega
  have hdone : ∀ m, n ≤ m → validFrom 0 ((s.take n).drop m) = true := fun m hm => by
    rw [List.drop_of_length_le (by omega)]
    rfl
  have hgoes : ∀ k m, n - m = k → m ≤ n → Walked s m → (validFrom 0 ((s.take n).drop m) = true ↔ Walked s n) := by
    intro k
    induction k using Nat.strongRecOn with
    | _ k ih =>
      intro m hk hm hwalk
      rcases Nat.eq_or_lt_of_le hm with rfl | hlt
      · exact ⟨fun _ => hwalk, fun _ => hdone m (Nat.le_refl m)⟩
      rw [validFrom_drop (by omega)]
      constructor
      · rintro ⟨w, hat, hrest⟩
        obtain ⟨hat, hend⟩ := codePointAt_take.1 hat
        have hpos := hat.1
        exact (ih (n - (m + w)) (by omega) (m + w) rfl hend (hwalk.hop hat)).1 hrest
      · intro hall
        -- The byte at `m` is in a code point, which neither of the two walks can cut.
        obtain ⟨j, w, hat, hj, hw⟩ := hall.inCodePoint hlt
        have hpos := hat.1
        obtain rfl : j = m := Nat.le_antisymm hj (Nat.le_of_not_lt fun hne => hwalk.not_splits ⟨j, w, hat, hne, hw⟩)
        have hend : j + w ≤ n := Nat.le_of_not_lt fun hgt => hall.not_splits ⟨j, w, hat, hlt, hgt⟩
        exact ⟨w, codePointAt_take.2 ⟨hat, hend⟩, (ih (n - (j + w)) (by omega) (j + w) rfl hend (hwalk.hop hat)).2 hall⟩
  exact hgoes (n - 0) 0 rfl (Nat.zero_le n) .start

end Go

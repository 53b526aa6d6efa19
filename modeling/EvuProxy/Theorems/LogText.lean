import EvuProxy.Apply.LogUtil

/-!
# What is left of a long text

A text that is cut for the log keeps all but the last few bytes it may keep, as long as what it may keep is text. A byte that belongs to
no code point ends what is kept, wherever it stands.
-/

namespace EvuProxy

open Go

/-- All is kept of a short text. Of a long one as much as can be is kept without cutting a code point, and the mark follows. -/
structure KeepsMost (s : List UInt8) (max : Nat) (out : List UInt8) : Prop where
  short : s.length ≤ max → out = s
  long : max < s.length → ∃ n, out = s.take n ++ truncatedMark ∧ n ≤ max ∧ max ≤ n + 3 ∧ ¬Splits s n

/-- The loop ends at the last place up to which the text can be walked. -/
theorem cutBack_spec {s : List UInt8} {max : Nat} (hmax : max ≤ s.length) :
    ∃ n, cutBack s max = s.take n ∧ n ≤ max ∧ Walked s n ∧ ∀ m, Walked s m → m ≤ max → m ≤ n := by
  induction max with
  | zero => exact ⟨0, rfl, Nat.le_refl 0, .start, fun _ _ h => h⟩
  | succ max ih =>
    rw [cutBack]
    by_cases hvalid : validString (s.take (max + 1)) = true
    · rw [if_pos hvalid]
      exact ⟨max + 1, rfl, Nat.le_refl _, (validString_take hmax).1 hvalid, fun _ _ h => h⟩
    · obtain ⟨n, hcut, hn, hwalk, hlast⟩ := ih (by omega)
      rw [if_neg hvalid]
      refine ⟨n, hcut, by omega, hwalk, fun m hm hle => ?_⟩
      have hne : m ≠ max + 1 := fun h => hvalid ((validString_take hmax).2 (h ▸ hm))
      exact hlast m hm (by omega)

theorem truncateForLogBytes_short {s : List UInt8} {max : Nat} (h : s.length ≤ max) : truncateForLogBytes s max = s :=
  if_pos (Or.inr (by exact_mod_cast h))

theorem truncateForLogBytes_long {s : List UInt8} {max : Nat} (hpos : 0 < max) (h : max < s.length) :
    truncateForLogBytes s max = cutBack s max ++ truncatedMark := by
  rw [truncateForLogBytes, if_neg (by omega), Int.toNat_natCast]

/-- A text of code points, up to the last three bytes that it may keep, keeps most of itself. -/
theorem keepsMost_of_inCodePoint {s : List UInt8} {max : Nat} (hpos : 0 < max) (hin : ∀ i, i + 3 < max → InCodePoint s i) :
    KeepsMost s max (truncateForLogBytes s max) where
  short := truncateForLogBytes_short
  long hlong := by
    obtain ⟨n, hcut, hn, hwalk, hlast⟩ := cutBack_spec (Nat.le_of_lt hlong)
    refine ⟨n, by rw [truncateForLogBytes_long hpos hlong, hcut], hn, Nat.le_of_not_lt fun hfar => ?_, hwalk.not_splits⟩
    -- The walk could go on: the next byte begins a code point, which ends before the limit.
    obtain ⟨j, w, hat, hj, hw⟩ := hin n hfar
    obtain rfl : j = n := Nat.le_antisymm hj (Nat.le_of_not_lt fun hne => hwalk.not_splits ⟨j, w, hat, hne, hw⟩)
    have hfour := hat.le_four
    have hnext := hlast _ (hwalk.hop hat) (by omega)
    have := hat.1
    omega

/-- Where a long text keeps most of itself, the bytes kept belong to code points. -/
theorem inCodePoint_of_keepsMost {s : List UInt8} {max : Nat} (hpos : 0 < max) (hlong : max < s.length)
    (h : KeepsMost s max (truncateForLogBytes s max)) {i : Nat} (hi : i + 3 < max) : InCodePoint s i := by
  obtain ⟨n, hout, hn, hmost, -⟩ := h.long hlong
  obtain ⟨m, hcut, hm, hwalk, -⟩ := cutBack_spec (Nat.le_of_lt hlong)
  rw [truncateForLogBytes_long hpos hlong, hcut] at hout
  have hlen := congrArg List.length (List.append_cancel_right hout)
  rw [List.length_take, List.length_take] at hlen
  exact hwalk.inCodePoint (by omega)

/-- A text keeps as much of itself as it can if and only if it is short, or all its bytes up to the last three it may keep belong to
code points. -/
theorem keepsMost_iff (s : List UInt8) (max : Nat) (hpos : 0 < max) :
    KeepsMost s max (truncateForLogBytes s max) ↔ s.length ≤ max ∨ ∀ i, i + 3 < max → InCodePoint s i := by
  constructor
  · intro h
    by_cases hlong : max < s.length
    · exact Or.inr fun i hi => inCodePoint_of_keepsMost hpos hlong h hi
    · exact Or.inl (Nat.le_of_not_lt hlong)
  · rintro (hshort | hin)
    · exact ⟨truncateForLogBytes_short, fun hlong => absurd hshort (Nat.not_le_of_lt hlong)⟩
    · exact keepsMost_of_inCodePoint hpos hin

theorem keepsMost_iff_sample :
    KeepsMost [0x6E, 0x66, 0x74, 0xE2, 0x80, 0xA6] 4 (truncateForLogBytes [0x6E, 0x66, 0x74, 0xE2, 0x80, 0xA6] 4) := by
  refine (keepsMost_iff [0x6E, 0x66, 0x74, 0xE2, 0x80, 0xA6] 4 (by decide)).2 (Or.inr fun i hi => ?_)
  obtain rfl : i = 0 := by omega
  exact ⟨0, 1, ⟨by decide, by decide⟩, by decide, by decide⟩

/-- A single byte of Latin-1 at the start of an error, and nothing of the error is kept. -/
theorem error_lost :
    truncateForLogBytes [0xE9, 0x70, 0x65, 0x72, 0x6D, 0x69, 0x73, 0x73, 0x69, 0x6F, 0x6E] 8 = truncatedMark ∧
      ¬KeepsMost [0xE9, 0x70, 0x65, 0x72, 0x6D, 0x69, 0x73, 0x73, 0x69, 0x6F, 0x6E] 8
        (truncateForLogBytes [0xE9, 0x70, 0x65, 0x72, 0x6D, 0x69, 0x73, 0x73, 0x69, 0x6F, 0x6E] 8) := by
  refine ⟨by decide, fun h => ?_⟩
  obtain ⟨j, w, ⟨hw, hlen⟩, hj, -⟩ := inCodePoint_of_keepsMost (by decide) (by decide) h (i := 0) (by decide)
  obtain rfl : j = 0 := by omega
  rw [← hlen] at hw
  exact absurd hw (by decide)

end EvuProxy

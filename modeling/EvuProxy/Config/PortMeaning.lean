import EvuProxy.Config.Claims
import EvuProxy.Nft.Packet

/-!
# What port expressions mean to nft

The config reads its port expressions with `strconv.Atoi`, nft with a reader of its own. Where the numerals have no leading zeros and
no signs the two read the same ports.
-/

namespace EvuProxy

open Go Nft

/-! ## Numerals -/

/-- A numeral without a sign and a leading zero. -/
def plainNumeral (s : String) : Bool := s.toList ≠ [] && s.toList.all isDigit && s.toList.head? ≠ some '0'

/-- A port or a range of ports with such numerals. -/
def plainToken (t : String) : Bool :=
  match cut t '-' with
  | some (lo, hi) => plainNumeral (trimSpace lo) && plainNumeral (trimSpace hi)
  | none => plainNumeral (trimSpace t)

/-- A route whose port numerals, on both sides of its maps, are plain. -/
structure PlainPorts (r : ForwardRoute) : Prop where
  ports : ∀ tok ∈ portTokens r.ports, plainToken tok = true
  internal : ∀ m ∈ r.portMaps, plainToken (trimSpace m.internal) = true

theorem readNumeral_plain {s : String} (h : plainNumeral s = true) : readNumeral s = some (digitsVal s.toList) := by
  simp only [plainNumeral, Bool.and_eq_true, decide_eq_true_eq] at h
  obtain ⟨⟨hne, hall⟩, hhead⟩ := h
  unfold readNumeral
  split
  · rename_i hnil
    exact absurd hnil hne
  · rename_i cs hcs
    rw [hcs] at hhead
    exact absurd rfl hhead
  · rw [if_pos hall]

theorem plainNumeral_toString {n : Nat} (h : 0 < n) : plainNumeral (toString n) = true := by
  simp only [plainNumeral, Bool.and_eq_true, decide_eq_true_eq, toList_toString]
  exact ⟨⟨Nat.toDigits_ne_nil, List.all_eq_true.mpr (isDigit_toDigits n)⟩, head_toDigits h⟩

theorem readNumeral_toString {n : Nat} (h : 0 < n) : readNumeral (toString n) = some n := by
  rw [readNumeral_plain (plainNumeral_toString h), digitsVal_toString]

theorem atoi_plain {s : String} (h : plainNumeral s = true) {n : Int} (hn : atoi s = some n) : n = digitsVal s.toList := by
  simp only [plainNumeral, Bool.and_eq_true, decide_eq_true_eq] at h
  obtain ⟨⟨hne, hall⟩, -⟩ := h
  unfold atoi at hn
  dsimp only at hn
  split at hn
  · rename_i cs hcs
    rw [hcs] at hall
    exact absurd hall (by simp [show isDigit '-' = false by decide])
  · rename_i cs hcs
    rw [hcs] at hall
    exact absurd hall (by simp [show isDigit '+' = false by decide])
  · rw [if_pos ⟨hne, hall⟩, Option.bind_some] at hn
    split at hn
    · exact (Option.some.inj hn).symm
    · cases hn

/-! ## Tokens -/

/-- A token that nft reads as the config does. -/
def ReadAlike (t : String) : Prop := ∀ qs, expandPortToken t = .ok qs → ∀ p, inRange p t = true ↔ p ∈ qs

/-- nft reads a plain token as the ports that the config reads. -/
theorem inRange_iff {t : String} {qs : List Nat} (ht : Trimmed t) (hplain : plainToken t = true) (h : expandPortToken t = .ok qs) (p : Nat) :
    inRange p t = true ↔ p ∈ qs := by
  unfold expandPortToken at h
  dsimp only at h
  rw [show trimSpace t = t from ht] at h
  obtain ⟨_, h⟩ := ite_errorf_ok.mp h
  unfold inRange readRange
  unfold plainToken at hplain
  rcases hcut : cut t '-' with _ | ⟨lo, hi⟩
  · rw [hcut] at h hplain
    dsimp only at h hplain ⊢
    rw [show trimSpace t = t from ht] at hplain ⊢
    rcases ha : atoi t with _ | a
    · rw [ha] at h
      cases h
    · rw [ha] at h
      dsimp only at h
      obtain ⟨hbounds, h⟩ := ite_errorf_ok.mp h
      cases h
      simp only [readNumeral_plain hplain, Option.map_some, Bool.and_eq_true, decide_eq_true_eq, List.mem_singleton]
      have hav := atoi_plain hplain ha
      omega
  · rw [hcut] at h hplain
    dsimp only at h hplain ⊢
    obtain ⟨hlo, hhi⟩ := Bool.and_eq_true_iff.mp hplain
    split at h
    · rename_i a b ha hb
      obtain ⟨hbounds, h⟩ := ite_errorf_ok.mp h
      cases h
      simp only [readNumeral_plain hlo, readNumeral_plain hhi, Option.bind_some, Option.map_some, Bool.and_eq_true, decide_eq_true_eq,
        List.mem_range'_1]
      have hav := atoi_plain hlo ha
      have hbv := atoi_plain hhi hb
      omega
    · cases h

theorem readAlike_of_plain {t : String} (ht : Trimmed t) (hplain : plainToken t = true) : ReadAlike t := fun _ h => inRange_iff ht hplain h

theorem listEntries_eq (t : String) : listEntries t = portTokens [t] := by
  rw [portTokens_singleton]
  rfl

/-- Tokens that nft and the config read alike. -/
structure PlainlyRead (toks : List String) : Prop where
  trimmed : ∀ t ∈ toks, Trimmed t
  alike : ∀ t ∈ toks, ReadAlike t
  ports : ∀ t ∈ toks, ∃ qs, expandPortToken t = .ok qs

theorem trimmed_of_mem_portTokens {ports : List String} {t : String} (h : t ∈ portTokens ports) : Trimmed t := by
  obtain ⟨raw, -, ht⟩ := List.mem_flatMap.mp h
  dsimp only at ht
  split at ht
  · cases ht
  · split at ht
    · obtain ⟨piece, -, rfl⟩ := List.mem_map.mp (List.mem_filter.mp ht).1
      exact trimmed_trimSpace piece
    · rw [List.mem_singleton.mp ht]
      exact trimmed_trimSpace raw

/-- The ports of an accepted route. -/
theorem plainlyRead_ports {r : ForwardRoute} {ps : List Nat} (h : expandRoutePublicPortNumbers r = .ok ps)
    (halike : ∀ tok ∈ portTokens r.ports, ReadAlike tok) : PlainlyRead (portTokens r.ports) where
  trimmed _ ht := trimmed_of_mem_portTokens ht
  alike := halike
  ports := portTokens_ok h

theorem plainlyRead_plain {r : ForwardRoute} {ps : List Nat} (h : expandRoutePublicPortNumbers r = .ok ps)
    (hplain : ∀ tok ∈ portTokens r.ports, plainToken tok = true) : PlainlyRead (portTokens r.ports) :=
  plainlyRead_ports h fun tok htok => readAlike_of_plain (trimmed_of_mem_portTokens htok) (hplain tok htok)

theorem PlainlyRead.entry {ports : List String} (h : PlainlyRead (portTokens ports)) {tok : String} (htok : tok ∈ normalizedPortTokens ports) :
    PlainlyRead (portTokens [tok]) := by
  have hsub : ∀ t ∈ portTokens [tok], t ∈ portTokens ports := fun t ht => mem_portTokens.mpr ⟨tok, htok, ht⟩
  exact ⟨fun t ht => h.trimmed t (hsub t ht), fun t ht => h.alike t (hsub t ht), fun t ht => h.ports t (hsub t ht)⟩

theorem trimmed_of_mem_normalized {ports : List String} {t : String} (h : t ∈ normalizedPortTokens ports) : Trimmed t := by
  obtain ⟨raw, -, rfl, -⟩ := mem_normalizedPortTokens.mp h
  exact trimmed_trimSpace raw

theorem PlainlyRead.any_iff {toks : List String} (h : PlainlyRead toks) (p : Nat) : toks.any (inRange p) = true ↔ InTokens p toks := by
  rw [List.any_eq_true]
  unfold InTokens
  constructor
  · rintro ⟨t, ht, hp⟩
    obtain ⟨qs, hqs⟩ := h.ports t ht
    exact ⟨t, ht, qs, hqs, (h.alike t ht qs hqs p).mp hp⟩
  · rintro ⟨t, ht, qs, hqs, hp⟩
    exact ⟨t, ht, (h.alike t ht qs hqs p).mpr hp⟩

theorem has_tok {t : String} (h : PlainlyRead (portTokens [t])) (p : Nat) : (Ports.tok t).has p = true ↔ InTokens p (portTokens [t]) := by
  rw [← h.any_iff p]
  simp [Ports.has, Ports.tokens, listEntries_eq]

/-- A set of the entries of a list has the ports of the list. -/
theorem has_set {ports : List String} (h : PlainlyRead (portTokens ports)) (p : Nat) :
    (Ports.set (normalizedPortTokens ports)).has p = true ↔ InTokens p (portTokens ports) := by
  rw [← h.any_iff p, Ports.has, Ports.tokens, List.any_eq_true, List.any_eq_true]
  simp only [listEntries_eq, List.any_eq_true]
  constructor
  · rintro ⟨t, ht, u, hu, hp⟩
    exact ⟨u, mem_portTokens.mpr ⟨t, ht, hu⟩, hp⟩
  · rintro ⟨u, hu, hp⟩
    obtain ⟨t, ht, hu⟩ := mem_portTokens.mp hu
    exact ⟨t, ht, u, hu, hp⟩

/-- A number between 1 and 65535 names that port. -/
theorem has_toString {n : Nat} (hlo : 1 ≤ n) (hhi : n ≤ 65535) (p : Nat) : (Ports.tok (toString n)).has p = true ↔ p = n := by
  have hok := expandPortToken_toString hlo hhi
  have htokens := portTokens_of_token (trimmed_toString n) hok
  have hplain : plainToken (toString n) = true := by
    rw [plainToken, cut_none (not_mem_toString (by decide))]
    dsimp only
    rw [show trimSpace (toString n) = toString n from trimmed_toString n]
    exact plainNumeral_toString hlo
  have hread : PlainlyRead (portTokens [toString n]) := by
    rw [htokens]
    refine ⟨?_, ?_, ?_⟩ <;> intro t ht <;> rw [List.mem_singleton.mp ht]
    · exact trimmed_toString n
    · exact readAlike_of_plain (trimmed_toString n) hplain
    · exact ⟨[n], hok⟩
  rw [has_tok hread, htokens]
  simp only [InTokens, List.mem_singleton, exists_eq_left, hok, Except.ok.injEq, exists_eq_left']

end EvuProxy

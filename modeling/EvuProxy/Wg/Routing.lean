import EvuProxy.Wg.AllowedIPs

/-!
# Routing to a peer

To which peer an interface sends a packet: to the one with the longest prefix that the destination has, of several equal ones the last
listed.
-/

namespace Wg

open Go

variable {κ : Type}

/-- The length of the longest of the prefixes that an address has. -/
def reach (ps : List Prefix) (b : Addr) : Option Nat := ((ps.filter fun p => InPrefix p b).map Prod.snd).max?

/-- The peer that packets to an address go to, and the length of its prefix, for peers by name with their prefixes. -/
def carrier : List (κ × List Prefix) → Addr → Option (κ × Nat)
  | [], _ => none
  | (k, ps) :: peers, b =>
    match reach ps b, carrier peers b with
    | none, r => r
    | some n, none => some (k, n)
    | some n, some (k', m) => if m < n then some (k, n) else some (k', m)

/-- The value of a directive of a section. -/
def Section.value (s : Section) (key : String) : String := (s.entries.lookup key).getD ""

/-- The peers of a file, by public key. -/
def sectionPeers (ss : List Section) : List (String × List Prefix) :=
  (ss.filter fun s => s.name = "[Peer]").map fun s => (s.value "PublicKey", allowedIPs (s.value "AllowedIPs"))

/-! ## The peer that carries -/

section carrier

variable {peers : List (κ × List Prefix)} {b : Addr} {k : κ} {n : Nat}

/-- Nobody carries where nobody has a prefix. -/
theorem carrier_none (h : carrier peers b = none) : ∀ x ∈ peers, reach x.2 b = none := by
  induction peers with
  | nil => exact fun _ hx => absurd hx List.not_mem_nil
  | cons p peers ih =>
    intro x hx
    unfold carrier at h
    split at h
    · rename_i hreach
      rcases List.mem_cons.mp hx with rfl | hx
      · exact hreach
      · exact ih h x hx
    · cases h
    · split at h <;> cases h

/-- No peer has a longer prefix than the one that carries. -/
theorem carrier_le (h : carrier peers b = some (k, n)) : ∀ x ∈ peers, ∀ m, reach x.2 b = some m → m ≤ n := by
  induction peers generalizing k n with
  | nil => cases h
  | cons p peers ih =>
    unfold carrier at h
    rw [List.forall_mem_cons]
    split at h
    · rename_i hreach
      exact ⟨fun m hm => (by rw [hreach] at hm; cases hm), ih h⟩
    · rename_i n₀ hreach hrest
      obtain ⟨rfl, rfl⟩ := Prod.mk.inj (Option.some.inj h)
      refine ⟨fun m hm => by rw [hreach] at hm; cases hm; omega, fun x hx m hm => ?_⟩
      rw [carrier_none hrest x hx] at hm
      cases hm
    · rename_i n₀ k' m₀ hreach hrest
      split at h
      · obtain ⟨rfl, rfl⟩ := Prod.mk.inj (Option.some.inj h)
        refine ⟨fun m hm => by rw [hreach] at hm; cases hm; omega, fun x hx m hm => ?_⟩
        have := ih hrest x hx m hm
        omega
      · obtain ⟨rfl, rfl⟩ := Prod.mk.inj (Option.some.inj h)
        exact ⟨fun m hm => by rw [hreach] at hm; cases hm; omega, ih hrest⟩

/-- The peer that carries has a prefix no shorter than the earlier ones and longer than the later ones. -/
theorem carrier_some (h : carrier peers b = some (k, n)) : ∃ l₁ ps l₂, peers = l₁ ++ (k, ps) :: l₂ ∧ reach ps b = some n ∧
    (∀ x ∈ l₁, ∀ m, reach x.2 b = some m → m ≤ n) ∧ ∀ x ∈ l₂, ∀ m, reach x.2 b = some m → m < n := by
  induction peers with
  | nil => cases h
  | cons p peers ih =>
    obtain ⟨k₀, ps₀⟩ := p
    have hcons : (∀ m, reach ps₀ b = some m → m ≤ n) → carrier peers b = some (k, n) →
        ∃ l₁ ps l₂, (k₀, ps₀) :: peers = l₁ ++ (k, ps) :: l₂ ∧ reach ps b = some n ∧
          (∀ x ∈ l₁, ∀ m, reach x.2 b = some m → m ≤ n) ∧ ∀ x ∈ l₂, ∀ m, reach x.2 b = some m → m < n := by
      intro hfirst hrest
      obtain ⟨l₁, ps, l₂, hpeers, hreach, hbefore, hafter⟩ := ih hrest
      exact ⟨(k₀, ps₀) :: l₁, ps, l₂, by rw [hpeers, List.cons_append], hreach, List.forall_mem_cons.mpr ⟨hfirst, hbefore⟩, hafter⟩
    unfold carrier at h
    split at h
    · rename_i hreach
      exact hcons (fun m hm => by rw [hreach] at hm; cases hm) h
    · rename_i n₀ hreach hrest
      obtain ⟨rfl, rfl⟩ := Prod.mk.inj (Option.some.inj h)
      refine ⟨[], ps₀, peers, rfl, hreach, fun _ hx => absurd hx List.not_mem_nil, fun x hx m hm => ?_⟩
      rw [carrier_none hrest x hx] at hm
      cases hm
    · rename_i n₀ k' m₀ hreach hrest
      split at h
      · rename_i hlt
        obtain ⟨rfl, rfl⟩ := Prod.mk.inj (Option.some.inj h)
        refine ⟨[], ps₀, peers, rfl, hreach, fun _ hx => absurd hx List.not_mem_nil, fun x hx m hm => ?_⟩
        have := carrier_le hrest x hx m hm
        omega
      · rename_i hle
        obtain ⟨rfl, rfl⟩ := Prod.mk.inj (Option.some.inj h)
        exact hcons (fun m hm => by rw [hreach] at hm; cases hm; omega) hrest

/-- A peer carries where one entry of it is not outdone by the entries of others. -/
theorem carrier_key_iff : (∃ n, carrier peers b = some (k, n)) ↔ ∃ l₁ ps l₂ n, peers = l₁ ++ (k, ps) :: l₂ ∧ reach ps b = some n ∧
    (∀ x ∈ l₁, x.1 ≠ k → ∀ m, reach x.2 b = some m → m ≤ n) ∧ ∀ x ∈ l₂, x.1 ≠ k → ∀ m, reach x.2 b = some m → m < n := by
  constructor
  · rintro ⟨n, hcarrier⟩
    obtain ⟨l₁, ps, l₂, hpeers, hreach, hbefore, hafter⟩ := carrier_some hcarrier
    exact ⟨l₁, ps, l₂, n, hpeers, hreach, fun x hx _ => hbefore x hx, fun x hx _ => hafter x hx⟩
  · rintro ⟨l₁, ps, l₂, n, hpeers, hreach, hbefore, hafter⟩
    have hmem : (k, ps) ∈ peers := hpeers ▸ List.mem_append_right _ List.mem_cons_self
    cases hcarrier : carrier peers b with
    | none =>
      rw [carrier_none hcarrier _ hmem] at hreach
      cases hreach
    | some r =>
      obtain ⟨k', n'⟩ := r
      by_cases hk : k' = k
      · exact ⟨n', by rw [hk]⟩
      · -- Another peer carries: it stands before or after the entry, and one of the two is outdone.
        exfalso
        obtain ⟨m₁, qs, m₂, hpeers', hreach', hbefore', hafter'⟩ := carrier_some hcarrier
        rw [hpeers] at hpeers'
        rcases List.append_eq_append_iff.mp hpeers' with ⟨between, hm₁, hrest⟩ | ⟨between, hl₁, hrest⟩
        · cases between with
          | nil => exact hk (Prod.mk.inj (List.cons.inj hrest).1).1.symm
          | cons x between =>
            obtain ⟨rfl, hl₂⟩ := List.cons.inj hrest
            have hle := hbefore' (k, ps) (hm₁ ▸ List.mem_append_right _ List.mem_cons_self) n hreach
            have hlt := hafter (k', qs) (hl₂ ▸ List.mem_append_right _ List.mem_cons_self) hk n' hreach'
            omega
        · cases between with
          | nil => exact hk (Prod.mk.inj (List.cons.inj hrest).1).1
          | cons x between =>
            obtain ⟨rfl, hm₂⟩ := List.cons.inj hrest
            have hle := hbefore (k', qs) (hl₁ ▸ List.mem_append_right _ List.mem_cons_self) hk n' hreach'
            have hlt := hafter' (k, ps) (hm₂ ▸ List.mem_append_right _ List.mem_cons_self) n hreach
            omega

end carrier

end Wg

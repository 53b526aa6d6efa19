import EvuProxy.Config.Words
import EvuProxy.Go.Path

/-!
# Claimed ports

The ports that accepted routes claim on the public side: no two routes that are on claim one port of one protocol.
-/

namespace EvuProxy

open Go
open Nft (Proto)

/-! ## The ports of a route -/

theorem addPorts_mem {what : String} : ∀ {qs seen out : List Nat}, addPorts what qs seen = .ok out → ∀ p, p ∈ out ↔ p ∈ seen ∨ p ∈ qs
  | [], seen, out, h, p => by
    obtain rfl : seen = out := Except.ok.inj h
    simp
  | q :: qs, seen, out, h, p => by
    unfold addPorts at h
    dsimp only at h
    obtain ⟨_, h⟩ := ite_errorf_ok.mp h
    rw [addPorts_mem h p]
    by_cases hq : q ∈ seen
    · rw [if_pos hq, List.mem_cons]
      exact ⟨Or.imp_right .inr, fun h => h.elim .inl fun h => h.elim (fun he => .inl (he ▸ hq)) .inr⟩
    · rw [if_neg hq, List.mem_cons, List.mem_cons]
      tauto

/-- A port is one of those of a list of tokens. -/
def InTokens (p : Nat) (toks : List String) : Prop := ∃ tok ∈ toks, ∃ qs, expandPortToken tok = .ok qs ∧ p ∈ qs

theorem expandTokens_mem {what : String} {wrap : String → ValidationError → ValidationError} :
    ∀ {toks : List String} {seen ps : List Nat}, expandTokens what wrap toks seen = .ok ps →
      ∀ p, p ∈ ps ↔ p ∈ seen ∨ InTokens p toks
  | [], seen, ps, h, p => by
    obtain rfl : seen = ps := Except.ok.inj h
    simp [InTokens]
  | t :: toks, seen, ps, h, p => by
    unfold expandTokens at h
    split at h
    · cases h
    · rename_i qs hqs
      split at h
      · cases h
      · rename_i seen' hseen
        rw [expandTokens_mem h p, addPorts_mem hseen p, or_assoc]
        simp [InTokens, hqs]

/-- An entry that is one port or one range is its only token. -/
theorem portTokens_of_token {t : String} {qs : List Nat} (ht : Trimmed t) (h : expandPortToken t = .ok qs) : portTokens [t] = [t] := by
  have hne : t ≠ "" := by
    unfold expandPortToken at h
    have := (ite_errorf_ok.mp h).1
    rwa [show trimSpace t = t from ht] at this
  rw [portTokens_singleton, show trimSpace t = t from ht, if_neg hne, not_braceList (expandPortToken_chars h)]
  rfl

theorem mem_normalizedPortTokens {ports : List String} {t : String} :
    t ∈ normalizedPortTokens ports ↔ ∃ raw ∈ ports, trimSpace raw = t ∧ t ≠ "" := by
  unfold normalizedPortTokens
  rw [List.mem_filter, List.mem_map, decide_eq_true_eq]
  tauto

theorem mem_portTokens {ports : List String} {tok : String} :
    tok ∈ portTokens ports ↔ ∃ t ∈ normalizedPortTokens ports, tok ∈ portTokens [t] := by
  have hsingle : ∀ raw, portTokens [raw] = portTokens [trimSpace raw] := fun raw => by
    rw [portTokens_singleton, portTokens_singleton, trimSpace_trimSpace]
  have hall : tok ∈ portTokens ports ↔ ∃ raw ∈ ports, tok ∈ portTokens [raw] := by
    simp only [portTokens, List.mem_flatMap, List.mem_singleton, exists_eq_left]
  have hnone : tok ∉ portTokens [""] := by
    have hnil : portTokens [""] = [] := by decide
    rw [hnil]
    exact List.not_mem_nil
  rw [hall]
  constructor
  · rintro ⟨raw, hraw, htok⟩
    rw [hsingle] at htok
    refine ⟨trimSpace raw, mem_normalizedPortTokens.mpr ⟨raw, hraw, rfl, fun he => hnone ?_⟩, htok⟩
    rwa [he] at htok
  · rintro ⟨t, ht, htok⟩
    obtain ⟨raw, hraw, rfl, -⟩ := mem_normalizedPortTokens.mp ht
    exact ⟨raw, hraw, (hsingle raw).symm ▸ htok⟩

theorem portTokens_ok {r : ForwardRoute} {ps : List Nat} (h : expandRoutePublicPortNumbers r = .ok ps) :
    ∀ tok ∈ portTokens r.ports, ∃ qs, expandPortToken tok = .ok qs := by
  intro tok htok
  obtain ⟨t, ht, htok⟩ := mem_portTokens.mp htok
  exact expandRoutePublicPortNumbers_tokens h t ht tok htok

/-- With port maps every entry of `ports` is a port or a range: a row of the maps and an entry without one name the same tokens. -/
theorem expandRoutePublicPortNumbers_entries {r : ForwardRoute} {ps : List Nat} (h : expandRoutePublicPortNumbers r = .ok ps)
    (hnil : r.portMaps ≠ []) : ∀ t ∈ normalizedPortTokens r.ports, ∃ qs, expandPortToken t = .ok qs := by
  intro t ht
  unfold expandRoutePublicPortNumbers at h
  rw [if_neg hnil] at h
  dsimp only at h
  split at h
  · cases h
  · rename_i seen hmapped
    by_cases hin : t ∈ r.portMaps.map fun m => trimSpace m.pub
    · obtain ⟨m, hm, rfl⟩ := List.mem_map.mp hin
      obtain ⟨qs, hqs⟩ := expandTokens_ok hmapped m.pub (List.mem_map_of_mem hm)
      exact ⟨qs, by rw [expandPortToken_trim, hqs]⟩
    · obtain ⟨all, hall⟩ := map_ok h
      exact expandTokens_ok hall t (List.mem_filter.mpr ⟨ht, by simpa using hin⟩)

/-- The ports a checked route claims are those of its entries. -/
theorem publicPorts_mem {r : ForwardRoute} {ps : List Nat} (h : expandRoutePublicPortNumbers r = .ok ps)
    (hmaps : PortMapsChecked r.ports r.portMaps) (p : Nat) : p ∈ ps ↔ InTokens p (portTokens r.ports) := by
  have hok := h
  unfold expandRoutePublicPortNumbers at h
  by_cases hnil : r.portMaps = []
  · rw [if_pos hnil] at h
    unfold expandRoutePortNumbers at h
    cases hseen : expandTokens "ports" (fun _ e => e) (portTokens r.ports) [] with
    | error e =>
      rw [hseen] at h
      cases h
    | ok seen =>
      rw [hseen] at h
      obtain rfl : List.insertionSort (· ≤ ·) seen = ps := Except.ok.inj h
      rw [List.mem_insertionSort, expandTokens_mem hseen p]
      simp
  · rw [if_neg hnil] at h
    dsimp only at h
    split at h
    · cases h
    · rename_i seen hmapped
      cases hrest : expandTokens "public ports" (fun tok e => { e with msg := "ports " ++ quote tok ++ ": " ++ e.msg })
          ((normalizedPortTokens r.ports).filter (· ∉ r.portMaps.map fun m => trimSpace m.pub)) seen with
      | error e =>
        rw [hrest] at h
        cases h
      | ok all =>
        rw [hrest] at h
        obtain rfl : List.insertionSort (· ≤ ·) all = ps := Except.ok.inj h
        rw [List.mem_insertionSort, expandTokens_mem hrest p, expandTokens_mem hmapped p]
        simp only [List.not_mem_nil, false_or]
        have hone := expandRoutePublicPortNumbers_entries hok hnil
        have htrim : ∀ t ∈ normalizedPortTokens r.ports, Trimmed t := by
          intro t ht
          obtain ⟨raw, -, rfl⟩ := List.mem_map.mp (List.mem_filter.mp ht).1
          exact trimmed_trimSpace raw
        have hmem : ∀ t, t ∈ portTokens r.ports ↔ t ∈ normalizedPortTokens r.ports := by
          intro t
          rw [mem_portTokens]
          constructor
          · rintro ⟨t', ht', ht⟩
            obtain ⟨qs, hqs⟩ := hone t' ht'
            rw [portTokens_of_token (htrim t' ht') hqs, List.mem_singleton] at ht
            rwa [ht]
          · intro ht
            obtain ⟨qs, hqs⟩ := hone t ht
            exact ⟨t, ht, by rw [portTokens_of_token (htrim t ht) hqs]; exact List.mem_singleton_self t⟩
        constructor
        · rintro (⟨tok, htok, qs, hqs, hp⟩ | ⟨tok, htok, qs, hqs, hp⟩)
          · obtain ⟨m, hm, rfl⟩ := List.mem_map.mp htok
            exact ⟨trimSpace m.pub, (hmem _).mpr (hmaps.entries m hm), qs, by rw [expandPortToken_trim, hqs], hp⟩
          · exact ⟨tok, (hmem _).mpr (List.mem_filter.mp htok).1, qs, hqs, hp⟩
        · rintro ⟨tok, htok, qs, hqs, hp⟩
          rw [hmem] at htok
          by_cases hin : tok ∈ r.portMaps.map fun m => trimSpace m.pub
          · obtain ⟨m, hm, rfl⟩ := List.mem_map.mp hin
            rw [expandPortToken_trim] at hqs
            exact .inl ⟨m.pub, List.mem_map_of_mem hm, qs, hqs, hp⟩
          · exact .inr ⟨tok, List.mem_filter.mpr ⟨htok, by simpa using hin⟩, qs, hqs, hp⟩

/-! ## Overlaps -/

/-- A route claims a protocol and port on the public side. -/
def Claims (r : ForwardRoute) (k : ProtoPort) : Prop :=
  ∃ protos ports, parseRouteProtocols r.proto = .ok protos ∧ expandRoutePublicPortNumbers r = .ok ports ∧ k.1 ∈ protos ∧ k.2 ∈ ports

theorem routeClaims_mem {i : Nat} {r : ForwardRoute} {ks : List ProtoPort} (h : routeClaims i r = .ok ks) (k : ProtoPort) :
    k ∈ ks ↔ Claims r k := by
  unfold routeClaims at h
  obtain ⟨protos, hprotos, h⟩ := bind_ok.mp h
  obtain ⟨ports, hports, h⟩ := bind_ok.mp h
  obtain rfl : (protos.flatMap fun proto => ports.map fun port => (proto, port)) = ks := Except.ok.inj h
  rw [List.mem_flatMap]
  constructor
  · rintro ⟨proto, hproto, hk⟩
    obtain ⟨port, hport, rfl⟩ := List.mem_map.mp hk
    exact ⟨protos, ports, wrapf_ok.mp hprotos, wrapf_ok.mp hports, hproto, hport⟩
  · rintro ⟨protos', ports', hprotos', hports', hproto, hport⟩
    obtain rfl := Except.ok.inj ((wrapf_ok.mp hprotos).symm.trans hprotos')
    obtain rfl := Except.ok.inj ((wrapf_ok.mp hports).symm.trans hports')
    exact ⟨k.1, hproto, List.mem_map.mpr ⟨k.2, hport, rfl⟩⟩

theorem claimPorts_ok {i : Nat} : ∀ {ks : List ProtoPort} {claimed out : List (ProtoPort × Nat)}, claimPorts i ks claimed = .ok out →
    (∀ k ∈ ks, k ∉ claimed.map Prod.fst) ∧ ∀ k, k ∈ out.map Prod.fst ↔ k ∈ claimed.map Prod.fst ∨ k ∈ ks
  | [], claimed, out, h => by
    obtain rfl : claimed = out := Except.ok.inj h
    simp
  | k :: ks, claimed, out, h => by
    unfold claimPorts at h
    split at h
    · cases h
    · rename_i hnone
      obtain ⟨hfree, hall⟩ := claimPorts_ok h
      have hk : k ∉ claimed.map Prod.fst := by
        intro hmem
        obtain ⟨e, he, rfl⟩ := List.mem_map.mp hmem
        have := List.lookup_eq_none_iff.mp hnone e he
        simp at this
      simp only [List.map_cons, List.mem_cons, not_or] at hfree hall
      refine ⟨fun k' hk' => ?_, fun k' => ?_⟩
      · rcases List.mem_cons.mp hk' with rfl | hk'
        · exact hk
        · exact (hfree k' hk').2
      · rw [hall, List.mem_cons]
        tauto

/-- The routes after one that is on are checked against what it has claimed besides. -/
theorem overlaps_cons {i : Nat} {r : ForwardRoute} {rs : List ForwardRoute} {claimed : List (ProtoPort × Nat)}
    (h : validateForwardingRoutePortOverlaps i (r :: rs) claimed = .ok ()) (hd : r.disabled = false) :
    ∃ claimed', validateForwardingRoutePortOverlaps (i + 1) rs claimed' = .ok () ∧
      (∀ k, Claims r k → k ∉ claimed.map Prod.fst) ∧
      ∀ k, k ∈ claimed'.map Prod.fst ↔ k ∈ claimed.map Prod.fst ∨ Claims r k := by
  unfold validateForwardingRoutePortOverlaps at h
  rw [hd] at h
  obtain ⟨ks, hks, h⟩ := bind_ok.mp h
  obtain ⟨claimed', hclaimed, h⟩ := bind_ok.mp h
  obtain ⟨hfree, hall⟩ := claimPorts_ok hclaimed
  exact ⟨claimed', h, fun k hk => hfree k ((routeClaims_mem hks k).mpr hk), fun k => by rw [hall, routeClaims_mem hks]⟩

theorem overlaps_cons_disabled {i : Nat} {r : ForwardRoute} {rs : List ForwardRoute} {claimed : List (ProtoPort × Nat)}
    (h : validateForwardingRoutePortOverlaps i (r :: rs) claimed = .ok ()) (hd : r.disabled = true) :
    validateForwardingRoutePortOverlaps (i + 1) rs claimed = .ok () := by
  unfold validateForwardingRoutePortOverlaps at h
  rwa [if_pos hd] at h

/-- What a route claims, no route before it has claimed. -/
theorem overlaps_claimed {rs : List ForwardRoute} : ∀ {i : Nat} {claimed : List (ProtoPort × Nat)},
    validateForwardingRoutePortOverlaps i rs claimed = .ok () →
      ∀ r ∈ rs, r.disabled = false → ∀ k, Claims r k → k ∉ claimed.map Prod.fst := by
  induction rs with
  | nil => exact fun _ r hr => absurd hr List.not_mem_nil
  | cons r rs ih =>
    intro i claimed h r' hr hd k hk
    by_cases hoff : r.disabled = true
    · rcases List.mem_cons.mp hr with rfl | hr
      · rw [hd] at hoff
        cases hoff
      · exact ih (overlaps_cons_disabled h hoff) r' hr hd k hk
    · obtain ⟨claimed', hrest, hfree, hall⟩ := overlaps_cons h (Bool.not_eq_true _ ▸ hoff)
      rcases List.mem_cons.mp hr with rfl | hr
      · exact hfree k hk
      · exact fun hmem => ih hrest r' hr hd k hk ((hall k).mpr (.inl hmem))

/-- Two routes that are on claim no port of one protocol in common. -/
theorem overlaps_apart {rs : List ForwardRoute} : ∀ {i : Nat} {claimed : List (ProtoPort × Nat)},
    validateForwardingRoutePortOverlaps i rs claimed = .ok () →
      rs.Pairwise fun r r' => r.disabled = false → r'.disabled = false → ∀ k, Claims r k → ¬Claims r' k := by
  induction rs with
  | nil => exact fun _ => .nil
  | cons r rs ih =>
    intro i claimed h
    by_cases hoff : r.disabled = true
    · refine .cons (fun r' _ hd => ?_) (ih (overlaps_cons_disabled h hoff))
      rw [hd] at hoff
      cases hoff
    · obtain ⟨claimed', hrest, -, hall⟩ := overlaps_cons h (Bool.not_eq_true _ ▸ hoff)
      exact .cons (fun r' hr' _ hd' k hk hk' => overlaps_claimed hrest r' hr' hd' k hk' ((hall k).mpr (.inr hk))) (ih hrest)

/-- The ports of a route that is on can be listed. -/
theorem Checked.ports_expand {c : Config} (h : Checked c) {i : Nat} {r : ForwardRoute} (hi : c.forwarding.routes[i]? = some r)
    (hd : r.disabled = false) : ∃ ps, expandRoutePublicPortNumbers r = .ok ps := by
  obtain ⟨ks, hks⟩ := validateForwardingRoutePortOverlaps_claims h.overlaps i r hi hd
  unfold routeClaims at hks
  obtain ⟨_, _, hks⟩ := bind_ok.mp hks
  obtain ⟨ps, hps, _⟩ := bind_ok.mp hks
  exact ⟨ps, wrapf_ok.mp hps⟩

theorem Checked.claims_apart {c : Config} (h : Checked c) {i j : Nat} {r r' : ForwardRoute} (hi : c.forwarding.routes[i]? = some r)
    (hj : c.forwarding.routes[j]? = some r') (hne : i ≠ j) (hr : r.disabled = false) (hr' : r'.disabled = false) {k : ProtoPort}
    (hk : Claims r k) : ¬Claims r' k := by
  have hpair := List.pairwise_iff_getElem.mp (overlaps_apart h.overlaps)
  obtain ⟨hilt, rfl⟩ := List.getElem?_eq_some_iff.mp hi
  obtain ⟨hjlt, rfl⟩ := List.getElem?_eq_some_iff.mp hj
  intro hk'
  rcases Nat.lt_or_gt_of_ne hne with hlt | hlt
  · exact hpair i j hilt hjlt hlt hr hr' k hk hk'
  · exact hpair j i hjlt hilt hlt hr' hr k hk' hk

end EvuProxy

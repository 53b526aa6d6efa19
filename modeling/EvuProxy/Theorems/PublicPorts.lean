import EvuProxy.Gen.Sets
import EvuProxy.Theorems.PortMaps

/-!
# Public ports and conflicts

The ports of a route are listed in two ways, with port maps and without, and the check of overlaps goes by the first. It is exact on
the ports it is given; where a route has maps, an entry of `ports` in braces is no port to it.
-/

namespace EvuProxy

open Go
open Nft (Proto)

/-! ## Expanding tokens -/

/-- Distinct ports, in the range of port numbers. -/
structure PortList (ps : List Nat) : Prop where
  nodup : ps.Nodup
  range : ∀ p ∈ ps, 1 ≤ p ∧ p ≤ maxDistinctPortsPerRoute

/-- There are no more of them than there are port numbers. -/
theorem PortList.length_le {ps : List Nat} (h : PortList ps) : ps.length ≤ maxDistinctPortsPerRoute := by
  have hsub : ps ⊆ List.range' 1 maxDistinctPortsPerRoute := fun p hp => by
    obtain ⟨hlo, hhi⟩ := h.range p hp
    exact List.mem_range'_1.mpr ⟨hlo, by omega⟩
  have hlen := (List.subperm_of_subset h.nodup hsub).length_le
  rwa [List.length_range'] at hlen

theorem PortList.cons {p : Nat} {ps : List Nat} (h : PortList ps) (hp : 1 ≤ p ∧ p ≤ maxDistinctPortsPerRoute) :
    PortList (if p ∈ ps then ps else p :: ps) := by
  split
  · exact h
  · rename_i hnew
    refine ⟨List.nodup_cons.mpr ⟨hnew, h.nodup⟩, fun q hq => ?_⟩
    rcases List.mem_cons.mp hq with rfl | hq
    · exact hp
    · exact h.range q hq

/-- Ports in range can always be added. -/
theorem addPorts_ok {what : String} : ∀ {qs seen : List Nat}, PortList seen → (∀ q ∈ qs, 1 ≤ q ∧ q ≤ maxDistinctPortsPerRoute) →
    ∃ out, addPorts what qs seen = .ok out ∧ PortList out
  | [], seen, hseen, _ => ⟨seen, rfl, hseen⟩
  | q :: qs, seen, hseen, hqs => by
    have hcons := hseen.cons (hqs q List.mem_cons_self)
    obtain ⟨out, hout, hlist⟩ := @addPorts_ok what qs _ hcons fun q' hq' => hqs q' (List.mem_cons_of_mem _ hq')
    refine ⟨out, ?_, hlist⟩
    unfold addPorts
    dsimp only
    rw [if_neg (Nat.not_lt.mpr hcons.length_le)]
    exact hout

/-- Tokens that expand one by one expand together. -/
theorem expandTokens_total {what : String} {wrap : String → ValidationError → ValidationError} : ∀ {toks : List String} {seen : List Nat},
    PortList seen → (∀ tok ∈ toks, ∃ qs, expandPortToken tok = .ok qs) → ∃ out, expandTokens what wrap toks seen = .ok out ∧ PortList out
  | [], seen, hseen, _ => ⟨seen, rfl, hseen⟩
  | tok :: toks, seen, hseen, htoks => by
    obtain ⟨qs, hqs⟩ := htoks tok List.mem_cons_self
    obtain ⟨seen', hadd, hseen'⟩ := @addPorts_ok what qs seen hseen (expandPortToken_range hqs)
    obtain ⟨out, hout, hlist⟩ := @expandTokens_total what wrap toks seen' hseen' fun t ht => htoks t (List.mem_cons_of_mem _ ht)
    refine ⟨out, ?_, hlist⟩
    unfold expandTokens
    rw [hqs]
    dsimp only
    rw [hadd]
    exact hout

theorem portList_nil : PortList [] := ⟨List.nodup_nil, fun _ hp => absurd hp List.not_mem_nil⟩

/-- Two lists of the same ports are the same once sorted. -/
theorem PortList.sort_eq {ps qs : List Nat} (hps : PortList ps) (hqs : PortList qs) (hmem : ∀ p, p ∈ ps ↔ p ∈ qs) :
    ps.insertionSort (· ≤ ·) = qs.insertionSort (· ≤ ·) := by
  have hperm : ps.Perm qs := (List.perm_ext_iff_of_nodup hps.nodup hqs.nodup).mpr hmem
  refine List.Perm.eq_of_pairwise (fun a b _ _ hab hba => Nat.le_antisymm hab hba) (List.pairwise_insertionSort _ _)
    (List.pairwise_insertionSort _ _) ?_
  exact (List.perm_insertionSort _ ps).trans (hperm.trans (List.perm_insertionSort _ qs).symm)

/-! ## With maps and without -/

/-- Entries that stand in no braces are tokens. -/
theorem portTokens_eq_normalized {ports : List String} (h : ∀ t ∈ normalizedPortTokens ports, isBraceList t = false) :
    portTokens ports = normalizedPortTokens ports := by
  induction ports with
  | nil => rfl
  | cons raw ports ih =>
    have hcons : normalizedPortTokens (raw :: ports) = (if trimSpace raw = "" then [] else [trimSpace raw]) ++ normalizedPortTokens ports := by
      unfold normalizedPortTokens
      rw [List.map_cons, List.filter_cons]
      split <;> split <;> simp_all
    rw [hcons] at h ⊢
    have hrest : portTokens (raw :: ports) = portTokens [raw] ++ portTokens ports := by
      unfold portTokens
      rw [List.flatMap_cons, List.flatMap_cons, List.flatMap_nil, List.append_nil]
    rw [hrest, ih fun t ht => h t (List.mem_append_right _ ht), portTokens_singleton]
    by_cases hne : trimSpace raw = ""
    · rw [if_pos hne, if_pos hne]
    · have hbrace := h (trimSpace raw) (List.mem_append_left _ (by rw [if_neg hne]; exact List.mem_singleton_self _))
      rw [if_neg hne, if_neg hne, hbrace, if_neg Bool.false_ne_true]

/-- No entry of `ports` is in braces, if the route has maps. -/
def NoBracesWithMaps (r : ForwardRoute) : Prop := r.portMaps = [] ∨ ∀ tok ∈ normalizedPortTokens r.ports, isBraceList tok = false

theorem expandRoutePortNumbers_ok {ports : List String} {ps : List Nat} (h : expandRoutePortNumbers ports = .ok ps) :
    ∃ seen, ps = seen.insertionSort (· ≤ ·) ∧ PortList seen ∧ (∀ tok ∈ portTokens ports, ∃ qs, expandPortToken tok = .ok qs) ∧
      ∀ p, p ∈ seen ↔ InTokens p (portTokens ports) := by
  unfold expandRoutePortNumbers at h
  obtain ⟨seen, hseen⟩ := map_ok h
  have htoks := expandTokens_ok hseen
  obtain ⟨seen', hseen', hlist⟩ := @expandTokens_total "ports" (fun _ e => e) _ _ portList_nil htoks
  obtain rfl := Except.ok.inj (hseen.symm.trans hseen')
  rw [hseen] at h
  refine ⟨seen, (Except.ok.inj h).symm, hlist, htoks, fun p => ?_⟩
  rw [expandTokens_mem hseen p]
  simp

/-- With maps whose entries are no lists the public ports are the ports. -/
theorem publicPorts_of_noBraces {r : ForwardRoute} {ps : List Nat} (h : expandRoutePortNumbers r.ports = .ok ps)
    (hmaps : PortMapsChecked r.ports r.portMaps) (hnil : r.portMaps ≠ [])
    (hbraces : ∀ tok ∈ normalizedPortTokens r.ports, isBraceList tok = false) : expandRoutePublicPortNumbers r = .ok ps := by
  obtain ⟨seen, rfl, hseen, htoks, hmem⟩ := expandRoutePortNumbers_ok h
  have hentries : ∀ tok ∈ normalizedPortTokens r.ports, ∃ qs, expandPortToken tok = .ok qs := by
    rw [← portTokens_eq_normalized hbraces]
    exact htoks
  have hpubs : ∀ tok ∈ r.portMaps.map (·.pub), ∃ qs, expandPortToken tok = .ok qs := by
    intro tok htok
    obtain ⟨m, hm, rfl⟩ := List.mem_map.mp htok
    obtain ⟨qs, hqs⟩ := hentries _ (hmaps.entries m hm)
    exact ⟨qs, by rwa [expandPortToken_trim] at hqs⟩
  obtain ⟨mapped, hmapped, hlist⟩ := @expandTokens_total "public ports"
    (fun tok e => { e with msg := "port_maps public " ++ quote tok ++ ": " ++ e.msg }) _ _ portList_nil hpubs
  obtain ⟨all, hall, hlist⟩ := @expandTokens_total "public ports" (fun tok e => { e with msg := "ports " ++ quote tok ++ ": " ++ e.msg })
    ((normalizedPortTokens r.ports).filter (· ∉ r.portMaps.map fun m => trimSpace m.pub)) _ hlist
    fun tok htok => hentries tok (List.mem_filter.mp htok).1
  have hok : expandRoutePublicPortNumbers r = .ok (all.insertionSort (· ≤ ·)) := by
    unfold expandRoutePublicPortNumbers
    rw [if_neg hnil]
    dsimp only
    rw [hmapped]
    dsimp only
    rw [hall]
    rfl
  rw [hok]
  refine congrArg Except.ok (hlist.sort_eq hseen fun p => ?_)
  rw [hmem, ← publicPorts_mem hok hmaps p, List.mem_insertionSort]

/-- The public ports of a route are its ports where it has no maps, or none of its entries is a list in braces; and else they
cannot be listed. -/
theorem publicPorts_eq_iff {i : Nat} {r : ForwardRoute} {ps : List Nat} (h : expandRoutePortNumbers r.ports = .ok ps)
    (hmaps : validatePortMaps i r.ports r.portMaps = .ok ()) : expandRoutePublicPortNumbers r = .ok ps ↔ NoBracesWithMaps r := by
  by_cases hnil : r.portMaps = []
  · refine iff_of_true ?_ (.inl hnil)
    unfold expandRoutePublicPortNumbers
    rwa [if_pos hnil]
  · constructor
    · intro hok
      refine .inr fun tok htok => ?_
      obtain ⟨qs, hqs⟩ := expandRoutePublicPortNumbers_entries hok hnil tok htok
      exact not_braceList (expandPortToken_chars hqs)
    · rintro (hmaps' | hbraces)
      · exact absurd hmaps' hnil
      · exact publicPorts_of_noBraces h (validatePortMaps_ok hmaps) hnil hbraces

theorem publicPorts_eq_iff_sample : expandRoutePublicPortNumbers (mapRoute ["80-82", "443"] [⟨"80-82", "8080-8082"⟩]) =
    .ok [80, 81, 82, 443] ↔ NoBracesWithMaps (mapRoute ["80-82", "443"] [⟨"80-82", "8080-8082"⟩]) :=
  publicPorts_eq_iff (i := 0) (by decide +kernel) (by decide +kernel)

/-- A map for one entry of a route makes a list in braces beside it unreadable, and an accepted config is refused for it. -/
theorem braces_refused : expandRoutePortNumbers ["\x7b80,443\x7d", "22"] = .ok [22, 80, 443] ∧
    validatePortMaps 0 ["\x7b80,443\x7d", "22"] [⟨"22", "2222"⟩] = .ok () ∧
    (expandRoutePublicPortNumbers (mapRoute ["\x7b80,443\x7d", "22"] [⟨"22", "2222"⟩])).toOption = none ∧
    (mapConfig ["\x7b80,443\x7d", "22"] []).validate = .ok () ∧
    (mapConfig ["\x7b80,443\x7d", "22"] [⟨"22", "2222"⟩]).validate.toOption = none := by
  refine ⟨?_, ?_, ?_, ?_, ?_⟩ <;> decide +kernel

/-! ## Conflicts -/

/-- The tokens whose ports a route claims: its entries, or with maps the public sides of those and the entries that none of them names. -/
def publicTokens (r : ForwardRoute) : List String :=
  if r.portMaps = [] then portTokens r.ports
  else r.portMaps.map (·.pub) ++ (normalizedPortTokens r.ports).filter (· ∉ r.portMaps.map fun m => trimSpace m.pub)

/-- A route names a port of a protocol. -/
def Names (r : ForwardRoute) (k : ProtoPort) : Prop :=
  (∃ protos, parseRouteProtocols r.proto = .ok protos ∧ k.1 ∈ protos) ∧ InTokens k.2 (publicTokens r)

/-- The protocols and the public ports of a route can be read. -/
def Readable (r : ForwardRoute) : Prop :=
  (∃ protos, parseRouteProtocols r.proto = .ok protos) ∧ ∃ ps, expandRoutePublicPortNumbers r = .ok ps

/-- Two routes are not both on, or name no port of one protocol both. -/
def Apart (r r' : ForwardRoute) : Prop := r.disabled = false → r'.disabled = false → ∀ k, Names r k → ¬Names r' k

/-- Two different routes that are on name one port of one protocol. -/
def Conflict (rs : List ForwardRoute) : Prop :=
  ∃ (i j : Nat) (r r' : ForwardRoute), i ≠ j ∧ rs[i]? = some r ∧ rs[j]? = some r' ∧ r.disabled = false ∧ r'.disabled = false ∧ ∃ k, Names r k ∧ Names r' k

/-- The check reports a conflict. -/
def Reports (rs : List ForwardRoute) : Prop :=
  ∃ e, validateForwardingRoutePortOverlaps 0 rs [] = .error e ∧ e.code = "route_port_overlap"

/-- The check reports the conflicts of a list of routes, and them alone, in any order of the routes. -/
structure ConflictsReported (rs : List ForwardRoute) : Prop where
  exact : Reports rs ↔ Conflict rs
  silent : ¬Conflict rs → validateForwardingRoutePortOverlaps 0 rs [] = .ok ()
  order : ∀ rs', rs.Perm rs' → (Reports rs' ↔ Reports rs)
  alone : ∀ r ∈ rs, validateForwardingRoutePortOverlaps 0 [r] [] = .ok ()
  disabled : Reports (rs.filter fun r => !r.disabled) ↔ Reports rs

/-- The public ports that are listed are distinct, and those of the tokens. -/
theorem publicPorts_list {r : ForwardRoute} {ps : List Nat} (h : expandRoutePublicPortNumbers r = .ok ps) :
    ps.Nodup ∧ ∀ p, p ∈ ps ↔ InTokens p (publicTokens r) := by
  have hsorted : ∀ {seen : List Nat}, PortList seen → (seen.insertionSort (· ≤ ·)).Nodup := fun hseen =>
    (List.perm_insertionSort _ _).nodup_iff.mpr hseen.nodup
  unfold expandRoutePublicPortNumbers at h
  unfold publicTokens
  by_cases hnil : r.portMaps = []
  · rw [if_pos hnil] at h ⊢
    obtain ⟨seen, rfl, hseen, -, hmem⟩ := expandRoutePortNumbers_ok h
    exact ⟨hsorted hseen, fun p => by rw [List.mem_insertionSort, hmem]⟩
  · rw [if_neg hnil] at h ⊢
    dsimp only at h
    split at h
    · cases h
    · rename_i mapped hmapped
      obtain ⟨all, hall⟩ := map_ok h
      rw [hall] at h
      obtain rfl := Except.ok.inj h
      obtain ⟨mapped', hmapped', hlist⟩ := @expandTokens_total "public ports"
        (fun tok e => { e with msg := "port_maps public " ++ quote tok ++ ": " ++ e.msg }) _ _ portList_nil (expandTokens_ok hmapped)
      obtain rfl := Except.ok.inj (hmapped.symm.trans hmapped')
      obtain ⟨all', hall', hlist⟩ := @expandTokens_total "public ports"
        (fun tok e => { e with msg := "ports " ++ quote tok ++ ": " ++ e.msg }) _ _ hlist (expandTokens_ok hall)
      obtain rfl := Except.ok.inj (hall.symm.trans hall')
      refine ⟨hsorted hlist, fun p => ?_⟩
      rw [List.mem_insertionSort, expandTokens_mem hall p, expandTokens_mem hmapped p]
      simp [InTokens, or_and_right, exists_or]

theorem names_iff {r : ForwardRoute} (hr : Readable r) (k : ProtoPort) : Names r k ↔ Claims r k := by
  obtain ⟨⟨protos, hprotos⟩, ps, hps⟩ := hr
  unfold Names Claims
  rw [← (publicPorts_list hps).2]
  constructor
  · rintro ⟨⟨protos', hprotos', hk⟩, hp⟩
    exact ⟨protos', ps, hprotos', hps, hk, hp⟩
  · rintro ⟨protos', ps', hprotos', hps', hk, hp⟩
    obtain rfl := Except.ok.inj (hps.symm.trans hps')
    exact ⟨⟨protos', hprotos', hk⟩, hp⟩

/-- A route that can be read claims each of its ports once. -/
theorem routeClaims_total {i : Nat} {r : ForwardRoute} (hr : Readable r) : ∃ ks, routeClaims i r = .ok ks ∧ ks.Nodup := by
  obtain ⟨⟨protos, hprotos⟩, ps, hps⟩ := hr
  refine ⟨protos.flatMap fun proto => ps.map fun port => (proto, port), ?_, ?_⟩
  · unfold routeClaims
    exact bind_ok.mpr ⟨protos, wrapf_ok.mpr hprotos, bind_ok.mpr ⟨ps, wrapf_ok.mpr hps, rfl⟩⟩
  · exact List.Nodup.product (nodup_protos hprotos) (publicPorts_list hps).1

/-- Distinct ports can be claimed, or one of them is claimed already. -/
theorem claimPorts_total {i : Nat} : ∀ {ks : List ProtoPort} {claimed : List (ProtoPort × Nat)}, ks.Nodup →
    (∃ out, claimPorts i ks claimed = .ok out) ∨
      (∃ e, claimPorts i ks claimed = .error e ∧ e.code = "route_port_overlap") ∧ ∃ k ∈ ks, k ∈ claimed.map Prod.fst
  | [], claimed, _ => .inl ⟨claimed, rfl⟩
  | k :: ks, claimed, hnodup => by
    obtain ⟨hk, hks⟩ := List.nodup_cons.mp hnodup
    unfold claimPorts
    cases hlookup : claimed.lookup k with
    | some prev =>
      refine .inr ⟨⟨_, rfl, rfl⟩, k, List.mem_cons_self, ?_⟩
      by_contra hmem
      have hnone : claimed.lookup k = none := List.lookup_eq_none_iff.mpr fun e he => by
        rw [bne_iff_ne]
        rintro rfl
        exact hmem (List.mem_map_of_mem he)
      rw [hnone] at hlookup
      cases hlookup
    | none =>
      rcases @claimPorts_total i ks ((k, i) :: claimed) hks with hok | ⟨herr, k', hk', hmem⟩
      · exact .inl hok
      · refine .inr ⟨herr, k', List.mem_cons_of_mem _ hk', ?_⟩
        rcases List.mem_cons.mp hmem with rfl | hmem
        · exact absurd hk' hk
        · exact hmem

/-- The check of readable routes passes, or reports a port that two of them claim or that was claimed before. -/
theorem overlaps_total : ∀ {i : Nat} {rs : List ForwardRoute} {claimed : List (ProtoPort × Nat)}, (∀ r ∈ rs, r.disabled = false → Readable r) →
    validateForwardingRoutePortOverlaps i rs claimed = .ok () ∨
      (∃ e, validateForwardingRoutePortOverlaps i rs claimed = .error e ∧ e.code = "route_port_overlap") ∧
        ((∃ r ∈ rs, r.disabled = false ∧ ∃ k, Claims r k ∧ k ∈ claimed.map Prod.fst) ∨ ¬rs.Pairwise Apart)
  | _, [], _, _ => .inl rfl
  | i, r :: rs, claimed, hread => by
    have hrest : ∀ r' ∈ rs, r'.disabled = false → Readable r' := fun r' hr' => hread r' (List.mem_cons_of_mem _ hr')
    unfold validateForwardingRoutePortOverlaps
    by_cases hoff : r.disabled = true
    · rw [if_pos hoff]
      rcases @overlaps_total (i + 1) rs claimed hrest with hok | ⟨herr, hclash⟩
      · exact .inl hok
      · refine .inr ⟨herr, hclash.imp ?_ ?_⟩
        · rintro ⟨r', hr', hd, hk⟩
          exact ⟨r', List.mem_cons_of_mem _ hr', hd, hk⟩
        · exact fun hpair hcons => hpair (List.pairwise_cons.mp hcons).2
    · rw [if_neg hoff]
      have hd : r.disabled = false := Bool.not_eq_true _ ▸ hoff
      have hr := hread r List.mem_cons_self hd
      obtain ⟨ks, hks, hnodup⟩ := @routeClaims_total i r hr
      rw [hks]
      rcases @claimPorts_total i ks claimed hnodup with ⟨claimed', hclaimed⟩ | ⟨⟨e, he, hcode⟩, k, hk, hmem⟩
      · obtain ⟨hfree, hall⟩ := claimPorts_ok hclaimed
        rcases @overlaps_total (i + 1) rs claimed' hrest with hok | ⟨⟨e, he, hcode⟩, hclash⟩
        · refine .inl (bind_ok.mpr ⟨ks, rfl, bind_ok.mpr ⟨claimed', hclaimed, hok⟩⟩)
        · refine .inr ⟨⟨e, ?_, hcode⟩, ?_⟩
          · show (claimPorts i ks claimed >>= fun claimed => validateForwardingRoutePortOverlaps (i + 1) rs claimed) = _
            rw [hclaimed]
            exact he
          · rcases hclash with ⟨r', hr', hd', k, hk, hmem⟩ | hpair
            · rcases (hall k).mp hmem with hmem | hmem
              · exact .inl ⟨r', List.mem_cons_of_mem _ hr', hd', k, hk, hmem⟩
              · refine .inr fun hcons => ?_
                have hclaims := (routeClaims_mem hks k).mp hmem
                exact (List.pairwise_cons.mp hcons).1 r' hr' hd hd' k ((names_iff hr k).mpr hclaims)
                  ((names_iff (hrest r' hr' hd') k).mpr hk)
            · exact .inr fun hcons => hpair (List.pairwise_cons.mp hcons).2
      · refine .inr ⟨⟨e, ?_, hcode⟩, .inl ⟨r, List.mem_cons_self, hd, k, (routeClaims_mem hks k).mp hk, hmem⟩⟩
        show (claimPorts i ks claimed >>= fun claimed => validateForwardingRoutePortOverlaps (i + 1) rs claimed) = _
        rw [he]
        rfl

theorem apart_symm {r r' : ForwardRoute} (h : Apart r r') : Apart r' r := fun hd' hd k hk' hk => h hd hd' k hk hk'

/-- A list without conflicts is one whose routes are apart. -/
theorem conflict_iff {rs : List ForwardRoute} : Conflict rs ↔ ¬rs.Pairwise Apart := by
  rw [List.pairwise_iff_getElem]
  constructor
  · rintro ⟨i, j, r, r', hne, hi, hj, hd, hd', k, hk, hk'⟩ hapart
    obtain ⟨hilt, rfl⟩ := List.getElem?_eq_some_iff.mp hi
    obtain ⟨hjlt, rfl⟩ := List.getElem?_eq_some_iff.mp hj
    rcases Nat.lt_or_gt_of_ne hne with hlt | hlt
    · exact hapart i j hilt hjlt hlt hd hd' k hk hk'
    · exact hapart j i hjlt hilt hlt hd' hd k hk' hk
  · intro h
    simp only [Apart, not_forall, not_not] at h
    obtain ⟨i, j, hi, hj, hlt, hd, hd', k, hk, hk'⟩ := h
    exact ⟨i, j, rs[i], rs[j], Nat.ne_of_lt hlt, List.getElem?_eq_getElem hi, List.getElem?_eq_getElem hj, hd, hd', k, hk, hk'⟩

theorem reports_iff {rs : List ForwardRoute} (hread : ∀ r ∈ rs, r.disabled = false → Readable r) : Reports rs ↔ ¬rs.Pairwise Apart := by
  rcases @overlaps_total 0 rs [] hread with hok | ⟨herr, hclash⟩
  · refine iff_of_false ?_ (not_not.mpr ((overlaps_apart hok).imp_of_mem fun hr hr' hclaims hd hd' k hk hk' => ?_))
    · rintro ⟨e, he, -⟩
      rw [hok] at he
      cases he
    · exact hclaims hd hd' k ((names_iff (hread _ hr hd) k).mp hk) ((names_iff (hread _ hr' hd') k).mp hk')
  · refine iff_of_true herr ?_
    rcases hclash with ⟨r, -, -, k, -, hmem⟩ | hpair
    · exact absurd hmem List.not_mem_nil
    · exact hpair

/-- The check of overlaps is exact for routes that can be read. -/
theorem conflictsReported {rs : List ForwardRoute} (hread : ∀ r ∈ rs, Readable r) : ConflictsReported rs := by
  have hon : ∀ {rs' : List ForwardRoute}, (∀ r ∈ rs', r ∈ rs) → ∀ r ∈ rs', r.disabled = false → Readable r :=
    fun hsub r hr _ => hread r (hsub r hr)
  have hsilent : ∀ {rs' : List ForwardRoute}, (∀ r ∈ rs', r ∈ rs) → ¬Conflict rs' → validateForwardingRoutePortOverlaps 0 rs' [] = .ok () := by
    intro rs' hsub hno
    rcases @overlaps_total 0 rs' [] (hon hsub) with hok | ⟨herr, -⟩
    · exact hok
    · exact absurd (conflict_iff.mpr ((reports_iff (hon hsub)).mp herr)) hno
  refine
    { exact := (reports_iff (hon fun _ hr => hr)).trans conflict_iff.symm
      silent := hsilent fun _ hr => hr
      order := fun rs' hperm => ?_
      alone := fun r hr => hsilent (fun r' hr' => by rwa [List.mem_singleton.mp hr']) fun hconflict => ?_
      disabled := ?_ }
  · rw [reports_iff (hon fun r hr => hperm.mem_iff.mpr hr), reports_iff (hon fun _ hr => hr), hperm.pairwise_iff apart_symm]
  · exact conflict_iff.mp hconflict (List.pairwise_singleton _ _)
  · rw [reports_iff (hon fun r hr => (List.mem_filter.mp hr).1), reports_iff (hon fun _ hr => hr), List.pairwise_filter]
    refine not_congr ⟨fun h => h.imp fun hapart hd hd' => hapart (by simpa using hd) (by simpa using hd') hd hd',
      fun h => h.imp fun hapart _ _ => hapart⟩

theorem conflictsReported_sample : ConflictsReported [mapRoute ["80-81", "443"] [⟨"80-81", "8080-8081"⟩], mapRoute ["81"] []] := by
  refine conflictsReported fun r hr => ?_
  rcases List.mem_cons.mp hr with rfl | hr
  · exact ⟨⟨[.tcp], by decide +kernel⟩, [80, 81, 443], by decide +kernel⟩
  · rw [List.mem_singleton.mp hr]
    exact ⟨⟨[.tcp], by decide +kernel⟩, [81], by decide +kernel⟩

end EvuProxy

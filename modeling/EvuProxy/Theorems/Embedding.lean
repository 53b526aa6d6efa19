import EvuProxy.Apply.Sample
import EvuProxy.Config.Words
import EvuProxy.Theorems.Sets

/-!
# What the ruleset embeds

Every word of a config that stands in its ruleset has passed a check. The checks trim what they read, and the renderer trims some of the
words and not others, so a word may stand there that its check would not have accepted as it stands.
-/

namespace EvuProxy

open Go Nft

variable {c : Config} {ord : MapOrder}

/-- The words that the checks accept as they stand. -/
def embedding : Vocabulary where
  iface := Embedded (validLinuxIface · = .ok ())
  set := Embedded (validNFTSetName · = .ok ())
  ports e := e.tokens ≠ [] ∧ ∀ t ∈ e.tokens, Embedded AcceptsPort t
  addr := Embedded (isIPv4OrCIDR · = true)

theorem ports_tok {t : String} : embedding.ports (.tok t) ↔ Embedded AcceptsPort t := by
  simp [embedding, Ports.tokens]

/-! ## Names of sets -/

theorem start_chars : ∀ k : Fin 12, k ≠ 0 → ∃ ch cs, (SetUse.start k).toList = ch :: cs ∧ (isLetter ch || ch == '_') = true ∧
    cs.all setChar = true := by
  intro k hk
  cases hs : (SetUse.start k).toList with
  | nil =>
    have hne : ∀ k : Fin 12, k ≠ 0 → (SetUse.start k).toList ≠ [] := by decide +kernel
    exact absurd hs (hne k hk)
  | cons ch cs =>
    have hall : ∀ k : Fin 12, k ≠ 0 → ((SetUse.start k).toList.head?.all fun ch => isLetter ch || ch == '_') = true ∧
        (SetUse.start k).toList.tail.all setChar = true := by decide +kernel
    obtain ⟨hhead, htail⟩ := hall k hk
    rw [hs] at hhead htail
    exact ⟨ch, cs, rfl, hhead, htail⟩

theorem rest_chars (u : SetUse) : ∀ ch ∈ u.rest.toList, setChar ch = true := by
  have hdigits : ∀ (i : Nat), ∀ ch ∈ (toString i).toList, setChar ch = true := fun i ch hch => by
    simp [setChar, isDigit_toString i ch hch]
  cases u with
  | conn i proto =>
    have hproto : ∀ p : Proto, ("_" ++ p.text).toList.all setChar = true := by
      intro p
      cases p <;> decide
    intro ch hch
    have hrest : (SetUse.conn i proto).rest.toList = (toString i).toList ++ ("_" ++ proto.text).toList := by
      simp only [SetUse.rest, String.toList_append, List.append_assoc]
    rw [hrest, List.mem_append] at hch
    rcases hch with hch | hch
    · exact hdigits i ch hch
    · exact List.all_eq_true.mp (hproto proto) ch hch
  | routeSrc i => exact hdigits i
  | routeDeny i => exact hdigits i
  | routeGeo i => exact hdigits i
  | routeSyn i => exact hdigits i
  | routeUDP i => exact hdigits i
  | _ => exact fun ch hch => absurd hch List.not_mem_nil

/-- The name of every set in use is embedded as it is. -/
theorem Checked.set_embedded (h : Checked c) {u : SetUse} (hu : UsesSet c u) : embedding.set (u.name c) := by
  by_cases hgeo : u = .geo
  · subst hgeo
    have hon : c.geo.enabled = true := hu
    have hcheck := h.geo
    unfold validateGeo at hcheck
    dsimp only at hcheck
    rw [if_neg (not_not.mpr hon)] at hcheck
    obtain ⟨_, hcheck⟩ := ite_errorf_ok.mp hcheck
    obtain ⟨_, hcheck⟩ := ite_errorf_ok.mp hcheck
    obtain ⟨_, hcheck⟩ := ite_errorf_ok.mp hcheck
    refine validNFTSetName_embedded (wrapf_ok.mp (seq_ok.mp hcheck).1) ?_
    show Trimmed c.geo.effectiveSetName
    unfold Geo.effectiveSetName
    split
    · decide
    · exact trimmed_trimSpace _
  · have hkind : u.kind ≠ 0 := by
      cases u <;> first | exact absurd rfl hgeo | simp [SetUse.kind]
    obtain ⟨ch, cs, hstart, hhead, htail⟩ := start_chars u.kind hkind
    rw [SetUse.name_eq hgeo]
    refine @EvuProxy.set_embedded _ ch (cs ++ u.rest.toList) ?_ hhead fun d hd => ?_
    · rw [String.toList_append, hstart, List.cons_append]
    · rcases List.mem_append.mp hd with hd | hd
      · exact List.all_eq_true.mp htail d hd
      · exact rest_chars u d hd

theorem Checked.inFilter_embedded (h : Checked c) {n : String} (hn : InFilter c n) : embedding.set n := by
  obtain ⟨u, hu, rfl⟩ := hn
  exact h.set_embedded hu

/-! ## The sets of the tables -/

theorem sourceElems_embedded {path : String} {cidrs : List String} (h : validateSourceCIDRs path cidrs = .ok ()) :
    ∀ e ∈ normalizedRouteSourceElems cidrs, embedding.addr e := by
  intro e he
  obtain ⟨s, hs, rfl⟩ := List.mem_map.mp (List.mem_filter.mp he).1
  exact addr_embedded (validateSourceCIDRs_ok h s hs)

theorem sourceSet_elements {name : String} {cidrs : List String} {d : SetDecl} (h : d ∈ sourceSet name cidrs) :
    d.elements = normalizedRouteSourceElems cidrs := by
  unfold sourceSet at h
  split at h
  · cases h
  · rw [List.mem_singleton.mp h]
    rfl

theorem rateLimitSets_elements {d : SetDecl} (h : d ∈ rateLimitSets c ord) : d.elements = [] := by
  rw [rateLimitSets_eq] at h
  simp only [globalLimitSets, connLimitSets, List.mem_append, List.mem_map, mem_ite_list, List.mem_singleton] at h
  rcases h with (((⟨_, rfl⟩ | ⟨_, rfl⟩) | ⟨_, _, rfl⟩) | ⟨_, _, rfl⟩) | ⟨_, _, rfl⟩ <;> rfl

/-- The elements of the sets that a table declares are addresses of accepted lists. -/
theorem Checked.elements_embedded (h : Checked c) {filter : Bool} {d : SetDecl} (hd : d ∈ tableSets c ord filter) :
    ∀ e ∈ d.elements, embedding.addr e := by
  have hnone : d.elements = [] → ∀ e ∈ d.elements, embedding.addr e := fun hnil e he => by
    rw [hnil] at he
    cases he
  simp only [tableSets, List.mem_append, mem_ite_list, List.mem_singleton, List.mem_flatMap] at hd
  rcases hd with ((((((⟨_, rfl⟩ | ⟨_, rfl⟩) | hd) | hd) | ⟨p, hp, hd⟩) | ⟨p, hp, hd⟩) | hd) | ⟨_, hd⟩
  · exact hnone rfl
  · exact hnone rfl
  · rw [sourceSet_elements hd]
    exact sourceElems_embedded h.breakGlass
  · rw [sourceSet_elements hd]
    exact sourceElems_embedded h.sourceDeny
  · rw [sourceSet_elements hd]
    exact sourceElems_embedded (h.active hp).allow
  · rw [sourceSet_elements hd]
    exact sourceElems_embedded (h.active hp).deny
  · unfold writeRouteCustomGeoSets at hd
    split at hd
    · cases hd
    · obtain ⟨_, _, rfl⟩ := List.mem_map.mp hd
      exact hnone rfl
  · exact hnone (rateLimitSets_elements hd)

theorem Checked.sets_embedded (h : Checked c) {filter : Bool} {d : SetDecl} (hd : d ∈ tableSets c ord filter) :
    embedding.set d.name ∧ ∀ e ∈ d.elements, embedding.addr e := by
  refine ⟨?_, h.elements_embedded hd⟩
  have hname : d.name ∈ (tableSets c ord filter).map (·.name) := List.mem_map_of_mem hd
  cases filter with
  | true =>
    rw [filterSets_names] at hname
    obtain ⟨u, hu, heq⟩ := List.mem_map.mp hname
    exact heq ▸ h.set_embedded (mem_usesOfKinds.mp hu).1
  | false =>
    rw [natSets_names] at hname
    obtain ⟨u, hu, heq⟩ := List.mem_map.mp hname
    exact heq ▸ h.set_embedded (mem_usesOfKinds.mp hu).1

/-! ## The words of the policies -/

/-- Every entry of `ports` of a route that is on holds a port and is on one line. -/
def PortsPlain (r : ForwardRoute) : Prop := ∀ tok ∈ normalizedPortTokens r.ports, portTokens [tok] ≠ [] ∧ OneLine tok

instance (r : ForwardRoute) : Decidable (PortsPlain r) := inferInstanceAs (Decidable (∀ _ ∈ _, _))

theorem rangePortPairs_range {tok : String} : ∀ {maps : List PortMap} {pairs : List (Nat × Nat)},
    rangePortPairs tok maps = .ok (some pairs) → ∀ p ∈ pairs, (1 ≤ p.1 ∧ p.1 ≤ 65535) ∧ 1 ≤ p.2 ∧ p.2 ≤ 65535
  | [], _, h, _, _ => (nomatch h)
  | m :: ms, pairs, h, p, hp => by
    unfold rangePortPairs at h
    dsimp only at h
    split at h
    · exact rangePortPairs_range h p hp
    · obtain ⟨ps, hps, h⟩ := bind_ok.mp h
      obtain ⟨qs, hqs, h⟩ := bind_ok.mp h
      obtain ⟨_, h⟩ := ite_errorf_ok.mp h
      obtain rfl := Option.some.inj (Except.ok.inj h)
      obtain ⟨hpub, hint⟩ := List.of_mem_zip hp
      exact ⟨expandPortToken_range hps _ hpub, expandPortToken_range hqs _ hint⟩

theorem buildRouteDNATLines_words {r : ForwardRoute} (htarget : embedding.addr (trimSpace r.targetIP))
    (hmaps : ∀ m ∈ r.portMaps, PortMapChecked m) : ∀ {toks : List String} {lines : List RouteDNATLine},
    (∀ tok ∈ toks, Embedded AcceptsPort tok) → buildRouteDNATLines r toks = .ok lines →
      ∀ l ∈ lines, embedding.ports (.tok l.publicDport) ∧ embedding.addr l.dnatTo.1 ∧
        ∀ p, l.dnatTo.2 = some p → embedding.ports (.tok p)
  | [], _, _, h, _, hl => by
    cases h
    cases hl
  | tok :: toks, _, htoks, h, l, hl => by
    unfold buildRouteDNATLines at h
    obtain ⟨lines, hlines, h⟩ := bind_ok.mp h
    obtain ⟨rest, hrest, h⟩ := bind_ok.mp h
    cases h
    rcases List.mem_append.mp hl with hl | hl
    · unfold buildTokenDNATLines at hlines
      obtain ⟨pairs, hpairs, hlines⟩ := bind_ok.mp hlines
      cases pairs with
      | some pairs =>
        cases hlines
        obtain ⟨p, hp, rfl⟩ := List.mem_map.mp hl
        obtain ⟨hpub, hint⟩ := rangePortPairs_range hpairs p hp
        refine ⟨ports_tok.mpr (numeral_embedded hpub.1 hpub.2), htarget, fun q hq => ?_⟩
        rw [← Option.some.inj hq]
        exact ports_tok.mpr (numeral_embedded hint.1 hint.2)
      | none =>
        obtain ⟨dest, hdest, hlines⟩ := bind_ok.mp hlines
        cases hlines
        rw [List.mem_singleton.mp hl]
        refine ⟨ports_tok.mpr (htoks tok List.mem_cons_self), ?_⟩
        unfold dnatDestination at hdest
        split at hdest
        · cases hdest
          exact ⟨htarget, nofun⟩
        · rename_i m hm
          obtain ⟨_, hdest⟩ := ite_errorf_ok.mp hdest
          cases hdest
          refine ⟨htarget, fun p hp => ?_⟩
          rw [← Option.some.inj hp]
          exact ports_tok.mpr (hmaps m (List.mem_of_find?_eq_some hm)).internal_embedded
    · exact buildRouteDNATLines_words htarget hmaps (fun t ht => htoks t (List.mem_cons_of_mem _ ht)) hrest l hl

theorem internalPort_embedded {r : ForwardRoute} (hmaps : ∀ m ∈ r.portMaps, PortMapChecked m) {tok : String}
    (htok : Embedded AcceptsPort tok) : Embedded AcceptsPort (internalPort tok r.portMaps) := by
  unfold internalPort
  split
  · rename_i m hm
    exact (hmaps m (List.mem_of_find?_eq_some hm)).internal_embedded
  · rwa [show trimSpace tok = tok from htok.trimmed]

theorem ne_empty_of_embedded {t : String} (h : Embedded AcceptsPort t) : t ≠ "" := by
  intro he
  have hport := h.port.1
  rw [he] at hport
  exact hport (by decide)

/-- The ports of a policy in the forward chain, from the entries of its route. -/
theorem routeForwardPorts_words {r : ForwardRoute} (hmaps : ∀ m ∈ r.portMaps, PortMapChecked m)
    (hne : normalizedPortTokens r.ports ≠ []) (htoks : ∀ tok ∈ normalizedPortTokens r.ports, Embedded AcceptsPort tok) {e : Ports}
    (he : embedding.ports e) : embedding.ports (routeForwardPorts r e).dport ∧
      ∀ e', (routeForwardPorts r e).origDport = some e' → embedding.ports e' := by
  unfold routeForwardPorts
  by_cases hnil : r.portMaps = []
  · rw [if_pos hnil]
    exact ⟨he, nofun⟩
  · rw [if_neg hnil]
    refine ⟨?_, fun e' he' => Option.some.inj he' ▸ he⟩
    have hinternal : ∀ t ∈ (normalizedPortTokens r.ports).map fun tok => internalPort tok r.portMaps, Embedded AcceptsPort t := by
      intro t ht
      obtain ⟨tok, htok, rfl⟩ := List.mem_map.mp ht
      exact internalPort_embedded hmaps (htoks tok htok)
    obtain ⟨tok, htok⟩ := List.exists_mem_of_ne_nil _ hne
    have hmem : internalPort tok r.portMaps ∈ (normalizedPortTokens r.ports).map fun tok => internalPort tok r.portMaps :=
      List.mem_map_of_mem htok
    have hkept : ∀ t ∈ (normalizedPortTokens r.ports).map (fun tok => internalPort tok r.portMaps),
        t ∈ normalizedPortTokens ((normalizedPortTokens r.ports).map fun tok => internalPort tok r.portMaps) := by
      intro t ht
      have hemb := hinternal t ht
      refine List.mem_filter.mpr ⟨List.mem_map.mpr ⟨t, ht, hemb.trimmed⟩, ?_⟩
      simpa using ne_empty_of_embedded hemb
    refine ⟨List.ne_nil_of_mem (hkept _ hmem), fun t ht => ?_⟩
    obtain ⟨raw, hraw, rfl⟩ := List.mem_map.mp (List.mem_filter.mp ht).1
    rw [show trimSpace raw = raw from (hinternal raw hraw).trimmed]
    exact hinternal raw hraw

/-- The words of the policies of an accepted config whose entries of `ports` are plain. -/
theorem Checked.policy_words (h : Checked c) {routes : List RoutePolicy} (hroutes : EvuProxy.routePolicies c = .ok routes)
    (hports : c.forwarding.maintenanceMode = false → ∀ p ∈ activeRoutes c, PortsPlain p.2) :
    ∀ q ∈ routes, FilterWords embedding q := by
  intro q hq
  have hsets := policySets_filter hroutes q hq
  have hset : ∀ {n : String}, InFilter c n → embedding.set n := fun hn => h.inFilter_embedded hn
  obtain ⟨i, r, protos, dnat, hr, hprotos, hp, hdnat, heq⟩ := mem_routePolicies hroutes hq
  have hon : c.forwarding.maintenanceMode = false := by
    by_contra hm
    unfold EvuProxy.routePolicies at hroutes
    rw [if_pos (Bool.not_eq_false _ ▸ hm)] at hroutes
    cases hroutes
    cases hq
  have hchecked := h.active hr
  obtain ⟨hget, hd⟩ := mem_activeRoutes.mp hr
  have htoks : ∀ tok ∈ normalizedPortTokens r.ports, Embedded AcceptsPort tok := fun tok htok =>
    h.ports_embedded hget hd htok (hports hon (i, r) hr tok htok).1 (hports hon (i, r) hr tok htok).2
  have hexpr : embedding.ports (.set (normalizedPortTokens r.ports)) := ⟨hchecked.ports, htoks⟩
  have htarget : embedding.addr (trimSpace r.targetIP) := hchecked.target_embedded
  obtain ⟨hdport, horig⟩ := routeForwardPorts_words hchecked.maps.rows hchecked.ports htoks hexpr
  have hlines := buildRouteDNATLines_words htarget hchecked.maps.rows htoks hdnat
  exact {
    srcAllow := fun s hs => hset (hsets.srcAllow s hs)
    srcDeny := fun s hs => hset (hsets.srcDeny s hs)
    globalDeny := fun s hs => hset (hsets.globalDeny s hs)
    breakGlass := fun s hs => hset (hsets.breakGlass s hs)
    geo := fun hen => hset (hsets.geo hen)
    dnat := by
      rw [heq]
      exact hlines
    target := by
      rw [heq]
      exact htarget
    portExpr := by
      rw [heq]
      exact hexpr
    forwardDport := by
      rw [heq]
      exact hdport
    forwardOrig := by
      rw [heq]
      exact horig
    crowdsec := fun s hs => hset (hsets.crowdsec s hs)
    conn := fun hn => hset (hsets.conn hn)
    syn := fun s hs => hset (hsets.syn s hs)
    udp := fun s hs => hset (hsets.udp s hs) }

/-! ## The ruleset -/

/-- `NFTables` returns a ruleset, and every word of it is one that its check accepts as it stands. -/
structure NothingSmuggled (c : Config) : Prop where
  renders : ∀ ord, ∃ s, rulesetScript c ord [] = .ok s ∧ nftables c ord = .ok (scriptText s)
  words : ∀ ord s t, rulesetScript c ord [] = .ok s → .table t ∈ s → t.Worded embedding

/-- What the checks leave open. -/
structure FieldsPlain (c : Config) : Prop where
  /-- The protocol of every entry of `input_allows` that is on is tcp or udp. -/
  protos : InputProtosKnown c
  /-- No white space surrounds the names of the two interfaces. -/
  wg : Trimmed c.wireGuard.interface
  pub : Trimmed c.network.publicInterface
  /-- No entry of `ports` of a route that is on is an empty list in braces, or has a line break in it. -/
  ports : c.forwarding.maintenanceMode = false → ∀ p ∈ activeRoutes c, PortsPlain p.2

instance : Decidable (FieldsPlain c) :=
  decidable_of_iff (InputProtosKnown c ∧ Trimmed c.wireGuard.interface ∧ Trimmed c.network.publicInterface ∧
    (c.forwarding.maintenanceMode = false → ∀ p ∈ activeRoutes c, PortsPlain p.2))
    ⟨fun ⟨a, b, d, e⟩ => ⟨a, b, d, e⟩, fun ⟨a, b, d, e⟩ => ⟨a, b, d, e⟩⟩

theorem Checked.localCIDRs_embedded (h : Checked c) : ∀ cidr ∈ forwardAllowLocalCIDRs c, embedding.addr cidr := by
  have hdocker : ∀ d ∈ ["172.16.0.0/12", "192.168.0.0/16"], isIPv4OrCIDR d = true := by decide +kernel
  have hall : ∀ cidr ∈ forwardAllowLocalCIDRs c, isIPv4OrCIDR cidr = true := by
    intro cidr hcidr
    unfold forwardAllowLocalCIDRs at hcidr
    dsimp only at hcidr
    rw [List.mem_reverse, List.mem_dedup, List.mem_reverse, List.mem_append, mem_ite_list] at hcidr
    rcases hcidr with ⟨_, hcidr⟩ | hcidr
    · exact hdocker cidr hcidr
    · obtain ⟨s, hs, rfl⟩ := List.mem_map.mp (List.mem_filter.mp hcidr).1
      obtain ⟨_, p, hp, h4⟩ := h.extraLocal s hs
      unfold isIPv4OrCIDR
      have hslash : containsChar (trimSpace s) '/' = true := by
        unfold parseCIDR at hp
        obtain ⟨q, hq, _⟩ := Option.bind_eq_some_iff.mp hp
        by_contra hno
        rw [cut_none fun hmem => hno (List.contains_iff_mem.mpr hmem)] at hq
        cases hq
      rw [if_pos hslash, hp]
      exact h4
  exact fun cidr hcidr => addr_embedded (hall cidr hcidr)

/-- The words of an accepted config, in its ruleset. -/
theorem Checked.config_words (h : Checked c) (hplain : FieldsPlain c) {routes : List RoutePolicy}
    (hroutes : EvuProxy.routePolicies c = .ok routes) : ConfigWords embedding c routes where
  loopback := iface_embedded (by decide) (by decide)
  pub := iface_embedded h.publicInterface hplain.pub
  wg := iface_embedded h.wgInterface hplain.wg
  geo hon := h.set_embedded (u := .geo) hon
  breakGlass s hs := by
    obtain ⟨hne, rfl⟩ := setNameIf_eq_some hs
    exact h.set_embedded (u := .breakGlass) hne
  inputAllows a ha hd := ports_tok.mpr (inputAllow_embedded (h.inputAllows a ha hd))
  adminPorts p hp := by
    unfold adminTCPPortsForInput at hp
    rw [List.mem_insertionSort, List.mem_dedup] at hp
    exact ports_tok.mpr (int_numeral_embedded (h.adminPorts p hp).1 (h.adminPorts p hp).2)
  listenPort := ports_tok.mpr (int_numeral_embedded h.listenPort.1 h.listenPort.2)
  localCIDRs := h.localCIDRs_embedded
  routes := h.policy_words hroutes hplain.ports

/-- The port expression of a policy stands in the forward chain. -/
theorem portExpr_of_forwardAccept {V : Vocabulary} {pub wg : String} {i : Nat} {r : ForwardRoute} {dnat : List RouteDNATLine} {p : Proto}
    (h : RuleWorded V (forwardAccept pub wg (policyOf c i r dnat p))) : V.ports (.set (normalizedPortTokens r.ports)) := by
  unfold forwardAccept at h
  have hports : RuleWorded V ((policyOf c i r dnat p).forwardPorts.stmts p) := (ruleWorded_append.mp (ruleWorded_append.mp h).1).2
  have hforward : (policyOf c i r dnat p).forwardPorts = routeForwardPorts r (.set (normalizedPortTokens r.ports)) := by
    dsimp only [policyOf]
  rw [hforward] at hports
  unfold routeForwardPorts PortMatch.stmts at hports
  split at hports
  · exact (ruleWorded_cons.mp hports).1
  · exact (ruleWorded_cons.mp (ruleWorded_cons.mp hports).2).1

/-- A config whose public interface has a blank before its name. -/
def Sample.blankInterface : Config := { Sample.config 1 false with network := { publicInterface := " eth0" } }

end EvuProxy

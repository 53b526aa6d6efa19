import EvuProxy.Config.Valid
import EvuProxy.Gen.Ruleset
import EvuProxy.Go.Trim

/-!
# What an accepted config renders to

Every step of `NFTables` that can fail repeats a check of `Validate`, except one: the protocol of an entry of `input_allows` is read
here for the first time.
-/

namespace EvuProxy

open Go Nft

variable {c : Config} {ord : MapOrder} {paused : List Nat}

/-! ## Routes -/

theorem rangePortPairs_ok {tok : String} : ∀ {maps : List PortMap}, (∀ m ∈ maps, PortMapChecked m) →
    ∃ ps, rangePortPairs tok maps = .ok ps
  | [], _ => ⟨none, rfl⟩
  | m :: ms, h => by
    unfold rangePortPairs
    simp only
    by_cases hskip : trimSpace m.pub ≠ trimSpace tok ∨ ¬containsChar (trimSpace m.internal) '-' ∨
        containsChar (trimSpace m.internal) '{'
    · rw [if_pos hskip]
      exact rangePortPairs_ok fun m' hm' => h m' (List.mem_cons_of_mem _ hm')
    · rw [if_neg hskip]
      simp only [not_or, not_not] at hskip
      obtain ⟨hpub, hdash, hbrace⟩ := hskip
      obtain ⟨ps, qs, hps, hqs, hlen⟩ := (h m List.mem_cons_self).range hdash hbrace
      rw [← hpub]
      refine ⟨some (ps.zip qs), bind_ok.mpr ⟨ps, hps, bind_ok.mpr ⟨qs, hqs, ?_⟩⟩⟩
      rw [if_neg (not_not.mpr hlen)]

/-- A text that starts with a brace has one. -/
theorem containsChar_of_hasPrefix {s : String} (h : hasPrefix s "\x7b") : containsChar s '{' := by
  unfold hasPrefix at h
  obtain ⟨cs, hcs⟩ := List.isPrefixOf_iff_prefix.mp h
  unfold containsChar
  rw [← hcs]
  simp

theorem dnatDestination_ok {ip tok : String} {maps : List PortMap} (h : ∀ m ∈ maps, PortMapChecked m) :
    ∃ d, dnatDestination ip tok maps = .ok d := by
  unfold dnatDestination
  split
  · exact ⟨_, rfl⟩
  · rename_i m hm
    refine ⟨_, ite_errorf_ok.mpr ⟨fun hpre => ?_, rfl⟩⟩
    rcases (h m (List.mem_of_find?_eq_some hm)).noBrace with hno | hno
    · rw [trimSpace_trimSpace] at hno
      exact hno hpre
    · exact hno (containsChar_of_hasPrefix hpre)

theorem buildRouteDNATLines_ok {r : ForwardRoute} (h : ∀ m ∈ r.portMaps, PortMapChecked m) :
    ∀ toks : List String, ∃ ls, buildRouteDNATLines r toks = .ok ls
  | [] => ⟨[], rfl⟩
  | tok :: toks => by
    obtain ⟨rest, hrest⟩ := buildRouteDNATLines_ok h toks
    obtain ⟨pairs, hpairs⟩ : ∃ pairs, rangePortPairs tok r.portMaps = .ok pairs := rangePortPairs_ok h
    have hline : ∃ ls, buildTokenDNATLines r tok = .ok ls := by
      unfold buildTokenDNATLines
      cases pairs with
      | some ps => exact ⟨_, bind_ok.mpr ⟨some ps, hpairs, rfl⟩⟩
      | none =>
        obtain ⟨d, hd⟩ := @dnatDestination_ok r.targetIP tok _ h
        exact ⟨_, bind_ok.mpr ⟨none, hpairs, bind_ok.mpr ⟨d, hd, rfl⟩⟩⟩
    obtain ⟨ls, hls⟩ := hline
    exact ⟨ls ++ rest, bind_ok.mpr ⟨ls, hls, bind_ok.mpr ⟨rest, hrest, rfl⟩⟩⟩

theorem routePoliciesOf_ok {i : Nat} {r : ForwardRoute} (h : r.disabled = false → RouteChecked c i r) :
    ∃ ps, routePoliciesOf c i r = .ok ps := by
  unfold routePoliciesOf
  cases hd : r.disabled with
  | true => exact ⟨[], rfl⟩
  | false =>
    obtain ⟨protos, hprotos⟩ := (h hd).protos
    obtain ⟨lines, hlines⟩ := buildRouteDNATLines_ok (h hd).maps.rows (normalizedPortTokens r.ports)
    simp only [Bool.false_eq_true, if_false, formatPortSets, (h hd).ports]
    exact ⟨_, bind_ok.mpr ⟨protos, wrapf_ok.mpr hprotos, bind_ok.mpr ⟨lines, wrapf_ok.mpr hlines, rfl⟩⟩⟩

theorem routePoliciesFrom_ok : ∀ {i : Nat} {rs : List ForwardRoute},
    (∀ j r, rs[j]? = some r → r.disabled = false → RouteChecked c (i + j) r) → ∃ ps, routePoliciesFrom c i rs = .ok ps
  | _, [], _ => ⟨[], rfl⟩
  | i, r :: rs, h => by
    obtain ⟨ps, hps⟩ := routePoliciesOf_ok (c := c) (i := i) (r := r) (h 0 r rfl)
    obtain ⟨rest, hrest⟩ := @routePoliciesFrom_ok (i + 1) rs fun j r' hr' hd => by
      have := h (j + 1) r' hr' hd
      rwa [Nat.add_comm j 1, ← Nat.add_assoc] at this
    exact ⟨ps ++ rest, bind_ok.mpr ⟨ps, hps, bind_ok.mpr ⟨rest, hrest, rfl⟩⟩⟩

theorem Checked.routePolicies (h : Checked c) : ∃ ps, routePolicies c = .ok ps := by
  unfold EvuProxy.routePolicies
  by_cases hm : c.forwarding.maintenanceMode = true
  · exact ⟨[], if_pos hm⟩
  · rw [if_neg hm]
    exact routePoliciesFrom_ok fun j r hr hd => by
      rw [Nat.zero_add]
      exact h.routes j r hr hd

/-! ## What the policies say -/

/-- The policy of a route for one protocol, from the lines of its DNAT rules. -/
def policyOf (c : Config) (i : Nat) (r : ForwardRoute) (dnat : List RouteDNATLine) (p : Proto) : RoutePolicy where
  routeIndex := i
  proto := p
  portExpr := .set (normalizedPortTokens r.ports)
  forwardPorts := routeForwardPorts r (.set (normalizedPortTokens r.ports))
  target := trimSpace r.targetIP
  srcAllow := setNameIf (routeSrcSetName i) r.sourceAllowCIDRs
  srcDeny := setNameIf (routeDenySetName i) r.sourceDenyCIDRs
  geo := routeGeoParamsFor c i r
  globalRL := c.forwarding.rateLimit
  routeRL := r.rateLimit
  dnat := dnat
  crowdsecSet := crowdsecSetName c.crowdSecEnabled
  breakGlass := setNameIf setBreakGlass c.geo.breakGlassCIDRs
  globalDeny := setNameIf setGlobalDeny c.forwarding.sourceDenyCIDRs
  counter := c.dropCounters

/-- The policies of a route that is on are `policyOf` for each of its protocols. -/
theorem routePoliciesOf_eq {i : Nat} {r : ForwardRoute} {ps : List RoutePolicy} (h : routePoliciesOf c i r = .ok ps) :
    (r.disabled = true ∧ ps = []) ∨ (r.disabled = false ∧ normalizedPortTokens r.ports ≠ [] ∧
      ∃ protos dnat, parseRouteProtocols r.proto = .ok protos ∧
        buildRouteDNATLines r (normalizedPortTokens r.ports) = .ok dnat ∧ ps = protos.map (policyOf c i r dnat)) := by
  unfold routePoliciesOf at h
  cases hd : r.disabled with
  | true =>
    rw [hd] at h
    cases h
    exact .inl ⟨rfl, rfl⟩
  | false =>
    rw [hd] at h
    by_cases hports : normalizedPortTokens r.ports = []
    · simp only [formatPortSets, hports] at h
      cases h
    · simp only [formatPortSets, hports, Bool.false_eq_true, if_false] at h
      obtain ⟨protos, hprotos, h⟩ := bind_ok.mp h
      obtain ⟨dnat, hdnat, h⟩ := bind_ok.mp h
      cases h
      exact .inr ⟨rfl, hports, protos, dnat, wrapf_ok.mp hprotos, wrapf_ok.mp hdnat, rfl⟩

/-! ## Sets -/

theorem mem_activeRoutes {p : Nat × ForwardRoute} :
    p ∈ activeRoutes c ↔ c.forwarding.routes[p.1]? = some p.2 ∧ p.2.disabled = false := by
  unfold activeRoutes
  simp only [List.mem_map, List.mem_filter, Prod.exists, List.mem_zipIdx_iff_getElem?, Bool.not_eq_true']
  constructor
  · rintro ⟨r, i, ⟨hr, hd⟩, rfl⟩
    exact ⟨hr, hd⟩
  · rintro ⟨hr, hd⟩
    exact ⟨p.2, p.1, ⟨hr, hd⟩, rfl⟩

theorem mem_routePoliciesFrom {q : RoutePolicy} : ∀ {i : Nat} {rs : List ForwardRoute} {ps : List RoutePolicy},
    routePoliciesFrom c i rs = .ok ps → q ∈ ps →
      ∃ j r protos dnat, rs[j]? = some r ∧ r.disabled = false ∧ parseRouteProtocols r.proto = .ok protos ∧ q.proto ∈ protos ∧
        buildRouteDNATLines r (normalizedPortTokens r.ports) = .ok dnat ∧ q = policyOf c (i + j) r dnat q.proto
  | _, [], _, h, hq => by
    cases h
    exact absurd hq List.not_mem_nil
  | i, r :: rs, _, h, hq => by
    unfold routePoliciesFrom at h
    obtain ⟨ps, hps, h⟩ := bind_ok.mp h
    obtain ⟨rest, hrest, h⟩ := bind_ok.mp h
    cases h
    rcases List.mem_append.mp hq with hq | hq
    · rcases routePoliciesOf_eq hps with ⟨_, rfl⟩ | ⟨hd, _, protos, dnat, hprotos, hdnat, rfl⟩
      · exact absurd hq List.not_mem_nil
      · obtain ⟨p, hp, rfl⟩ := List.mem_map.mp hq
        exact ⟨0, r, protos, dnat, rfl, hd, hprotos, hp, hdnat, rfl⟩
    · obtain ⟨j, r', protos, dnat, hr', hd, hprotos, hp, hdnat, heq⟩ := mem_routePoliciesFrom hrest hq
      refine ⟨j + 1, r', protos, dnat, hr', hd, hprotos, hp, hdnat, ?_⟩
      rwa [Nat.add_comm j 1, ← Nat.add_assoc]

/-- Every policy is that of a route that is on and one of its protocols. -/
theorem mem_routePolicies {q : RoutePolicy} {ps : List RoutePolicy} (h : routePolicies c = .ok ps) (hq : q ∈ ps) :
    ∃ i r protos dnat, (i, r) ∈ activeRoutes c ∧ parseRouteProtocols r.proto = .ok protos ∧ q.proto ∈ protos ∧
      buildRouteDNATLines r (normalizedPortTokens r.ports) = .ok dnat ∧ q = policyOf c i r dnat q.proto := by
  unfold routePolicies at h
  split at h
  · cases h
    exact absurd hq List.not_mem_nil
  · obtain ⟨j, r, protos, dnat, hr, hd, hprotos, hp, hdnat, heq⟩ := mem_routePoliciesFrom h hq
    rw [Nat.zero_add] at heq
    exact ⟨j, r, protos, dnat, mem_activeRoutes.mpr ⟨hr, hd⟩, hprotos, hp, hdnat, heq⟩

theorem policyOf_mem_routePoliciesFrom {r : ForwardRoute} (hd : r.disabled = false) : ∀ {i j : Nat} {rs : List ForwardRoute}
    {ps : List RoutePolicy}, rs[j]? = some r → routePoliciesFrom c i rs = .ok ps →
      ∃ protos dnat, parseRouteProtocols r.proto = .ok protos ∧ buildRouteDNATLines r (normalizedPortTokens r.ports) = .ok dnat ∧
        ∀ p ∈ protos, policyOf c (i + j) r dnat p ∈ ps
  | _, _, [], _, hr, _ => (nomatch hr)
  | i, j, r' :: rs, _, hr, h => by
    unfold routePoliciesFrom at h
    obtain ⟨ps, hps, h⟩ := bind_ok.mp h
    obtain ⟨rest, hrest, h⟩ := bind_ok.mp h
    cases h
    cases j with
    | zero =>
      obtain rfl := Option.some.inj hr
      rcases routePoliciesOf_eq hps with ⟨hd', _⟩ | ⟨_, _, protos, dnat, hprotos, hdnat, rfl⟩
      · rw [hd] at hd'
        cases hd'
      · exact ⟨protos, dnat, hprotos, hdnat, fun p hp => List.mem_append_left _ (List.mem_map_of_mem hp)⟩
    | succ j =>
      obtain ⟨protos, dnat, hprotos, hdnat, hmem⟩ := policyOf_mem_routePoliciesFrom hd (i := i + 1) (j := j) hr hrest
      refine ⟨protos, dnat, hprotos, hdnat, fun p hp => List.mem_append_right _ ?_⟩
      have := hmem p hp
      rwa [Nat.add_assoc, Nat.add_comm 1 j] at this

/-- A route that is on has a policy for each of its protocols, unless the config is in maintenance mode. -/
theorem policyOf_mem_routePolicies {ps : List RoutePolicy} (h : routePolicies c = .ok ps) (hon : c.forwarding.maintenanceMode = false)
    {i : Nat} {r : ForwardRoute} (hr : (i, r) ∈ activeRoutes c) :
    ∃ protos dnat, parseRouteProtocols r.proto = .ok protos ∧ buildRouteDNATLines r (normalizedPortTokens r.ports) = .ok dnat ∧
      ∀ p ∈ protos, policyOf c i r dnat p ∈ ps := by
  obtain ⟨hget, hd⟩ := mem_activeRoutes.mp hr
  unfold routePolicies at h
  rw [hon, if_neg Bool.false_ne_true] at h
  obtain ⟨protos, dnat, hprotos, hdnat, hmem⟩ := policyOf_mem_routePoliciesFrom hd hget h
  rw [Nat.zero_add] at hmem
  exact ⟨protos, dnat, hprotos, hdnat, hmem⟩

/-- The protocols that are read are some of the two, in order. -/
theorem parseRouteProtocols_ok {s : String} {protos : List Proto} (h : parseRouteProtocols s = .ok protos) :
    protos ≠ [] ∧ protos.Sublist [.tcp, .udp] := by
  unfold parseRouteProtocols at h
  obtain ⟨_, h⟩ := ite_errorf_ok.mp h
  by_cases hboth : toLower (trimSpace s) = "both"
  · rw [if_pos hboth] at h
    obtain rfl := Except.ok.inj h
    exact ⟨List.cons_ne_nil _ _, List.Sublist.refl _⟩
  · rw [if_neg hboth] at h
    dsimp only at h
    generalize hps : ([Proto.tcp, Proto.udp].filter fun p => p.text ∈
      (((fieldsFunc (toLower (trimSpace s)) fun c => c == ',' || c == '+' || isSpace c).map trimSpace).filter (· ≠ ""))) = ps at h
    have hsub : ps.Sublist [.tcp, .udp] := hps ▸ List.filter_sublist
    split at h
    · cases h
    · split at h
      · cases h
      · rename_i hne
        obtain rfl := Except.ok.inj h
        exact ⟨hne, hsub⟩

theorem Checked.active (h : Checked c) {p : Nat × ForwardRoute} (hp : p ∈ activeRoutes c) : RouteChecked c p.1 p.2 :=
  h.routes p.1 p.2 (mem_activeRoutes.mp hp).1 (mem_activeRoutes.mp hp).2

theorem writeAllRouteSrcSets_ok : ∀ {rs : List (Nat × ForwardRoute)}, (∀ p ∈ rs, RouteChecked c p.1 p.2) →
    writeAllRouteSrcSets c rs = .ok (rs.flatMap fun p => sourceSet (routeSrcSetName p.1) p.2.sourceAllowCIDRs)
  | [], _ => rfl
  | (i, r) :: rs, h => by
    have ih := writeAllRouteSrcSets_ok fun p hp => h p (List.mem_cons_of_mem _ hp)
    unfold writeAllRouteSrcSets
    rw [List.flatMap_cons, ih]
    split
    · exact seq_ok.mpr ⟨(h (i, r) List.mem_cons_self).allow, rfl⟩
    · rfl

theorem writeRouteDenySets_ok : ∀ {rs : List (Nat × ForwardRoute)}, (∀ p ∈ rs, RouteChecked c p.1 p.2) →
    writeRouteDenySets c rs = .ok (rs.flatMap fun p => sourceSet (routeDenySetName p.1) p.2.sourceDenyCIDRs)
  | [], _ => rfl
  | (i, r) :: rs, h => by
    have ih := writeRouteDenySets_ok fun p hp => h p (List.mem_cons_of_mem _ hp)
    unfold writeRouteDenySets
    rw [List.flatMap_cons, ih]
    split
    · exact seq_ok.mpr ⟨(h (i, r) List.mem_cons_self).deny, rfl⟩
    · rfl

/-- The sets that a table of an accepted config declares. -/
def tableSets (c : Config) (ord : MapOrder) (filterTable : Bool) : List SetDecl :=
  (if c.geo.enabled then [geoSetDecl c.geo.effectiveSetName] else []) ++
    (if filterTable ∧ c.crowdSecEnabled then [crowdsecSetDecl] else []) ++
    sourceSet setBreakGlass c.geo.breakGlassCIDRs ++ sourceSet setGlobalDeny c.forwarding.sourceDenyCIDRs ++
    ((activeRoutes c).flatMap fun p => sourceSet (routeSrcSetName p.1) p.2.sourceAllowCIDRs) ++
    ((activeRoutes c).flatMap fun p => sourceSet (routeDenySetName p.1) p.2.sourceDenyCIDRs) ++
    writeRouteCustomGeoSets c ++ (if filterTable then rateLimitSets c ord else [])

theorem Checked.emitTableSets (h : Checked c) (filterTable : Bool) :
    emitTableSets c ord filterTable = .ok (tableSets c ord filterTable) := by
  unfold EvuProxy.emitTableSets
  rw [writeAllRouteSrcSets_ok fun p hp => h.active hp, writeRouteDenySets_ok fun p hp => h.active hp]
  rfl

/-! ## Input -/

/-- An entry of `input_allows` whose protocol `NFTables` can read. -/
def AllowRule.HasProto (a : AllowRule) : Prop := toLower (trimSpace a.proto) = "tcp" ∨ toLower (trimSpace a.proto) = "udp"

instance (a : AllowRule) : Decidable a.HasProto := inferInstanceAs (Decidable (_ ∨ _))

/-- The protocol of every entry of `input_allows` that is on can be read. -/
def InputProtosKnown (c : Config) : Prop := ∀ a ∈ c.inputAllows, a.disabled = false → a.HasProto

instance (c : Config) : Decidable (InputProtosKnown c) := inferInstanceAs (Decidable (∀ a ∈ _, _))

theorem inputAllowProtoPort_ok {a : AllowRule} (hport : trimSpace a.dport ≠ "") :
    (∃ p, inputAllowProtoPort a = .ok p) ↔ a.HasProto := by
  unfold inputAllowProtoPort AllowRule.HasProto
  simp only [if_neg hport]
  split
  · rename_i htcp
    exact ⟨fun _ => .inl htcp, fun _ => ⟨_, rfl⟩⟩
  · rename_i hudp
    exact ⟨fun _ => .inr hudp, fun _ => ⟨_, rfl⟩⟩
  · rename_i htcp hudp
    refine ⟨fun ⟨_, h⟩ => (nomatch h), ?_⟩
    rintro (h | h)
    · exact absurd h htcp
    · exact absurd h hudp

theorem validateInputAllowDport_ne {d : String} (h : validateInputAllowDport d = .ok ()) : trimSpace d ≠ "" := by
  unfold validateInputAllowDport at h
  exact (ite_errorf_ok.mp h).1

theorem inputAllowRulesOf_ok {a : AllowRule} (h : a.disabled = false → validateInputAllowDport a.dport = .ok ()) :
    (∃ rules, inputAllowRulesOf c a = .ok rules) ↔ (a.disabled = false → a.HasProto) := by
  unfold inputAllowRulesOf
  cases hd : a.disabled with
  | true => exact ⟨fun _ => nofun, fun _ => ⟨[], rfl⟩⟩
  | false =>
    have hiff := inputAllowProtoPort_ok (validateInputAllowDport_ne (h hd))
    simp only [Bool.false_eq_true, if_false, forall_const]
    rw [← hiff]
    constructor
    · rintro ⟨rules, hrules⟩
      obtain ⟨p, hp, _⟩ := bind_ok.mp hrules
      exact ⟨p, wrapf_ok.mp hp⟩
    · rintro ⟨p, hp⟩
      exact ⟨_, bind_ok.mpr ⟨p, wrapf_ok.mpr hp, rfl⟩⟩

theorem inputAllowRules_ok : ∀ {as : List AllowRule}, (∀ a ∈ as, a.disabled = false → validateInputAllowDport a.dport = .ok ()) →
    ((∃ rules, inputAllowRules c as = .ok rules) ↔ ∀ a ∈ as, a.disabled = false → a.HasProto)
  | [], _ => ⟨fun _ _ ha => (nomatch ha), fun _ => ⟨[], rfl⟩⟩
  | a :: as, h => by
    have ih := inputAllowRules_ok fun a' ha' => h a' (List.mem_cons_of_mem _ ha')
    have ha := inputAllowRulesOf_ok (c := c) (h a List.mem_cons_self)
    have hcons : inputAllowRules c (a :: as) = (inputAllowRulesOf c a >>= fun rules => inputAllowRules c as >>= fun rest =>
        .ok (rules ++ rest)) := rfl
    rw [List.forall_mem_cons, ← ih, ← ha, hcons]
    constructor
    · rintro ⟨rules, hrules⟩
      obtain ⟨x, hx, hrules⟩ := bind_ok.mp hrules
      obtain ⟨y, hy, _⟩ := bind_ok.mp hrules
      exact ⟨⟨x, hx⟩, ⟨y, hy⟩⟩
    · rintro ⟨⟨x, hx⟩, ⟨y, hy⟩⟩
      exact ⟨x ++ y, bind_ok.mpr ⟨x, hx, bind_ok.mpr ⟨y, hy, rfl⟩⟩⟩

/-! ## The ruleset -/

/-- The file of an accepted config, from its policies and the rules of its `input_allows`. -/
def rulesetOf (c : Config) (ord : MapOrder) (paused : List Nat) (routes : List RoutePolicy) (allows : List Rule) : Script :=
  [.comment "Generated by evuproxy — do not edit. Regenerate with: evuproxy reload", .blank,
      .addTable "inet" "evuproxy", .deleteTable "inet" "evuproxy",
      .table (filterTable c (tableSets c ord true) routes allows), .blank,
      .addTable "ip" "evuproxy", .deleteTable "ip" "evuproxy", .table (natTable c (tableSets c ord false) routes paused)] ++
    writeRouteAcceptedTable c.network.publicInterface c.wireGuard.interface routes

/-- `NFTables` of an accepted config gives `rulesetOf`, as soon as the rules of its `input_allows` can be written. -/
theorem Checked.rulesetScript (h : Checked c) : rulesetScript c ord paused = (do
    let routes ← EvuProxy.routePolicies c
    let allows ← inputAllowRules c c.inputAllows
    return rulesetOf c ord paused routes allows) := by
  unfold EvuProxy.rulesetScript
  rw [h.emitTableSets, h.emitTableSets]
  rfl

/-- An accepted config renders exactly when the protocols of its `input_allows` can be read. -/
theorem Checked.renders (h : Checked c) : (∃ s, EvuProxy.rulesetScript c ord paused = .ok s) ↔ InputProtosKnown c := by
  have hallows := inputAllowRules_ok (c := c) h.inputAllows
  unfold InputProtosKnown
  rw [← hallows]
  constructor
  · rintro ⟨s, hs⟩
    rw [h.rulesetScript] at hs
    obtain ⟨_, _, hs⟩ := bind_ok.mp hs
    obtain ⟨allows, hok, _⟩ := bind_ok.mp hs
    exact ⟨allows, hok⟩
  · rintro ⟨allows, hok⟩
    obtain ⟨routes, hroutes⟩ := h.routePolicies
    refine ⟨rulesetOf c ord paused routes allows, ?_⟩
    rw [h.rulesetScript, hroutes, hok]
    rfl

end EvuProxy

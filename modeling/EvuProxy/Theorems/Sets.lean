import EvuProxy.Apply.Generate
import EvuProxy.Apply.Sample
import EvuProxy.Gen.Words

/-!
# Every set is declared once

The tables of a ruleset declare one set for each use, and their rules and the geo loader name the sets of these uses. What can go
wrong is a name: the operator chooses that of the global geo set, and nothing keeps it apart from the others.
-/

namespace EvuProxy

open Go Nft Fault Fault.Prog

variable {c : Config} {ord : MapOrder}

/-! ## The sets that the rules of a table name -/

/-- The name of a set that the filter table declares. -/
def InFilter (c : Config) (n : String) : Prop := ∃ u, UsesSet c u ∧ u.name c = n

/-- The name of a set that the nat table declares. -/
def InNat (c : Config) (n : String) : Prop := ∃ u, UsesSet c u ∧ u.kind ∈ natKinds ∧ u.name c = n

theorem setNameIf_eq_some {name s : String} {cidrs : List String} (h : setNameIf name cidrs = some s) :
    normalizedRouteSourceElems cidrs ≠ [] ∧ name = s := by
  unfold setNameIf at h
  split at h
  · cases h
  · exact ⟨‹_›, Option.some.inj h⟩

theorem routeGeoMode_custom {r : ForwardRoute} (h : routeGeoMode r = "custom") : toLower (trimSpace r.geoMode) = "custom" := by
  unfold routeGeoMode at h
  dsimp only at h
  split at h
  · exact absurd h (by decide)
  · exact h

theorem geoParams_use {i : Nat} {r : ForwardRoute} (hr : (i, r) ∈ activeRoutes c) (h : (routeGeoParamsFor c i r).enabled = true) :
    ∃ u, UsesSet c u ∧ u.kind ∈ natKinds ∧ u.name c = (routeGeoParamsFor c i r).setName := by
  unfold routeGeoParamsFor at h ⊢
  by_cases hoff : routeGeoMode r = "off" ∨ ¬c.geo.enabled
  · rw [if_pos hoff] at h
    cases h
  · rw [if_neg hoff]
    have hon : c.geo.enabled = true := not_not.mp (not_or.mp hoff).2
    by_cases hcustom : routeGeoMode r = "custom"
    · rw [if_pos hcustom]
      exact ⟨.routeGeo i, ⟨hon, r, hr, routeGeoMode_custom hcustom⟩, by simp [SetUse.kind, natKinds], rfl⟩
    · rw [if_neg hcustom]
      exact ⟨.geo, hon, by simp [SetUse.kind, natKinds], rfl⟩

theorem inNat_of_setNameIf {u : SetUse} {name s : String} {cidrs : List String} (h : setNameIf name cidrs = some s)
    (hname : u.name c = name) (hkind : u.kind ∈ natKinds) (hu : normalizedRouteSourceElems cidrs ≠ [] → UsesSet c u) : InNat c s := by
  obtain ⟨hne, heq⟩ := setNameIf_eq_some h
  exact ⟨u, hu hne, hkind, hname.trans heq⟩

theorem policyOf_geo {i : Nat} {r : ForwardRoute} {dnat : List RouteDNATLine} {p : Proto} :
    (policyOf c i r dnat p).geo = routeGeoParamsFor c i r := by
  dsimp only [policyOf]

theorem policySets_policyOf {i : Nat} {r : ForwardRoute} {dnat : List RouteDNATLine} {p : Proto} (hr : (i, r) ∈ activeRoutes c) :
    PolicyWords (setsOnly (InNat c)) (policyOf c i r dnat p) := by
  refine ⟨fun s hs => ?_, fun s hs => ?_, fun s hs => ?_, fun s hs => ?_, fun hen => ?_, fun _ _ => ⟨trivial, trivial, fun _ _ => trivial⟩⟩
  · have hs : setNameIf (routeSrcSetName i) r.sourceAllowCIDRs = some s := hs
    exact inNat_of_setNameIf (u := .routeSrc i) hs rfl (by simp [SetUse.kind, natKinds]) fun hne => ⟨r, hr, hne⟩
  · have hs : setNameIf (routeDenySetName i) r.sourceDenyCIDRs = some s := hs
    exact inNat_of_setNameIf (u := .routeDeny i) hs rfl (by simp [SetUse.kind, natKinds]) fun hne => ⟨r, hr, hne⟩
  · have hs : setNameIf setGlobalDeny c.forwarding.sourceDenyCIDRs = some s := hs
    exact inNat_of_setNameIf (u := .globalDeny) hs rfl (by decide) fun hne => hne
  · have hs : setNameIf setBreakGlass c.geo.breakGlassCIDRs = some s := hs
    exact inNat_of_setNameIf (u := .breakGlass) hs rfl (by decide) fun hne => hne
  · rw [policyOf_geo] at hen ⊢
    exact geoParams_use hr hen

/-- The policies name sets that the nat table declares, as far as they name any there. -/
theorem policySets_nat {routes : List RoutePolicy} (h : routePolicies c = .ok routes) : ∀ q ∈ routes, PolicyWords (setsOnly (InNat c)) q := by
  intro q hq
  obtain ⟨i, r, _, _, hr, _, _, _, heq⟩ := mem_routePolicies h hq
  rw [heq]
  exact policySets_policyOf hr

theorem InNat.inFilter {n : String} : InNat c n → InFilter c n := fun ⟨u, hu, _, hn⟩ => ⟨u, hu, hn⟩

/-- The policies name sets that the filter table declares. -/
theorem policySets_filter {routes : List RoutePolicy} (h : routePolicies c = .ok routes) : ∀ q ∈ routes, FilterWords (setsOnly (InFilter c)) q := by
  intro q hq
  have hnat := policySets_nat h q hq
  obtain ⟨i, r, protos, _, hr, hprotos, hp, _, heq⟩ := mem_routePolicies h hq
  refine {
    srcAllow := fun s hs => (hnat.srcAllow s hs).inFilter
    srcDeny := fun s hs => (hnat.srcDeny s hs).inFilter
    globalDeny := fun s hs => (hnat.globalDeny s hs).inFilter
    breakGlass := fun s hs => (hnat.breakGlass s hs).inFilter
    geo := fun hen => (hnat.geo hen).inFilter
    dnat := fun _ _ => ⟨trivial, trivial, fun _ _ => trivial⟩
    target := trivial
    portExpr := trivial
    forwardDport := trivial
    forwardOrig := fun _ _ => trivial
    crowdsec := fun s hs => ?_, conn := fun hn => ?_, syn := fun s hs => ?_, udp := fun s hs => ?_ }
  · rw [heq] at hs
    unfold policyOf crowdsecSetName at hs
    dsimp only at hs
    split at hs
    · exact ⟨.crowdsec, ‹_›, Option.some.inj hs⟩
    · cases hs
  · refine ⟨.conn q.routeIndex q.proto, ?_, rfl⟩
    rw [heq] at hn ⊢
    refine ⟨r, protos, hr, hprotos, hp, ?_⟩
    unfold rateLimitBindingForRoute policyOf at hn
    dsimp only at hn
    split at hn
    · exact .inl hn
    · exact .inr hn
  · rw [heq] at hs
    unfold rateLimitBindingForRoute policyOf at hs
    dsimp only at hs
    split at hs
    · exact ⟨.routeSyn i, ⟨r, hr, ‹_›⟩, Option.some.inj hs⟩
    · split at hs
      · exact ⟨.syn, ‹_›, Option.some.inj hs⟩
      · cases hs
  · rw [heq] at hs
    unfold rateLimitBindingForRoute policyOf at hs
    dsimp only at hs
    split at hs
    · exact ⟨.routeUDP i, ⟨r, hr, ‹_›⟩, Option.some.inj hs⟩
    · split at hs
      · exact ⟨.udp, ‹_›, Option.some.inj hs⟩
      · cases hs

/-- The sets that the chains of the filter table name are among those that it declares. -/
theorem configWords_filter {routes : List RoutePolicy} (h : routePolicies c = .ok routes) :
    ConfigWords (setsOnly (InFilter c)) c routes where
  loopback := trivial
  pub := trivial
  wg := trivial
  geo hon := ⟨.geo, hon, rfl⟩
  breakGlass s hs := by
    obtain ⟨hne, rfl⟩ := setNameIf_eq_some hs
    exact ⟨.breakGlass, hne, rfl⟩
  inputAllows _ _ _ := trivial
  adminPorts _ _ := trivial
  listenPort := trivial
  localCIDRs _ _ := trivial
  routes := policySets_filter h

/-! ## The tables -/

/-- The names that a table of the ruleset declares are those of the uses of its kinds. -/
structure Declares (c : Config) (ord : MapOrder) (kinds : List (Fin 12)) (t : Table) : Prop where
  nodup : kinds.Nodup
  names : t.declaredSets = (usesOfKinds c ord kinds).map (SetUse.name c)
  used : ∀ n ∈ t.usedSets, ∃ u, UsesSet c u ∧ u.kind ∈ kinds ∧ u.name c = n

theorem inFilter_iff {n : String} : InFilter c n ↔ ∃ u, UsesSet c u ∧ u.kind ∈ filterKinds ∧ u.name c = n := by
  have hall : ∀ k : Fin 12, k ∈ filterKinds := by decide
  exact ⟨fun ⟨u, hu, hn⟩ => ⟨u, hu, hall _, hn⟩, fun ⟨u, hu, _, hn⟩ => ⟨u, hu, hn⟩⟩

theorem filterTable_declares {routes : List RoutePolicy} {allows : List Rule} (hroutes : routePolicies c = .ok routes)
    (hallows : inputAllowRules c c.inputAllows = .ok allows) :
    Declares c ord filterKinds (filterTable c (tableSets c ord true) routes allows) where
  nodup := by decide
  names := filterSets_names
  used := by
    intro n hn
    exact inFilter_iff.mp (worded_usedSets.mpr ((configWords_filter hroutes).filterChains hallows) n hn)

theorem natTable_declares {routes : List RoutePolicy} {paused : List Nat} (hroutes : routePolicies c = .ok routes) :
    Declares c ord natKinds (natTable c (tableSets c ord false) routes paused) where
  nodup := by decide
  names := natSets_names
  used := worded_usedSets.mpr (worded_natChains (policySets_nat hroutes) (fun _ _ => trivial) trivial)

theorem routeAccepted_declares {pub wg : String} {routes : List RoutePolicy} {t : Table}
    (h : .table t ∈ writeRouteAcceptedTable pub wg routes) : Declares c ord [] t := by
  have hplace : ∀ q ∈ routes, PlaceWords (setsOnly fun _ => False) q := fun _ _ => ⟨trivial, trivial, trivial, fun _ _ => trivial⟩
  obtain ⟨hsets, hchains⟩ := worded_acceptedTable hplace trivial trivial h
  refine ⟨List.nodup_nil, ?_, fun n hn => (worded_usedSets.mpr hchains n hn).elim⟩
  rw [Table.declaredSets, hsets]
  rfl

/-- Each table of the ruleset of an accepted config declares the sets of some kinds. -/
theorem Checked.declares (h : Checked c) {s : Script} {paused : List Nat} (hs : EvuProxy.rulesetScript c ord paused = .ok s) {t : Table}
    (ht : .table t ∈ s) : ∃ kinds, Declares c ord kinds t := by
  rw [h.rulesetScript] at hs
  obtain ⟨routes, hroutes, hs⟩ := bind_ok.mp hs
  obtain ⟨allows, hallows, hs⟩ := bind_ok.mp hs
  obtain rfl := Except.ok.inj hs
  unfold rulesetOf at ht
  simp only [List.cons_append, List.nil_append, List.mem_cons, reduceCtorEq, false_or, Command.table.injEq] at ht
  rcases ht with rfl | rfl | ht
  · exact ⟨_, filterTable_declares hroutes hallows⟩
  · exact ⟨_, natTable_declares hroutes⟩
  · exact ⟨_, routeAccepted_declares ht⟩

/-! ## The sets that the loader fills -/

theorem geoLoaderSet_fills {set : String} {elems : List String} {com : Command} (hcom : com ∈ geoLoaderSet set elems) {f t n : String}
    (h : com.fills = some (f, t, n)) : (f = "inet" ∨ f = "ip") ∧ t = "evuproxy" ∧ n = set := by
  unfold geoLoaderSet at hcom
  simp only [List.flatMap_cons, List.flatMap_nil, List.append_nil, List.cons_append, List.nil_append, List.mem_cons, List.not_mem_nil,
    or_false] at hcom
  rcases hcom with rfl | rfl | rfl | rfl <;> cases h <;> simp

theorem routeGeoLoaders_fills {Γ : Ctx} {dir : String} : ∀ {rs : List (Nat × ForwardRoute)} {l : Script},
    (routeGeoLoaders dir rs : App Γ Script).CanReturn l → ∀ com ∈ l, ∀ f t n, com.fills = some (f, t, n) →
      (f = "inet" ∨ f = "ip") ∧ t = "evuproxy" ∧ ∃ p ∈ rs, n = routeGeoSetName p.1
  | [], l, h, com, hcom, _, _, _, _ => by
    obtain rfl : [] = l := canReturn_ret.1 h
    cases hcom
  | (i, r) :: rs, l, h, com, hcom, f, t, n, hfills => by
    unfold routeGeoLoaders at h
    obtain ⟨elems, _, h⟩ := canReturn_bind.1 h
    by_cases hempty : elems = []
    · rw [if_pos hempty] at h
      exact absurd h canReturn_fail
    · rw [if_neg hempty] at h
      obtain ⟨rest, hrest, h⟩ := canReturn_bind.1 h
      obtain rfl := canReturn_ret.1 h
      rcases List.mem_append.mp hcom with hcom | hcom
      · obtain ⟨hf, ht, rfl⟩ := geoLoaderSet_fills hcom hfills
        exact ⟨hf, ht, (i, r), List.mem_cons_self, rfl⟩
      · obtain ⟨hf, ht, p, hp, hn⟩ := routeGeoLoaders_fills hrest com hcom f t n hfills
        exact ⟨hf, ht, p, List.mem_cons_of_mem _ hp, hn⟩

/-- A mode that folds to `custom` is `custom` for the rules too, since a route has one of three modes. -/
theorem RouteChecked.custom {i : Nat} {r : ForwardRoute} (h : RouteChecked c i r) (hfold : equalFold (trimSpace r.geoMode) "custom") :
    toLower (trimSpace r.geoMode) = "custom" := by
  have hlen : (trimSpace r.geoMode).toList.length = 6 := by
    have hmap := congrArg List.length (beq_iff_eq.mp hfold)
    rw [List.length_map, List.length_map] at hmap
    rw [hmap]
    decide
  have hlower : (toLower (trimSpace r.geoMode)).toList.length = 6 := by
    rw [toLower, String.toList_ofList, List.length_map, hlen]
  have hmode := h.geoMode
  unfold validateRouteGeoMode routeGeoMode at hmode
  dsimp only at hmode
  by_cases hempty : toLower (trimSpace r.geoMode) = ""
  · rw [hempty] at hlower
    exact absurd hlower (by decide)
  · rw [if_neg hempty] at hmode
    have hthree := (ite_errorf_ok.mp hmode).1
    by_contra hne
    refine hthree ⟨fun he => ?_, fun he => ?_, hne⟩
    · rw [he] at hlower
      exact absurd hlower (by decide)
    · rw [he] at hlower
      exact absurd hlower (by decide)

/-- What the loader of an accepted config fills, it fills in the two tables, for a geo set in use. -/
theorem Checked.loader (h : Checked c) {Γ : Ctx} {l : Script} (hl : (geoLoaderScript c : App Γ Script).CanReturn l) {com : Command}
    (hcom : com ∈ l) {f t n : String} (hfills : com.fills = some (f, t, n)) :
    (f = "inet" ∨ f = "ip") ∧ t = "evuproxy" ∧ ∃ u, UsesSet c u ∧ u.isGeo = true ∧ u.kind ∈ natKinds ∧ u.name c = n := by
  unfold geoLoaderScript at hl
  by_cases hon : c.geo.enabled = true
  · rw [if_neg (not_not.mpr hon)] at hl
    obtain ⟨elems, _, hl⟩ := canReturn_bind.1 hl
    by_cases hempty : elems = []
    · rw [if_pos hempty] at hl
      exact absurd hl canReturn_fail
    · rw [if_neg hempty] at hl
      obtain ⟨loaders, hloaders, hl⟩ := canReturn_bind.1 hl
      obtain rfl := canReturn_ret.1 hl
      rw [List.cons_append, List.mem_cons, List.mem_append] at hcom
      rcases hcom with rfl | hcom | hcom
      · cases hfills
      · obtain ⟨hf, ht, rfl⟩ := geoLoaderSet_fills hcom hfills
        exact ⟨hf, ht, .geo, hon, rfl, by decide, rfl⟩
      · obtain ⟨hf, ht, ⟨i, r⟩, hp, rfl⟩ := routeGeoLoaders_fills hloaders com hcom f t n hfills
        obtain ⟨hr, hfold⟩ := List.mem_filter.mp hp
        exact ⟨hf, ht, .routeGeo i, ⟨hon, r, hr, (h.active hr).custom hfold⟩, rfl, by simp [SetUse.kind, natKinds], rfl⟩
  · rw [if_pos hon] at hl
    exact absurd hl canReturn_fail

/-! ## Names that are not free -/

/-- The sets of a config fit together. -/
structure SetsFit (c : Config) : Prop where
  /-- Sets with different purposes have different names. -/
  purposes : ∀ ord s, rulesetScript c ord [] = .ok s → ∀ u v, UsesSet c u → UsesSet c v → u.name c = v.name c → u = v
  /-- No table declares a name twice. -/
  once : ∀ ord s t, rulesetScript c ord [] = .ok s → .table t ∈ s → t.declaredSets.Nodup
  /-- Every set that a rule of a table names is declared in the table. -/
  declared : ∀ ord s t, rulesetScript c ord [] = .ok s → .table t ∈ s → ∀ n ∈ t.usedSets, n ∈ t.declaredSets
  /-- Every set that the loader fills is declared in the table that the loader names, and is a geo set. -/
  loader : ∀ (Γ : Ctx) l ord s, (geoLoaderScript c : App Γ Script).CanReturn l → rulesetScript c ord [] = .ok s →
    ∀ com ∈ l, ∀ family table n, com.fills = some (family, table, n) →
      (∃ t, .table t ∈ s ∧ t.family = family ∧ t.name = table ∧ n ∈ t.declaredSets) ∧
        ∀ u, UsesSet c u → u.name c = n → u.isGeo = true

/-- The name of the global geo set is none that the sets of a route have. -/
structure RouteNamesFree (c : Config) (i : Nat) (r : ForwardRoute) : Prop where
  src : normalizedRouteSourceElems r.sourceAllowCIDRs ≠ [] → c.geo.effectiveSetName ≠ routeSrcSetName i
  deny : normalizedRouteSourceElems r.sourceDenyCIDRs ≠ [] → c.geo.effectiveSetName ≠ routeDenySetName i
  geo : toLower (trimSpace r.geoMode) = "custom" → c.geo.effectiveSetName ≠ routeGeoSetName i
  syn : 0 < r.rateLimit.tcpSynPerSecond → c.geo.effectiveSetName ≠ rateLimitSynSetRoute i
  udp : 0 < r.rateLimit.udpPerSecond → c.geo.effectiveSetName ≠ rateLimitUDPSetRoute i
  conn : 0 < r.rateLimit.maxConnPerIP ∨ 0 < c.forwarding.rateLimit.maxConnPerIP →
    ∀ protos, parseRouteProtocols r.proto = .ok protos → ∀ p ∈ protos, c.geo.effectiveSetName ≠ rateLimitConnSet i p

/-- The name that the operator gives the global geo set is none that another set of the config has. -/
structure GeoNameFree (c : Config) : Prop where
  crowdsec : c.crowdSecEnabled = true → c.geo.effectiveSetName ≠ setCrowdsecBlock
  breakGlass : normalizedRouteSourceElems c.geo.breakGlassCIDRs ≠ [] → c.geo.effectiveSetName ≠ setBreakGlass
  globalDeny : normalizedRouteSourceElems c.forwarding.sourceDenyCIDRs ≠ [] → c.geo.effectiveSetName ≠ setGlobalDeny
  syn : 0 < c.forwarding.rateLimit.tcpSynPerSecond → c.geo.effectiveSetName ≠ setRateLimitSyn
  udp : 0 < c.forwarding.rateLimit.udpPerSecond → c.geo.effectiveSetName ≠ setRateLimitUDP
  routes : ∀ p ∈ activeRoutes c, RouteNamesFree c p.1 p.2

theorem geoNameFree_iff (hon : c.geo.enabled = true) :
    GeoNameFree c ↔ ∀ u, UsesSet c u → u ≠ .geo → c.geo.effectiveSetName ≠ u.name c := by
  constructor
  · intro h u hu hne
    cases u with
    | geo => exact absurd rfl hne
    | crowdsec => exact h.crowdsec hu
    | breakGlass => exact h.breakGlass hu
    | globalDeny => exact h.globalDeny hu
    | syn => exact h.syn hu
    | udp => exact h.udp hu
    | routeSrc i =>
      obtain ⟨r, hr, hlist⟩ := hu
      exact (h.routes (i, r) hr).src hlist
    | routeDeny i =>
      obtain ⟨r, hr, hlist⟩ := hu
      exact (h.routes (i, r) hr).deny hlist
    | routeGeo i =>
      obtain ⟨_, r, hr, hmode⟩ := hu
      exact (h.routes (i, r) hr).geo hmode
    | routeSyn i =>
      obtain ⟨r, hr, hlimit⟩ := hu
      exact (h.routes (i, r) hr).syn hlimit
    | routeUDP i =>
      obtain ⟨r, hr, hlimit⟩ := hu
      exact (h.routes (i, r) hr).udp hlimit
    | conn i proto =>
      obtain ⟨r, protos, hr, hprotos, hp, hlimit⟩ := hu
      exact (h.routes (i, r) hr).conn hlimit protos hprotos proto hp
  · intro h
    refine ⟨fun hu => h .crowdsec hu nofun, fun hu => h .breakGlass hu nofun, fun hu => h .globalDeny hu nofun,
      fun hu => h .syn hu nofun, fun hu => h .udp hu nofun, fun p hr => ?_⟩
    exact {
      src := fun hlist => h (.routeSrc p.1) ⟨p.2, hr, hlist⟩ nofun
      deny := fun hlist => h (.routeDeny p.1) ⟨p.2, hr, hlist⟩ nofun
      geo := fun hmode => h (.routeGeo p.1) ⟨hon, p.2, hr, hmode⟩ nofun
      syn := fun hlimit => h (.routeSyn p.1) ⟨p.2, hr, hlimit⟩ nofun
      udp := fun hlimit => h (.routeUDP p.1) ⟨p.2, hr, hlimit⟩ nofun
      conn := fun hlimit protos hprotos q hq => h (.conn p.1 q) ⟨p.2, protos, hr, hprotos, hq, hlimit⟩ nofun }

/-- The uses of a config have names of their own, if that of the global geo set is free. -/
theorem name_injOn (hfree : c.geo.enabled = true → GeoNameFree c) {u v : SetUse} (hu : UsesSet c u) (hv : UsesSet c v)
    (h : u.name c = v.name c) : u = v := by
  by_cases hgu : u = .geo
  · subst hgu
    by_contra hne
    exact (geoNameFree_iff hu).mp (hfree hu) v hv (fun he => hne he.symm) h
  · by_cases hgv : v = .geo
    · subst hgv
      exact absurd h.symm ((geoNameFree_iff hv).mp (hfree hv) u hu hgu)
    · exact SetUse.name_inj hgu hgv h

/-- A table declares every name once, if the names of the uses differ. -/
theorem Declares.once {kinds : List (Fin 12)} {t : Table} (h : Declares c ord kinds t)
    (hinj : ∀ u v, UsesSet c u → UsesSet c v → u.name c = v.name c → u = v) : t.declaredSets.Nodup := by
  rw [h.names]
  refine List.Nodup.map_on (fun u hu v hv heq => ?_) (nodup_usesOfKinds h.nodup)
  exact hinj u v (mem_usesOfKinds.mp hu).1 (mem_usesOfKinds.mp hv).1 heq

theorem Declares.mem {kinds : List (Fin 12)} {t : Table} (h : Declares c ord kinds t) {u : SetUse} (hu : UsesSet c u)
    (hkind : u.kind ∈ kinds) : u.name c ∈ t.declaredSets := by
  rw [h.names]
  exact List.mem_map_of_mem (mem_usesOfKinds.mpr ⟨hu, hkind⟩)

/-- The table of each family that the loader names is in the ruleset, and declares the sets of the nat table. -/
theorem Checked.loaderTable (h : Checked c) {s : Script} (hs : EvuProxy.rulesetScript c ord [] = .ok s) {f : String}
    (hf : f = "inet" ∨ f = "ip") : ∃ t kinds, .table t ∈ s ∧ t.family = f ∧ t.name = "evuproxy" ∧ Declares c ord kinds t ∧
      ∀ k ∈ natKinds, k ∈ kinds := by
  rw [h.rulesetScript] at hs
  obtain ⟨routes, hroutes, hs⟩ := bind_ok.mp hs
  obtain ⟨allows, hallows, hs⟩ := bind_ok.mp hs
  obtain rfl := Except.ok.inj hs
  rcases hf with rfl | rfl
  · exact ⟨_, _, by simp [rulesetOf], rfl, rfl, filterTable_declares hroutes hallows, by decide⟩
  · exact ⟨natTable c (tableSets c ord false) routes [], _, by simp [rulesetOf], rfl, rfl, natTable_declares hroutes, fun _ hk => hk⟩

/-- A config whose operator calls the global geo set by the name of the set of CrowdSec's bans. -/
def Sample.geoNameTaken : Config :=
  { Sample.config 1 false with
    crowdSecEnabled := true
    geo := { enabled := true, mode := "allow", setName := "crowdsec_block_v4", countries := ["de"], zoneDir := "/zones" } }

end EvuProxy

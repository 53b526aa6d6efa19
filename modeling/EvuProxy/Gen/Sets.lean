import Mathlib.Data.List.Dedup
import EvuProxy.Gen.Rendered
import EvuProxy.Go.Numeral

/-!
# The sets of a ruleset and what they are for

A set is declared for one use: the global geo policy, the bans of CrowdSec, a list of sources of one route, a limit. `SetUse` names the
uses, `UsesSet` says which of them a config makes, and a table declares one set for each.
-/

namespace EvuProxy

open Go Nft

variable {c : Config} {ord : MapOrder}

/-- What a set is for. -/
inductive SetUse where
  | geo
  | crowdsec
  | breakGlass
  | globalDeny
  | routeSrc (i : Nat)
  | routeDeny (i : Nat)
  | routeGeo (i : Nat)
  | syn
  | udp
  | routeSyn (i : Nat)
  | routeUDP (i : Nat)
  | conn (i : Nat) (proto : Proto)
  deriving DecidableEq

namespace SetUse

/-- The name of the set for a use. -/
def name (c : Config) : SetUse → String
  | .geo => c.geo.effectiveSetName
  | .crowdsec => setCrowdsecBlock
  | .breakGlass => setBreakGlass
  | .globalDeny => setGlobalDeny
  | .routeSrc i => routeSrcSetName i
  | .routeDeny i => routeDenySetName i
  | .routeGeo i => routeGeoSetName i
  | .syn => setRateLimitSyn
  | .udp => setRateLimitUDP
  | .routeSyn i => rateLimitSynSetRoute i
  | .routeUDP i => rateLimitUDPSetRoute i
  | .conn i proto => rateLimitConnSet i proto

/-- A set of addresses of countries. -/
def isGeo : SetUse → Bool
  | .geo => true
  | .routeGeo _ => true
  | _ => false

/-- The place of a use in the order in which a table declares its sets. -/
def kind : SetUse → Fin 12
  | .geo => 0
  | .crowdsec => 1
  | .breakGlass => 2
  | .globalDeny => 3
  | .routeSrc _ => 4
  | .routeDeny _ => 5
  | .routeGeo _ => 6
  | .syn => 7
  | .udp => 8
  | .routeSyn _ => 9
  | .routeUDP _ => 10
  | .conn _ _ => 11

/-- What the names of a kind start with; the operator chooses that of the first kind. -/
def prefixes : List String :=
  ["", setCrowdsecBlock, setBreakGlass, setGlobalDeny, "route_src_", "route_deny_", "route_geo_", setRateLimitSyn, setRateLimitUDP,
    "ratelimit_syn_r", "ratelimit_udp_r", "ratelimit_conn_r"]

def start (k : Fin 12) : String := prefixes.get k

/-- What follows the start of a name. -/
def rest : SetUse → String
  | .routeSrc i => toString i
  | .routeDeny i => toString i
  | .routeGeo i => toString i
  | .routeSyn i => toString i
  | .routeUDP i => toString i
  | .conn i proto => toString i ++ "_" ++ proto.text
  | _ => ""

theorem name_eq {u : SetUse} (h : u ≠ .geo) : u.name c = start u.kind ++ u.rest := by
  cases u with
  | geo => exact absurd rfl h
  | conn i proto =>
    show "ratelimit_conn_r" ++ toString i ++ "_" ++ proto.text = "ratelimit_conn_r" ++ (toString i ++ "_" ++ proto.text)
    simp only [String.append_assoc]
  | _ => rfl

/-- No start of a name is the start of another, but for the first. -/
theorem start_inj : ∀ k l : Fin 12, k ≠ 0 → l ≠ 0 → (start k).toList <+: (start l).toList → k = l := by
  decide +kernel

theorem conn_rest_inj {i j : Nat} {p q : Proto} (h : toString i ++ "_" ++ p.text = toString j ++ "_" ++ q.text) : i = j ∧ p = q := by
  have hlist := congrArg String.toList h
  have hunder : "_".toList = ['_'] := by decide
  simp only [String.toList_append, hunder, List.append_assoc, List.singleton_append] at hlist
  obtain rfl := numeral_inj (by decide) hlist
  refine ⟨rfl, ?_⟩
  have htext : p.text = q.text := String.toList_inj.mp (List.cons.inj (List.append_cancel_left hlist)).2
  cases p <;> cases q <;> first | rfl | exact absurd htext (by decide)

theorem rest_inj {u v : SetUse} (hkind : u.kind = v.kind) (hrest : u.rest = v.rest) : u = v := by
  cases u <;> cases v <;> first
    | (simp only [kind, Fin.reduceEq] at hkind; done)
    | rfl
    | exact congrArg _ (toString_inj.mp hrest)
    | (obtain ⟨rfl, rfl⟩ := conn_rest_inj hrest; rfl)

/-- The names of two uses differ, unless one of them is the global geo set. -/
theorem name_inj {u v : SetUse} (hu : u ≠ .geo) (hv : v ≠ .geo) (h : u.name c = v.name c) : u = v := by
  rw [name_eq hu, name_eq hv] at h
  have hlist : (start u.kind).toList ++ u.rest.toList = (start v.kind).toList ++ v.rest.toList := by
    rw [← String.toList_append, ← String.toList_append, h]
  have hku : u.kind ≠ 0 := by cases u <;> first | exact absurd rfl hu | simp [kind]
  have hkv : v.kind ≠ 0 := by cases v <;> first | exact absurd rfl hv | simp [kind]
  have hkind : u.kind = v.kind := by
    rcases List.prefix_or_prefix_of_prefix ⟨_, hlist⟩ ⟨_, rfl⟩ with hpre | hpre
    · exact start_inj _ _ hku hkv hpre
    · exact (start_inj _ _ hkv hku hpre).symm
  have hrest : u.rest = v.rest := by
    rw [hkind] at hlist
    exact String.toList_inj.mp (List.append_cancel_left hlist)
  exact rest_inj hkind hrest

end SetUse

/-! ## The uses that a config makes -/

/-- A config uses a set for `u`. -/
def UsesSet (c : Config) : SetUse → Prop
  | .geo => c.geo.enabled = true
  | .crowdsec => c.crowdSecEnabled = true
  | .breakGlass => normalizedRouteSourceElems c.geo.breakGlassCIDRs ≠ []
  | .globalDeny => normalizedRouteSourceElems c.forwarding.sourceDenyCIDRs ≠ []
  | .routeSrc i => ∃ r, (i, r) ∈ activeRoutes c ∧ normalizedRouteSourceElems r.sourceAllowCIDRs ≠ []
  | .routeDeny i => ∃ r, (i, r) ∈ activeRoutes c ∧ normalizedRouteSourceElems r.sourceDenyCIDRs ≠ []
  | .routeGeo i => c.geo.enabled = true ∧ ∃ r, (i, r) ∈ activeRoutes c ∧ toLower (trimSpace r.geoMode) = "custom"
  | .syn => 0 < c.forwarding.rateLimit.tcpSynPerSecond
  | .udp => 0 < c.forwarding.rateLimit.udpPerSecond
  | .routeSyn i => ∃ r, (i, r) ∈ activeRoutes c ∧ 0 < r.rateLimit.tcpSynPerSecond
  | .routeUDP i => ∃ r, (i, r) ∈ activeRoutes c ∧ 0 < r.rateLimit.udpPerSecond
  | .conn i proto => ∃ r protos, (i, r) ∈ activeRoutes c ∧ parseRouteProtocols r.proto = .ok protos ∧ proto ∈ protos ∧
      (0 < r.rateLimit.maxConnPerIP ∨ 0 < c.forwarding.rateLimit.maxConnPerIP)

/-- The routes that are on with a limit of their own. -/
def ownLimits (c : Config) (limit : RateLimit → Nat) : List Nat :=
  ((activeRoutes c).filter fun p => 0 < limit p.2.rateLimit).map (·.1)

/-- The indexes of the active routes differ. -/
theorem nodup_activeRoutes (c : Config) : ((activeRoutes c).map (·.1)).Nodup := by
  unfold activeRoutes
  rw [List.map_map]
  have hsub : ((c.forwarding.routes.zipIdx.filter fun p => !p.1.disabled).map Prod.snd).Sublist
      (c.forwarding.routes.zipIdx.map Prod.snd) := List.filter_sublist.map _
  have hall : (c.forwarding.routes.zipIdx.map Prod.snd).Nodup := by
    rw [List.zipIdx_map_snd]
    exact List.nodup_range'
  exact hall.sublist hsub

theorem nodup_ownLimits (c : Config) (limit : RateLimit → Nat) : (ownLimits c limit).Nodup :=
  (nodup_activeRoutes c).sublist (List.filter_sublist.map _)

/-- A walk comes to every key once. -/
theorem walkKeys_perm {keys : List Nat} (hnodup : keys.Nodup) (order : List Nat) : (walkKeys keys order).Perm keys := by
  unfold walkKeys
  have hdisj : List.Disjoint (order.dedup.filter (· ∈ keys)) (keys.filter (· ∉ order)) := by
    intro k hfirst hlast
    have hin : k ∈ order := List.mem_dedup.mp (List.mem_filter.mp hfirst).1
    have hout := (List.mem_filter.mp hlast).2
    simp only [decide_eq_true_eq] at hout
    exact hout hin
  have hwalk : (order.dedup.filter (· ∈ keys) ++ keys.filter (· ∉ order)).Nodup :=
    ((List.nodup_dedup order).filter _).append (hnodup.filter _) hdisj
  rw [List.perm_ext_iff_of_nodup hwalk hnodup]
  intro k
  simp only [List.mem_append, List.mem_filter, List.mem_dedup, decide_eq_true_eq]
  constructor
  · rintro (⟨_, h⟩ | ⟨h, _⟩)
    · exact h
    · exact h
  · intro h
    by_cases hk : k ∈ order
    · exact .inl ⟨hk, h⟩
    · exact .inr ⟨h, hk⟩

/-- The protocols that the connection limits of a route are declared for: none when they cannot be read. -/
def connProtos (s : String) : List Proto := match parseRouteProtocols s with
  | .ok protos => protos
  | .error _ => []

theorem mem_connProtos {s : String} {p : Proto} : p ∈ connProtos s ↔ ∃ protos, parseRouteProtocols s = .ok protos ∧ p ∈ protos := by
  unfold connProtos
  cases parseRouteProtocols s with
  | ok protos => simp
  | error e => simp

/-- The uses of one kind, in the order in which a table declares their sets. -/
def usesOfKind (c : Config) (ord : MapOrder) : Fin 12 → List SetUse
  | 0 => if c.geo.enabled then [.geo] else []
  | 1 => if c.crowdSecEnabled then [.crowdsec] else []
  | 2 => if normalizedRouteSourceElems c.geo.breakGlassCIDRs = [] then [] else [.breakGlass]
  | 3 => if normalizedRouteSourceElems c.forwarding.sourceDenyCIDRs = [] then [] else [.globalDeny]
  | 4 => (activeRoutes c).flatMap fun p => if normalizedRouteSourceElems p.2.sourceAllowCIDRs = [] then [] else [.routeSrc p.1]
  | 5 => (activeRoutes c).flatMap fun p => if normalizedRouteSourceElems p.2.sourceDenyCIDRs = [] then [] else [.routeDeny p.1]
  | 6 => if ¬c.geo.enabled then []
    else ((activeRoutes c).filter fun p => toLower (trimSpace p.2.geoMode) = "custom").map fun p => .routeGeo p.1
  | 7 => if 0 < c.forwarding.rateLimit.tcpSynPerSecond then [.syn] else []
  | 8 => if 0 < c.forwarding.rateLimit.udpPerSecond then [.udp] else []
  | 9 => (walkKeys (ownLimits c (·.tcpSynPerSecond)) ord.syn).map .routeSyn
  | 10 => (walkKeys (ownLimits c (·.udpPerSecond)) ord.udp).map .routeUDP
  | 11 => ((activeRoutes c).filter fun p => 0 < p.2.rateLimit.maxConnPerIP ∨ 0 < c.forwarding.rateLimit.maxConnPerIP).flatMap
      fun p => (connProtos p.2.proto).map (.conn p.1)

/-- The elements of a list that is empty under a condition. -/
theorem mem_ite_nil {α : Type} {p : Prop} [Decidable p] {l : List α} {a : α} : a ∈ (if p then [] else l) ↔ ¬p ∧ a ∈ l := by
  by_cases hp : p <;> simp [hp]

theorem mem_ite_list {α : Type} {p : Prop} [Decidable p] {l : List α} {a : α} : a ∈ (if p then l else []) ↔ p ∧ a ∈ l := by
  by_cases hp : p <;> simp [hp]

theorem mem_ownLimits {limit : RateLimit → Nat} {i : Nat} :
    i ∈ ownLimits c limit ↔ ∃ r, (i, r) ∈ activeRoutes c ∧ 0 < limit r.rateLimit := by
  unfold ownLimits
  simp

theorem mem_walk {limit : RateLimit → Nat} {order : List Nat} {i : Nat} :
    i ∈ walkKeys (ownLimits c limit) order ↔ ∃ r, (i, r) ∈ activeRoutes c ∧ 0 < limit r.rateLimit := by
  rw [(walkKeys_perm (nodup_ownLimits c limit) order).mem_iff, mem_ownLimits]

theorem kind_of_mem_usesOfKind {u : SetUse} {k : Fin 12} (h : u ∈ usesOfKind c ord k) : u.kind = k := by
  unfold usesOfKind at h
  split at h <;> simp only [mem_ite_nil, mem_ite_list, List.mem_flatMap, List.mem_map, List.mem_singleton] at h
  case h_5 => obtain ⟨_, _, _, rfl⟩ := h; rfl
  case h_6 => obtain ⟨_, _, _, rfl⟩ := h; rfl
  case h_7 => obtain ⟨_, _, _, rfl⟩ := h; rfl
  case h_10 => obtain ⟨_, _, rfl⟩ := h; rfl
  case h_11 => obtain ⟨_, _, rfl⟩ := h; rfl
  case h_12 => obtain ⟨_, _, _, _, rfl⟩ := h; rfl
  all_goals (obtain ⟨_, rfl⟩ := h; rfl)

/-- A use is among those of its kind exactly when the config makes it. -/
theorem mem_usesOfKind {u : SetUse} {k : Fin 12} : u ∈ usesOfKind c ord k ↔ UsesSet c u ∧ u.kind = k := by
  suffices hown : u ∈ usesOfKind c ord u.kind ↔ UsesSet c u by
    constructor
    · intro h
      have hk := kind_of_mem_usesOfKind h
      exact ⟨hown.mp (hk ▸ h), hk⟩
    · rintro ⟨h, rfl⟩
      exact hown.mpr h
  cases u with
  | conn i proto =>
    simp only [SetUse.kind, usesOfKind, UsesSet, List.mem_flatMap, List.mem_filter, decide_eq_true_eq, List.mem_map,
      mem_connProtos, SetUse.conn.injEq, Prod.exists]
    constructor
    · rintro ⟨_, r, ⟨hr, hlimit⟩, _, ⟨protos, hprotos, hp⟩, rfl, rfl⟩
      exact ⟨r, protos, hr, hprotos, hp, hlimit⟩
    · rintro ⟨r, protos, hr, hprotos, hp, hlimit⟩
      exact ⟨i, r, ⟨hr, hlimit⟩, proto, ⟨protos, hprotos, hp⟩, rfl, rfl⟩
  | _ => simp [SetUse.kind, usesOfKind, UsesSet, mem_walk]

/-- Uses of different routes differ: `index` tells them apart. -/
theorem nodup_flatMap_routes {f : Nat × ForwardRoute → List SetUse} (index : SetUse → Nat) (hnodup : ∀ p, (f p).Nodup)
    (hindex : ∀ p, ∀ u ∈ f p, index u = p.1) {rs : List (Nat × ForwardRoute)} (hrs : rs.Sublist (activeRoutes c)) :
    (rs.flatMap f).Nodup := by
  refine List.nodup_flatMap.mpr ⟨fun p _ => hnodup p, ?_⟩
  have hpair : rs.Pairwise fun p q => p.1 ≠ q.1 := List.pairwise_map.mp ((nodup_activeRoutes c).sublist (hrs.map _))
  refine hpair.imp fun {p q} hne u hp hq => hne ?_
  rw [← hindex p u hp, hindex q u hq]

theorem nodup_protos {s : String} {protos : List Proto} (h : parseRouteProtocols s = .ok protos) : protos.Nodup :=
  List.Nodup.sublist (parseRouteProtocols_ok h).2 (by decide)

theorem nodup_connProtos (s : String) : (connProtos s).Nodup := by
  unfold connProtos
  split
  · exact nodup_protos ‹_›
  · exact List.nodup_nil

theorem nodup_ite {α : Type} {p : Prop} [Decidable p] {l l' : List α} (h : l.Nodup) (h' : l'.Nodup) : (if p then l else l').Nodup := by
  by_cases hp : p
  · rwa [if_pos hp]
  · rwa [if_neg hp]

theorem nodup_usesOfKind (k : Fin 12) : (usesOfKind c ord k).Nodup := by
  have hsingle : ∀ u : SetUse, [u].Nodup := List.nodup_singleton
  have hwalk : ∀ (limit : RateLimit → Nat) order, (walkKeys (ownLimits c limit) order).Nodup := fun limit order =>
    (walkKeys_perm (nodup_ownLimits c limit) order).nodup_iff.mpr (nodup_ownLimits c limit)
  unfold usesOfKind
  split
  case h_5 =>
    refine nodup_flatMap_routes (fun u => match u with | .routeSrc i => i | _ => 0) (fun p => nodup_ite List.nodup_nil (hsingle _))
      (fun p u hu => ?_) (List.Sublist.refl _)
    obtain ⟨_, hu⟩ := mem_ite_nil.mp hu
    rw [List.mem_singleton.mp hu]
  case h_6 =>
    refine nodup_flatMap_routes (fun u => match u with | .routeDeny i => i | _ => 0) (fun p => nodup_ite List.nodup_nil (hsingle _))
      (fun p u hu => ?_) (List.Sublist.refl _)
    obtain ⟨_, hu⟩ := mem_ite_nil.mp hu
    rw [List.mem_singleton.mp hu]
  case h_7 =>
    refine nodup_ite List.nodup_nil ?_
    have hmap : (((activeRoutes c).filter fun p => toLower (trimSpace p.2.geoMode) = "custom").map fun p => SetUse.routeGeo p.1) =
        (((activeRoutes c).filter fun p => toLower (trimSpace p.2.geoMode) = "custom").map (·.1)).map SetUse.routeGeo := by
      rw [List.map_map]
      rfl
    rw [hmap]
    exact List.Nodup.map (fun _ _ h => SetUse.routeGeo.inj h) ((nodup_activeRoutes c).sublist (List.filter_sublist.map _))
  case h_10 => exact (hwalk _ _).map fun _ _ h => SetUse.routeSyn.inj h
  case h_11 => exact (hwalk _ _).map fun _ _ h => SetUse.routeUDP.inj h
  case h_12 =>
    refine nodup_flatMap_routes (fun u => match u with | .conn i _ => i | _ => 0) (fun p => ?_) (fun p u hu => ?_) List.filter_sublist
    · exact (nodup_connProtos p.2.proto).map fun _ _ h => (SetUse.conn.inj h).2
    · obtain ⟨_, _, rfl⟩ := List.mem_map.mp hu
      rfl
  all_goals exact nodup_ite (by simp) (by simp)

/-- The uses of several kinds. -/
def usesOfKinds (c : Config) (ord : MapOrder) (kinds : List (Fin 12)) : List SetUse := kinds.flatMap (usesOfKind c ord)

theorem mem_usesOfKinds {u : SetUse} {kinds : List (Fin 12)} : u ∈ usesOfKinds c ord kinds ↔ UsesSet c u ∧ u.kind ∈ kinds := by
  unfold usesOfKinds
  simp only [List.mem_flatMap, mem_usesOfKind]
  constructor
  · rintro ⟨k, hk, hu, rfl⟩
    exact ⟨hu, hk⟩
  · rintro ⟨hu, hk⟩
    exact ⟨u.kind, hk, hu, rfl⟩

theorem nodup_usesOfKinds {kinds : List (Fin 12)} (h : kinds.Nodup) : (usesOfKinds c ord kinds).Nodup := by
  refine List.nodup_flatMap.mpr ⟨fun k _ => nodup_usesOfKind k, h.imp fun {k l} hne u hk hl => hne ?_⟩
  rw [← kind_of_mem_usesOfKind hk, kind_of_mem_usesOfKind hl]

/-- The kinds of the sets of the filter table, and those of the nat table. -/
def filterKinds : List (Fin 12) := [0, 1, 2, 3, 4, 5, 6, 7, 8, 9, 10, 11]
def natKinds : List (Fin 12) := [0, 2, 3, 4, 5, 6]

theorem map_ite_list {α β : Type} {f : α → β} {p : Prop} [Decidable p] {l l' : List α} :
    (if p then l else l').map f = if p then l.map f else l'.map f := by
  by_cases hp : p
  · rw [if_pos hp, if_pos hp]
  · rw [if_neg hp, if_neg hp]

theorem sourceSet_name {name : String} {cidrs : List String} :
    (sourceSet name cidrs).map (·.name) = if normalizedRouteSourceElems cidrs = [] then [] else [name] := map_ite_list

/-- The global sets of the rate limits, which come before those of the two walks. -/
def globalLimitSets (c : Config) : List SetDecl :=
  (if 0 < c.forwarding.rateLimit.tcpSynPerSecond then [rateSetDecl setRateLimitSyn] else []) ++
    if 0 < c.forwarding.rateLimit.udpPerSecond then [rateSetDecl setRateLimitUDP] else []

/-- The sets of the connection limits, which come after them. -/
def connLimitSets (c : Config) : List SetDecl :=
  (((activeRoutes c).filter fun p => 0 < p.2.rateLimit.maxConnPerIP ∨ 0 < c.forwarding.rateLimit.maxConnPerIP).flatMap fun p =>
    (connProtos p.2.proto).map (rateLimitConnSet p.1)).map fun name => { name := name, flags := "dynamic" }

theorem rateLimitSets_eq : rateLimitSets c ord = globalLimitSets c ++
    (walkKeys (ownLimits c (·.tcpSynPerSecond)) ord.syn).map (fun i => rateSetDecl (rateLimitSynSetRoute i)) ++
    (walkKeys (ownLimits c (·.udpPerSecond)) ord.udp).map (fun i => rateSetDecl (rateLimitUDPSetRoute i)) ++
    connLimitSets c := by
  unfold rateLimitSets connLimitSets
  refine congrArg (_ ++ ·) (congrArg (List.map _) (List.flatMap_congr fun p _ => ?_))
  unfold connProtos
  cases parseRouteProtocols p.2.proto with
  | ok protos => rfl
  | error e => rfl

theorem rateLimitSets_names : (rateLimitSets c ord).map (·.name) = (usesOfKinds c ord [7, 8, 9, 10, 11]).map (SetUse.name c) := by
  rw [rateLimitSets_eq]
  simp only [globalLimitSets, connLimitSets, usesOfKinds, List.flatMap_cons, List.flatMap_nil, usesOfKind, List.map_append,
    List.map_flatMap, map_ite_list, List.map_map, List.map_cons, List.map_nil, List.append_nil, List.append_assoc]
  rfl

/-- The sets of the nat table are those of the uses of its kinds. -/
theorem natSets_names : (tableSets c ord false).map (·.name) = (usesOfKinds c ord natKinds).map (SetUse.name c) := by
  simp only [tableSets, writeRouteCustomGeoSets, usesOfKinds, natKinds, List.flatMap_cons, List.flatMap_nil, usesOfKind,
    List.map_append, List.map_flatMap, map_ite_list, sourceSet_name, List.map_map, List.map_cons, List.map_nil, List.append_nil,
    List.append_assoc, Bool.false_eq_true, false_and, if_false]
  rfl

/-- The sets of the filter table are those of the uses of every kind. -/
theorem filterSets_names : (tableSets c ord true).map (·.name) = (usesOfKinds c ord filterKinds).map (SetUse.name c) := by
  have hsplit : usesOfKinds c ord filterKinds = usesOfKinds c ord [0, 1, 2, 3, 4, 5, 6] ++ usesOfKinds c ord [7, 8, 9, 10, 11] := by
    rw [usesOfKinds, usesOfKinds, usesOfKinds, ← List.flatMap_append]
    rfl
  rw [hsplit, List.map_append, ← rateLimitSets_names]
  simp only [tableSets, writeRouteCustomGeoSets, usesOfKinds, List.flatMap_cons, List.flatMap_nil, usesOfKind,
    List.map_append, List.map_flatMap, map_ite_list, sourceSet_name, List.map_map, List.map_cons, List.map_nil, List.append_nil,
    List.append_assoc, true_and, if_true]
  rfl

end EvuProxy

import EvuProxy.Apply.NextTunnel
import EvuProxy.Gen.InputChain
import EvuProxy.Theorems.Counters

/-!
# The way into the tunnel

A packet comes into the tunnel through two chains: prerouting has to send it to the target of a route, and the forward chain has to accept
it there. Without limits, bans and lists of sources of the routes, both look at nothing but the global lists and the geo set.
-/

namespace EvuProxy

open Go Nft

variable {c : Config} {h h' : Host} {k k' : Packet} {i : Nat} {r : ForwardRoute} {dnat : List RouteDNATLine}

/-! ## The chains of a file -/

theorem chainRules_append {s s' : Script} {family table chain : String} :
    chainRules (s ++ s') family table chain = chainRules s family table chain ++ chainRules s' family table chain := List.flatMap_append ..

/-- The counters are in a table of their own. -/
theorem chainRules_accepted {pub wg chain : String} {routes : List RoutePolicy} (family : String) :
    chainRules (writeRouteAcceptedTable pub wg routes) family "evuproxy" chain = [] := by
  have hname : ¬routeAcceptedTable = "evuproxy" := by decide
  unfold writeRouteAcceptedTable
  split
  · rfl
  · simp [chainRules, hname]

theorem chainRules_prerouting {ord : MapOrder} {paused : List Nat} {routes : List RoutePolicy} {allows : List Rule} :
    chainRules (rulesetOf c ord paused routes allows) "ip" "evuproxy" "prerouting" = writeNATPreroutingRules routes paused := by
  have hchains : ((natTable c (tableSets c ord false) routes paused).chains.filter (·.name = "prerouting")) = [preroutingChain routes paused] := by
    rw [natTable, List.filter_cons_of_pos (by rfl), List.filter_cons_of_neg (by simp [postroutingChain]), List.filter_nil]
  rw [rulesetOf, chainRules_append, chainRules_accepted, List.append_nil]
  simp only [chainRules, List.flatMap_cons, List.flatMap_nil, List.nil_append, List.append_nil]
  rw [if_neg (by simp [filterTable]), if_pos ⟨rfl, rfl⟩, List.nil_append, hchains, List.flatMap_singleton, preroutingChain]

theorem chainRules_forward {ord : MapOrder} {paused : List Nat} {routes : List RoutePolicy} {allows : List Rule} :
    chainRules (rulesetOf c ord paused routes allows) "inet" "evuproxy" "forward" = forwardRules c routes := by
  have hchains : ((filterTable c (tableSets c ord true) routes allows).chains.filter (·.name = "forward")) = [forwardChain c routes] := by
    rw [filterTable, List.filter_cons_of_neg (by simp [inputChain]), List.filter_cons_of_pos (by rfl), List.filter_nil]
  rw [rulesetOf, chainRules_append, chainRules_accepted, List.append_nil]
  simp only [chainRules, List.flatMap_cons, List.flatMap_nil, List.nil_append, List.append_nil]
  rw [if_pos ⟨rfl, rfl⟩, if_neg (by simp [natTable]), List.append_nil, hchains, List.flatMap_singleton, forwardChain]

/-! ## One claimer -/

/-- A port that an active route lists is a port that it claims. -/
theorem Checked.claims_of_listed (hc : Checked c) {p : Nat × ForwardRoute} (hp : p ∈ activeRoutes c) {protos : List Proto} {proto : Proto}
    {port : Nat} (hprotos : parseRouteProtocols p.2.proto = .ok protos) (hproto : proto ∈ protos)
    (hlisted : InTokens port (portTokens p.2.ports)) : Claims p.2 (proto, port) := by
  obtain ⟨hget, hd⟩ := mem_activeRoutes.mp hp
  obtain ⟨ps, hps⟩ := hc.ports_expand hget hd
  exact ⟨protos, ps, hprotos, hps, hproto, (publicPorts_mem hps (hc.active hp).maps _).mpr hlisted⟩

theorem Checked.listed_of_claims (hc : Checked c) {p : Nat × ForwardRoute} (hp : p ∈ activeRoutes c) {proto : Proto} {port : Nat}
    (hclaims : Claims p.2 (proto, port)) : InTokens port (portTokens p.2.ports) := by
  obtain ⟨protos, ps, -, hps, -, hport⟩ := hclaims
  exact (publicPorts_mem hps (hc.active hp).maps _).mp hport

/-- No two active routes claim a port for one protocol. -/
theorem Checked.claims_once (hc : Checked c) {p q : Nat × ForwardRoute} (hp : p ∈ activeRoutes c) (hq : q ∈ activeRoutes c) {k : ProtoPort}
    (hpk : Claims p.2 k) (hqk : Claims q.2 k) : p = q := by
  obtain ⟨hgetp, hdp⟩ := mem_activeRoutes.mp hp
  obtain ⟨hgetq, hdq⟩ := mem_activeRoutes.mp hq
  have hindex : p.1 = q.1 := by
    by_contra hne
    exact hc.claims_apart hgetp hgetq hne hdp hdq hpk hqk
  rw [hindex] at hgetp
  exact Prod.ext hindex (Option.some.inj (hgetp.symm.trans hgetq))

/-- Only the policy of the route that claims its port says anything of a packet in prerouting. -/
theorem Checked.other_policies (hc : Checked c) (halike : PortsAlike c) {qs : List RoutePolicy} (hqs : EvuProxy.routePolicies c = .ok qs)
    (hr : (i, r) ∈ activeRoutes c) (hdnat : buildRouteDNATLines r (normalizedPortTokens r.ports) = .ok dnat)
    (hclaims : Claims r (k.proto, k.dport)) : ∀ q ∈ qs, q ≠ policyOf c i r dnat k.proto → verdict h k (policyRules q) = none := by
  intro q hq hne
  obtain ⟨j, r', protos, dnat', hr', hprotos, hproto, hdnat', heq⟩ := mem_routePolicies hqs hq
  refine verdict_eq_none fun rule hrule => Bool.eq_false_iff.mpr fun hfires => hne ?_
  obtain ⟨hk, l, hl, hhas⟩ := port_of_fires hrule hfires
  rw [heq] at hl
  have hlisted := listed_of_line (hc.active hr') (plainlyRead_active hc halike hr') hdnat' hl hhas
  rw [← hk] at hproto
  obtain heq' := hc.claims_once hr' hr (hc.claims_of_listed hr' hprotos hproto hlisted) hclaims
  obtain ⟨rfl, rfl⟩ := Prod.mk.inj heq'
  obtain rfl := Except.ok.inj (hdnat'.symm.trans hdnat)
  rw [heq, ← hk]

/-! ## Prerouting -/

/-- A route leads to an IPv4 address. -/
theorem RouteChecked.target_v4 (hc : RouteChecked c i r) : ∃ a, parseIP (trimSpace r.targetIP) = some (.v4 a) := by
  obtain ⟨hmem, hne⟩ := List.mem_filter.mp hc.target
  obtain ⟨p, -, hp⟩ := List.mem_map.mp hmem
  rw [← hp] at hne ⊢
  rw [peerTunnelIPv4_eq] at hne ⊢
  cases hip : entryIPv4 (trimSpace p.tunnelIP) with
  | none => simp [hip] at hne
  | some a => exact ⟨a, parseIP_ipv4String (entryIPv4_lt hip)⟩

/-- The policy of a route sends the packets that it lets through to the target of the route, and drops or passes over the others. -/
theorem policy_destination (hc : RouteChecked c i r) (halike : RouteAlike r) (hread : PlainlyRead (portTokens r.ports))
    (hdnat : buildRouteDNATLines r (normalizedPortTokens r.ports) = .ok dnat) (hlisted : InTokens k.dport (portTokens r.ports)) :
    ∃ d, (verdict h k (policyRules (policyOf c i r dnat k.proto))).bind (Verdict.destination k.dport) =
      if (policyOf c i r dnat k.proto).decision h k.src = some true then some (trimSpace r.targetIP, d) else none := by
  obtain ⟨tok, htok⟩ := find_listsPort.mp hlisted
  have hfind := routeLines_find hc.maps k.dport (fun tok htok => ⟨trimmed_of_mem_normalized htok, hread.entry htok⟩) hdnat
  rw [find_entry hread, htok, Option.map_some] at hfind
  obtain ⟨l, hl, hleads⟩ := Option.map_eq_some_iff.mp hfind
  have hd : ∃ d, leadsTo r.portMaps tok k.dport = some d := by
    unfold leadsTo
    split
    · exact ⟨_, rfl⟩
    · rename_i m hm
      split
      · exact ⟨_, rfl⟩
      · rename_i hrange
        exact Option.isSome_iff_exists.mp (halike.numerals m (List.mem_of_find?_eq_some hm) (Bool.eq_false_iff.mpr hrange))
  obtain ⟨d, hd⟩ := hd
  rw [hd, Option.map_some] at hleads
  refine ⟨d, ?_⟩
  rw [verdict_policy (dnat_target_ne hc hdnat) rfl, show (policyOf c i r dnat k.proto).dnat = dnat from rfl, hl, Option.bind_some]
  cases htold : (policyOf c i r dnat k.proto).decision h k.src with
  | none => rfl
  | some through =>
    cases through with
    | false => rfl
    | true =>
      rw [if_pos rfl]
      exact hleads

/-! ## The forward chain -/

/-- A config without CrowdSec, limits and lists of sources of its routes, and out of maintenance mode. -/
structure Bare (c : Config) : Prop where
  crowdsec : c.crowdSecEnabled = false
  maintenance : c.forwarding.maintenanceMode = false
  rate : c.forwarding.rateLimit = {}
  routeRate : ∀ p ∈ activeRoutes c, p.2.rateLimit = {}
  srcAllow : ∀ p ∈ activeRoutes c, p.2.sourceAllowCIDRs = []
  srcDeny : ∀ p ∈ activeRoutes c, p.2.sourceDenyCIDRs = []

/-- The set of the sources that are denied everywhere. -/
def Config.denySet (c : Config) : Option String := setNameIf setGlobalDeny c.forwarding.sourceDenyCIDRs

/-- The policies of a bare config. -/
theorem Bare.policy (hbare : Bare c) {qs : List RoutePolicy} (hqs : routePolicies c = .ok qs) {q : RoutePolicy} (hq : q ∈ qs) :
    q.srcAllow = none ∧ q.srcDeny = none ∧ q.crowdsecSet = none ∧ q.globalRL = {} ∧ q.routeRL = {} ∧ q.globalDeny = c.denySet := by
  obtain ⟨i, r, protos, dnat, hr, -, -, -, heq⟩ := mem_routePolicies hqs hq
  rw [heq]
  refine ⟨?_, ?_, ?_, hbare.rate, hbare.routeRate _ hr, rfl⟩
  · show setNameIf _ r.sourceAllowCIDRs = none
    rw [hbare.srcAllow _ hr]
    rfl
  · show setNameIf _ r.sourceDenyCIDRs = none
    rw [hbare.srcDeny _ hr]
    rfl
  · show crowdsecSetName c.crowdSecEnabled = none
    rw [hbare.crowdsec]
    rfl

theorem rule_verdict_ports {proto : Proto} {m : PortMatch} : Rule.verdict (m.stmts proto) = none := by
  unfold PortMatch.stmts
  cases m.origDport <;> simp [Stmt.verdict]

theorem rule_verdict_wanToTunnel {pub wg : String} : Rule.verdict (wanToTunnel pub wg) = none := by
  simp [wanToTunnel, Stmt.verdict]

/-- The forward chain drops no packet whose source is not denied. -/
theorem Bare.forwardDrops (hbare : Bare c) {qs : List RoutePolicy} (hqs : routePolicies c = .ok qs) (hdeny : inSome h c.denySet k.src = false)
    (pub wg : String) : verdict h k (qs.flatMap (writePolicyForwardDrops pub wg)) = none := by
  have hnone : ∀ q ∈ qs, verdict h k (writePolicyForwardDrops pub wg q) = if false then some .drop else none := by
    intro q hq
    obtain ⟨-, hsrc, hcrowdsec, hglobal, hroute, hset⟩ := hbare.policy hqs hq
    have hlimits : ∀ scope ports, writePolicyRateLimitScoped scope q ports = [] := by
      intro scope ports
      unfold writePolicyRateLimitScoped rateLimitBindingForRoute
      rw [hglobal, hroute]
      cases q.proto <;> rfl
    have hbans : ∀ scope ports, writeCrowdsecDrop scope q ports = [] := by
      intro scope ports
      rw [writeCrowdsecDrop, hcrowdsec]
    unfold writePolicyForwardDrops
    dsimp only
    rw [hbans, hlimits, List.append_nil, List.append_nil, verdict_denyDrops rule_verdict_wanToTunnel rule_verdict_ports, hset, hdeny, hsrc]
    simp [inSome]
  rw [verdict_flatMap (P := fun _ => false) hnone]
  simp

/-- The forward chain accepts a new packet that goes through the accept rule of a policy. -/
theorem Bare.forward_accepts (hbare : Bare c) {qs : List RoutePolicy} (hqs : routePolicies c = .ok qs)
    (hdeny : inSome h c.denySet k.src = false) (hnew : k.ct = .new) {q : RoutePolicy} (hq : q ∈ qs)
    (hfires : Rule.fires h k (forwardAccept c.network.publicInterface c.wireGuard.interface q) = true) :
    verdict h k (forwardRules c qs) = some .accept := by
  have haccept : ∀ q, Rule.verdict (forwardAccept c.network.publicInterface c.wireGuard.interface q) = some .accept := by
    intro q
    simp [forwardAccept, rule_verdict_wanToTunnel, rule_verdict_ports, Stmt.verdict]
  have hlocal : verdict h k ((forwardAllowLocalCIDRs c).flatMap (localForwardRules c.network.publicInterface c.wireGuard.interface)) = none ∨
      verdict h k ((forwardAllowLocalCIDRs c).flatMap (localForwardRules c.network.publicInterface c.wireGuard.interface)) = some .accept := by
    cases hv : verdict h k ((forwardAllowLocalCIDRs c).flatMap (localForwardRules c.network.publicInterface c.wireGuard.interface)) with
    | none => exact .inl rfl
    | some v =>
      obtain ⟨rule, hrule, -, hverdict⟩ := verdict_eq_some hv
      obtain ⟨cidr, -, hrule⟩ := List.mem_flatMap.mp hrule
      refine .inr (hverdict.symm.trans ?_)
      simp only [localForwardRules, List.mem_cons, List.not_mem_nil, or_false] at hrule
      rcases hrule with rfl | rfl <;> rfl
  have hstate : verdict h k [[.ctState [.established, .related], .accept]] = none := by
    rw [verdict_cons, fires_cons, Stmt.matches, hnew]
    rfl
  have haccepts : verdict h k (qs.map (forwardAccept c.network.publicInterface c.wireGuard.interface)) = some .accept := by
    refine verdict_unanimous (fun rule hrule _ => ?_) (List.mem_map_of_mem hq) hfires (haccept q)
    obtain ⟨q', -, rfl⟩ := List.mem_map.mp hrule
    exact .inr (haccept q')
  rw [forwardRules, verdict_append, verdict_append, verdict_append, verdict_append, hbare.forwardDrops hqs hdeny, hstate, haccepts]
  rcases hlocal with hlocal | hlocal
  · rw [hlocal]
    rfl
  · rw [hlocal]
    rfl

/-! ## Both chains -/

/-- The rules of a file send a packet on to a target behind the tunnel and accept it there. The sets of the two tables are those of two
hosts. -/
def Forwarded (c : Config) (s : Script) (h h' : Host) (k : Packet) : Prop :=
  ∃ d k', (verdict h k (chainRules s "ip" "evuproxy" "prerouting")).bind (Verdict.destination k.dport) = some d ∧
    k.sentTo c.wireGuard.interface d = some k' ∧ verdict h' k' (chainRules s "inet" "evuproxy" "forward") = some .accept

/-- The first packet of a connection from the public interface. -/
structure FromOutside (c : Config) (k : Packet) : Prop where
  iif : k.iif = c.network.publicInterface
  new : k.ct = .new
  orig : k.origDport = k.dport

theorem decision_not_denied {q : RoutePolicy} {x : Nat} (hd : q.decision h x = some true) : inSome h q.globalDeny x = false := by
  unfold RoutePolicy.decision at hd
  cases hg : inSome h q.globalDeny x with
  | false => rfl
  | true =>
    rw [hg] at hd
    cases hd

/-- A packet to a public port of a route comes into the tunnel exactly where the policy of the route lets it through. -/
theorem Bare.forwarded_iff (hbare : Bare c) (hv : c.validate = .ok ()) (halike : PortsAlike c) {qs : List RoutePolicy}
    (hqs : routePolicies c = .ok qs) {ord : MapOrder} {allows : List Rule} (hr : (i, r) ∈ activeRoutes c)
    (hdnat : buildRouteDNATLines r (normalizedPortTokens r.ports) = .ok dnat) (hclaims : Claims r (k.proto, k.dport))
    (hout : FromOutside c k) (hdeny : inSome h' c.denySet k.src = inSome h c.denySet k.src) :
    Forwarded c (rulesetOf c ord [] qs allows) h h' k ↔ (policyOf c i r dnat k.proto).decision h k.src = some true := by
  have hc := Config.checked hv
  obtain ⟨protos, dnat', hprotos, hdnat', hpolicies⟩ := policyOf_mem_routePolicies hqs hbare.maintenance hr
  obtain rfl := Except.ok.inj (hdnat'.symm.trans hdnat)
  have hmem : policyOf c i r dnat' k.proto ∈ qs := by
    obtain ⟨protos', -, hprotos', -, hproto, -⟩ := hclaims
    obtain rfl := Except.ok.inj (hprotos'.symm.trans hprotos)
    exact hpolicies _ hproto
  have hrules : writeNATPreroutingRules qs [] = qs.flatMap policyRules := List.flatMap_congr fun q _ => if_neg List.not_mem_nil
  have halone : verdict h k (writeNATPreroutingRules qs []) = verdict h k (policyRules (policyOf c i r dnat' k.proto)) := by
    rw [hrules]
    exact verdict_flatMap_alone hmem (hc.other_policies halike hqs hr hdnat hclaims)
  obtain ⟨d, hd⟩ := @policy_destination c h k i r dnat' (hc.active hr) (halike _ hr) (plainlyRead_active hc halike hr) hdnat
    (hc.listed_of_claims hr hclaims)
  unfold Forwarded
  rw [chainRules_prerouting, chainRules_forward, halone, hd]
  constructor
  · rintro ⟨d', k', hd', -, -⟩
    by_contra hno
    rw [if_neg hno] at hd'
    cases hd'
  · intro hthrough
    rw [if_pos hthrough] at hd ⊢
    obtain ⟨a, ha⟩ := (hc.active hr).target_v4
    have hto : k.sentTo c.wireGuard.interface (trimSpace r.targetIP, d) =
        some { k with oif := c.wireGuard.interface, dst := a, dport := d } := by
      rw [Packet.sentTo, ha]
    refine ⟨_, _, rfl, hto, ?_⟩
    -- The packet is one that a policy sends on, which brings it through the accept rule of its route.
    rw [← halone] at hd
    obtain ⟨v, hverdict, hdest⟩ := Option.bind_eq_some_iff.mp hd
    obtain ⟨pre, q, post, rfl, hpre, hq⟩ := policy_of_verdict hverdict
    have hsent : SentOn c h (pre ++ q :: post) [] q k { k with oif := c.wireGuard.interface, dst := a, dport := d } :=
      { iif := hout.iif
        new := hout.new
        orig := hout.orig
        chain := ⟨pre, post, rfl, hpre⟩
        rewritten := ⟨_, by rw [hq, Option.bind_some, hdest], hto⟩ }
    obtain ⟨hqmem, j, r', dnat'', rfl, hcarried⟩ := hsent.carried hv halike hqs
    have hallow : ∀ h : Host, ((policyOf c j r' dnat'' k.proto).srcAllow.isNone || inSome h (policyOf c j r' dnat'' k.proto).srcAllow k.src) = true := by
      intro h
      rw [(hbare.policy hqs hqmem).1]
      rfl
    have hfires := @Carried.forward c j r' dnat'' h' k _ hcarried (plainlyRead_active hc halike hcarried.active) (hallow h')
    refine hbare.forward_accepts hqs ?_ hout.new hqmem hfires
    show inSome h' c.denySet k.src = false
    rw [hdeny]
    exact decision_not_denied hthrough

end EvuProxy

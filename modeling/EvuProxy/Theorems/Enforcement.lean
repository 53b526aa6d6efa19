import EvuProxy.Theorems.Paused
import EvuProxy.Theorems.WayIn

/-!
# The ruleset enforces the policies of the routes

A new packet from the public interface to a port that a route publishes goes into the tunnel, to the target and the port of that route,
exactly if the route is not paused, its policy lets the source in and its limits are not exceeded. The other routes have no say in it, as
long as none of them that has no port maps publishes the port that the packet is sent on to.
-/

namespace EvuProxy

open Go Nft

/-! ## What the forward chain makes of a policy -/

section forward

variable {h : Host} {k : Packet} {q : RoutePolicy} {scope ports : Rule} {pub wg : String}

/-- A rule that fires matches the ports of its policy. -/
theorem fires_ports_of_drops {rule : Rule} (hrule : rule ∈ writePolicyForwardDrops pub wg q) (hfires : Rule.fires h k rule = true) :
    Rule.fires h k (q.forwardPorts.stmts q.proto) = true := by
  have hsub : ∀ st ∈ q.forwardPorts.stmts q.proto, st ∈ rule := by
    intro st hst
    unfold writePolicyForwardDrops at hrule
    dsimp only at hrule
    rcases List.mem_append.mp hrule with hrule | hrule
    · rcases List.mem_append.mp hrule with hrule | hrule
      · obtain ⟨set, -, hrule⟩ := List.mem_flatMap.mp hrule
        cases set with
        | none => cases hrule
        | some s =>
          rw [List.mem_singleton.mp hrule]
          simp [hst]
      · unfold writeCrowdsecDrop at hrule
        split at hrule
        · cases hrule
        · rw [List.mem_singleton.mp hrule]
          simp [hst]
    · unfold writePolicyRateLimitScoped at hrule
      dsimp only at hrule
      rcases List.mem_append.mp hrule with hrule | hrule
      · rcases List.mem_append.mp hrule with hrule | hrule
        · split at hrule
          · rcases List.mem_cons.mp hrule with rfl | hrule
            · simp [hst]
            · rw [List.mem_singleton.mp hrule]
              simp [hst]
          · cases hrule
        · split at hrule
          · rw [List.mem_singleton.mp hrule]
            simp [hst]
          · cases hrule
      · split at hrule
        · rw [List.mem_singleton.mp hrule]
          simp [hst]
        · cases hrule
  exact List.all_eq_true.mpr fun st hst => matches_of_fires hfires (hsub st hst)

/-- The rules of a policy say nothing of the packets to other ports. -/
theorem forwardDrops_other (hports : Rule.fires h k (q.forwardPorts.stmts q.proto) = false) :
    verdict h k (writePolicyForwardDrops pub wg q) = none := by
  refine verdict_eq_none fun rule hrule => Bool.eq_false_iff.mpr fun hfires => ?_
  rw [fires_ports_of_drops hrule hfires] at hports
  cases hports

theorem forwardAccept_other (hports : Rule.fires h k (q.forwardPorts.stmts q.proto) = false) :
    Rule.fires h k (forwardAccept pub wg q) = false := by
  rw [forwardAccept, fires_append, fires_append, hports, Bool.and_false, Bool.false_and]

/-- The drop of the sources that are listed as hostile. -/
theorem verdict_crowdsecDrop (hscope : Rule.verdict scope = none) (hports : Rule.verdict ports = none) :
    verdict h k (writeCrowdsecDrop scope q ports) =
      if Rule.fires h k scope && Rule.fires h k ports && (inSome h q.crowdsecSet k.src && !inSome h q.breakGlass k.src) then some .drop else none := by
  unfold writeCrowdsecDrop
  cases hset : q.crowdsecSet with
  | none => simp [inSome]
  | some s =>
    have hcounter : Rule.fires h k (counterStmt q.counter) = true := by cases q.counter <;> rfl
    have hin : inSome h (some s) k.src = h.inSet s k.src := rfl
    dsimp only
    rw [verdict_cons, verdict_nil]
    simp only [fires_append, rule_verdict_append, fires_cons, fires_nil, rule_verdict_cons, rule_verdict_nil, hscope, hports, hcounter, hin,
      fires_notFromSet, rule_verdict_notFromSet, rule_verdict_counterStmt, Stmt.matches, Stmt.verdict, Option.none_or, Option.or_none,
      Bool.and_true]
    generalize inSome h q.breakGlass k.src = glass
    generalize h.inSet s k.src = listed
    generalize Rule.fires h k scope = inScope
    generalize Rule.fires h k ports = matched
    cases inScope <;> cases matched <;> cases listed <;> cases glass <;> rfl

/-- What the limits of a policy say of a packet in the forward chain. -/
def limitVerdict (h : Host) (k : Packet) (pub wg : String) (q : RoutePolicy) : Option Verdict :=
  verdict h k (writePolicyRateLimitScoped (wanToTunnel pub wg) q (q.forwardPorts.stmts q.proto))

/-- The drops of a policy say of the packets to its ports what its lists and its limits say. -/
theorem verdict_forwardDrops (hwan : Rule.fires h k (wanToTunnel pub wg) = true)
    (hports : Rule.fires h k (q.forwardPorts.stmts q.proto) = true) : verdict h k (writePolicyForwardDrops pub wg q) =
      if inSome h q.globalDeny k.src || inSome h q.srcDeny k.src || (inSome h q.crowdsecSet k.src && !inSome h q.breakGlass k.src) then some .drop
      else limitVerdict h k pub wg q := by
  rw [writePolicyForwardDrops, verdict_append, verdict_append, verdict_denyDrops rfl rule_verdict_ports,
    verdict_crowdsecDrop rfl rule_verdict_ports, hwan, hports, Bool.and_true, Bool.true_and, Bool.true_and]
  cases inSome h q.globalDeny k.src || inSome h q.srcDeny k.src with
  | true => rfl
  | false => cases inSome h q.crowdsecSet k.src && !inSome h q.breakGlass k.src <;> rfl

/-- The rules of the limits drop. -/
theorem rateLimitScoped_drop {rule : Rule} (hports : Rule.verdict ports = none)
    (hrule : rule ∈ writePolicyRateLimitScoped (wanToTunnel pub wg) q ports) : Rule.verdict rule = some .drop := by
  have hend : ∀ sts : Rule, Rule.verdict sts = none →
      Rule.verdict (wanToTunnel pub wg ++ notFromSet q.breakGlass ++ ports ++ sts ++ rateLimitDrop q.counter) = some .drop := by
    intro sts hsts
    simp [rateLimitDrop, rule_verdict_wanToTunnel, hports, hsts, Stmt.verdict]
  unfold writePolicyRateLimitScoped at hrule
  dsimp only at hrule
  rcases List.mem_append.mp hrule with hrule | hrule
  · rcases List.mem_append.mp hrule with hrule | hrule
    · split at hrule
      · rcases List.mem_cons.mp hrule with rfl | hrule
        · exact hend _ rfl
        · rw [List.mem_singleton.mp hrule]
          exact hend _ rfl
      · cases hrule
    · split at hrule
      · rw [List.mem_singleton.mp hrule]
        exact hend _ rfl
      · cases hrule
  · split at hrule
    · rw [List.mem_singleton.mp hrule]
      exact hend _ rfl
    · cases hrule

/-- The rules of the limits drop, or say nothing. -/
theorem limitVerdict_cases : limitVerdict h k pub wg q = none ∨ limitVerdict h k pub wg q = some .drop := by
  cases hv : limitVerdict h k pub wg q with
  | none => exact .inl rfl
  | some v =>
    obtain ⟨rule, hrule, -, hverdict⟩ := verdict_eq_some hv
    exact .inr (hverdict.symm.trans (rateLimitScoped_drop rule_verdict_ports hrule))

/-- The drops of a policy drop, or say nothing. -/
theorem forwardDrops_cases : verdict h k (writePolicyForwardDrops pub wg q) = none ∨ verdict h k (writePolicyForwardDrops pub wg q) = some .drop := by
  rw [writePolicyForwardDrops, verdict_append, verdict_append, verdict_denyDrops rfl rule_verdict_ports, verdict_crowdsecDrop rfl rule_verdict_ports]
  split
  · exact .inr rfl
  · split
    · exact .inr rfl
    · exact limitVerdict_cases

/-- The drops of a policy say nothing of a packet to its ports whose source no list objects to, within the limits. -/
theorem forwardDrops_none (hwan : Rule.fires h k (wanToTunnel pub wg) = true)
    (hports : Rule.fires h k (q.forwardPorts.stmts q.proto) = true) : verdict h k (writePolicyForwardDrops pub wg q) = none ↔
      inSome h q.globalDeny k.src = false ∧ inSome h q.srcDeny k.src = false ∧
        (inSome h q.crowdsecSet k.src && !inSome h q.breakGlass k.src) = false ∧ limitVerdict h k pub wg q = none := by
  rw [verdict_forwardDrops hwan hports]
  cases inSome h q.globalDeny k.src <;> cases inSome h q.srcDeny k.src <;>
    cases inSome h q.crowdsecSet k.src && !inSome h q.breakGlass k.src <;> simp

/-- What the accept rule of a policy matches. -/
theorem fires_forwardAccept (hfires : Rule.fires h k (forwardAccept pub wg q) = true) :
    (q.srcAllow.isNone || inSome h q.srcAllow k.src) = true ∧ Rule.fires h k (q.forwardPorts.stmts q.proto) = true := by
  rw [forwardAccept, fires_append, fires_append, fires_append, fires_append, fires_fromSet] at hfires
  simp only [Bool.and_eq_true] at hfires
  exact ⟨hfires.1.1.1.2, hfires.1.2⟩

end forward

/-! ## The forward chain -/

section chain

variable {c : Config} {h : Host} {k : Packet} {q : RoutePolicy} {qs : List RoutePolicy}

/-- A new packet on its way from the public interface into the tunnel. -/
structure Inbound (c : Config) (k : Packet) : Prop where
  iif : k.iif = c.network.publicInterface
  oif : k.oif = c.wireGuard.interface
  new : k.ct = .new

theorem Inbound.wan (hk : Inbound c k) : Rule.fires h k (wanToTunnel c.network.publicInterface c.wireGuard.interface) = true := by
  rw [fires_wanToTunnel, hk.iif, hk.oif, beq_self_eq_true, beq_self_eq_true, Bool.and_true]

/-- The rules for local networks are not about the tunnel. -/
theorem Inbound.local (hk : Inbound c k) (hne : c.network.publicInterface ≠ c.wireGuard.interface) :
    verdict h k ((forwardAllowLocalCIDRs c).flatMap (localForwardRules c.network.publicInterface c.wireGuard.interface)) = none := by
  refine verdict_eq_none fun rule hrule => ?_
  obtain ⟨cidr, -, hrule⟩ := List.mem_flatMap.mp hrule
  have hoif : (c.wireGuard.interface == c.network.publicInterface) = false := beq_eq_false_iff_ne.mpr (Ne.symm hne)
  rcases List.mem_cons.mp hrule with rfl | hrule
  · simp [Stmt.matches, hk.oif]
  · rw [List.mem_singleton.mp hrule]
    simp [Stmt.matches, hk.oif, hoif]

/-- The accept rules take a packet if one of them does. -/
theorem verdict_accepts (pub wg : String) : verdict h k (qs.map (forwardAccept pub wg)) =
    (qs.find? fun q => Rule.fires h k (forwardAccept pub wg q)).map fun _ => .accept := by
  have hsingle : qs.map (forwardAccept pub wg) = qs.flatMap fun q => [forwardAccept pub wg q] := by
    rw [List.map_eq_flatMap]
  rw [hsingle]
  refine verdict_flatMap fun q _ => ?_
  rw [verdict_cons, verdict_nil]
  split
  · have hsrc : Rule.verdict (fromSet q.srcAllow) = none := by cases q.srcAllow <;> rfl
    simp [forwardAccept, wanToTunnel, hsrc, rule_verdict_ports, Stmt.verdict]
  · rfl

/-- The forward chain accepts a packet that no policy drops and that one accepts. -/
theorem Inbound.verdict_forward (hk : Inbound c k) (hne : c.network.publicInterface ≠ c.wireGuard.interface) :
    verdict h k (forwardRules c qs) = some .accept ↔
      (verdict h k (qs.flatMap (writePolicyForwardDrops c.network.publicInterface c.wireGuard.interface)) = none ∧
        ∃ q ∈ qs, Rule.fires h k (forwardAccept c.network.publicInterface c.wireGuard.interface q) = true) := by
  have hest : verdict h k [[.ctState [.established, .related], .accept]] = none := by
    simp [verdict_cons, Stmt.matches, hk.new]
  have htail : verdict h k [[.iifname c.wireGuard.interface, .oifname false c.network.publicInterface, .ctState [.established, .related], .accept],
      counterStmt c.dropCounters ++ [.limit "3/minute burst 5 packets", .log "evuproxy-forward-drop: ", .drop]] ≠ some .accept := by
    have hcounter : Rule.verdict (counterStmt c.dropCounters) = none := by cases c.dropCounters <;> rfl
    rw [verdict_cons, verdict_cons, verdict_nil]
    simp only [fires_cons, Stmt.matches, hk.new, rule_verdict_append, hcounter, Option.none_or, rule_verdict_cons, rule_verdict_nil, Stmt.verdict]
    split
    · rename_i hfires
      simp at hfires
    · split <;> simp
  have hdrops : ∀ qs' : List RoutePolicy,
      verdict h k (qs'.flatMap (writePolicyForwardDrops c.network.publicInterface c.wireGuard.interface)) ≠ some .accept := by
    intro qs' hv
    induction qs' with
    | nil => cases hv
    | cons q qs' ih =>
      rw [List.flatMap_cons, verdict_append] at hv
      rcases @forwardDrops_cases h k q c.network.publicInterface c.wireGuard.interface with hq | hq
      · rw [hq, Option.none_or] at hv
        exact ih hv
      · rw [hq] at hv
        cases hv
  unfold forwardRules
  dsimp only
  rw [verdict_append, verdict_append, verdict_append, verdict_append, hk.local hne, hest, verdict_accepts, Option.none_or, Option.or_none]
  cases hv : verdict h k (qs.flatMap (writePolicyForwardDrops c.network.publicInterface c.wireGuard.interface)) with
  | some v =>
    refine iff_of_false (fun haccept => hdrops qs (hv.trans haccept)) ?_
    rintro ⟨hnone, -⟩
    cases hnone
  | none =>
    rw [Option.none_or]
    cases hfind : qs.find? fun q => Rule.fires h k (forwardAccept c.network.publicInterface c.wireGuard.interface q) with
    | none =>
      refine iff_of_false htail fun h => ?_
      obtain ⟨-, q, hq, hfires⟩ := h
      exact List.find?_eq_none.mp hfind q hq hfires
    | some q => exact iff_of_true rfl ⟨rfl, q, List.mem_of_find?_eq_some hfind, by simpa using List.find?_some hfind⟩

/-- Where the rules of the other policies are about other ports, the one policy decides. -/
theorem Inbound.verdict_own (hk : Inbound c k) (hne : c.network.publicInterface ≠ c.wireGuard.interface) (hq : q ∈ qs)
    (hothers : ∀ q' ∈ qs, q' ≠ q → Rule.fires h k (q'.forwardPorts.stmts q'.proto) = false) :
    verdict h k (forwardRules c qs) = some .accept ↔
      verdict h k (writePolicyForwardDrops c.network.publicInterface c.wireGuard.interface q) = none ∧
        Rule.fires h k (forwardAccept c.network.publicInterface c.wireGuard.interface q) = true := by
  rw [hk.verdict_forward hne, verdict_flatMap_alone hq fun q' hq' hne' => forwardDrops_other (hothers q' hq' hne')]
  refine and_congr_right fun _ => ⟨fun ⟨q', hq', hfires⟩ => ?_, fun hfires => ⟨q, hq, hfires⟩⟩
  by_cases heq : q' = q
  · exact heq ▸ hfires
  · rw [forwardAccept_other (hothers q' hq' heq)] at hfires
    cases hfires

end chain

/-! ## Routes -/

/-- The entry of `ports` of a route that lists a port first leads it to another port. -/
def InternalPort (r : ForwardRoute) (o p : Nat) : Prop :=
  ∃ tok, (normalizedPortTokens r.ports).find? (listsPort o) = some tok ∧ leadsTo r.portMaps tok o = some p

/-- No route without port maps publishes the port to which another route leads a port of the same protocol. -/
def Uncrossed (c : Config) : Prop :=
  ∀ i r j s, (i, r) ∈ activeRoutes c → (j, s) ∈ activeRoutes c → i ≠ j → r.portMaps = [] →
    ∀ proto o p, Claims s (proto, o) → InternalPort s o p → ¬Claims r (proto, p)

/-- A new packet from the public interface. -/
structure FromPublic (c : Config) (k : Packet) : Prop where
  iif : k.iif = c.network.publicInterface
  new : k.ct = .new
  orig : k.origDport = k.dport

/-- The prerouting chain rewrites a packet, and the forward chain lets what it becomes into the tunnel. -/
structure Enters (c : Config) (h : Host) (qs : List RoutePolicy) (paused : List Nat) (k k' : Packet) : Prop where
  sent : ∃ d, (verdict h k (preroutingChain qs paused).rules).bind (Verdict.destination k.dport) = some d ∧
    k.sentTo c.wireGuard.interface d = some k'
  accepted : verdict h k' (forwardRules c qs) = some .accept

/-- The packet that a route makes of one to a port that it publishes. -/
def SentBy (c : Config) (r : ForwardRoute) (k k' : Packet) : Prop :=
  ∃ p, InternalPort r k.dport p ∧ k.sentTo c.wireGuard.interface (trimSpace r.targetIP, p) = some k'

/-- A policy lets in a packet. -/
structure PassesChecks (c : Config) (h : Host) (q : RoutePolicy) (k : Packet) : Prop where
  /-- The source is on no list of denied sources. -/
  denied : inSome h q.globalDeny k.src = false ∧ inSome h q.srcDeny k.src = false
  /-- It is on the list of hostile sources only if it breaks the glass. -/
  crowdsec : inSome h q.crowdsecSet k.src = true → inSome h q.breakGlass k.src = true
  /-- Unless it breaks the glass, it is from a country of the list, or from none of the list if that is blocked. -/
  geo : q.geo.enabled = true → inSome h q.breakGlass k.src = false → h.inSet q.geo.setName k.src = !q.geo.blockListed
  /-- It is on the list of allowed sources, if there is one. -/
  allowed : (q.srcAllow.isNone || inSome h q.srcAllow k.src) = true
  /-- No limit is exceeded. -/
  limits : limitVerdict h k c.network.publicInterface c.wireGuard.interface q = none

section routes

variable {c : Config} {h : Host} {k k' : Packet} {i : Nat} {r : ForwardRoute} {dnat : List RouteDNATLine} {qs : List RoutePolicy}

/-- What a policy decides on a source in the prerouting chain, with what it asks of it in the forward chain. -/
theorem passesChecks_iff {q : RoutePolicy} (hallowed : (q.srcAllow.isNone || inSome h q.srcAllow k.src) = true) :
    (q.decision h k.src = some true ∧ inSome h q.globalDeny k.src = false ∧ inSome h q.srcDeny k.src = false ∧
      (inSome h q.crowdsecSet k.src && !inSome h q.breakGlass k.src) = false ∧
        limitVerdict h k c.network.publicInterface c.wireGuard.interface q = none) ↔ PassesChecks c h q k := by
  unfold RoutePolicy.decision RoutePolicy.passes
  dsimp only
  rw [hallowed]
  constructor
  · rintro ⟨hdecision, hglobal, hsrc, hcrowdsec, hlimits⟩
    refine ⟨⟨hglobal, hsrc⟩, fun hlisted => ?_, fun hgeo hglass => ?_, hallowed, hlimits⟩
    · rw [hlisted] at hcrowdsec
      simpa using hcrowdsec
    · rw [hglobal, hsrc, hgeo, hglass] at hdecision
      revert hdecision
      cases q.geo.blockListed <;> cases h.inSet q.geo.setName k.src <;> simp
  · rintro ⟨⟨hglobal, hsrc⟩, hcrowdsec, hgeo, -, hlimits⟩
    refine ⟨?_, hglobal, hsrc, ?_, hlimits⟩
    · rw [hglobal, hsrc]
      cases henabled : q.geo.enabled with
      | false => rfl
      | true =>
        cases hglass : inSome h q.breakGlass k.src with
        | true =>
          cases q.geo.blockListed <;> cases h.inSet q.geo.setName k.src <;> rfl
        | false =>
          have hset := hgeo henabled hglass
          revert hset
          cases q.geo.blockListed <;> cases h.inSet q.geo.setName k.src <;> simp
    · cases hlisted : inSome h q.crowdsecSet k.src with
      | false => rfl
      | true =>
        rw [hcrowdsec hlisted]
        rfl

/-- A packet that matches the ports of a policy in the forward chain goes to a port of its route, or was sent to one. -/
theorem forwardPorts_fires {proto : Proto} (hread : PlainlyRead (portTokens r.ports))
    (hfires : Rule.fires h k ((policyOf c i r dnat proto).forwardPorts.stmts (policyOf c i r dnat proto).proto) = true) :
    k.proto = proto ∧ InTokens (if r.portMaps = [] then k.dport else k.origDport) (portTokens r.ports) := by
  have hforward : (policyOf c i r dnat proto).forwardPorts = routeForwardPorts r (.set (normalizedPortTokens r.ports)) := rfl
  rw [hforward, show (policyOf c i r dnat proto).proto = proto from rfl] at hfires
  unfold routeForwardPorts PortMatch.stmts at hfires
  by_cases hmaps : r.portMaps = []
  · rw [if_pos hmaps] at hfires ⊢
    simp only [fires_cons, fires_nil, Stmt.matches, Bool.and_true, Bool.and_eq_true, beq_iff_eq] at hfires
    exact ⟨hfires.1, (has_set hread _).mp hfires.2⟩
  · rw [if_neg hmaps] at hfires ⊢
    simp only [fires_cons, fires_nil, Stmt.matches, Bool.and_true, Bool.and_eq_true, beq_iff_eq] at hfires
    exact ⟨hfires.1.1, (has_set hread _).mp hfires.2⟩

/-- Of the policies of a config only one is for a protocol and a port that its route publishes. -/
theorem policy_of_claim (hc : Checked c) (hr : (i, r) ∈ activeRoutes c) {proto : Proto} {p : Nat}
    (hclaims : Claims r (proto, p)) (hdnat : buildRouteDNATLines r (normalizedPortTokens r.ports) = .ok dnat) {q : RoutePolicy} {j : Nat} {s : ForwardRoute}
    {dnat' : List RouteDNATLine} (hs : (j, s) ∈ activeRoutes c) (hdnat' : buildRouteDNATLines s (normalizedPortTokens s.ports) = .ok dnat')
    (heq : q = policyOf c j s dnat' proto) (hclaims' : Claims s (proto, p)) : q = policyOf c i r dnat proto := by
  obtain ⟨hget, hd⟩ := mem_activeRoutes.mp hr
  obtain ⟨hget', hd'⟩ := mem_activeRoutes.mp hs
  have hindex : j = i := by
    by_contra hne
    exact hc.claims_apart hget' hget hne hd' hd hclaims' hclaims
  subst hindex
  obtain rfl := Option.some.inj (hget'.symm.trans hget)
  obtain rfl := Except.ok.inj (hdnat'.symm.trans hdnat)
  exact heq

/-- A route publishes the ports of its entries, for its protocols. -/
theorem claims_iff (hc : Checked c) (hr : (i, r) ∈ activeRoutes c) {protos : List Proto} (hprotos : parseRouteProtocols r.proto = .ok protos)
    {proto : Proto} {p : Nat} : Claims r (proto, p) ↔ proto ∈ protos ∧ InTokens p (portTokens r.ports) := by
  obtain ⟨hget, hd⟩ := mem_activeRoutes.mp hr
  obtain ⟨ps, hps⟩ := hc.ports_expand hget hd
  constructor
  · rintro ⟨protos', ps', hprotos', hps', hproto, hp⟩
    obtain rfl := Except.ok.inj (hprotos'.symm.trans hprotos)
    obtain rfl := Except.ok.inj (hps'.symm.trans hps)
    exact ⟨hproto, (publicPorts_mem hps (hc.active hr).maps _).mp hp⟩
  · rintro ⟨hproto, hp⟩
    exact ⟨protos, ps, hprotos, hps, hproto, (publicPorts_mem hps (hc.active hr).maps _).mpr hp⟩

/-- The prerouting rules of the other policies are not about a port that a route publishes. -/
theorem prerouting_own (hc : Checked c) (halike : PortsAlike c) (hqs : routePolicies c = .ok qs) (hr : (i, r) ∈ activeRoutes c)
    (hclaims : Claims r (k.proto, k.dport)) (hdnat : buildRouteDNATLines r (normalizedPortTokens r.ports) = .ok dnat)
    (hq : policyOf c i r dnat k.proto ∈ qs) (paused : List Nat) : verdict h k (preroutingChain qs paused).rules =
      if i ∈ paused then (verdict h k (policyRules (policyOf c i r dnat k.proto))).map fun _ => .drop
      else verdict h k (policyRules (policyOf c i r dnat k.proto)) := by
  have hnone : ∀ q ∈ qs, q ≠ policyOf c i r dnat k.proto → verdict h k (policyRules q) = none := by
    intro q hq hne
    refine verdict_eq_none fun rule hrule => Bool.eq_false_iff.mpr fun hfires => hne ?_
    obtain ⟨hproto, l, hl, hhas⟩ := port_of_fires hrule hfires
    obtain ⟨j, s, protos, dnat', hs, hprotos, hmem, hdnat', heq⟩ := mem_routePolicies hqs hq
    rw [← hproto] at hmem heq
    rw [heq] at hl
    have hlisted := listed_of_line (hc.active hs) (plainlyRead_active hc halike hs) hdnat' hl hhas
    exact policy_of_claim hc hr hclaims hdnat hs hdnat' heq ((claims_iff hc hs hprotos).mpr ⟨hmem, hlisted⟩)
  have hrules : ∀ q : RoutePolicy, verdict h k (if q.routeIndex ∈ paused then writePausedRouteDrop q else policyRules q) =
      if q.routeIndex ∈ paused then (verdict h k (policyRules q)).map fun _ => .drop else verdict h k (policyRules q) := by
    intro q
    split
    · exact verdict_pausedRouteDrop
    · rfl
  have halone : verdict h k (qs.flatMap fun q => if q.routeIndex ∈ paused then writePausedRouteDrop q else policyRules q) =
      verdict h k (if (policyOf c i r dnat k.proto).routeIndex ∈ paused then writePausedRouteDrop (policyOf c i r dnat k.proto)
        else policyRules (policyOf c i r dnat k.proto)) := by
    refine verdict_flatMap_alone hq fun q hq hne => ?_
    rw [hrules, hnone q hq hne, Option.map_none, ite_self]
  exact halone.trans (hrules _)

/-- A packet to a port that no route publishes is not rewritten. -/
theorem prerouting_unpublished (hc : Checked c) (halike : PortsAlike c) (hqs : routePolicies c = .ok qs)
    (hnone : ∀ i r, (i, r) ∈ activeRoutes c → ¬Claims r (k.proto, k.dport)) (paused : List Nat) :
    verdict h k (preroutingChain qs paused).rules = none := by
  have hgroup : ∀ q ∈ qs, verdict h k (policyRules q) = none := by
    intro q hq
    refine verdict_eq_none fun rule hrule => Bool.eq_false_iff.mpr fun hfires => ?_
    obtain ⟨hproto, l, hl, hhas⟩ := port_of_fires hrule hfires
    obtain ⟨j, s, protos, dnat', hs, hprotos, hmem, hdnat', heq⟩ := mem_routePolicies hqs hq
    rw [← hproto] at hmem heq
    rw [heq] at hl
    have hlisted := listed_of_line (hc.active hs) (plainlyRead_active hc halike hs) hdnat' hl hhas
    exact hnone j s hs ((claims_iff hc hs hprotos).mpr ⟨hmem, hlisted⟩)
  have hdecided : decidingRoute h k qs = none := by
    refine decided_eq_none fun g hg => ?_
    obtain ⟨q, hq, rfl⟩ := List.mem_map.mp hg
    exact hgroup q hq
  rw [verdict_paused, hdecided, Option.map_none]

/-- The rules of a policy rewrite a packet from a source that it lets through as the first entry that lists its port says, and no other. -/
theorem policyRules_sends (hc : RouteChecked c i r) (hread : PlainlyRead (portTokens r.ports))
    (hdnat : buildRouteDNATLines r (normalizedPortTokens r.ports) = .ok dnat) {d : String × Nat} :
    (verdict h k (policyRules (policyOf c i r dnat k.proto))).bind (Verdict.destination k.dport) = some d ↔
      (policyOf c i r dnat k.proto).decision h k.src = some true ∧ ∃ p, InternalPort r k.dport p ∧ d = (trimSpace r.targetIP, p) := by
  have hne := @dnat_target_ne _ _ _ _ k.proto hc hdnat
  have hpolicy := verdict_policy (h := h) (k := k) hne rfl
  rw [hpolicy]
  cases hdecision : (policyOf c i r dnat k.proto).decision h k.src with
  | none => simp
  | some through =>
    cases through with
    | false =>
      cases (policyOf c i r dnat k.proto).dnat.find? (RouteDNATLine.has k.dport) <;> simp [Verdict.destination]
    | true =>
      have hpasses : (policyOf c i r dnat k.proto).passes h k.src = true := by
        unfold RoutePolicy.decision at hdecision
        split at hdecision
        · cases hdecision
        · split at hdecision
          · cases hdecision
          · split at hdecision
            · rename_i hpasses
              exact hpasses
            · cases hdecision
      have hrewrites := destination_eq hc hread hdnat rfl hpasses
      rw [verdict_dnatRules hne rfl hpasses] at hrewrites
      have hsame : ((policyOf c i r dnat k.proto).dnat.find? (RouteDNATLine.has k.dport)).bind (fun l =>
          (some true).map fun through : Bool => if through then Verdict.dnat l.dnatTo.1 l.dnatTo.2 else .drop) =
            ((policyOf c i r dnat k.proto).dnat.find? (RouteDNATLine.has k.dport)).map fun l => .dnat l.dnatTo.1 l.dnatTo.2 := by
        cases (policyOf c i r dnat k.proto).dnat.find? (RouteDNATLine.has k.dport) <;> rfl
      rw [hsame, hrewrites, Option.bind_eq_some_iff]
      constructor
      · rintro ⟨tok, htok, hd⟩
        obtain ⟨p, hp, rfl⟩ := Option.map_eq_some_iff.mp hd
        exact ⟨rfl, p, ⟨tok, htok, hp⟩, rfl⟩
      · rintro ⟨-, p, ⟨tok, htok, hp⟩, rfl⟩
        exact ⟨tok, htok, by rw [hp, Option.map_some]⟩

/-- A packet that a route sends on is carried by the route. -/
theorem SentBy.carried (hc : Checked c) (halike : PortsAlike c) (hr : (i, r) ∈ activeRoutes c) (hclaims : Claims r (k.proto, k.dport))
    (hdnat : buildRouteDNATLines r (normalizedPortTokens r.ports) = .ok dnat) (hk : FromPublic c k) (hsent : SentBy c r k k') :
    Carried c i r dnat k k' ∧ InternalPort r k.dport k'.dport ∧ k'.ct = .new := by
  obtain ⟨p, ⟨tok, htok, hp⟩, hto⟩ := hsent
  obtain ⟨hip, hk'⟩ := sentTo_eq hto
  have hproto := hclaims
  obtain ⟨protos, ps, hprotos, -, hmem, -⟩ := hproto
  have hread := plainlyRead_active hc halike hr
  refine ⟨?_, ⟨tok, htok, by rw [hk']; exact hp⟩, by rw [hk']; exact hk.new⟩
  exact
    { active := hr
      protos := ⟨protos, hprotos, hmem⟩
      lines := hdnat
      listed := ((claims_iff hc hr hprotos).mp hclaims).2
      target := hip
      forwarded := by
        rw [hk']
        exact forwardPorts_has (hc.active hr) (halike _ hr) hread (List.mem_of_find?_eq_some htok) (List.find?_some htok) hp
      iif := by rw [hk']; exact hk.iif
      oif := by rw [hk']
      src := by rw [hk']
      proto := by rw [hk']
      orig := by rw [hk']; exact hk.orig }

/-- The forward rules of the other policies are not about a packet that a route sends on. -/
theorem Carried.others (hc : Checked c) (halike : PortsAlike c) (huncrossed : Uncrossed c) (hqs : routePolicies c = .ok qs)
    (hclaims : Claims r (k.proto, k.dport)) (hk : Carried c i r dnat k k') (hinternal : InternalPort r k.dport k'.dport) :
    ∀ q ∈ qs, q ≠ policyOf c i r dnat k.proto → Rule.fires h k' (q.forwardPorts.stmts q.proto) = false := by
  intro q hq hne
  refine Bool.eq_false_iff.mpr fun hfires => hne ?_
  obtain ⟨j, s, protos, dnat', hs, hprotos, hmem, hdnat', heq⟩ := mem_routePolicies hqs hq
  rw [heq] at hfires
  obtain ⟨hproto, hin⟩ := forwardPorts_fires (plainlyRead_active hc halike hs) hfires
  rw [hk.proto] at hproto
  rw [← hproto] at hmem heq
  by_cases hmaps : s.portMaps = []
  · rw [if_pos hmaps] at hin
    have hclaims' : Claims s (k.proto, k'.dport) := (claims_iff hc hs hprotos).mpr ⟨hmem, hin⟩
    by_cases hindex : j = i
    · subst hindex
      obtain rfl := Option.some.inj ((mem_activeRoutes.mp hs).1.symm.trans (mem_activeRoutes.mp hk.active).1)
      obtain rfl := Except.ok.inj (hdnat'.symm.trans hk.lines)
      exact heq
    · exact absurd hclaims' (huncrossed j s i r hs hk.active hindex hmaps k.proto k.dport k'.dport hclaims hinternal)
  · rw [if_neg hmaps, hk.orig] at hin
    exact policy_of_claim hc hk.active hclaims hk.lines hs hdnat' heq ((claims_iff hc hs hprotos).mpr ⟨hmem, hin⟩)

end routes

/-! ## Enforcement -/

/-- The ruleset does to the packets from the public interface what the policies of the routes say. -/
structure EnforcesPolicies (c : Config) : Prop where
  /-- To a published port: the packet goes where its route sends it, if the route is not paused and lets it in. -/
  published : ∀ h qs paused k i r, routePolicies c = .ok qs → FromPublic c k → (i, r) ∈ activeRoutes c → Claims r (k.proto, k.dport) →
    c.forwarding.maintenanceMode = false → ∃ q ∈ qs, q.routeIndex = i ∧ q.proto = k.proto ∧
      ∀ k', Enters c h qs paused k k' ↔ SentBy c r k k' ∧ i ∉ paused ∧ PassesChecks c h q k'
  /-- To any other port: the packet is not rewritten. -/
  unpublished : ∀ h qs paused k, routePolicies c = .ok qs → (∀ i r, (i, r) ∈ activeRoutes c → ¬Claims r (k.proto, k.dport)) →
    verdict h k (preroutingChain qs paused).rules = none
  /-- Rewritten or not, a packet goes into the tunnel only through the accept rule of a policy whose lists and limits do not drop it. -/
  guarded : ∀ h qs k, routePolicies c = .ok qs → Inbound c k → verdict h k (forwardRules c qs) = some .accept →
    ∃ q ∈ qs, Rule.fires h k (forwardAccept c.network.publicInterface c.wireGuard.interface q) = true ∧
      (q.srcAllow.isNone || inSome h q.srcAllow k.src) = true ∧ inSome h q.globalDeny k.src = false ∧ inSome h q.srcDeny k.src = false ∧
      (inSome h q.crowdsecSet k.src = true → inSome h q.breakGlass k.src = true) ∧
      limitVerdict h k c.network.publicInterface c.wireGuard.interface q = none

end EvuProxy

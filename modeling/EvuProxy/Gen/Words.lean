import EvuProxy.Gen.Sets
import EvuProxy.Nft.Words

/-!
# The words of the rules

Each writer of rules takes its words from its policy. What holds of the words of the policies holds of those of the rules.
-/

namespace EvuProxy

open Go Nft

variable {c : Config} {ord : MapOrder} {V : Vocabulary} {r : RoutePolicy}

/-- The words of a policy that say where its packets go. -/
structure PlaceWords (V : Vocabulary) (r : RoutePolicy) : Prop where
  target : V.addr r.target
  portExpr : V.ports r.portExpr
  forwardDport : V.ports r.forwardPorts.dport
  forwardOrig : ∀ e, r.forwardPorts.origDport = some e → V.ports e

/-- The words of a policy in the prerouting chain. -/
structure PolicyWords (V : Vocabulary) (r : RoutePolicy) : Prop where
  srcAllow : ∀ s, r.srcAllow = some s → V.set s
  srcDeny : ∀ s, r.srcDeny = some s → V.set s
  globalDeny : ∀ s, r.globalDeny = some s → V.set s
  breakGlass : ∀ s, r.breakGlass = some s → V.set s
  geo : r.geo.enabled = true → V.set r.geo.setName
  dnat : ∀ l ∈ r.dnat, V.ports (.tok l.publicDport) ∧ V.addr l.dnatTo.1 ∧ ∀ p, l.dnatTo.2 = some p → V.ports (.tok p)

/-- The words of a policy. -/
structure FilterWords (V : Vocabulary) (r : RoutePolicy) : Prop extends PolicyWords V r, PlaceWords V r where
  crowdsec : ∀ s, r.crowdsecSet = some s → V.set s
  conn : 0 < (rateLimitBindingForRoute r.routeIndex r.globalRL r.routeRL).connN → V.set (rateLimitConnSet r.routeIndex r.proto)
  syn : ∀ s, (rateLimitBindingForRoute r.routeIndex r.globalRL r.routeRL).synSet = some s → V.set s
  udp : ∀ s, (rateLimitBindingForRoute r.routeIndex r.globalRL r.routeRL).udpSet = some s → V.set s

/-! ## Statements -/

@[simp] theorem ruleWorded_counterStmt {b : Bool} : RuleWorded V (counterStmt b) := by
  cases b <;> simp [counterStmt, Stmt.Words]

theorem ruleWorded_fromSet {set : Option String} (h : ∀ s, set = some s → V.set s) : RuleWorded V (fromSet set) := by
  cases set with
  | none => exact ruleWorded_nil
  | some s => simpa [fromSet, Stmt.Words] using h s rfl

theorem ruleWorded_notFromSet {set : Option String} (h : ∀ s, set = some s → V.set s) : RuleWorded V (notFromSet set) := by
  cases set with
  | none => exact ruleWorded_nil
  | some s => simpa [notFromSet, Stmt.Words] using h s rfl

theorem ruleWorded_portMatch {proto : Proto} {m : PortMatch} (hport : V.ports m.dport)
    (horig : ∀ e, m.origDport = some e → V.ports e) : RuleWorded V (m.stmts proto) := by
  cases h : m.origDport with
  | none => simp [PortMatch.stmts, h, hport, Stmt.Words]
  | some e => simp [PortMatch.stmts, h, hport, horig e h, Stmt.Words]

theorem ruleWorded_wanToTunnel {pub wg : String} (hpub : V.iface pub) (hwg : V.iface wg) : RuleWorded V (wanToTunnel pub wg) := by
  simp [wanToTunnel, hpub, hwg, Stmt.Words]

@[simp] theorem ruleWorded_rateLimitDrop {b : Bool} : RuleWorded V (rateLimitDrop b) := by
  simp [rateLimitDrop, Stmt.Words]

/-! ## Writers -/

section Writers

variable {scope ports verdict : Rule} {proto : Proto} {portExpr : Ports} {counter : Bool}

/-- Where there is no set, there is no name to be a word. -/
theorem words_none (s : String) (h : (none : Option String) = some s) : V.set s := by
  cases h

theorem worded_writePolicyAllow {srcAllow geoSet : Option String} (hport : V.ports portExpr)
    (hsrc : ∀ s, srcAllow = some s → V.set s) (hgeo : ∀ s, geoSet = some s → V.set s) (hv : RuleWorded V verdict) :
    Worded V (writePolicyAllow proto portExpr srcAllow geoSet verdict) := by
  simp [writePolicyAllow, hport, ruleWorded_fromSet hsrc, ruleWorded_fromSet hgeo, hv, Stmt.Words]

theorem ruleWorded_geoBlockMatch {geoSet : String} {breakGlass : Option String} (hport : V.ports portExpr) (hgeo : V.set geoSet)
    (hglass : ∀ s, breakGlass = some s → V.set s) : RuleWorded V (geoBlockMatch geoSet breakGlass proto portExpr) := by
  simp [geoBlockMatch, hport, ruleWorded_notFromSet hglass, hgeo, Stmt.Words]

theorem worded_writePolicyGeoBlockDrop {geoSet : String} {breakGlass : Option String} (hport : V.ports portExpr) (hgeo : V.set geoSet)
    (hglass : ∀ s, breakGlass = some s → V.set s) : Worded V (writePolicyGeoBlockDrop geoSet breakGlass proto portExpr counter) := by
  simp [writePolicyGeoBlockDrop, ruleWorded_geoBlockMatch hport hgeo hglass, Stmt.Words]

theorem worded_writeGeoLogDrop {cond : Rule} (h : RuleWorded V cond) : Worded V (writeGeoLogDrop cond counter) := by
  simp [writeGeoLogDrop, h, Stmt.Words]

theorem worded_writeDenyDrops (h : PolicyWords V r) (hscope : RuleWorded V scope) (hports : RuleWorded V ports) :
    Worded V (writeDenyDrops scope r ports) := by
  unfold writeDenyDrops
  refine worded_flatMap fun set hset => ?_
  have hS : ∀ s, set = some s → V.set s := by
    rcases List.mem_cons.mp hset with rfl | hset
    · exact h.globalDeny
    · rw [List.mem_singleton.mp hset]
      exact h.srcDeny
  cases set with
  | none => exact worded_nil
  | some s => simp [hS s rfl, hscope, hports, Stmt.Words]

theorem worded_writePolicyPrerouting {publicDport : String} (h : PolicyWords V r) (hport : V.ports (.tok publicDport))
    (hv : RuleWorded V verdict) :
    Worded V (writePolicyPrerouting r publicDport verdict) := by
  unfold writePolicyPrerouting
  refine worded_append.mpr ⟨worded_writeDenyDrops h ruleWorded_nil (by simp [hport, Stmt.Words]), ?_⟩
  by_cases hen : r.geo.enabled = true
  · rw [if_neg (not_not.mpr hen)]
    by_cases hblock : r.geo.blockListed = true
    · rw [if_pos hblock]
      exact worded_append.mpr ⟨worded_writePolicyGeoBlockDrop hport (h.geo hen) h.breakGlass, worded_writePolicyAllow hport h.srcAllow words_none hv⟩
    · rw [if_neg hblock]
      refine worded_append.mpr ⟨worded_writePolicyAllow hport h.srcAllow (fun s hs => Option.some.inj hs ▸ h.geo hen) hv, ?_⟩
      cases hg : r.breakGlass with
      | none => exact worded_nil
      | some s => simp [h.breakGlass s hg, hport, hv, Stmt.Words]
  · rw [if_pos hen]
    exact worded_writePolicyAllow hport h.srcAllow words_none hv

theorem worded_writePolicyDnatLine {line : RouteDNATLine} (h : PolicyWords V r) (hline : line ∈ r.dnat) :
    Worded V (writePolicyDnatLine r line) := by
  obtain ⟨hport, haddr, hto⟩ := h.dnat line hline
  unfold writePolicyDnatLine
  split
  · exact worded_nil
  · exact worded_writePolicyPrerouting h hport (by simpa [Stmt.Words, haddr] using hto)

theorem worded_writePausedRouteDrop (h : PolicyWords V r) : Worded V (writePausedRouteDrop r) := by
  unfold writePausedRouteDrop
  refine worded_flatMap fun line hline => ?_
  split
  · exact worded_nil
  · exact worded_writePolicyPrerouting h (h.dnat line hline).1 (by simp [Stmt.Words])

theorem worded_writeNATPreroutingRules {routes : List RoutePolicy} {paused : List Nat} (h : ∀ q ∈ routes, PolicyWords V q) :
    Worded V (writeNATPreroutingRules routes paused) := by
  unfold writeNATPreroutingRules
  refine worded_flatMap fun q hq => ?_
  split
  · exact worded_writePausedRouteDrop (h q hq)
  · exact worded_flatMap fun line hline => worded_writePolicyDnatLine (h q hq) hline

theorem worded_writeCrowdsecDrop (h : FilterWords V r) (hscope : RuleWorded V scope) (hports : RuleWorded V ports) :
    Worded V (writeCrowdsecDrop scope r ports) := by
  unfold writeCrowdsecDrop
  cases hset : r.crowdsecSet with
  | none => exact worded_nil
  | some s => simp [hscope, hports, h.crowdsec s hset, ruleWorded_notFromSet h.breakGlass, Stmt.Words]

theorem worded_writePolicyRateLimitScoped (h : FilterWords V r) (hscope : RuleWorded V scope) (hports : RuleWorded V ports) :
    Worded V (writePolicyRateLimitScoped scope r ports) := by
  have hstart : RuleWorded V (scope ++ notFromSet r.breakGlass ++ ports) := by
    simp [hscope, hports, ruleWorded_notFromSet h.breakGlass]
  unfold writePolicyRateLimitScoped
  refine worded_append.mpr ⟨worded_append.mpr ⟨?_, ?_⟩, ?_⟩
  · split
    · rename_i hconn
      simp [ruleWorded_append.mp hstart, ruleWorded_notFromSet h.breakGlass, hscope, h.conn hconn, Stmt.Words]
    · exact worded_nil
  · split
    · rename_i s _ hs
      simp [hports, ruleWorded_notFromSet h.breakGlass, hscope, h.syn s hs, Stmt.Words]
    · exact worded_nil
  · split
    · rename_i s _ hs
      simp [hports, ruleWorded_notFromSet h.breakGlass, hscope, h.udp s hs, Stmt.Words]
    · exact worded_nil

theorem worded_writePolicyInputPort (h : FilterWords V r) : Worded V (writePolicyInputPort r) := by
  have hports : RuleWorded V [.dport r.proto r.portExpr] := by simp [h.portExpr, Stmt.Words]
  have haccept : RuleWorded V [.accept] := by simp [Stmt.Words]
  unfold writePolicyInputPort
  refine worded_append.mpr ⟨worded_append.mpr ⟨worded_append.mpr ⟨worded_writeDenyDrops h.toPolicyWords ruleWorded_nil hports,
    worded_writeCrowdsecDrop h ruleWorded_nil hports⟩, worded_writePolicyRateLimitScoped h ruleWorded_nil hports⟩, ?_⟩
  by_cases hen : r.geo.enabled = true
  · rw [if_neg (not_not.mpr hen)]
    by_cases hblock : r.geo.blockListed = true
    · rw [if_pos hblock]
      exact worded_append.mpr ⟨worded_writeGeoLogDrop (ruleWorded_geoBlockMatch h.portExpr (h.geo hen) h.breakGlass),
        worded_writePolicyAllow h.portExpr h.srcAllow words_none haccept⟩
    · rw [if_neg hblock]
      refine worded_append.mpr ⟨worded_writePolicyAllow h.portExpr h.srcAllow (fun s hs => Option.some.inj hs ▸ h.geo hen) haccept, ?_⟩
      cases hg : r.breakGlass with
      | none => exact worded_writeGeoLogDrop (by simp [h.portExpr, h.geo hen, Stmt.Words])
      | some s => simp [h.portExpr, h.breakGlass s hg, Stmt.Words]
  · rw [if_pos hen]
    exact worded_writePolicyAllow h.portExpr h.srcAllow words_none haccept

theorem worded_writePolicyForwardDrops {pub wg : String} (h : FilterWords V r) (hpub : V.iface pub) (hwg : V.iface wg) :
    Worded V (writePolicyForwardDrops pub wg r) := by
  have hscope := ruleWorded_wanToTunnel hpub hwg
  have hports : RuleWorded V (r.forwardPorts.stmts r.proto) := ruleWorded_portMatch h.forwardDport h.forwardOrig
  unfold writePolicyForwardDrops
  exact worded_append.mpr ⟨worded_append.mpr ⟨worded_writeDenyDrops h.toPolicyWords hscope hports,
    worded_writeCrowdsecDrop h hscope hports⟩, worded_writePolicyRateLimitScoped h hscope hports⟩

theorem ruleWorded_forwardAccept {pub wg : String} (h : FilterWords V r) (hpub : V.iface pub) (hwg : V.iface wg) :
    RuleWorded V (forwardAccept pub wg r) := by
  have hscope := ruleWorded_wanToTunnel hpub hwg
  have hports : RuleWorded V (r.forwardPorts.stmts r.proto) := ruleWorded_portMatch h.forwardDport h.forwardOrig
  simp [forwardAccept, hscope, hports, ruleWorded_fromSet h.srcAllow, h.target, Stmt.Words]

theorem ruleWorded_routeAcceptedRule {pub wg : String} (h : PlaceWords V r) (hpub : V.iface pub) (hwg : V.iface wg) :
    RuleWorded V (routeAcceptedRule pub wg r) := by
  have hscope := ruleWorded_wanToTunnel hpub hwg
  have hports : RuleWorded V (PortMatch.stmts r.proto
      (if r.forwardPorts = { dport := r.portExpr } then { r.forwardPorts with origDport := some r.portExpr } else r.forwardPorts)) := by
    split
    · exact ruleWorded_portMatch h.forwardDport fun e he => Option.some.inj he ▸ h.portExpr
    · exact ruleWorded_portMatch h.forwardDport h.forwardOrig
  simp [routeAcceptedRule, hscope, hports, h.target, Stmt.Words]

end Writers

/-! ## Chains -/

/-- The words of a config, beside those that only the nat table has. -/
structure ConfigWords (V : Vocabulary) (c : Config) (routes : List RoutePolicy) : Prop where
  loopback : V.iface "lo"
  pub : V.iface c.network.publicInterface
  wg : V.iface c.wireGuard.interface
  geo : c.geo.enabled = true → V.set c.geo.effectiveSetName
  breakGlass : ∀ s, setNameIf setBreakGlass c.geo.breakGlassCIDRs = some s → V.set s
  inputAllows : ∀ a ∈ c.inputAllows, a.disabled = false → V.ports (.tok (trimSpace a.dport))
  adminPorts : ∀ p ∈ adminTCPPortsForInput c, V.ports (.tok (toString p))
  listenPort : V.ports (.tok (toString c.wireGuard.listenPort))
  localCIDRs : ∀ cidr ∈ forwardAllowLocalCIDRs c, V.addr cidr
  routes : ∀ q ∈ routes, FilterWords V q

variable {routes : List RoutePolicy} {allows : List Rule}

theorem worded_writeGeoProtoPortInputRules {block : Bool} {proto : Proto} {port : Ports} (hport : V.ports port)
    (hgeo : c.geo.enabled = true → V.set c.geo.effectiveSetName)
    (hglass : ∀ s, setNameIf setBreakGlass c.geo.breakGlassCIDRs = some s → V.set s) :
    Worded V (writeGeoProtoPortInputRules (c.geo.enabled && c.geo.applyToInputAllows) block c.geo.effectiveSetName
      (setNameIf setBreakGlass c.geo.breakGlassCIDRs) proto port none c.dropCounters) := by
  have haccept : RuleWorded V [.accept] := by simp [Stmt.Words]
  unfold writeGeoProtoPortInputRules
  by_cases hen : (c.geo.enabled && c.geo.applyToInputAllows) = true
  · have hset := hgeo (Bool.and_eq_true_iff.mp hen).1
    rw [if_neg (not_not.mpr hen)]
    split
    · exact worded_append.mpr ⟨worded_writeGeoLogDrop (ruleWorded_geoBlockMatch hport hset hglass),
        worded_writePolicyAllow hport words_none words_none haccept⟩
    · refine worded_append.mpr ⟨worded_append.mpr ⟨worded_writePolicyAllow hport words_none (fun s hs => Option.some.inj hs ▸ hset) haccept,
        ?_⟩, worded_writeGeoLogDrop (by simp [hport, hset, Stmt.Words])⟩
      cases hg : setNameIf setBreakGlass c.geo.breakGlassCIDRs with
      | none => exact worded_nil
      | some s => simp [hport, hglass s hg, Stmt.Words]
  · rw [if_pos hen]
    exact worded_writePolicyAllow hport words_none words_none haccept

theorem inputAllowProtoPort_port {a : AllowRule} {proto : Proto} {port : String} (h : inputAllowProtoPort a = .ok (proto, port)) :
    port = trimSpace a.dport := by
  unfold inputAllowProtoPort at h
  dsimp only at h
  split at h
  · obtain ⟨_, h⟩ := ite_errorf_ok.mp h
    cases h
    rfl
  · obtain ⟨_, h⟩ := ite_errorf_ok.mp h
    cases h
    rfl
  · cases h

theorem worded_inputAllowRules (hgeo : c.geo.enabled = true → V.set c.geo.effectiveSetName)
    (hglass : ∀ s, setNameIf setBreakGlass c.geo.breakGlassCIDRs = some s → V.set s) : ∀ {as : List AllowRule} {rules : List Rule},
    (∀ a ∈ as, a.disabled = false → V.ports (.tok (trimSpace a.dport))) → inputAllowRules c as = .ok rules → Worded V rules
  | [], _, _, h => by
    cases h
    exact worded_nil
  | a :: as, _, hports, h => by
    unfold inputAllowRules at h
    obtain ⟨rules, hrules, h⟩ := bind_ok.mp h
    obtain ⟨rest, hrest, h⟩ := bind_ok.mp h
    cases h
    refine worded_append.mpr ⟨?_, worded_inputAllowRules hgeo hglass (fun a' ha' => hports a' (List.mem_cons_of_mem _ ha')) hrest⟩
    unfold inputAllowRulesOf at hrules
    by_cases hd : a.disabled = true
    · rw [if_pos hd] at hrules
      cases hrules
      exact worded_nil
    · rw [if_neg hd] at hrules
      obtain ⟨⟨proto, port⟩, hport, hrules⟩ := bind_ok.mp hrules
      cases hrules
      rw [inputAllowProtoPort_port (wrapf_ok.mp hport)]
      exact worded_writeGeoProtoPortInputRules (hports a List.mem_cons_self (Bool.eq_false_iff.mpr hd)) hgeo hglass

theorem ConfigWords.inputChain (h : ConfigWords V c routes) (hallows : inputAllowRules c c.inputAllows = .ok allows) :
    Worded V (EvuProxy.inputChain c routes allows).rules := by
  have hinput := worded_inputAllowRules h.geo h.breakGlass h.inputAllows hallows
  have hadmin : Worded V ((adminTCPPortsForInput c).map fun p => [.dport .tcp (.tok (toString p)), .accept]) :=
    worded_map fun p hp => by simpa [Stmt.Words] using h.adminPorts p hp
  have hports : Worded V (routes.flatMap writePolicyInputPort) := worded_flatMap fun q hq => worded_writePolicyInputPort (h.routes q hq)
  simp only [EvuProxy.inputChain, worded_append, worded_cons, worded_nil, hadmin, hports, hinput]
  simpa [h.loopback, Stmt.Words] using h.listenPort

theorem ConfigWords.forwardChain (h : ConfigWords V c routes) : Worded V (EvuProxy.forwardChain c routes).rules := by
  have hlocal : Worded V ((forwardAllowLocalCIDRs c).flatMap (localForwardRules c.network.publicInterface c.wireGuard.interface)) :=
    worded_flatMap fun cidr hcidr => by simp [localForwardRules, h.pub, h.wg, h.localCIDRs cidr hcidr, Stmt.Words]
  have hdrops : Worded V (routes.flatMap (writePolicyForwardDrops c.network.publicInterface c.wireGuard.interface)) :=
    worded_flatMap fun q hq => worded_writePolicyForwardDrops (h.routes q hq) h.pub h.wg
  have haccepts : Worded V (routes.map (forwardAccept c.network.publicInterface c.wireGuard.interface)) :=
    worded_map fun q hq => ruleWorded_forwardAccept (h.routes q hq) h.pub h.wg
  simp [EvuProxy.forwardChain, forwardRules, hlocal, hdrops, haccepts, h.pub, h.wg, Stmt.Words]

/-- The chains of the filter table. -/
theorem ConfigWords.filterChains (h : ConfigWords V c routes) {sets : List SetDecl}
    (hallows : inputAllowRules c c.inputAllows = .ok allows) : ∀ ch ∈ (filterTable c sets routes allows).chains, Worded V ch.rules := by
  intro ch hch
  simp only [filterTable, List.mem_cons, List.not_mem_nil, or_false] at hch
  rcases hch with rfl | rfl
  · exact h.inputChain hallows
  · exact h.forwardChain

/-- The chains of the nat table. -/
theorem worded_natChains {sets : List SetDecl} {paused : List Nat} (h : ∀ q ∈ routes, PolicyWords V q)
    (htarget : ∀ q ∈ routes, V.addr q.target) (hwg : V.iface c.wireGuard.interface) : ∀ ch ∈ (natTable c sets routes paused).chains, Worded V ch.rules := by
  intro ch hch
  simp only [natTable, List.mem_cons, List.not_mem_nil, or_false] at hch
  rcases hch with rfl | rfl
  · exact worded_writeNATPreroutingRules h
  · refine worded_map fun t ht => ?_
    obtain ⟨q, hq, rfl⟩ : ∃ q ∈ routes, q.target = t := by simpa using ht
    simp [hwg, htarget q hq, Stmt.Words]

/-- The table of the counters. -/
theorem worded_acceptedTable {pub wg : String} (h : ∀ q ∈ routes, PlaceWords V q) (hpub : V.iface pub) (hwg : V.iface wg) {t : Table}
    (ht : .table t ∈ writeRouteAcceptedTable pub wg routes) :
    t.sets = [] ∧ ∀ ch ∈ t.chains, Worded V ch.rules := by
  unfold writeRouteAcceptedTable at ht
  split at ht
  · simp at ht
  · simp only [List.cons_append, List.nil_append, List.mem_cons, reduceCtorEq, List.not_mem_nil, or_false, false_or,
      Command.table.injEq] at ht
    subst ht
    refine ⟨rfl, fun ch hch => ?_⟩
    rw [List.mem_singleton.mp hch]
    exact worded_map fun q hq => ruleWorded_routeAcceptedRule (h q hq) hpub hwg

end EvuProxy

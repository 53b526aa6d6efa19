import EvuProxy.Config.PortMeaning
import EvuProxy.Gen.Prerouting
import EvuProxy.Gen.Rendered
import EvuProxy.Gen.Words

/-!
# What the input chain lets in

An entry of `input_allows` decides on every packet to its ports: where geo applies to these entries, a source that it does not admit is
dropped on the spot. The ports of `admin_tcp_ports` and the rules of the routes are for the packets that no entry decides on.
-/

namespace EvuProxy

open Go Nft

variable {c : Config} {h : Host} {k : Packet}

/-- The rules of a chain of a file, by the family and the name of its table. -/
def chainRules (s : Script) (family table chain : String) : List Rule :=
  s.flatMap fun
    | .table t => if t.family = family ∧ t.name = table then (t.chains.filter (·.name = chain)).flatMap (·.rules) else []
    | _ => []

/-- The rules of the input chain. -/
def inputRules (s : Script) : List Rule := chainRules s "inet" "evuproxy" "input"

theorem inputRules_rulesetOf {ord : MapOrder} {paused : List Nat} {routes : List RoutePolicy} {allows : List Rule} :
    inputRules (rulesetOf c ord paused routes allows) = (inputChain c routes allows).rules := by
  have hchains : ((filterTable c (tableSets c ord true) routes allows).chains.filter (·.name = "input")) = [inputChain c routes allows] := by
    rw [filterTable, List.filter_cons_of_pos (by rfl), List.filter_cons_of_neg (by simp [forwardChain]), List.filter_nil]
  have hcounters : chainRules (writeRouteAcceptedTable c.network.publicInterface c.wireGuard.interface routes) "inet" "evuproxy" "input" = [] := by
    unfold writeRouteAcceptedTable
    split
    · rfl
    · rfl
  have hchain : ∀ s s', chainRules (s ++ s') "inet" "evuproxy" "input" =
      chainRules s "inet" "evuproxy" "input" ++ chainRules s' "inet" "evuproxy" "input" := fun _ _ => List.flatMap_append ..
  rw [inputRules, rulesetOf, hchain, hcounters, List.append_nil]
  simp only [chainRules, List.flatMap_cons, List.flatMap_nil, List.nil_append, List.append_nil]
  rw [if_pos ⟨rfl, rfl⟩, if_neg (by simp [natTable]), List.append_nil, hchains, List.flatMap_singleton]

/-! ## The entries of `input_allows` -/

/-- Whether an entry of `input_allows` is on and has a port, as nft reads its `dport`. -/
def AllowRule.opens (proto : Proto) (port : Nat) (a : AllowRule) : Bool :=
  !a.disabled && toLower (trimSpace a.proto) == proto.text && (Ports.tok (trimSpace a.dport)).has port

/-- Whether the entries of `input_allows` take packets from a source. -/
def inputAdmits (c : Config) (h : Host) (src : Nat) : Bool :=
  !(c.geo.enabled && c.geo.applyToInputAllows) || inSome h (setNameIf setBreakGlass c.geo.breakGlassCIDRs) src ||
    h.inSet c.geo.effectiveSetName src != geoBlockListed c

/-- The verdict on a source that is admitted, or is not. -/
def admission (admitted : Bool) : Verdict := if admitted then .accept else .drop

theorem verdict_geoLogDrop {cond : Rule} {counter : Bool} (hcond : Rule.verdict cond = none) :
    verdict h k (writeGeoLogDrop cond counter) = if Rule.fires h k cond then some .drop else none := by
  have hcounter : Rule.fires h k (counterStmt counter) = true := by cases counter <;> rfl
  unfold writeGeoLogDrop
  rw [verdict_cons, verdict_cons, verdict_nil]
  simp only [fires_append, rule_verdict_append, hcond, hcounter, rule_verdict_counterStmt, fires_cons, fires_nil, rule_verdict_cons,
    rule_verdict_nil, Stmt.matches, Stmt.verdict, Option.none_or, Option.or_none, Bool.and_true]
  split <;> rfl

theorem verdict_accept {proto : Proto} {ports : Ports} {set : Option String} : verdict h k (writePolicyAllow proto ports none set [.accept]) =
    if (set.isNone || inSome h set k.src) && (k.proto == proto && ports.has k.dport) then some .accept else none := by
  unfold writePolicyAllow
  rw [verdict_cons, verdict_nil, fires_append, fires_append, fires_append, fires_fromSet, fires_fromSet]
  simp only [Stmt.matches, fires_cons, fires_nil, rule_verdict_append, rule_verdict_fromSet, rule_verdict_cons, rule_verdict_nil,
    Stmt.verdict, Option.none_or, Option.or_none, Bool.and_true, Option.isNone_none, Bool.true_or, Bool.true_and]

/-- The rules of a port decide on every packet to it. -/
theorem verdict_geoProtoPort {on block counter : Bool} {geoSet : String} {glass : Option String} {proto : Proto} {ports : Ports} :
    verdict h k (writeGeoProtoPortInputRules on block geoSet glass proto ports none counter) =
      if k.proto == proto && ports.has k.dport then some (admission (!on || inSome h glass k.src || h.inSet geoSet k.src != block))
      else none := by
  have hblock : Rule.fires h k (geoBlockMatch geoSet glass proto ports) =
      (h.inSet geoSet k.src && !inSome h glass k.src && (k.proto == proto && ports.has k.dport)) := by
    rw [geoBlockMatch, List.cons_append, fires_cons, fires_append, fires_notFromSet]
    simp only [Stmt.matches, fires_cons, fires_nil, Bool.and_true, Bool.bne_false, Bool.and_assoc]
  have hrest : Rule.fires h k [.dport proto ports, .saddrSet true geoSet] =
      (k.proto == proto && ports.has k.dport && !h.inSet geoSet k.src) := by
    simp only [Stmt.matches, fires_cons, fires_nil, Bool.and_true, Bool.bne_true]
  unfold writeGeoProtoPortInputRules
  cases on with
  | false =>
    rw [if_pos Bool.false_ne_true, verdict_accept]
    rfl
  | true =>
    rw [if_neg (not_not.mpr rfl)]
    cases block with
    | true =>
      rw [if_pos rfl, verdict_append, verdict_geoLogDrop (by simp [geoBlockMatch, Stmt.verdict]), hblock, verdict_accept]
      cases k.proto == proto && ports.has k.dport <;> cases h.inSet geoSet k.src <;> cases inSome h glass k.src <;> rfl
    | false =>
      rw [if_neg Bool.false_ne_true, verdict_append, verdict_append, verdict_geoLogDrop (by simp [Stmt.verdict]), hrest, verdict_accept]
      cases glass with
      | none =>
        cases k.proto == proto && ports.has k.dport <;> cases hset : h.inSet geoSet k.src <;> simp [inSome, hset, admission]
      | some s =>
        have hglass : verdict h k [[.saddrSet false s, .dport proto ports, .accept]] =
            if h.inSet s k.src && (k.proto == proto && ports.has k.dport) then some .accept else none := by
          rw [verdict_cons, verdict_nil]
          simp only [Stmt.matches, Stmt.verdict, fires_cons, fires_nil, rule_verdict_cons, rule_verdict_nil, Bool.and_true,
            Bool.bne_false, Option.or_none]
          rfl
        dsimp only
        rw [hglass]
        cases k.proto == proto && ports.has k.dport <;> cases hset : h.inSet geoSet k.src <;> cases hin : h.inSet s k.src <;>
          simp [inSome, hset, hin, admission]

theorem inputAllowProtoPort_proto {a : AllowRule} {proto : Proto} {port : String} (hport : inputAllowProtoPort a = .ok (proto, port)) :
    toLower (trimSpace a.proto) = proto.text := by
  unfold inputAllowProtoPort at hport
  dsimp only at hport
  split at hport
  · rename_i htcp
    obtain ⟨_, hport⟩ := ite_errorf_ok.mp hport
    cases hport
    exact htcp
  · rename_i hudp
    obtain ⟨_, hport⟩ := ite_errorf_ok.mp hport
    cases hport
    exact hudp
  · cases hport

/-- The entries of `input_allows` decide on the packets to their ports. -/
theorem verdict_inputAllowRules : ∀ {as : List AllowRule} {rules : List Rule}, inputAllowRules c as = .ok rules →
    verdict h k rules = if as.any (AllowRule.opens k.proto k.dport) then some (admission (inputAdmits c h k.src)) else none
  | [], rules, hrules => by
    cases hrules
    rfl
  | a :: as, rules, hrules => by
    obtain ⟨here, hhere, hrules⟩ := bind_ok.mp hrules
    obtain ⟨rest, hrest, hrules⟩ := bind_ok.mp hrules
    cases hrules
    rw [verdict_append, verdict_inputAllowRules hrest, List.any_cons]
    have hone : verdict h k here =
        if a.opens k.proto k.dport then some (admission (inputAdmits c h k.src)) else none := by
      unfold inputAllowRulesOf at hhere
      unfold AllowRule.opens
      cases hdis : a.disabled with
      | true =>
        rw [hdis, if_pos rfl] at hhere
        cases hhere
        rfl
      | false =>
        rw [hdis, if_neg Bool.false_ne_true] at hhere
        obtain ⟨⟨proto, dport⟩, hport, hhere⟩ := bind_ok.mp hhere
        cases hhere
        have hport := wrapf_ok.mp hport
        rw [verdict_geoProtoPort, inputAllowProtoPort_port hport, inputAllowProtoPort_proto hport, inputAdmits]
        have hproto : (proto.text == k.proto.text) = (k.proto == proto) := by cases k.proto <;> cases proto <;> decide
        rw [hproto]
        cases c.geo.enabled <;> rfl
    rw [hone]
    cases a.opens k.proto k.dport <;> simp

/-! ## The chain -/

theorem mem_adminTCPPorts {p : Int} : p ∈ adminTCPPortsForInput c ↔ p ∈ c.network.adminTCPPorts := by
  rw [adminTCPPortsForInput, List.mem_insertionSort, List.mem_dedup]

/-- The ports of `admin_tcp_ports` are open to all. -/
theorem verdict_adminRules (hc : Checked c) (htcp : k.proto = .tcp) :
    verdict h k ((adminTCPPortsForInput c).map fun p => [.dport .tcp (.tok (toString p)), .accept]) =
      if (k.dport : Int) ∈ c.network.adminTCPPorts then some .accept else none := by
  have hone : ∀ p ∈ adminTCPPortsForInput c, verdict h k [[.dport .tcp (.tok (toString p)), .accept]] =
      if decide (p = k.dport) then some .accept else none := by
    intro p hp
    obtain ⟨hlo, hhi⟩ := hc.adminPorts p (mem_adminTCPPorts.mp hp)
    obtain ⟨n, rfl⟩ := Int.eq_ofNat_of_zero_le (Int.le_of_lt hlo)
    have hhas : (Ports.tok (toString (n : Int))).has k.dport = decide ((n : Int) = k.dport) := by
      have htext : toString (n : Int) = toString n := rfl
      rw [htext, Bool.eq_iff_iff, has_toString (by omega) (by omega), decide_eq_true_iff]
      omega
    rw [verdict_cons, verdict_nil]
    simp only [Stmt.matches, Stmt.verdict, fires_cons, fires_nil, rule_verdict_cons, rule_verdict_nil, htcp, hhas, beq_self_eq_true,
      Bool.true_and, Bool.and_true, Option.or_none]
    rfl
  have hrules : (adminTCPPortsForInput c).map (fun p => [Stmt.dport .tcp (.tok (toString p)), .accept]) =
      (adminTCPPortsForInput c).flatMap fun p => [[Stmt.dport .tcp (.tok (toString p)), .accept]] := List.map_eq_flatMap
  rw [hrules, verdict_flatMap hone]
  by_cases hmem : (k.dport : Int) ∈ c.network.adminTCPPorts
  · rw [if_pos hmem]
    cases hfind : (adminTCPPortsForInput c).find? fun p => decide (p = (k.dport : Int)) with
    | none =>
      have hno := List.find?_eq_none.mp hfind _ (mem_adminTCPPorts.mpr hmem)
      exact absurd (decide_eq_true rfl) hno
    | some p => rfl
  · rw [if_neg hmem, List.find?_eq_none.mpr, Option.map_none]
    intro p hp heq
    rw [of_decide_eq_true heq] at hp
    exact hmem (mem_adminTCPPorts.mp hp)

/-- The verdict of the rules that the routes put into the input chain. -/
def routesVerdict (routes : List RoutePolicy) (h : Host) (k : Packet) : Option Verdict := verdict h k (routes.flatMap writePolicyInputPort)

/-- A config lets in the first packet of a TCP connection from elsewhere. -/
structure LetsIn (c : Config) (h : Host) (k : Packet) : Prop where
  entry : c.inputAllows.any (AllowRule.opens .tcp k.dport) = true → inputAdmits c h k.src = true
  rest : c.inputAllows.any (AllowRule.opens .tcp k.dport) = false → (k.dport : Int) ∉ c.network.adminTCPPorts →
    ∃ routes, routePolicies c = .ok routes ∧ routesVerdict routes h k = some .accept

theorem inputChain_accepts (hc : Checked c) {routes : List RoutePolicy} {allows : List Rule} (hroutes : routePolicies c = .ok routes)
    (hallows : inputAllowRules c c.inputAllows = .ok allows) (htcp : k.proto = .tcp) (hnew : k.ct = .new) :
    verdict h k (inputChain c routes allows).rules = some .accept ↔ k.iif = "lo" ∨ LetsIn c h k := by
  have hrest : verdict h k (inputChain c routes allows).rules = if k.iif = "lo" then some .accept else
      ((verdict h k allows).or (if (k.dport : Int) ∈ c.network.adminTCPPorts then some .accept else none)).or (routesVerdict routes h k) := by
    have hudp : verdict h k [[.dport .udp (.tok (toString c.wireGuard.listenPort)), .accept]] = none := by
      rw [verdict_cons, verdict_nil, fires_cons, Stmt.matches, htcp]
      rfl
    have hstate : Rule.fires h k [.ctState [.established, .related], .accept] = false := by
      rw [fires_cons, Stmt.matches, hnew]
      rfl
    have hhead : verdict h k [[.ctState [.established, .related], .accept], [.iif "lo", .accept]] =
        if k.iif = "lo" then some .accept else none := by
      rw [verdict_cons, verdict_cons, verdict_nil, hstate, if_neg Bool.false_ne_true]
      simp [Stmt.matches, Stmt.verdict]
    rw [inputChain, verdict_append, verdict_append, verdict_append, verdict_append, hhead, hudp, verdict_adminRules hc htcp, Option.or_none]
    split
    · rfl
    · rfl
  rw [hrest]
  by_cases hlo : k.iif = "lo"
  · rw [if_pos hlo]
    exact iff_of_true rfl (.inl hlo)
  rw [if_neg hlo, verdict_inputAllowRules hallows, htcp, or_iff_right hlo]
  constructor
  · intro haccept
    constructor
    · intro hentry
      rw [if_pos hentry, Option.some_or, Option.some_or, Option.some.injEq] at haccept
      by_contra hno
      rw [Bool.not_eq_true] at hno
      rw [hno] at haccept
      cases haccept
    · intro hentry hadmin
      rw [if_neg (Bool.eq_false_iff.mp hentry), if_neg hadmin] at haccept
      exact ⟨routes, hroutes, haccept⟩
  · intro hin
    cases hentry : c.inputAllows.any (AllowRule.opens .tcp k.dport) with
    | true =>
      rw [if_pos rfl, hin.entry hentry]
      rfl
    | false =>
      rw [if_neg Bool.false_ne_true]
      by_cases hadmin : (k.dport : Int) ∈ c.network.adminTCPPorts
      · rw [if_pos hadmin]
        rfl
      · obtain ⟨routes', hroutes', haccept⟩ := hin.rest hentry hadmin
        obtain rfl := Except.ok.inj (hroutes.symm.trans hroutes')
        rw [if_neg hadmin]
        exact haccept

/-- What the input chain of the file of an accepted config lets in. -/
theorem Checked.inputRules_accept (hc : Checked c) {ord : MapOrder} {s : Script} (hs : EvuProxy.rulesetScript c ord [] = .ok s)
    (htcp : k.proto = .tcp) (hnew : k.ct = .new) : verdict h k (inputRules s) = some .accept ↔ k.iif = "lo" ∨ LetsIn c h k := by
  rw [hc.rulesetScript] at hs
  obtain ⟨routes, hroutes, hs⟩ := bind_ok.mp hs
  obtain ⟨allows, hallows, hs⟩ := bind_ok.mp hs
  obtain rfl := Except.ok.inj hs
  rw [inputRules_rulesetOf, inputChain_accepts hc hroutes hallows htcp hnew]

end EvuProxy

import EvuProxy.Gen.Policy

/-!
# The generated ruleset

`internal/gen/nftables.go`, `nftables_accepted.go` and `nftables_paused.go`. The source walks two Go maps while it declares the
sets of the rate limits, in an order that differs from call to call: `MapOrder` is that order.
-/

namespace EvuProxy

open Go Nft

/-- The order in which the two maps of `rateLimitSetNeeds` are walked. -/
structure MapOrder where
  syn : List Nat := []
  udp : List Nat := []
  deriving DecidableEq

/-- The keys of a map in the order given; keys the order leaves out come last. -/
def walkKeys (keys order : List Nat) : List Nat := (order.dedup.filter (· ∈ keys)) ++ keys.filter (· ∉ order)

/-! ## Sets -/

/-- `writeRouteSrcSet`. -/
def routeSrcSet (name : String) (elems : List String) : SetDecl :=
  { name := name, flags := "interval", autoMerge := true, elements := elems }

/-- `writeBreakGlassSet`, `writeGlobalDenySet` and the sets of a route: declared when there are entries. -/
def sourceSet (name : String) (cidrs : List String) : List SetDecl :=
  if normalizedRouteSourceElems cidrs = [] then [] else [routeSrcSet name (normalizedRouteSourceElems cidrs)]

/-- `writeGeoSet`. -/
def geoSetDecl (name : String) : SetDecl := { name := name, flags := "interval", autoMerge := true }

/-- `writeCrowdsecSet`. -/
def crowdsecSetDecl : SetDecl := { name := setCrowdsecBlock, flags := "interval, timeout", autoMerge := true }

/-- The set of a rate limit. -/
def rateSetDecl (name : String) : SetDecl := { name := name, flags := "dynamic", timeout := some "2s" }

/-- The active routes with their indexes. -/
def activeRoutes (c : Config) : List (Nat × ForwardRoute) :=
  (c.forwarding.routes.zipIdx.filter fun p => !p.1.disabled).map fun p => (p.2, p.1)

/-- `writeAllRouteSrcSets`. -/
def writeAllRouteSrcSets (c : Config) : List (Nat × ForwardRoute) → Except ValidationError (List SetDecl)
  | [] => .ok []
  | (i, r) :: rs => do
    if normalizedRouteSourceElems r.sourceAllowCIDRs ≠ [] then validateSourceAllowCIDRs i r.sourceAllowCIDRs
    let rest ← writeAllRouteSrcSets c rs
    return sourceSet (routeSrcSetName i) r.sourceAllowCIDRs ++ rest

/-- `writeRouteDenySets`. -/
def writeRouteDenySets (c : Config) : List (Nat × ForwardRoute) → Except ValidationError (List SetDecl)
  | [] => .ok []
  | (i, r) :: rs => do
    if normalizedRouteSourceElems r.sourceDenyCIDRs ≠ [] then validateSourceDenyCIDRs (some i) r.sourceDenyCIDRs
    let rest ← writeRouteDenySets c rs
    return sourceSet (routeDenySetName i) r.sourceDenyCIDRs ++ rest

/-- `writeRouteCustomGeoSets`. -/
def writeRouteCustomGeoSets (c : Config) : List SetDecl :=
  if ¬c.geo.enabled then []
  else ((activeRoutes c).filter fun p => toLower (trimSpace p.2.geoMode) = "custom").map fun p => geoSetDecl (routeGeoSetName p.1)

/-- `rateLimitSetNeedsFor` and `writeRateLimitSets`. -/
def rateLimitSets (c : Config) (ord : MapOrder) : List SetDecl :=
  let g := c.forwarding.rateLimit
  let synKeys := ((activeRoutes c).filter fun p => 0 < p.2.rateLimit.tcpSynPerSecond).map (·.1)
  let udpKeys := ((activeRoutes c).filter fun p => 0 < p.2.rateLimit.udpPerSecond).map (·.1)
  let conn := ((activeRoutes c).filter fun p => 0 < p.2.rateLimit.maxConnPerIP ∨ 0 < g.maxConnPerIP).flatMap fun p =>
    match parseRouteProtocols p.2.proto with
    | .ok protos => protos.map (rateLimitConnSet p.1)
    | .error _ => []
  (if 0 < g.tcpSynPerSecond then [rateSetDecl setRateLimitSyn] else []) ++
    (if 0 < g.udpPerSecond then [rateSetDecl setRateLimitUDP] else []) ++
    (walkKeys synKeys ord.syn).map (fun i => rateSetDecl (rateLimitSynSetRoute i)) ++
    (walkKeys udpKeys ord.udp).map (fun i => rateSetDecl (rateLimitUDPSetRoute i)) ++
    conn.map fun name => { name := name, flags := "dynamic" }

/-- `emitTableSets`. -/
def emitTableSets (c : Config) (ord : MapOrder) (filterTable : Bool) : Except ValidationError (List SetDecl) := do
  let src ← writeAllRouteSrcSets c (activeRoutes c)
  let deny ← writeRouteDenySets c (activeRoutes c)
  return (if c.geo.enabled then [geoSetDecl c.geo.effectiveSetName] else []) ++
    (if filterTable ∧ c.crowdSecEnabled then [crowdsecSetDecl] else []) ++
    sourceSet setBreakGlass c.geo.breakGlassCIDRs ++ sourceSet setGlobalDeny c.forwarding.sourceDenyCIDRs ++
    src ++ deny ++ writeRouteCustomGeoSets c ++ (if filterTable then rateLimitSets c ord else [])

/-! ## The input chain -/

/-- `inputAllowProtoPort`. -/
def inputAllowProtoPort (a : AllowRule) : Except ValidationError (Proto × String) :=
  let dport := trimSpace a.dport
  match toLower (trimSpace a.proto) with
  | "tcp" => if dport = "" then errorf "dport is required" else .ok (.tcp, dport)
  | "udp" => if dport = "" then errorf "dport is required" else .ok (.udp, dport)
  | _ => errorf "proto must be tcp or udp"

/-- `writeGeoProtoPortInputRules`. -/
def writeGeoProtoPortInputRules (geoEnabled blockListed : Bool) (geoSet : String) (breakGlass : Option String)
    (proto : Proto) (portExpr : Ports) (routeSrcSet : Option String) (counter : Bool) : List Rule :=
  if ¬geoEnabled then writePolicyAllow proto portExpr routeSrcSet none [.accept]
  else if blockListed then
    writeGeoLogDrop (geoBlockMatch geoSet breakGlass proto portExpr) counter ++
      writePolicyAllow proto portExpr routeSrcSet none [.accept]
  else
    writePolicyAllow proto portExpr routeSrcSet (some geoSet) [.accept] ++
      (match breakGlass with
      | some s => [[.saddrSet false s, .dport proto portExpr, .accept]]
      | none => []) ++
      writeGeoLogDrop [.dport proto portExpr, .saddrSet true geoSet] counter

/-- The rules of one entry of `input_allows`. -/
def inputAllowRulesOf (c : Config) (a : AllowRule) : Except ValidationError (List Rule) :=
  if a.disabled then .ok []
  else do
    let (proto, dport) ← wrapf "input_allows" (inputAllowProtoPort a)
    return writeGeoProtoPortInputRules (c.geo.enabled && c.geo.applyToInputAllows) (c.geo.enabled && geoBlockListed c)
      c.geo.effectiveSetName (setNameIf setBreakGlass c.geo.breakGlassCIDRs) proto (.tok dport) none c.dropCounters

/-- The rules of `input_allows`. -/
def inputAllowRules (c : Config) : List AllowRule → Except ValidationError (List Rule)
  | [] => .ok []
  | a :: as => do
    let rules ← inputAllowRulesOf c a
    let rest ← inputAllowRules c as
    return rules ++ rest

/-- `adminTCPPortsForInput`. -/
def adminTCPPortsForInput (c : Config) : List Int := c.network.adminTCPPorts.dedup.insertionSort (· ≤ ·)

/-- The input chain. -/
def inputChain (c : Config) (routes : List RoutePolicy) (allows : List Rule) : Chain where
  name := "input"
  header := "type filter hook input priority 0; policy drop;"
  rules := [[.ctState [.established, .related], .accept], [.iif "lo", .accept]] ++ allows ++
    (adminTCPPortsForInput c).map (fun p => [.dport .tcp (.tok (toString p)), .accept]) ++
    [[.dport .udp (.tok (toString c.wireGuard.listenPort)), .accept]] ++ routes.flatMap writePolicyInputPort
  spaced := true
  breaks := [1]

/-! ## The forward chain -/

/-- `forwardAllowLocalCIDRs`. -/
def forwardAllowLocalCIDRs (c : Config) : List String :=
  let docker := if c.network.forwardAllowDockerBridges then ["172.16.0.0/12", "192.168.0.0/16"] else []
  let all := docker ++ (c.network.forwardExtraLocalCIDRs.map trimSpace).filter (· ≠ "")
  (all.reverse.dedup).reverse

/-- The accepts for local networks: to published container ports, and from containers to the internet. -/
def localForwardRules (pub wg cidr : String) : List Rule :=
  [[.iifname pub, .oifname true wg, .daddr cidr, .accept], [.saddr cidr, .oifname false pub, .accept]]

/-- The rules of the forward chain. -/
def forwardRules (c : Config) (routes : List RoutePolicy) : List Rule :=
  let pub := c.network.publicInterface
  let wg := c.wireGuard.interface
  (forwardAllowLocalCIDRs c).flatMap (localForwardRules pub wg) ++ routes.flatMap (writePolicyForwardDrops pub wg) ++
    [[.ctState [.established, .related], .accept]] ++ routes.map (forwardAccept pub wg) ++
    [[.iifname wg, .oifname false pub, .ctState [.established, .related], .accept],
      counterStmt c.dropCounters ++
        [.limit "3/minute burst 5 packets", .log "evuproxy-forward-drop: ", .drop]]

/-- The forward chain. -/
def forwardChain (c : Config) (routes : List RoutePolicy) : Chain where
  name := "forward"
  header := "type filter hook forward priority 0; policy drop;"
  rules := forwardRules c routes
  spaced := true

/-! ## The nat table and the counters -/

/-- The prerouting chain, with the routes at the indexes `paused` closed. -/
def preroutingChain (routes : List RoutePolicy) (paused : List Nat) : Chain where
  name := "prerouting"
  header := "type nat hook prerouting priority -100;"
  rules := writeNATPreroutingRules routes paused

/-- The postrouting chain. -/
def postroutingChain (wg : String) (routes : List RoutePolicy) : Chain where
  name := "postrouting"
  header := "type nat hook postrouting priority 100;"
  rules := ((routes.map (·.target)).dedup.insertionSort (· ≤ ·)).map fun t => [.oifname false wg, .daddr t, .masquerade]

/-- `RouteAcceptedTable`. -/
def routeAcceptedTable : String := "evuproxy_accepted"

/-- `routeAcceptedComment`. -/
def routeAcceptedComment (routeIndex : Nat) (proto : Proto) : String :=
  "evuproxy-accepted route=" ++ toString routeIndex ++ " proto=" ++ proto.text

/-- The counter of one policy in `writeRouteAcceptedTable`. -/
def routeAcceptedRule (pub wg : String) (r : RoutePolicy) : Rule :=
  let ports := if r.forwardPorts = { dport := r.portExpr } then { r.forwardPorts with origDport := some r.portExpr }
    else r.forwardPorts
  wanToTunnel pub wg ++ [.daddr r.target] ++ PortMatch.stmts r.proto ports ++
    [.counter, .comment (routeAcceptedComment r.routeIndex r.proto)]

/-- `writeRouteAcceptedTable`. -/
def writeRouteAcceptedTable (pub wg : String) (routes : List RoutePolicy) : Script :=
  [.blank, .addTable "inet" routeAcceptedTable, .deleteTable "inet" routeAcceptedTable] ++
    if routes = [] then []
    else [.table
      { family := "inet", name := routeAcceptedTable
        chains := [{ name := "route_accepted", header := "type filter hook forward priority 10; policy accept;"
                     rules := routes.map (routeAcceptedRule pub wg), spaced := true }] }]

/-! ## The files -/

/-- The filter table. -/
def filterTable (c : Config) (sets : List SetDecl) (routes : List RoutePolicy) (allows : List Rule) : Table :=
  { family := "inet", name := "evuproxy", sets := sets, chains := [inputChain c routes allows, forwardChain c routes] }

/-- The nat table. -/
def natTable (c : Config) (sets : List SetDecl) (routes : List RoutePolicy) (paused : List Nat) : Table :=
  { family := "ip", name := "evuproxy", sets := sets
    chains := [preroutingChain routes paused, postroutingChain c.wireGuard.interface routes] }

/-- The full ruleset, with the routes at the indexes `paused` closed. The source renders it with none. -/
def rulesetScript (c : Config) (ord : MapOrder) (paused : List Nat) : Except ValidationError Script := do
  let routes ← routePolicies c
  let filterSets ← emitTableSets c ord true
  let allows ← inputAllowRules c c.inputAllows
  let natSets ← emitTableSets c ord false
  return [.comment "Generated by evuproxy — do not edit. Regenerate with: evuproxy reload", .blank,
      .addTable "inet" "evuproxy", .deleteTable "inet" "evuproxy", .table (filterTable c filterSets routes allows), .blank,
      .addTable "ip" "evuproxy", .deleteTable "ip" "evuproxy", .table (natTable c natSets routes paused)] ++
    writeRouteAcceptedTable c.network.publicInterface c.wireGuard.interface routes

/-- `NFTables`. -/
def nftables (c : Config) (ord : MapOrder) : Except ValidationError String := (rulesetScript c ord []).map scriptText

/-- The file that rewrites the prerouting chain alone. -/
def preroutingScript (routes : List RoutePolicy) (paused : List Nat) : Script :=
  [.comment "Generated by evuproxy for paused routes — do not edit.", .blank, .flushChain "ip" "evuproxy" "prerouting",
    .table { family := "ip", name := "evuproxy", chains := [preroutingChain routes paused] }]

/-- `NATPreroutingUpdate`. -/
def natPreroutingUpdate (c : Config) (paused : List Nat) : Except ValidationError String :=
  (routePolicies c).map fun routes => scriptText (preroutingScript routes paused)

/-- The markers of paused routes in a text: the number after each `comment "evuproxy-paused:`, when a quote ends it. -/
def pausedMarkers : List Char → List Nat
  | [] => []
  | c :: cs =>
    let mark := ("comment \"" ++ pausedRouteComment).toList
    let here := if mark.isPrefixOf (c :: cs) then
        let digits := ((c :: cs).drop mark.length).takeWhile isDigit
        let rest := ((c :: cs).drop mark.length).dropWhile isDigit
        if digits ≠ [] ∧ rest.head? = some '"' ∧ digitsVal digits < 2 ^ 63 then [digitsVal digits] else []
      else []
    here ++ pausedMarkers cs

/-- `PausedRoutesIn`. -/
def pausedRoutesIn (rules : String) : List Nat := (pausedMarkers rules.toList).dedup.insertionSort (· ≤ ·)

end EvuProxy

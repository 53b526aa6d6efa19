import EvuProxy.Config.Validate
import EvuProxy.Nft.Syntax

/-!
# Route policies and their rules

`internal/gen/nftables_policy.go`, `nftables_rate_limit.go`, `nftables_crowdsec.go` and `routePolicies` of `nftables.go`. Where the
source writes text with `fmt.Fprintf`, this writes the same rules as syntax, which `Nft.ruleText` turns into that text.
-/

namespace EvuProxy

open Go Nft

def setBreakGlass : String := "break_glass_v4"
def setGlobalDeny : String := "global_src_deny_v4"
def setCrowdsecBlock : String := "crowdsec_block_v4"
def setRateLimitSyn : String := "ratelimit_syn_v4"
def setRateLimitUDP : String := "ratelimit_udp_v4"
def logPrefixCrowdsec : String := "evuproxy-crowdsec: "
def logPrefixRateLimit : String := "evuproxy-ratelimit: "

def routeSrcSetName (routeIndex : Nat) : String := "route_src_" ++ toString routeIndex
def routeDenySetName (routeIndex : Nat) : String := "route_deny_" ++ toString routeIndex
def routeGeoSetName (routeIndex : Nat) : String := "route_geo_" ++ toString routeIndex
def rateLimitSynSetRoute (i : Nat) : String := "ratelimit_syn_r" ++ toString i
def rateLimitUDPSetRoute (i : Nat) : String := "ratelimit_udp_r" ++ toString i

/-- `rateLimitConnSet`: per route and protocol. -/
def rateLimitConnSet (i : Nat) (proto : Proto) : String := "ratelimit_conn_r" ++ toString i ++ "_" ++ proto.text

/-- `normalizedRouteSourceElems`. -/
def normalizedRouteSourceElems (cidrs : List String) : List String := (cidrs.map trimSpace).filter (· ≠ "")

/-- A set that is declared when a list of sources has entries: its name, or none. -/
def setNameIf (name : String) (cidrs : List String) : Option String :=
  if normalizedRouteSourceElems cidrs = [] then none else some name

/-- `formatPortSets`: the entries of a list of ports as one set, or none. -/
def formatPortSets (ports : List String) : Option Ports :=
  if normalizedPortTokens ports = [] then none else some (.set (normalizedPortTokens ports))

/-- A port match in the forward chain: the port after DNAT and, for a mapped route, the public port conntrack remembers. -/
structure PortMatch where
  dport : Ports
  origDport : Option Ports := none
  deriving DecidableEq

/-- `routeDNATLine`. `dnatTo` is the host and, for a mapped port, the port. -/
structure RouteDNATLine where
  publicDport : String
  dnatTo : String × Option String
  deriving DecidableEq

/-- `routeGeoParams`. -/
structure RouteGeoParams where
  enabled : Bool := false
  blockListed : Bool := false
  setName : String := ""
  deriving DecidableEq

/-- `routePolicy`: what the rules of one route and protocol are written from. A set that is not in use is `none`. -/
structure RoutePolicy where
  routeIndex : Nat
  proto : Proto
  portExpr : Ports
  forwardPorts : PortMatch
  target : String
  srcAllow : Option String
  srcDeny : Option String
  geo : RouteGeoParams
  globalRL : RateLimit
  routeRL : RateLimit
  dnat : List RouteDNATLine
  crowdsecSet : Option String
  breakGlass : Option String
  globalDeny : Option String
  counter : Bool
  deriving DecidableEq

/-! ## The policies of a config -/

/-- `buildRouteDNATLines`: the lines of one token. -/
def buildTokenDNATLines (r : ForwardRoute) (tok : String) : Except ValidationError (List RouteDNATLine) := do
  match ← rangePortPairs tok r.portMaps with
  | some pairs =>
    return pairs.map fun p => { publicDport := toString p.1, dnatTo := (trimSpace r.targetIP, some (toString p.2)) }
  | none =>
    let dest ← dnatDestination r.targetIP tok r.portMaps
    return [{ publicDport := tok, dnatTo := dest }]

/-- `buildRouteDNATLines`, on the tokens of `ports`. -/
def buildRouteDNATLines (r : ForwardRoute) : List String → Except ValidationError (List RouteDNATLine)
  | [] => .ok []
  | tok :: toks => do
    let lines ← buildTokenDNATLines r tok
    let rest ← buildRouteDNATLines r toks
    return lines ++ rest

/-- `routeForwardPorts`. -/
def routeForwardPorts (r : ForwardRoute) (publicExpr : Ports) : PortMatch :=
  if r.portMaps = [] then { dport := publicExpr }
  else
    { dport := .set (normalizedPortTokens ((normalizedPortTokens r.ports).map fun tok => internalPort tok r.portMaps))
      origDport := some publicExpr }

/-- `strings.EqualFold(strings.TrimSpace(c.Geo.Mode), "block")`, which several writers ask. -/
def geoBlockListed (c : Config) : Bool := equalFold (trimSpace c.geo.mode) "block"

/-- `routeGeoParamsFor`. -/
def routeGeoParamsFor (c : Config) (routeIndex : Nat) (r : ForwardRoute) : RouteGeoParams :=
  if routeGeoMode r = "off" ∨ ¬c.geo.enabled then {}
  else if routeGeoMode r = "custom" then
    { enabled := true, blockListed := geoBlockListed c, setName := routeGeoSetName routeIndex }
  else { enabled := true, blockListed := geoBlockListed c, setName := c.geo.effectiveSetName }

/-- `crowdsecSetName`. -/
def crowdsecSetName (enabled : Bool) : Option String := if enabled then some setCrowdsecBlock else none

/-- The policies of one route: one for each protocol. -/
def routePoliciesOf (c : Config) (i : Nat) (r : ForwardRoute) : Except ValidationError (List RoutePolicy) :=
  if r.disabled then .ok []
  else
    let label := "forwarding.routes " ++ r.proto ++ " " ++ r.targetIP
    match formatPortSets r.ports with
    | none => errorf ("forwarding.routes: empty port set for " ++ r.proto ++ " -> " ++ r.targetIP)
    | some expr => do
      let protos ← wrapf label (parseRouteProtocols r.proto)
      let dnatLines ← wrapf (routePath i) (buildRouteDNATLines r (normalizedPortTokens r.ports))
      return protos.map fun p =>
        { routeIndex := i
          proto := p
          portExpr := expr
          forwardPorts := routeForwardPorts r expr
          target := trimSpace r.targetIP
          srcAllow := setNameIf (routeSrcSetName i) r.sourceAllowCIDRs
          srcDeny := setNameIf (routeDenySetName i) r.sourceDenyCIDRs
          geo := routeGeoParamsFor c i r
          globalRL := c.forwarding.rateLimit
          routeRL := r.rateLimit
          dnat := dnatLines
          crowdsecSet := crowdsecSetName c.crowdSecEnabled
          breakGlass := setNameIf setBreakGlass c.geo.breakGlassCIDRs
          globalDeny := setNameIf setGlobalDeny c.forwarding.sourceDenyCIDRs
          counter := c.dropCounters }

/-- The policies of the routes from the `i`-th on. -/
def routePoliciesFrom (c : Config) : Nat → List ForwardRoute → Except ValidationError (List RoutePolicy)
  | _, [] => .ok []
  | i, r :: rs => do
    let ps ← routePoliciesOf c i r
    let rest ← routePoliciesFrom c (i + 1) rs
    return ps ++ rest

/-- `routePolicies`. -/
def routePolicies (c : Config) : Except ValidationError (List RoutePolicy) :=
  if c.forwarding.maintenanceMode then .ok [] else routePoliciesFrom c 0 c.forwarding.routes

/-! ## Statements that rules share -/

/-- `dropCounter`. -/
def counterStmt (counter : Bool) : Rule := if counter then [.counter] else []

/-- A match on the source, for a set that may not be in use. -/
def fromSet (set : Option String) : Rule := match set with | some s => [.saddrSet false s] | none => []

/-- `rateLimitExemptPrefix`, and the break-glass part of other drops. -/
def notFromSet (set : Option String) : Rule := match set with | some s => [.saddrSet true s] | none => []

/-- The port match of a rule. -/
def PortMatch.stmts (proto : Proto) (m : PortMatch) : Rule :=
  .dport proto m.dport :: match m.origDport with | some e => [.origDport e] | none => []

/-- From the public interface into the tunnel. -/
def wanToTunnel (pub wg : String) : Rule := [.iifname pub, .oifname false wg]

/-! ## Prerouting and input -/

/-- `writePolicyAllow`. -/
def writePolicyAllow (proto : Proto) (portExpr : Ports) (srcAllow geoSet : Option String) (verdict : Rule) : List Rule :=
  [fromSet srcAllow ++ fromSet geoSet ++ [.dport proto portExpr] ++ verdict]

/-- What `writePolicyGeoBlockDrop` and its logging kind match. -/
def geoBlockMatch (geoSet : String) (breakGlass : Option String) (proto : Proto) (portExpr : Ports) : Rule :=
  .saddrSet false geoSet :: notFromSet breakGlass ++ [.dport proto portExpr]

/-- `writePolicyGeoBlockDrop`. -/
def writePolicyGeoBlockDrop (geoSet : String) (breakGlass : Option String) (proto : Proto) (portExpr : Ports)
    (counter : Bool) : List Rule :=
  [geoBlockMatch geoSet breakGlass proto portExpr ++ counterStmt counter ++ [.drop]]

/-- `writeGeoLogDrop`. -/
def writeGeoLogDrop (cond : Rule) (counter : Bool) : List Rule :=
  [cond ++ [.limit "5/minute burst 20 packets", .log "evuproxy-geo-block: "], cond ++ counterStmt counter ++ [.drop]]

/-- The drops of `globalDeny` and `srcDeny`, under a scope and a port match. -/
def writeDenyDrops (scope : Rule) (r : RoutePolicy) (ports : Rule) : List Rule :=
  [r.globalDeny, r.srcDeny].flatMap fun set =>
    match set with
    | some s => [scope ++ [.saddrSet false s] ++ ports ++ counterStmt r.counter ++ [.drop]]
    | none => []

/-- `writePolicyPrerouting`. -/
def writePolicyPrerouting (r : RoutePolicy) (publicDport : String) (verdict : Rule) : List Rule :=
  let port := Ports.tok publicDport
  writeDenyDrops [] r [.dport r.proto port] ++
    if ¬r.geo.enabled then writePolicyAllow r.proto port r.srcAllow none verdict
    else if r.geo.blockListed then
      writePolicyGeoBlockDrop r.geo.setName r.breakGlass r.proto port r.counter ++
        writePolicyAllow r.proto port r.srcAllow none verdict
    else
      writePolicyAllow r.proto port r.srcAllow (some r.geo.setName) verdict ++
        match r.breakGlass with
        | some s => [[.saddrSet false s, .dport r.proto port] ++ verdict]
        | none => []

/-- `writePolicyDnatLine`. -/
def writePolicyDnatLine (r : RoutePolicy) (line : RouteDNATLine) : List Rule :=
  if line.publicDport = "" ∨ line.dnatTo = ("", none) then []
  else writePolicyPrerouting r line.publicDport [.dnat line.dnatTo.1 line.dnatTo.2]

/-- What `writePolicyCrowdsecDrop` and `writePolicyCrowdsecForwardDrop` write, under a scope. -/
def writeCrowdsecDrop (scope : Rule) (r : RoutePolicy) (ports : Rule) : List Rule :=
  match r.crowdsecSet with
  | none => []
  | some s =>
    [scope ++ [.saddrSet false s] ++ notFromSet r.breakGlass ++ ports ++ counterStmt r.counter ++
      [.log logPrefixCrowdsec, .drop]]

/-! ## Rate limits -/

/-- `rateLimitBurst`. -/
def rateLimitBurst (perSecond : Nat) : Nat := if 50 < perSecond then perSecond else perSecond * 2

/-- `rateLimitBinding`. -/
structure RateLimitBinding where
  connN : Nat
  synSet : Option String
  synN : Nat
  udpSet : Option String
  udpN : Nat

/-- `rateLimitBindingForRoute`. -/
def rateLimitBindingForRoute (routeIndex : Nat) (global route : RateLimit) : RateLimitBinding where
  connN := if 0 < route.maxConnPerIP then route.maxConnPerIP else global.maxConnPerIP
  synSet := if 0 < route.tcpSynPerSecond then some (rateLimitSynSetRoute routeIndex)
    else if 0 < global.tcpSynPerSecond then some setRateLimitSyn else none
  synN := if 0 < route.tcpSynPerSecond then route.tcpSynPerSecond else global.tcpSynPerSecond
  udpSet := if 0 < route.udpPerSecond then some (rateLimitUDPSetRoute routeIndex)
    else if 0 < global.udpPerSecond then some setRateLimitUDP else none
  udpN := if 0 < route.udpPerSecond then route.udpPerSecond else global.udpPerSecond

/-- The end of a rate limit rule. -/
def rateLimitDrop (counter : Bool) : Rule := counterStmt counter ++ [.log logPrefixRateLimit, .drop]

/-- `writePolicyRateLimitScoped`. -/
def writePolicyRateLimitScoped (scope : Rule) (r : RoutePolicy) (ports : Rule) : List Rule :=
  let rl := rateLimitBindingForRoute r.routeIndex r.globalRL r.routeRL
  let start := scope ++ notFromSet r.breakGlass ++ ports
  let connSet := rateLimitConnSet r.routeIndex r.proto
  (if 0 < rl.connN then
    [start ++ [.ctState [.established, .related], .connOver connSet rl.connN] ++ rateLimitDrop r.counter,
      start ++ [.ctState [.new], .connOver connSet rl.connN] ++ rateLimitDrop r.counter]
  else []) ++
  (match r.proto, rl.synSet with
  | .tcp, some s =>
    [start ++ [.tcpSyn, .ctState [.new], .rateOver s rl.synN (rateLimitBurst rl.synN)] ++ rateLimitDrop r.counter]
  | _, _ => []) ++
  match r.proto, rl.udpSet with
  | .udp, some s => [start ++ [.rateOver s rl.udpN (rateLimitBurst rl.udpN)] ++ rateLimitDrop r.counter]
  | _, _ => []

/-! ## The input and forward rules of a policy -/

/-- `writePolicyInputPort`. -/
def writePolicyInputPort (r : RoutePolicy) : List Rule :=
  let ports : Rule := [.dport r.proto r.portExpr]
  writeDenyDrops [] r ports ++ writeCrowdsecDrop [] r ports ++ writePolicyRateLimitScoped [] r ports ++
    if ¬r.geo.enabled then writePolicyAllow r.proto r.portExpr r.srcAllow none [.accept]
    else if r.geo.blockListed then
      writeGeoLogDrop (geoBlockMatch r.geo.setName r.breakGlass r.proto r.portExpr) r.counter ++
        writePolicyAllow r.proto r.portExpr r.srcAllow none [.accept]
    else
      writePolicyAllow r.proto r.portExpr r.srcAllow (some r.geo.setName) [.accept] ++
        match r.breakGlass with
        | some s => [[.saddrSet false s, .dport r.proto r.portExpr, .accept]]
        | none => writeGeoLogDrop [.dport r.proto r.portExpr, .saddrSet true r.geo.setName] r.counter

/-- `writePolicyForwardDrops`. -/
def writePolicyForwardDrops (pub wg : String) (r : RoutePolicy) : List Rule :=
  let ports := r.forwardPorts.stmts r.proto
  writeDenyDrops (wanToTunnel pub wg) r ports ++ writeCrowdsecDrop (wanToTunnel pub wg) r ports ++
    writePolicyRateLimitScoped (wanToTunnel pub wg) r ports

/-- The accept rule of a policy in the forward chain. -/
def forwardAccept (pub wg : String) (r : RoutePolicy) : Rule :=
  wanToTunnel pub wg ++ fromSet r.srcAllow ++ [.daddr r.target] ++ r.forwardPorts.stmts r.proto ++ [.accept]

/-! ## Paused routes -/

/-- `pausedRouteComment`. -/
def pausedRouteComment : String := "evuproxy-paused:"

/-- `writePausedRouteDrop`. -/
def writePausedRouteDrop (r : RoutePolicy) : List Rule :=
  r.dnat.flatMap fun line =>
    if line.publicDport = "" ∨ line.dnatTo = ("", none) then []
    else
      writePolicyPrerouting r line.publicDport
        (counterStmt r.counter ++ [.drop, .comment (pausedRouteComment ++ toString r.routeIndex)])

/-- `writeNATPreroutingRules`. -/
def writeNATPreroutingRules (routes : List RoutePolicy) (paused : List Nat) : List Rule :=
  routes.flatMap fun r =>
    if r.routeIndex ∈ paused then writePausedRouteDrop r else r.dnat.flatMap (writePolicyDnatLine r)

end EvuProxy

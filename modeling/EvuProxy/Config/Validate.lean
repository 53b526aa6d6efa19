import EvuProxy.Config.Ports
import EvuProxy.Go.Duration
import EvuProxy.Go.Net
import EvuProxy.Nft.Syntax

/-!
# The checks on a config

`Normalize` and `Validate` of `internal/config`, with the texts of their errors.
-/

namespace EvuProxy

open Go

/-! ## Limits -/

def minConfirmTimeoutSeconds : Int := 10
def maxConfirmTimeoutSeconds : Int := 3600
def maxRouteNameRunes : Nat := 64
def maxSourceAllowCIDRs : Nat := 64
def defaultGeoSetName : String := "geo_v4"

/-! ## Names, addresses and keys -/

def isLetter (c : Char) : Bool := ('a' ≤ c && c ≤ 'z') || ('A' ≤ c && c ≤ 'Z')

/-- `hasControlChars`. -/
def hasControlChars (s : String) : Bool := s.toList.any fun c => isControl c && c != '\t'

/-- `validLinuxIface`. -/
def validLinuxIface (name : String) : Except ValidationError Unit :=
  let cs := (trimSpace name).toList
  if 1 ≤ cs.length ∧ cs.length ≤ 15 ∧ cs.all (fun c => isLetter c || isDigit c || c == '.' || c == '_' || c == '-') then .ok ()
  else errorf ("invalid interface name " ++ quote (trimSpace name) ++ " (use 1–15 chars: letters, digits, . _ -)")

/-- `validNFTSetName`. -/
def validNFTSetName (name : String) : Except ValidationError Unit :=
  let word := fun c => isLetter c || c == '_'
  match (trimSpace name).toList with
  | c :: cs => if word c && cs.all (fun c => word c || isDigit c) then .ok () else bad
  | [] => bad
where
  bad : Except ValidationError Unit :=
    errorf ("invalid nft set name " ++ quote (trimSpace name) ++ " (letters, digits, underscore; must start with letter or _)")

/-- `validPeerName`. -/
def validPeerName (name : String) : Except ValidationError Unit :=
  let cs := (trimSpace name).toList
  if name.toList.any (fun c => c == '\r' || c == '\n' || c.toNat == 0) then
    errorf "peer name cannot contain newlines or control characters"
  else if cs = [] then .ok ()
  else if cs.length ≤ 64 ∧ cs.all (fun c => isLetter c || isDigit c || "_ .+@/-".toList.contains c) then .ok ()
  else errorf ("invalid peer name " ++ quote (trimSpace name) ++ " (1–64 chars: letters, digits, space, _ . + @ / -)")

/-- `validRouteName`. -/
def validRouteName (name : String) : Except ValidationError Unit :=
  if hasControlChars name then errorf "name cannot contain newlines or control characters"
  else if maxRouteNameRunes < (trimSpace name).toList.length then
    errorf ("name is longer than " ++ toString maxRouteNameRunes ++ " characters")
  else .ok ()

/-- `ValidateWireGuardKey`: 43 characters of base64 and an equals sign. -/
def validateWireGuardKey (key : String) : Except ValidationError Unit :=
  let cs := (trimSpace key).toList
  if hasControlChars key then errorf "public_key cannot contain newlines or control characters"
  else if cs.length = 44 ∧ cs.getLast? = some '=' ∧
      cs.dropLast.all (fun c => isLetter c || isDigit c || c == '+' || c == '/') then .ok ()
  else errorf "invalid WireGuard key (want 44-char base64, e.g. abc...=)"

/-- `ValidateWireGuardAddress`. -/
def validateWireGuardAddress (addr : String) : Except ValidationError Unit :=
  let s := trimSpace addr
  if hasControlChars addr then errorf "wireguard.address cannot contain newlines or control characters"
  else if s = "" then errorf "wireguard.address is required"
  else
    forIdx (fun _ raw =>
      let tok := trimSpace raw
      if tok = "" then errorf "wireguard.address: empty entry"
      else if containsChar tok '/' then
        if (parseCIDR tok).isNone then errorf ("wireguard.address: invalid IP/CIDR " ++ quote tok) else .ok ()
      else if (parseIP tok).isNone then errorf ("wireguard.address: invalid IP " ++ quote tok)
      else .ok ()) 0 (split s ',')

/-- `validateGeoCountryCode`. -/
def validateGeoCountryCode (cc : String) : Except ValidationError Unit :=
  let cc := toLower (trimSpace cc)
  if cc.toList.length = 2 ∧ cc.toList.all (fun c => 'a' ≤ c && c ≤ 'z') then .ok ()
  else errorf ("country code " ++ quote cc ++ " must be two lowercase letters (ISO 3166-1 alpha-2)")

/-- Whether a text is an IPv4 address or CIDR, as the lists of sources take it. -/
def isIPv4OrCIDR (s : String) : Bool :=
  if containsChar s '/' then ((parseCIDR s).bind fun p => p.1.to4).isSome else ((parseIP s).bind Addr.to4).isSome

/-- The check on a list of IPv4 sources, for the field `path`. -/
def validateSourceCIDRs (path : String) (cidrs : List String) : Except ValidationError Unit :=
  if cidrs = [] then .ok ()
  else if maxSourceAllowCIDRs < cidrs.length then errorf (path ++ ": at most " ++ toString maxSourceAllowCIDRs ++ " entries")
  else
    forIdx (fun _ raw =>
      let s := trimSpace raw
      if s = "" then errorf (path ++ ": empty entry")
      else if isIPv4OrCIDR s then .ok ()
      else if containsChar s '/' then errorf (path ++ ": invalid IPv4 CIDR " ++ quote s)
      else errorf (path ++ ": invalid IPv4 " ++ quote s)) 0 cidrs

/-- The field path of a route. -/
def routePath (i : Nat) : String := "forwarding.routes[" ++ toString i ++ "]"

/-- `ValidateSourceAllowCIDRs`. -/
def validateSourceAllowCIDRs (routeIndex : Nat) (cidrs : List String) : Except ValidationError Unit :=
  validateSourceCIDRs (routePath routeIndex ++ ": source_allow_cidrs") cidrs

/-- `ValidateSourceDenyCIDRs`; no index stands for the list of `forwarding`. -/
def validateSourceDenyCIDRs (routeIndex : Option Nat) (cidrs : List String) : Except ValidationError Unit :=
  match routeIndex with
  | none => validateSourceCIDRs "forwarding.source_deny_cidrs" cidrs
  | some i => validateSourceCIDRs (routePath i ++ ": source_deny_cidrs") cidrs

/-- `ValidateBreakGlassCIDRs`. -/
def validateBreakGlassCIDRs (cidrs : List String) : Except ValidationError Unit :=
  validateSourceCIDRs "geo.break_glass_cidrs" cidrs

/-! ## Rate limits and auto-pause -/

/-- One field of a rate limit, when it is set. -/
def validateRateField (path field : String) (lo hi n : Nat) : Except ValidationError Unit :=
  if 0 < n ∧ (n < lo ∨ hi < n) then
    errorf (path ++ "." ++ field ++ " must be between " ++ toString lo ++ " and " ++ toString hi)
  else .ok ()

/-- `ValidateRateLimit`. -/
def validateRateLimit (path : String) (r : RateLimit) : Except ValidationError Unit := do
  validateRateField path "tcp_syn_per_second" 1 10000 r.tcpSynPerSecond
  validateRateField path "max_conn_per_ip" 1 65535 r.maxConnPerIP
  validateRateField path "udp_per_second" 1 100000 r.udpPerSecond

/-- `ValidateAutoPause`. -/
def validateAutoPause (a : AutoPause) : Except ValidationError Unit :=
  if a.failuresToPause < 0 ∨ 100 < a.failuresToPause then errorf "auto_pause.failures_to_pause must be between 1 and 100"
  else if a.successesToResume < 0 ∨ 100 < a.successesToResume then
    errorf "auto_pause.successes_to_resume must be between 1 and 100"
  else if trimSpace a.interval = "" then .ok ()
  else
    match parseDuration (trimSpace a.interval) with
    | .error e => errorf ("auto_pause.interval: " ++ e)
    | .ok d =>
      if d < 5000000000 ∨ 3600000000000 < d then errorf "auto_pause.interval must be between 5s and 1h0m0s" else .ok ()

/-! ## Routes -/

open Nft (Proto)

/-- `ParseRouteProtocols`: the protocols named, each once, in order. -/
def parseRouteProtocols (s : String) : Except ValidationError (List Proto) :=
  let s := toLower (trimSpace s)
  if s = "" then errorf "proto is required"
  else if s = "both" then .ok [.tcp, .udp]
  else
    let parts := ((fieldsFunc s fun c => c == ',' || c == '+' || isSpace c).map trimSpace).filter (· ≠ "")
    match parts.find? fun p => p ≠ "tcp" ∧ p ≠ "udp" with
    | some p => errorf ("invalid proto " ++ quote p ++ " (want tcp, udp, or both)")
    | none =>
      match [Proto.tcp, Proto.udp].filter fun p => p.text ∈ parts with
      | [] => errorf "proto is required"
      | ps => .ok ps

/-- `PeerTunnelIPv4`. -/
def peerTunnelIPv4 (tunnelIP : String) : String :=
  let s := trimSpace tunnelIP
  let addr := match parseCIDR s with | some (a, _) => some a | none => parseIP s
  match addr.bind Addr.to4 with
  | some a => ipv4String a
  | none => ""

/-- The mode of `geo_mode`, lower case and without the white space around it; an empty one is `inherit`. -/
def routeGeoMode (r : ForwardRoute) : String :=
  let mode := toLower (trimSpace r.geoMode)
  if mode = "" then "inherit" else mode

/-- `validateRouteGeoMode`. -/
def validateRouteGeoMode (routeIndex : Nat) (r : ForwardRoute) : Except ValidationError Unit :=
  let mode := routeGeoMode r
  if mode ≠ "inherit" ∧ mode ≠ "off" ∧ mode ≠ "custom" then
    errorf (routePath routeIndex ++ ": geo_mode must be inherit, off, or custom")
  else if mode = "custom" then
    if r.geoCountries = [] then errorf (routePath routeIndex ++ ": geo_countries required when geo_mode is custom")
    else wrapf (routePath routeIndex) (forIdx (fun _ => validateGeoCountryCode) 0 r.geoCountries)
  else .ok ()

/-- The IPv4 tunnel addresses of the peers that are on. -/
def allowedTargets (c : Config) : List String :=
  ((c.peers.filter fun p => !p.disabled).map fun p => peerTunnelIPv4 p.tunnelIP).filter (· ≠ "")

/-- The checks on one route that is on. -/
def validateActiveRoute (c : Config) (i : Nat) (r : ForwardRoute) : Except ValidationError Unit := do
  let path := routePath i
  let tip := trimSpace r.targetIP
  let _ ← wrapf path (parseRouteProtocols r.proto)
  if r.ports = [] then errorf (path ++ ": ports is required")
  else if normalizedPortTokens r.ports = [] then errorf (path ++ ": at least one non-empty port entry is required")
  else if (parseIP tip).isNone then errorf (path ++ ": target_ip must be a valid IPv4 address")
  else if tip ∉ allowedTargets c then
    .error { code := "route_target_peer_disabled", msg := path ++ ": target_ip " ++ tip ++
      " must match a non-disabled peer tunnel_ip (disable or retarget those routes before disabling the peer)" }
  else do
    validateSourceAllowCIDRs i r.sourceAllowCIDRs
    validateSourceDenyCIDRs (some i) r.sourceDenyCIDRs
    validatePortMaps i r.ports r.portMaps
    validateRouteGeoMode i r
    validateRateLimit (path ++ ".rate_limit") r.rateLimit

/-- The checks on one route. -/
def validateRoute (c : Config) (i : Nat) (r : ForwardRoute) : Except ValidationError Unit := do
  wrapf (routePath i) (validRouteName r.name)
  if r.disabled then .ok () else validateActiveRoute c i r

/-- A protocol and port on the public side. -/
abbrev ProtoPort := Proto × Nat

/-- Claim ports for the route `i`; a port that another route has claimed is an error. -/
def claimPorts (i : Nat) : List ProtoPort → List (ProtoPort × Nat) → Except ValidationError (List (ProtoPort × Nat))
  | [], claimed => .ok claimed
  | k :: ks, claimed =>
    match claimed.lookup k with
    | some prev =>
      .error { code := "route_port_overlap", msg := routePath prev ++ " and [" ++ toString i ++ "] both use " ++
        k.1.text ++ " port " ++ toString k.2 }
    | none => claimPorts i ks ((k, i) :: claimed)

/-- The protocols and ports that a route claims on the public side. -/
def routeClaims (i : Nat) (r : ForwardRoute) : Except ValidationError (List ProtoPort) := do
  let protos ← wrapf (routePath i) (parseRouteProtocols r.proto)
  let ports ← wrapf (routePath i ++ ": ports") (expandRoutePublicPortNumbers r)
  return protos.flatMap fun proto => ports.map fun port => (proto, port)

/-- `validateForwardingRoutePortOverlaps`, from the route `i` on. -/
def validateForwardingRoutePortOverlaps : Nat → List ForwardRoute → List (ProtoPort × Nat) → Except ValidationError Unit
  | _, [], _ => .ok ()
  | i, r :: rs, claimed =>
    if r.disabled then validateForwardingRoutePortOverlaps (i + 1) rs claimed
    else do
      let ks ← routeClaims i r
      let claimed ← claimPorts i ks claimed
      validateForwardingRoutePortOverlaps (i + 1) rs claimed

/-- `validateForwardingRoutes`. -/
def validateForwardingRoutes (c : Config) : Except ValidationError Unit := do
  forIdx (validateRoute c) 0 c.forwarding.routes
  validateForwardingRoutePortOverlaps 0 c.forwarding.routes []

/-! ## The whole config -/

/-- `Geo.EffectiveSetName`. -/
def Geo.effectiveSetName (g : Geo) : String :=
  if trimSpace g.setName = "" then defaultGeoSetName else trimSpace g.setName

/-- `Normalize`. -/
def Config.normalize (c : Config) : Config :=
  if c.geo.enabled then
    let mode := toLower (trimSpace c.geo.mode)
    { c with geo := { c.geo with
        setName := if trimSpace c.geo.setName = "" then defaultGeoSetName else c.geo.setName
        mode := if mode = "" then "allow" else mode } }
  else c

/-- The checks on `wireguard` and `network`. -/
def validateInterfaces (c : Config) : Except ValidationError Unit := do
  if c.wireGuard.interface = "" then errorf "wireguard.interface is required"
  wrapf "wireguard.interface" (validLinuxIface c.wireGuard.interface)
  if c.wireGuard.listenPort ≤ 0 ∨ 65535 < c.wireGuard.listenPort then
    errorf "wireguard.listen_port must be between 1 and 65535"
  if c.wireGuard.privateKeyFile = "" then errorf "wireguard.private_key_file is required"
  validateWireGuardAddress c.wireGuard.address
  if c.network.publicInterface = "" then errorf "network.public_interface is required"
  wrapf "network.public_interface" (validLinuxIface c.network.publicInterface)

/-- The checks on `input_allows`, `admin_tcp_ports` and `forward_extra_local_cidrs`. -/
def validateInput (c : Config) : Except ValidationError Unit := do
  forIdx (fun i (a : AllowRule) =>
    if a.disabled then .ok ()
    else wrapf ("input_allows[" ++ toString i ++ "].dport") (validateInputAllowDport a.dport)) 0 c.inputAllows
  forIdx (fun _ (p : Int) =>
    if p ≤ 0 ∨ 65535 < p then errorf ("network.admin_tcp_ports: invalid port " ++ toString p) else .ok ())
    0 c.network.adminTCPPorts
  forIdx (fun i cidr =>
    let s := trimSpace cidr
    let path := "network.forward_extra_local_cidrs[" ++ toString i ++ "]: "
    if s = "" then errorf (path ++ "empty")
    else
      match parseCIDR s with
      | none => errorf (path ++ "invalid CIDR address: " ++ s)
      | some (a, _) => if a.to4.isNone then errorf (path ++ "IPv4 CIDR required") else .ok ())
    0 c.network.forwardExtraLocalCIDRs

/-- The checks on `geo`, when it is on. -/
def validateGeo (g : Geo) : Except ValidationError Unit :=
  let mode := toLower (trimSpace g.mode)
  if ¬g.enabled then .ok ()
  else if mode ≠ "" ∧ mode ≠ "allow" ∧ mode ≠ "block" then errorf "geo.mode must be allow or block"
  else if g.countries = [] then errorf "geo.countries required when geo.enabled"
  else if g.zoneDir = "" then errorf "geo.zone_dir required when geo.enabled"
  else do
    wrapf "geo.set_name" (validNFTSetName g.effectiveSetName)
    forIdx (fun _ => validateGeoCountryCode) 0 g.countries

/-- The checks on a peer. -/
def validatePeer (p : Peer) : Except ValidationError Unit :=
  let path := "peer " ++ quote p.name
  let tip := trimSpace p.tunnelIP
  if p.disabled then .ok ()
  else if p.name = "" ∨ p.publicKey = "" ∨ p.tunnelIP = "" then
    errorf (path ++ ": name, public_key, and tunnel_ip are required")
  else do
    wrapf path (validPeerName p.name)
    wrapf path (validateWireGuardKey p.publicKey)
    if (parseCIDR tip).isNone ∧ (parseIP tip).isNone then errorf ("peer " ++ p.name ++ ": invalid tunnel_ip") else .ok ()

/-- `Validate`. -/
def Config.validate (c : Config) : Except ValidationError Unit := do
  let t := c.apply.confirmTimeoutSeconds
  if t ≠ 0 ∧ (t < minConfirmTimeoutSeconds ∨ maxConfirmTimeoutSeconds < t) then
    errorf ("apply.confirm_timeout_seconds must be between " ++ toString minConfirmTimeoutSeconds ++ " and " ++
      toString maxConfirmTimeoutSeconds)
  validateInterfaces c
  validateInput c
  validateSourceDenyCIDRs none c.forwarding.sourceDenyCIDRs
  validateRateLimit "forwarding.rate_limit" c.forwarding.rateLimit
  validateForwardingRoutes c
  validateAutoPause c.autoPause
  validateBreakGlassCIDRs c.geo.breakGlassCIDRs
  validateGeo c.geo
  forIdx (fun _ => validatePeer) 0 c.peers

end EvuProxy

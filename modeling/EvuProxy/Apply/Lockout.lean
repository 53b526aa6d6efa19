import EvuProxy.Apply.Generate
import EvuProxy.Go.Trim

/-!
# Checks on a config for one client

`ValidateConfigWithWarnings` of `internal/apply/validate.go` with the lockout warnings of `lockout.go`, and `IPv4ContainedInCIDRs` of
`cidr_match.go`. Zone files are a function here, from a directory and the name of a country to what the file holds, and so is the GeoLite
database, from an address to a country; a host without one knows no country.
-/

namespace EvuProxy

open Go Nft

/-! ## Addresses -/

/-- `net.IPNet.Contains`, for an IPv4 address and a network as `net.ParseCIDR` reads it. -/
def netContains (a : Nat) : Addr × Nat → Bool
  | (.v4 b, len) => a / 2 ^ (32 - len) == b / 2 ^ (32 - len)
  | (.v6 b, len) =>
    match Addr.to4 (.v6 (b / 2 ^ (128 - len) * 2 ^ (128 - len))) with
    | some b => a / 2 ^ (128 - len) == b / 2 ^ (128 - len)
    | none => false

/-- Whether an entry of a list of addresses and networks has an address. -/
def entryContains (a : Nat) (raw : String) : Bool :=
  let s := trimSpace raw
  s ≠ "" && if containsChar s '/' then (parseCIDR s).any (netContains a) else (parseIP s).bind Addr.to4 == some a

/-- `IPv4ContainedInCIDRs`. -/
def ipv4ContainedInCIDRs (ip : String) (cidrs : List String) : Bool :=
  match (parseIP (trimSpace ip)).bind Addr.to4 with
  | none => false
  | some a => cidrs.any (entryContains a)

/-- What the zone file of a country in a directory holds, where it can be read. -/
abbrev ZoneFiles := String → String → Option String

/-- `ZoneCIDRsForCountries`, with the duplicates that the source leaves out; none where it is an error. -/
def zoneCIDRsForCountries (zones : ZoneFiles) (zoneDir : String) : List String → Option (List String)
  | [] => some []
  | cc :: ccs => do
    let cc := toLower (trimSpace cc)
    if cc = "" then zoneCIDRsForCountries zones zoneDir ccs
    else if validateGeoCountryCode cc ≠ .ok () then none
    else do
      let content ← zones zoneDir cc
      if (zoneLines content).all validGeoLine then
        let rest ← zoneCIDRsForCountries zones zoneDir ccs
        return zoneLines content ++ rest
      else none

/-! ## The addresses of a client -/

/-- `LockoutWarning`. -/
structure LockoutWarning where
  code : String
  message : String
  deriving DecidableEq

/-- `routeGeoCountries`: none where geo does not apply to the route. -/
def routeGeoCountries (c : Config) (r : ForwardRoute) : Option (List String) :=
  let mode := routeGeoMode r
  if mode = "off" ∨ ¬c.geo.enabled then none
  else if mode = "custom" then some r.geoCountries
  else some c.geo.countries

section client

variable (zones : ZoneFiles) (countryISOCodeLower : String → String)

/-- `ipInCountryZones`. -/
def ipInCountryZones (c : Config) (ip : String) (countries : List String) : Bool :=
  if ¬c.geo.enabled ∨ trimSpace c.geo.zoneDir = "" then false
  else
    match zoneCIDRsForCountries zones c.geo.zoneDir countries with
    | none => false
    | some elems => ipv4ContainedInCIDRs ip elems

/-- `ipCountryInList`. -/
def ipCountryInList (ip : String) (countries : List String) : Bool :=
  let cc := countryISOCodeLower ip
  cc ≠ "" && countries.any fun want => equalFold (trimSpace want) cc

/-- `geoWouldBlock`. -/
def geoWouldBlock (c : Config) (ip : String) (countries : List String) : Bool :=
  let inZone := ipInCountryZones zones c ip countries || ipCountryInList countryISOCodeLower ip countries
  if geoBlockListed c then inZone else !inZone

/-- Whether `geoLockoutWarning` stops at a route. -/
def geoBlocksRoute (c : Config) (ip : String) (r : ForwardRoute) : Bool :=
  match routeGeoCountries c r with
  | none => false
  | some countries => countries ≠ [] && geoWouldBlock zones countryISOCodeLower c ip countries

/-- `geoLockoutWarning`. -/
def geoLockoutWarning (c : Config) (ip : String) : Option LockoutWarning :=
  if ipv4ContainedInCIDRs ip c.geo.breakGlassCIDRs then none
  else
    ((activeRoutes c).find? fun p => geoBlocksRoute zones countryISOCodeLower c ip p.2).map fun p =>
      { code := "lockout_risk_geo"
        message := "Geoblocking may block your address (" ++ ip ++ ") on route " ++ toString p.1 ++ " (" ++
          toLower (trimSpace c.geo.mode) ++ " mode)." }

/-- The warnings of `LockoutWarnings` about one route. -/
def routeLockoutWarnings (ip : String) (i : Nat) (r : ForwardRoute) : List LockoutWarning :=
  (if ipv4ContainedInCIDRs ip r.sourceDenyCIDRs then
    [{ code := "lockout_risk_source_deny", message := "Route " ++ toString i ++ " denylist includes your address (" ++ ip ++ ")." }]
  else []) ++
  if r.sourceAllowCIDRs ≠ [] ∧ ¬ipv4ContainedInCIDRs ip r.sourceAllowCIDRs then
    [{ code := "lockout_risk_source_allow"
       message := "Route " ++ toString i ++ " allowlist does not include your address (" ++ ip ++ ")." }]
  else []

/-- The warnings of `LockoutWarnings` about an address. -/
def addressWarnings (c : Config) (ip : String) : List LockoutWarning :=
  (if ipv4ContainedInCIDRs ip c.forwarding.sourceDenyCIDRs then
    [{ code := "lockout_risk_source_deny", message := "Global forward denylist includes your address (" ++ ip ++ ")." }]
  else []) ++
  (activeRoutes c).flatMap (fun p => routeLockoutWarnings ip p.1 p.2) ++ (geoLockoutWarning zones countryISOCodeLower c ip).toList

/-- `LockoutWarnings`. -/
def lockoutWarnings (c : Config) (clientIP : String) : List LockoutWarning :=
  let ip := trimSpace clientIP
  (if c.forwarding.maintenanceMode then
    [{ code := "lockout_risk_maintenance"
       message := "Maintenance mode is enabled; all public port forwards are omitted until disabled and applied." }]
  else []) ++
  if ip = "" then [] else addressWarnings zones countryISOCodeLower c ip

end client

/-! ## The ports of a client -/

def lockoutSSHPort : Nat := 22
def lockoutUIPort : Nat := 9080

/-- `strings.Trim` with the cutset of both braces. -/
def trimBraces (s : String) : String := String.ofList (trimBy (fun ch => ch == '{' || ch == '}') s.toList)

/-- `dportCovers`, for one of the tokens. -/
def tokenCovers (port : Nat) (tok : String) : Bool :=
  let (loStr, hiStr) := (cut (trimSpace tok) '-').getD (trimSpace tok, trimSpace tok)
  match atoi (trimSpace loStr), atoi (trimSpace hiStr) with
  | some lo, some hi => lo ≤ port && port ≤ hi
  | _, _ => false

/-- `dportCovers`. -/
def dportCovers (dport : String) (port : Nat) : Bool := (split (trimBraces (trimSpace dport)) ',').any (tokenCovers port)

/-- `tcpPortAccepted`. -/
def tcpPortAccepted (c : Config) (port : Nat) : Bool :=
  (c.inputAllows.any fun a => !a.disabled && equalFold (trimSpace a.proto) "tcp" && dportCovers a.dport port) ||
    c.network.adminTCPPorts.contains (port : Int)

/-- The ports that `InputAllowLockoutWarnings` looks at, each with its label. -/
def lockoutTargets (connPort : Nat) : List (Nat × String) :=
  let known := [(lockoutSSHPort, "SSH"), (lockoutUIPort, "admin UI")]
  if connPort = 0 then known
  else
    (known.map fun t => if t.1 = connPort then (t.1, t.2 ++ ", your current connection") else t) ++
      if known.all fun t => t.1 ≠ connPort then [(connPort, "your current connection")] else []

/-- The warning about a port. -/
def portWarning (t : Nat × String) : LockoutWarning where
  code := "lockout_risk_input_allows"
  message := "No enabled inbound rule allows TCP port " ++ toString t.1 ++ " (" ++ t.2 ++
    ") in this config; new connections to it would be dropped."

/-- `InputAllowLockoutWarnings`. -/
def inputAllowLockoutWarnings (c : Config) (applied : Option Config) (connPort : Nat) : List LockoutWarning :=
  ((lockoutTargets connPort).filter fun t =>
    !(tcpPortAccepted c t.1 || applied.any fun a => !tcpPortAccepted a t.1)).map portWarning

/-! ## The check -/

/-- `ClientIPInfo`. -/
structure ClientIPInfo where
  ip : String := ""
  source : String := "unavailable"
  note : String := ""
  connPort : Nat := 0

/-- `ValidateResult`. -/
structure ValidateResult where
  ok : Bool := true
  errors : List ValidationError := []
  warnings : List LockoutWarning := []
  detectedClientIP : String := ""
  ipDetectionSource : String := "unavailable"
  ipDetectionNote : String := ""
  validatedFromDraft : Bool := false

/-- What the host has to say of a config: the order of a Go map, the error of `WireGuardConf` and the error of `nft -c`, where there
are such. -/
structure ConfigHost where
  order : MapOrder
  wireGuardError : Config → Option String
  nftError : String → Option String

/-- The errors of `ValidateConfig` for a config that is normalized. -/
def configErrors (host : ConfigHost) (c : Config) : List ValidationError :=
  match c.validate with
  | .error e => [e]
  | .ok () =>
    match host.wireGuardError c with
    | some msg => [{ msg := msg }]
    | none =>
      match nftables c host.order with
      | .error e => [e]
      | .ok nftSrc => (host.nftError nftSrc).toList.map fun msg => { msg := msg }

/-- `ValidateConfig`, which normalizes the config it is given, and what becomes of that. -/
def validateConfig (host : ConfigHost) (c : Config) : ValidateResult × Config :=
  ({ ok := configErrors host c.normalize = [], errors := configErrors host c.normalize }, c.normalize)

/-- The warning for a client without a known address. -/
def checkUnavailable : LockoutWarning where
  code := "lockout_risk_check_unavailable"
  message := "Could not determine your IPv4 address, so the address-specific lockout checks " ++
    "(forward denylists, allowlists and geoblocking) did not run."

/-- `ValidateConfigWithWarnings`. -/
def validateConfigWithWarnings (host : ConfigHost) (zones : ZoneFiles) (countryISOCodeLower : String → String) (c : Config)
    (applied : Option Config) (client : ClientIPInfo) (fromDraft : Bool) : ValidateResult :=
  let (res, c) := validateConfig host c
  { res with
    detectedClientIP := client.ip
    ipDetectionSource := client.source
    ipDetectionNote := client.note
    validatedFromDraft := fromDraft
    warnings := lockoutWarnings zones countryISOCodeLower c client.ip ++ inputAllowLockoutWarnings c applied client.connPort ++
      if client.ip = "" then [checkUnavailable] else [] }

end EvuProxy

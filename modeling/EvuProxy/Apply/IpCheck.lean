import EvuProxy.Apply.Lockout

/-!
# The IP checker

`CheckSourceIP` of `internal/apply/ip_check.go`, for a config that is there. As in the lockout warnings, zone files are a function, and so
is the GeoLite database.
-/

namespace EvuProxy

open Go Nft

/-- `IPCheckResult`. -/
structure IPCheckResult where
  ip : String
  ok : Bool
  verdict : String
  summary : String
  geoEnabled : Bool := false
  geoMode : String := ""
  breakGlass : Bool := false
  globalDeny : Bool := false
  inListedZones : Bool := false
  matchedCountries : List String := []
  countryISO : String := ""
  applyToInbound : Bool := false
  checkedFromDraft : Bool := false
  note : String := ""

/-- `countryMatchScan`. -/
structure CountryMatchScan where
  matched : List String := []
  listed : Nat := 0
  zonesReadable : Nat := 0
  zonesMissing : Nat := 0
  note : String := ""

section check

variable (zones : ZoneFiles) (countryISOCodeLower : String → String)

/-- What `scanCountriesContainingIP` makes of one country. -/
def scanCountry (zoneDir ip : String) (scan : CountryMatchScan) (raw : String) : CountryMatchScan :=
  let cc := toLower (trimSpace raw)
  if cc = "" then scan
  else
    let elems := if zoneDir = "" then [] else (zoneCIDRsForCountries zones zoneDir [cc]).getD []
    let inZone := ipv4ContainedInCIDRs ip elems || countryISOCodeLower ip == cc
    { scan with
      listed := scan.listed + 1
      zonesReadable := if elems = [] then scan.zonesReadable else scan.zonesReadable + 1
      zonesMissing := if elems = [] then scan.zonesMissing + 1 else scan.zonesMissing
      matched := if inZone then scan.matched ++ [cc] else scan.matched }

/-- `scanCountriesContainingIP`. -/
def scanCountriesContainingIP (c : Config) (ip : String) (countries : List String) : CountryMatchScan :=
  let zoneDir := trimSpace c.geo.zoneDir
  let scan := countries.foldl (scanCountry zones countryISOCodeLower zoneDir ip) {}
  { scan with
    note :=
      if zoneDir = "" then "No zone directory configured; country match uses GeoLite2 when available."
      else if 0 < scan.zonesMissing ∧ scan.matched = [] then
        "Some zone files could not be read; match may be incomplete until Update geo lists succeeds."
      else "" }

/-- `membershipKnown`. -/
def membershipKnown (scan : CountryMatchScan) (countryISO : String) : Bool :=
  scan.matched ≠ [] || scan.listed == 0 || countryISO ≠ "" || (scan.zonesMissing == 0 && scan.zonesReadable == scan.listed)

/-- `appendNote`. -/
def appendNote (existing add : String) : String := if existing = "" then add else existing ++ " " ++ add

/-- The end of `CheckSourceIP`, for an address that is on no list of its own. -/
def geoVerdict (c : Config) (scan : CountryMatchScan) (res : IPCheckResult) : IPCheckResult :=
  let res :=
    if (res.geoMode == "block") == res.inListedZones then
      { res with
        verdict := "blocked"
        summary :=
          if res.geoMode = "block" then res.ip ++ " matches a listed country and would be blocked (block mode)."
          else res.ip ++ " is not in any listed country and would be blocked (allow mode)." }
    else
      { res with
        verdict := "allowed"
        summary :=
          if res.geoMode = "block" then res.ip ++ " is not in a listed country and would be allowed (block mode)."
          else res.ip ++ " matches a listed country and would be allowed (allow mode)." }
  if ¬membershipKnown scan res.countryISO then
    { res with
      verdict := "uncertain"
      summary := "Not enough country data to decide for " ++ res.ip ++ ". Update geo lists or configure GeoLite2, then check again."
      note := appendNote res.note "No confident zone or GeoLite2 match for the listed countries." }
  else if c.geo.applyToInputAllows then
    { res with note := appendNote res.note "Geoblocking also applies to inbound allow rules (input_allows)." }
  else res

/-- `CheckSourceIP`. -/
def checkSourceIP (c : Config) (ipStr : String) (fromDraft : Bool) : IPCheckResult :=
  match (parseIP (trimSpace ipStr)).bind Addr.to4 with
  | none =>
    { ip := trimSpace ipStr, ok := false, verdict := "invalid", summary := "Enter a valid IPv4 address.", checkedFromDraft := fromDraft }
  | some a =>
    let ip := ipv4String a
    let mode := toLower (trimSpace c.geo.mode)
    let res : IPCheckResult :=
      { ip := ip
        ok := true
        verdict := ""
        summary := ""
        geoEnabled := c.geo.enabled
        geoMode := if mode = "" then "allow" else mode
        breakGlass := ipv4ContainedInCIDRs ip c.geo.breakGlassCIDRs
        globalDeny := ipv4ContainedInCIDRs ip c.forwarding.sourceDenyCIDRs
        countryISO := countryISOCodeLower ip
        applyToInbound := c.geo.applyToInputAllows
        checkedFromDraft := fromDraft }
    if ¬c.geo.enabled then
      if res.globalDeny then
        { res with
          verdict := "blocked"
          summary := ip ++ " is on the global forward denylist. Geoblocking is off, so country rules do not apply." }
      else { res with verdict := "geo_off", summary := ip ++ " is not filtered by country rules (geoblocking is off)." }
    else
      let scan := scanCountriesContainingIP zones countryISOCodeLower c ip c.geo.countries
      let res := { res with matchedCountries := scan.matched, inListedZones := scan.matched ≠ [], note := scan.note }
      if res.globalDeny then
        { res with
          verdict := "blocked"
          summary := ip ++ " is on the global forward denylist (checked before geoblocking)." }
      else if res.breakGlass then
        { res with verdict := "allowed", summary := ip ++ " matches a break-glass CIDR and bypasses geoblocking." }
      else geoVerdict c scan res

end check

end EvuProxy

import EvuProxy.Apply.State

/-!
# The files a reload writes

`NFTables`, `WireGuardConf` and `GeoLoaderNFT` of `internal/gen`, as the programs they are: the order of a Go map, the private key and
the zone files come from the host.
-/

namespace EvuProxy

open Go Nft Fault Fault.Prog

variable {Γ : Ctx}

/-- `NFTables`, for the order in which Go walks its maps this time. -/
def genNFTables (c : Config) : App Γ String := do
  let ord ← (Cmd.mapOrder (Γ := Γ)).run
  check (nftables c ord)

/-! ## WireGuard -/

/-- `peerAllowedIPs`. -/
def peerAllowedIPs (tunnelIP : String) : String :=
  if containsChar (trimSpace tunnelIP) '/' then trimSpace tunnelIP else trimSpace tunnelIP ++ "/32"

/-- The section of a peer. -/
def wireGuardPeer (p : Peer) : String :=
  if p.disabled then ""
  else
    "\n[Peer]\n# " ++ p.name ++ "\nPublicKey = " ++ p.publicKey ++ "\nAllowedIPs = " ++ peerAllowedIPs p.tunnelIP ++
      "\nPersistentKeepalive = 25\n"

/-- The text of the WireGuard config for a private key. -/
def wireGuardText (c : Config) (priv : String) : String :=
  "# Generated by evuproxy — do not edit.\n\n[Interface]\nAddress = " ++ c.wireGuard.address ++ "\nListenPort = " ++
    toString c.wireGuard.listenPort ++ "\nPrivateKey = " ++ priv ++ "\n" ++ join (c.peers.map wireGuardPeer) ""

/-- `WireGuardConf`. -/
def genWireGuardConf (c : Config) : App Γ String := do
  let key ← wrapErr "read private key" (readExisting (.privateKey c.wireGuard.privateKeyFile))
  return wireGuardText c (trimSpace (Γ.str key))

/-! ## Geo sets -/

/-- `validGeoLine`. -/
def validGeoLine (line : String) : Bool :=
  if containsChar line '/' then (parseCIDR line).isSome else (parseIP line).isSome

/-- The entries of a zone file: its lines without white space, empty lines and comments. -/
def zoneLines (content : String) : List String :=
  ((split content '\n').map trimSpace).filter fun l => l ≠ "" ∧ ¬hasPrefix l "#"

/-- The path of a zone file, for errors. -/
def zonePath (dir cc : String) : String := dir ++ "/" ++ cc ++ ".zone"

/-- The ranges of the countries, one zone file after another. -/
def zoneRanges (dir : String) : List String → App Γ (List String)
  | [] => return []
  | cc :: ccs => do
    let cc := toLower (trimSpace cc)
    let b ← wrapErr ("read zone " ++ zonePath dir cc) (readExisting (.zone dir cc))
    match (zoneLines (Γ.str b)).find? fun l => !validGeoLine l with
    | some l => fail (.sys ("zone " ++ zonePath dir cc ++ ": invalid IP/CIDR line " ++ quote l))
    | none => do
      let rest ← zoneRanges dir ccs
      return zoneLines (Γ.str b) ++ rest

/-- `ZoneCIDRsForCountries`, with the duplicates that the source leaves out at the end. -/
def zoneCIDRs (dir : String) : List String → App Γ (List String)
  | [] => return []
  | cc :: ccs => do
    let cc := toLower (trimSpace cc)
    if cc = "" then zoneCIDRs dir ccs
    else do
      check (validateGeoCountryCode cc)
      let b ← wrapErr ("zone file " ++ zonePath dir cc) (readExisting (.zone dir cc))
      match (zoneLines (Γ.str b)).find? fun l => !validGeoLine l with
      | some l => fail (.sys ("zone file " ++ zonePath dir cc ++ ": invalid IP/CIDR line " ++ quote l))
      | none => do
        let rest ← zoneCIDRs dir ccs
        return zoneLines (Γ.str b) ++ rest

/-- The routes with a geo set of their own. -/
def customGeoRoutes (c : Config) : List (Nat × ForwardRoute) :=
  (activeRoutes c).filter fun p => equalFold (trimSpace p.2.geoMode) "custom"

/-- `writeGeoLoaderSet`. -/
def geoLoaderSet (set : String) (elems : List String) : Script :=
  ["inet", "ip"].flatMap fun family => [.flushSet family "evuproxy" set, .addElement family "evuproxy" set elems]

/-- The commands of the loader for the routes with a set of their own. -/
def routeGeoLoaders (dir : String) : List (Nat × ForwardRoute) → App Γ Script
  | [] => return []
  | (i, r) :: rs => do
    let elems ← wrapErr (routePath i ++ " geo_countries") (zoneCIDRs dir r.geoCountries)
    if elems = [] then fail (.sys (routePath i ++ ": no CIDRs loaded for custom geo"))
    else do
      let rest ← routeGeoLoaders dir rs
      return geoLoaderSet (routeGeoSetName i) ((elems.reverse.dedup).reverse) ++ rest

/-- `GeoLoaderNFT`, as the commands of the file. -/
def geoLoaderScript (c : Config) : App Γ Script := do
  if ¬c.geo.enabled then fail (.sys "geo is disabled in config")
  else do
    let elems ← zoneRanges c.geo.zoneDir c.geo.countries
    if elems = [] then fail (.sys "no IP ranges loaded for geo (empty zone files?)")
    else do
      let loaders ← routeGeoLoaders c.geo.zoneDir (customGeoRoutes c)
      return .comment "Generated by evuproxy update-geo" :: geoLoaderSet c.geo.effectiveSetName elems ++ loaders

/-- `GeoLoaderNFT`. -/
def genGeoLoader (c : Config) : App Γ String := do
  let s ← geoLoaderScript c
  return scriptText s

/-- `GeoDownloadCountries`. -/
def geoDownloadCountries (c : Config) : List String :=
  let all := c.geo.countries ++ (customGeoRoutes c).flatMap fun p => p.2.geoCountries
  let codes := (all.map fun cc => toLower (trimSpace cc)).filter (· ≠ "")
  (codes.reverse.dedup).reverse

/-- `geoSetCountries`: the countries of each set that the loader fills. -/
def geoSetCountries (c : Config) : List (String × List String) :=
  let normalized := fun ccs : List String => (ccs.map fun cc => toLower (trimSpace cc)).insertionSort (· ≤ ·)
  (customGeoRoutes c).reverse.map (fun p => (routeGeoSetName p.1, normalized p.2.geoCountries)) ++
    [(c.geo.effectiveSetName, normalized c.geo.countries)]

/-- `GeoSetsEqual`. Both lists are maps, where the first entry of a name counts. -/
def geoSetsEqual (a b : Config) : Bool :=
  let sets := (geoSetCountries a ++ geoSetCountries b).map (·.1)
  a.geo.enabled == b.geo.enabled && a.geo.zoneDir == b.geo.zoneDir &&
    sets.all fun s => (geoSetCountries a).lookup s == (geoSetCountries b).lookup s

/-- `DownloadZones`, for the countries given. -/
def downloadZones (dir : String) (countries : List String) : App Γ Unit := do
  (Cmd.mkdirAll dir).run
  forEach countries fun cc => do
    let body ← wrapErr "download" ((Cmd.httpGetZone cc).run)
    writeFile (.zone dir cc) body

end EvuProxy

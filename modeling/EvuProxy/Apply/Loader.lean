import EvuProxy.Apply.Lockout
import EvuProxy.Apply.Zones

/-!
# The loader of the geo sets

`GeoLoaderNFT` of `internal/gen/geo.go` as a function of the zone files: the sets that it fills, or none where it is an error. It is what the
program `genGeoLoader` writes, by `geoLoaderScript_zones`.
-/

namespace EvuProxy

open Go Nft Fault Fault.Prog

/-- The ranges of the countries, one zone file after another. -/
def zoneRangesOf (zones : ZoneFiles) (dir : String) : List String → Option (List String)
  | [] => some []
  | cc :: ccs => do
    let content ← zones dir (toLower (trimSpace cc))
    if (zoneLines content).all validGeoLine then
      let rest ← zoneRangesOf zones dir ccs
      return zoneLines content ++ rest
    else none

/-- The sets of the routes with a set of their own. -/
def routeLoaderSets (zones : ZoneFiles) (dir : String) : List (Nat × ForwardRoute) → Option (List (String × List String))
  | [] => some []
  | (i, r) :: rs => do
    let elems ← zoneCIDRsForCountries zones dir r.geoCountries
    if elems = [] then none
    else
      let rest ← routeLoaderSets zones dir rs
      return (routeGeoSetName i, (elems.reverse.dedup).reverse) :: rest

/-- The sets that the loader fills, in its order. -/
def loaderSets (zones : ZoneFiles) (c : Config) : Option (List (String × List String)) :=
  if ¬c.geo.enabled then none
  else do
    let elems ← zoneRangesOf zones c.geo.zoneDir c.geo.countries
    if elems = [] then none
    else
      let rest ← routeLoaderSets zones c.geo.zoneDir (customGeoRoutes c)
      return (c.geo.effectiveSetName, elems) :: rest

/-- `GeoLoaderNFT`. -/
def geoLoaderNFT (zones : ZoneFiles) (c : Config) : Option Script :=
  (loaderSets zones c).map fun sets => .comment "Generated by evuproxy update-geo" :: refillAll ["inet", "ip"] "evuproxy" sets

/-! ## The program that writes it -/

variable {Γ : Ctx} {R : Rules (host Γ)} {w : World Γ}

/-- The zone files of a host. -/
def World.zones (w : World Γ) : ZoneFiles := fun dir cc => (w.files (.zone dir cc)).map Γ.str

theorem valid_of_find {ls : List String} (h : ls.find? (fun l => !validGeoLine l) = none) : ls.all validGeoLine = true :=
  List.all_eq_true.mpr fun l hl => by simpa using List.find?_eq_none.mp h l hl

theorem zoneRanges_zones {dir : String} : ∀ ccs : List String,
    Stops R (w = ·) (zoneRanges dir ccs) (fun elems _ => zoneRangesOf w.zones dir ccs = some elems) w
  | [] => .ret rfl rfl
  | cc :: ccs => by
    unfold zoneRanges
    refine .bind (stops_wrapErr stops_readZone) ?_
    rintro b _ rfl hb
    split
    · exact .fail rfl
    · rename_i hfind
      refine .bind (zoneRanges_zones ccs) ?_
      rintro rest _ rfl hrest
      refine .ret rfl ?_
      have hzone : w.zones dir (toLower (trimSpace cc)) = some (Γ.str b) := congrArg (Option.map Γ.str) hb
      rw [zoneRangesOf, hzone, Option.bind_eq_bind, Option.bind_some, if_pos (valid_of_find hfind), hrest]
      rfl

theorem zoneCIDRs_zones {dir : String} : ∀ ccs : List String,
    Stops R (w = ·) (zoneCIDRs dir ccs) (fun elems _ => zoneCIDRsForCountries w.zones dir ccs = some elems) w
  | [] => .ret rfl rfl
  | cc :: ccs => by
    unfold zoneCIDRs
    refine .ite (fun hempty => ?_) fun hne => ?_
    · have hskip : zoneCIDRsForCountries w.zones dir (cc :: ccs) = zoneCIDRsForCountries w.zones dir ccs := by
        rw [zoneCIDRsForCountries]
        exact if_pos hempty
      rw [hskip]
      exact zoneCIDRs_zones ccs
    · refine .bind (P := fun _ _ => validateGeoCountryCode (toLower (trimSpace cc)) = .ok ()) (stops_check rfl fun _ hcode => hcode) ?_
      rintro _ _ rfl hcode
      refine .bind (stops_wrapErr stops_readZone) ?_
      rintro b _ rfl hb
      split
      · exact .fail rfl
      · rename_i hfind
        refine .bind (zoneCIDRs_zones ccs) ?_
        rintro rest _ rfl hrest
        refine .ret rfl ?_
        have hzone : w.zones dir (toLower (trimSpace cc)) = some (Γ.str b) := congrArg (Option.map Γ.str) hb
        rw [zoneCIDRsForCountries, if_neg hne, if_neg (not_not.mpr hcode), hzone, Option.bind_eq_bind, Option.bind_some, if_pos (valid_of_find hfind), hrest]
        rfl

theorem routeGeoLoaders_zones {dir : String} : ∀ rs : List (Nat × ForwardRoute), Stops R (w = ·) (routeGeoLoaders dir rs)
    (fun l _ => ∃ sets, routeLoaderSets w.zones dir rs = some sets ∧ l = refillAll ["inet", "ip"] "evuproxy" sets) w
  | [] => .ret rfl ⟨[], rfl, rfl⟩
  | (i, r) :: rs => by
    unfold routeGeoLoaders
    refine .bind (stops_wrapErr (zoneCIDRs_zones r.geoCountries)) ?_
    rintro elems _ rfl helems
    refine .ite (fun _ => .fail rfl) fun hne => .bind (routeGeoLoaders_zones rs) ?_
    rintro rest _ rfl ⟨sets, hsets, rfl⟩
    refine .ret rfl ⟨(routeGeoSetName i, (elems.reverse.dedup).reverse) :: sets, ?_, rfl⟩
    rw [routeLoaderSets, helems, Option.bind_eq_bind, Option.bind_some, if_neg hne, hsets]
    rfl

/-- The program returns the commands that the function makes of the zone files. -/
theorem geoLoaderScript_zones (c : Config) : Stops R (w = ·) (geoLoaderScript c) (fun l _ => geoLoaderNFT w.zones c = some l) w := by
  unfold geoLoaderScript
  refine .ite (fun _ => .fail rfl) fun hon => .bind (zoneRanges_zones c.geo.countries) ?_
  rintro elems _ rfl helems
  refine .ite (fun _ => .fail rfl) fun hne => .bind (routeGeoLoaders_zones (customGeoRoutes c)) ?_
  rintro loaders _ rfl ⟨sets, hsets, rfl⟩
  refine .ret rfl ?_
  rw [geoLoaderNFT, loaderSets, if_neg hon, helems, Option.bind_eq_bind, Option.bind_some, if_neg hne, hsets]
  rfl

end EvuProxy

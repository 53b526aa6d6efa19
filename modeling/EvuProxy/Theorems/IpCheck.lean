import EvuProxy.Apply.Loader
import EvuProxy.Apply.IpCheck
import EvuProxy.Theorems.GeoSets
import EvuProxy.Theorems.HeldSets

/-!
# The IP checker and the rules

The checker reads the lists of the config and the zone files with Go's functions. The rules look into sets, which nft fills with the same
texts, each under the name that the config gives it.
-/

namespace EvuProxy

open Go Nft Fault

variable {Γ : Ctx} {c : Config} {w : World Γ}

/-! ## What the checker says -/

/-- Whether the zone file of a country has an address, as the checker reads it. -/
def World.inZone (w : World Γ) (dir : String) (x : Nat) (cc : String) : Bool :=
  match w.files (.zone dir (zoneName cc)) with
  | some b => (zoneLines (Γ.str b)).any (entryContains x)
  | none => false

/-- Whether the lists let an address through, as Go reads them, where geo is on. -/
def passesLists (c : Config) (w : World Γ) (x : Nat) : Bool :=
  !c.forwarding.sourceDenyCIDRs.any (entryContains x) &&
    (c.geo.breakGlassCIDRs.any (entryContains x) || c.geo.countries.any (w.inZone c.geo.zoneDir x) != geoBlockListed c)

section checker

variable {dir : String} {x : Nat}

theorem contained_eq (hx : x < 2 ^ 32) (cidrs : List String) : ipv4ContainedInCIDRs (ipv4String x) cidrs = cidrs.any (entryContains x) := by
  rw [ipv4ContainedInCIDRs, trimSpace_ipv4String, parseIP_ipv4String hx]
  rfl

theorem dotted_to4 (hx : x < 2 ^ 32) : (parseIP (trimSpace (ipv4String x))).bind Addr.to4 = some x := by
  rw [trimSpace_ipv4String, parseIP_ipv4String hx]
  rfl

/-- The checker reads the zone file of one country. -/
theorem ZoneReady.lines {cc : String} (h : ZoneReady w dir cc) : ∃ ls, zoneCIDRsForCountries w.zones dir [zoneName cc] = some ls ∧ ls ≠ [] ∧
    ls.any (entryContains x) = w.inZone dir x cc := by
  obtain ⟨b, hb, -, hne, hvalid⟩ := h.file
  have hlower : toLower (trimSpace (zoneName cc)) = zoneName cc := zoneName_zoneName h.code
  have hcode : validateGeoCountryCode (zoneName cc) = .ok () := by
    have hsame : validateGeoCountryCode (zoneName cc) = validateGeoCountryCode cc := by
      unfold validateGeoCountryCode
      rw [show toLower (trimSpace (zoneName cc)) = toLower (trimSpace cc) from zoneName_zoneName h.code]
    rw [hsame, h.code]
  have hall : (zoneLines (Γ.str b)).all validGeoLine = true := by
    rw [List.all_eq_true]
    intro l hl
    simpa using List.find?_eq_none.mp hvalid l hl
  have hzone : w.zones dir (zoneName cc) = some (Γ.str b) := by rw [World.zones, hb, Option.map_some]
  refine ⟨zoneLines (Γ.str b), ?_, hne, by rw [World.inZone, hb]⟩
  unfold zoneCIDRsForCountries
  simp only [hlower, if_neg (zoneName_ne_empty h.code), hcode, hzone, ne_eq, not_true_eq_false, if_false, Option.bind_eq_bind,
    Option.bind_some, if_pos hall]
  simp [zoneCIDRsForCountries]

/-- The scan counts every country as read, and finds those that have the address. -/
theorem scan_eq (hdir : dir ≠ "") (hx : x < 2 ^ 32) : ∀ (ccs : List String) (scan : CountryMatchScan), (∀ cc ∈ ccs, ZoneReady w dir cc) →
    ccs.foldl (scanCountry w.zones (fun _ => "") dir (ipv4String x)) scan =
      { scan with
        matched := scan.matched ++ (ccs.filter (w.inZone dir x)).map zoneName
        listed := scan.listed + ccs.length
        zonesReadable := scan.zonesReadable + ccs.length }
  | [], scan, _ => by simp
  | cc :: ccs, scan, hready => by
    have hcc := hready cc List.mem_cons_self
    obtain ⟨ls, hls, hne, hany⟩ := @ZoneReady.lines Γ w dir x cc hcc
    have hname : toLower (trimSpace cc) = zoneName cc := rfl
    have hone : scanCountry w.zones (fun _ => "") dir (ipv4String x) scan cc =
        { scan with
          matched := if w.inZone dir x cc then scan.matched ++ [zoneName cc] else scan.matched
          listed := scan.listed + 1
          zonesReadable := scan.zonesReadable + 1 } := by
      have hiso : ("" == zoneName cc) = false := beq_eq_false_iff_ne.mpr (Ne.symm (zoneName_ne_empty hcc.code))
      unfold scanCountry
      simp only [hname, if_neg (zoneName_ne_empty hcc.code), if_neg hdir, hls, Option.getD_some, if_neg hne, contained_eq hx, hany, hiso,
        Bool.or_false]
    rw [List.foldl_cons, hone, scan_eq hdir hx ccs _ fun cc' hcc' => hready cc' (List.mem_cons_of_mem _ hcc')]
    have hcount : ∀ n : Nat, n + 1 + ccs.length = n + (cc :: ccs).length := fun n => by rw [List.length_cons]; omega
    simp only [hcount]
    cases hin : w.inZone dir x cc with
    | true => simp [hin]
    | false => simp [hin]

/-- The mode is `block` for the checker where it is for the rules. -/
theorem Checked.geoMode_block (hc : Checked c) (hon : c.geo.enabled = true) : toLower (trimSpace c.geo.mode) = "block" ↔ geoBlockListed c = true := by
  have hcheck := hc.geo
  unfold validateGeo at hcheck
  dsimp only at hcheck
  rw [if_neg (not_not.mpr hon)] at hcheck
  obtain ⟨hmode, -⟩ := ite_errorf_ok.mp hcheck
  have hfold : ∀ m, toLower (trimSpace c.geo.mode) = m → 'ſ' ∉ m.toList → 'i' ∉ m.toList →
      geoBlockListed c = (m.toList == "block".toList.map foldChar) := by
    intro m hm hlong hdotted
    rw [geoBlockListed, equalFold, map_foldChar hm hlong hdotted]
  by_cases hempty : toLower (trimSpace c.geo.mode) = ""
  · rw [hfold _ hempty (by decide) (by decide), hempty]
    decide
  · by_cases hallow : toLower (trimSpace c.geo.mode) = "allow"
    · rw [hfold _ hallow (by decide) (by decide), hallow]
      decide
    · have hblock : toLower (trimSpace c.geo.mode) = "block" := by
        by_contra hno
        exact hmode ⟨hempty, hallow, hno⟩
      rw [hfold _ hblock (by decide) (by decide), hblock]
      decide

/-- The end of the check decides by the mode, where it knows the countries. -/
theorem geoVerdict_verdict {scan : CountryMatchScan} {res : IPCheckResult} (hknown : membershipKnown scan res.countryISO = true) :
    (geoVerdict c scan res).verdict = if (res.geoMode == "block") == res.inListedZones then "blocked" else "allowed" := by
  unfold geoVerdict
  by_cases hblocked : ((res.geoMode == "block") == res.inListedZones) = true
  · simp only [if_pos hblocked, hknown, not_true_eq_false, if_false]
    split <;> rfl
  · simp only [if_neg hblocked, hknown, not_true_eq_false, if_false]
    split <;> rfl

/-- What the checker says of an address where geo is on. -/
theorem Checked.verdict_on (hc : Checked c) (hon : c.geo.enabled = true) (hdir : trimSpace c.geo.zoneDir = c.geo.zoneDir)
    (hready : ∀ cc ∈ c.geo.countries, ZoneReady w c.geo.zoneDir cc) {ipStr : String} {fromDraft : Bool}
    (hip : (parseIP (trimSpace ipStr)).bind Addr.to4 = some x) :
    (checkSourceIP w.zones (fun _ => "") c ipStr fromDraft).verdict = if passesLists c w x then "allowed" else "blocked" := by
  have hx : x < 2 ^ 32 := by
    obtain ⟨a, ha, hto⟩ := Option.bind_eq_some_iff.mp hip
    exact to4_lt ha hto
  have hne : c.geo.zoneDir ≠ "" := by
    have hcheck := hc.geo
    unfold validateGeo at hcheck
    dsimp only at hcheck
    rw [if_neg (not_not.mpr hon)] at hcheck
    obtain ⟨-, hcheck⟩ := ite_errorf_ok.mp hcheck
    obtain ⟨-, hcheck⟩ := ite_errorf_ok.mp hcheck
    exact (ite_errorf_ok.mp hcheck).1
  obtain ⟨note, hscan⟩ : ∃ note, scanCountriesContainingIP w.zones (fun _ => "") c (ipv4String x) c.geo.countries =
      { matched := (c.geo.countries.filter (w.inZone c.geo.zoneDir x)).map zoneName
        listed := c.geo.countries.length
        zonesReadable := c.geo.countries.length
        note := note } := by
    unfold scanCountriesContainingIP
    dsimp only
    rw [hdir, scan_eq hne hx _ _ hready]
    simp only [List.nil_append, Nat.zero_add]
    exact ⟨_, rfl⟩
  have hmatched : decide ((c.geo.countries.filter (w.inZone c.geo.zoneDir x)).map zoneName ≠ []) =
      c.geo.countries.any (w.inZone c.geo.zoneDir x) := by
    rw [Bool.eq_iff_iff, decide_eq_true_iff, List.any_eq_true, ne_eq, List.map_eq_nil_iff, List.filter_eq_nil_iff]
    push Not
    rfl
  have hmode : ((if toLower (trimSpace c.geo.mode) = "" then "allow" else toLower (trimSpace c.geo.mode)) == "block") = geoBlockListed c := by
    rw [Bool.eq_iff_iff, beq_iff_eq, ← hc.geoMode_block hon]
    split
    · rename_i hempty
      rw [hempty]
      decide
    · rfl
  simp only [checkSourceIP, hip, hon, not_true_eq_false, if_false, hscan, contained_eq hx, apply_ite IPCheckResult.verdict,
    hmatched, passesLists]
  rw [geoVerdict_verdict (by simp [membershipKnown]), hmode]
  dsimp only
  rcases Bool.eq_false_or_eq_true (c.forwarding.sourceDenyCIDRs.any (entryContains x)) with hdenied | hdenied
  · simp [hdenied]
  · rcases Bool.eq_false_or_eq_true (c.geo.breakGlassCIDRs.any (entryContains x)) with hglass | hglass
    · simp [hdenied, hglass]
    · simp only [hdenied, hglass, Bool.false_eq_true, if_false, Bool.not_false, Bool.true_and, Bool.false_or]
      rcases Bool.eq_false_or_eq_true (c.geo.countries.any (w.inZone c.geo.zoneDir x)) with hlisted | hlisted <;>
        rcases Bool.eq_false_or_eq_true (geoBlockListed c) with hblock | hblock <;> simp only [hlisted, hblock] <;> rfl

/-- What it says where geo is off. -/
theorem verdict_off (hoff : c.geo.enabled = false) {zones : ZoneFiles} {iso : String → String} {ipStr : String} {fromDraft : Bool}
    (hip : (parseIP (trimSpace ipStr)).bind Addr.to4 = some x) : (checkSourceIP zones iso c ipStr fromDraft).verdict =
      if c.forwarding.sourceDenyCIDRs.any (entryContains x) then "blocked" else "geo_off" := by
  have hx : x < 2 ^ 32 := by
    obtain ⟨a, ha, hto⟩ := Option.bind_eq_some_iff.mp hip
    exact to4_lt ha hto
  simp only [checkSourceIP, hip, hoff, Bool.false_eq_true, not_false_eq_true, if_true, contained_eq hx, apply_ite IPCheckResult.verdict]

end checker

/-! ## What the rules do -/

/-- The host on which the sets of both tables hold what the file leaves in them. -/
def World.filledHost (w : World Γ) (c : Config) (limited : Stmt → Packet → Bool) : Host where
  inSet n x := (w.held c n).any (addrHas · x)
  limited := limited

/-- Whether the sets let an address through. -/
def passesSets (c : Config) (h : Host) (x : Nat) : Bool :=
  !inSome h c.denySet x &&
    (!c.geo.enabled || inSome h (setNameIf setBreakGlass c.geo.breakGlassCIDRs) x || h.inSet c.geo.effectiveSetName x != geoBlockListed c)

/-- The policies of a route that inherits the global geo policy let through what the sets do. -/
theorem Bare.decision_inherits (hbare : Bare c) {i : Nat} {r : ForwardRoute} (hr : (i, r) ∈ activeRoutes c)
    (hinherit : routeGeoMode r = "inherit") (dnat : List RouteDNATLine) (proto : Proto) (h : Host) (x : Nat) :
    (policyOf c i r dnat proto).decision h x = some true ↔ passesSets c h x = true := by
  have hallow : (policyOf c i r dnat proto).srcAllow = none := by
    show setNameIf _ r.sourceAllowCIDRs = none
    rw [hbare.srcAllow _ hr]
    rfl
  have hdeny : (policyOf c i r dnat proto).srcDeny = none := by
    show setNameIf _ r.sourceDenyCIDRs = none
    rw [hbare.srcDeny _ hr]
    rfl
  have hgeo : (policyOf c i r dnat proto).geo = if c.geo.enabled then
      { enabled := true, blockListed := geoBlockListed c, setName := c.geo.effectiveSetName } else {} := by
    rw [policyOf_geo, routeGeoParamsFor, hinherit]
    by_cases hon : c.geo.enabled = true
    · rw [if_neg (by simp [hon]), if_neg (by decide), if_pos hon]
    · rw [if_pos (.inr hon), if_neg hon]
  have hglobal : (policyOf c i r dnat proto).globalDeny = c.denySet := rfl
  have hglass : (policyOf c i r dnat proto).breakGlass = setNameIf setBreakGlass c.geo.breakGlassCIDRs := rfl
  unfold RoutePolicy.decision RoutePolicy.passes passesSets
  rw [hallow, hdeny, hgeo, hglobal, hglass]
  cases inSome h c.denySet x with
  | true => simp [inSome]
  | false =>
    cases c.geo.enabled with
    | false => simp [inSome]
    | true =>
      cases geoBlockListed c <;> cases inSome h (setNameIf setBreakGlass c.geo.breakGlassCIDRs) x <;>
        cases hset : h.inSet c.geo.effectiveSetName x <;> simp [inSome, hset]

/-! ## Lists that agree -/

/-- An entry that Go and nft read alike: IPv4, and without a leading zero in the length of its prefix. -/
def PlainAddress (t : String) : Prop :=
  ':' ∉ (trimSpace t).toList ∧ ∀ addr len, cut (trimSpace t) '/' = some (addr, len) → len = "0" ∨ len.toList.head? ≠ some '0'

theorem parseIP_noColon {s : String} (h : ':' ∉ s.toList) : parseIP s = (parseIPv4 s.toList).map .v4 := by
  rw [parseIP, if_neg (by simpa using h)]

theorem parseCIDR_v4 {s addr len : String} {a : Nat} (hcut : cut s '/' = some (addr, len)) (ha : parseIP addr = some (.v4 a)) :
    parseCIDR s = if len.toList ≠ [] ∧ len.toList.all isDigit ∧ digitsVal len.toList ≤ 32 then some (.v4 a, digitsVal len.toList) else none := by
  rw [parseCIDR, hcut]
  dsimp only [Option.bind_eq_bind, Option.bind_some]
  rw [ha]
  rfl

theorem readNumeral_noZero {len : String} (h : len = "0" ∨ len.toList.head? ≠ some '0') :
    readNumeral len = if len.toList ≠ [] ∧ len.toList.all isDigit then some (digitsVal len.toList) else none := by
  rcases h with rfl | h
  · decide
  · unfold readNumeral
    cases hlen : len.toList with
    | nil => rfl
    | cons ch cs =>
      have hzero : ch ≠ '0' := by
        rintro rfl
        exact h (by rw [hlen]; rfl)
      split
      · rename_i hnil
        cases hnil
      · rename_i hcons
        exact absurd (List.cons.inj hcons).1 hzero
      · simp

theorem entryContains_plain {t : String} (h : PlainAddress t) (x : Nat) : entryContains x t = addrHas (trimSpace t) x := by
  obtain ⟨hcolon, hlen⟩ := h
  unfold entryContains addrHas
  dsimp only
  by_cases hempty : trimSpace t = ""
  · rw [hempty]
    rfl
  rw [decide_eq_true hempty, Bool.true_and]
  cases hcut : cut (trimSpace t) '/' with
  | none =>
    have hslash : containsChar (trimSpace t) '/' = false := by
      simpa [containsChar] using notMem_of_cut hcut
    rw [hslash, if_neg Bool.false_ne_true, parseIP_noColon hcolon]
    cases parseIPv4 (trimSpace t).toList with
    | none => rfl
    | some a => simp [Addr.to4]
  | some p =>
    obtain ⟨addr, len⟩ := p
    have htext := toList_of_cut hcut
    have hslash : containsChar (trimSpace t) '/' = true := by simp [containsChar, htext]
    have haddr : ':' ∉ addr.toList := fun hin => hcolon (by rw [htext]; exact List.mem_append_left _ hin)
    rw [hslash, if_pos rfl]
    dsimp only
    rw [readNumeral_noZero (hlen _ _ hcut)]
    cases haddress : parseIP addr with
    | none =>
      rw [parseCIDR, hcut]
      simp [haddress]
    | some a =>
      obtain ⟨a, rfl⟩ : ∃ b, a = .v4 b := by
        rw [parseIP_noColon haddr] at haddress
        obtain ⟨b, -, hb⟩ := Option.map_eq_some_iff.mp haddress
        exact ⟨b, hb.symm⟩
      rw [parseCIDR_v4 hcut haddress]
      by_cases hdigits : len.toList ≠ [] ∧ len.toList.all isDigit = true
      · by_cases hle : digitsVal len.toList ≤ 32
        · rw [if_pos ⟨hdigits.1, hdigits.2, hle⟩, if_pos hdigits]
          simp [netContains, hle]
        · rw [if_neg fun hall => hle hall.2.2, if_pos hdigits]
          simp [hle]
      · rw [if_neg hdigits, if_neg fun hall => hdigits ⟨hall.1, hall.2.1⟩]
        rfl

/-! ## The truth -/

/-- The host on which the sets of a table hold what a state of the sets says. -/
def tableHost (m : SetState) (family : String) (limited : Stmt → Packet → Bool) : Host where
  inSet n x := (m (family, "evuproxy", n)).any (addrHas · x)
  limited := limited

/-- A verdict of the checker is what becomes of the new packets from outside to the public ports of the routes that inherit the global geo
policy, once the file of an Apply is loaded. -/
def TellsTruth (c : Config) (w : World Γ) : Prop :=
  ∀ ord rs, rulesetScript c ord [] = .ok rs → ∀ m limited ipStr fromDraft a, (parseIP (trimSpace ipStr)).bind Addr.to4 = some a →
    ∀ p ∈ activeRoutes c, routeGeoMode p.2 = "inherit" → ∀ k, FromOutside c k → k.src = a → Claims p.2 (k.proto, k.dport) →
      let s := loadedFile c w rs
      let host := fun family => tableHost (loadScript s m) family limited
      let verdict := (checkSourceIP w.zones (fun _ => "") c ipStr fromDraft).verdict
      (verdict = "allowed" → Forwarded c s (host "ip") (host "inet") k) ∧
        (verdict = "blocked" → ¬Forwarded c s (host "ip") (host "inet") k)

/-- The lists of a config, read by Go, and the sets that they fill, read by nft, let the same addresses through; where geo is off, no
address that is denied by the list is let through by the set. -/
structure ListsAgree (c : Config) (w : World Γ) : Prop where
  on : c.geo.enabled = true → ∀ x < 2 ^ 32, passesLists c w x = passesSets c (w.filledHost c fun _ _ => false) x
  off : c.geo.enabled = false → ∀ x < 2 ^ 32, c.forwarding.sourceDenyCIDRs.any (entryContains x) = true →
    passesSets c (w.filledHost c fun _ _ => false) x = false

/-- Some active route that inherits the global geo policy has a public port. -/
def Inherited (c : Config) : Prop := ∃ p ∈ activeRoutes c, routeGeoMode p.2 = "inherit" ∧ ∃ k, Claims p.2 k

section truth

variable (hbare : Bare c) (hv : c.validate = .ok ()) (halike : PortsAlike c)
include hbare hv halike

/-- A packet to a public port of a route that inherits the global policy comes in exactly where the sets let its source through. -/
theorem forwarded_inherits {ord : MapOrder} {rs : Script} (hrs : rulesetScript c ord [] = .ok rs) {m : SetState}
    {limited : Stmt → Packet → Bool} {p : Nat × ForwardRoute} (hp : p ∈ activeRoutes c) (hinherit : routeGeoMode p.2 = "inherit") {k : Packet}
    (hout : FromOutside c k) (hclaims : Claims p.2 (k.proto, k.dport)) :
    Forwarded c (loadedFile c w rs) (tableHost (loadScript (loadedFile c w rs) m) "ip" limited)
        (tableHost (loadScript (loadedFile c w rs) m) "inet" limited) k ↔
      passesSets c (w.filledHost c fun _ _ => false) k.src = true := by
  have hc := Config.checked hv
  rw [hc.rulesetScript] at hrs
  obtain ⟨routes, hroutes, hrs⟩ := bind_ok.mp hrs
  obtain ⟨allows, hallows, hrs⟩ := bind_ok.mp hrs
  obtain rfl := Except.ok.inj hrs
  have hhost : ∀ family, family = "inet" ∨ family = "ip" →
      tableHost (loadScript (loadedFile c w (rulesetOf c ord [] routes allows)) m) family limited = w.filledHost c limited := by
    intro family hf
    have hset : (fun n x => (loadScript (loadedFile c w (rulesetOf c ord [] routes allows)) m (family, "evuproxy", n)).any (addrHas · x)) =
        fun n x => (w.held c n).any (addrHas · x) := by
      funext n x
      rw [hbare.loadScript_loadedFile hf]
    rw [tableHost, hset, World.filledHost]
  obtain ⟨-, dnat, -, hdnat, -⟩ := policyOf_mem_routePolicies hroutes hbare.maintenance hp
  have hforwarded := @Bare.forwarded_iff c (w.filledHost c limited) (w.filledHost c limited) k p.1 p.2 dnat hbare hv halike routes hroutes ord allows
    hp hdnat hclaims hout rfl
  rw [hhost "ip" (.inr rfl), hhost "inet" (.inl rfl)]
  unfold Forwarded at hforwarded ⊢
  rw [chainRules_loadedFile, chainRules_loadedFile, hforwarded, hbare.decision_inherits hp hinherit]
  rfl

section ready

variable (hdir : trimSpace c.geo.zoneDir = c.geo.zoneDir)
  (hready : c.geo.enabled = true → ∀ cc ∈ c.geo.countries, ZoneReady w c.geo.zoneDir cc)

include hdir hready

/-- Where the checker tells the truth about a port, it does so about every address. -/
theorem listsAgree_of_truth (hknown : InputProtosKnown c) (htruth : TellsTruth c w) (hinherited : Inherited c) : ListsAgree c w := by
  have hc := Config.checked hv
  obtain ⟨p, hp, hinherit, ⟨proto, port⟩, hclaims⟩ := hinherited
  obtain ⟨rs, hrs⟩ : ∃ rs, rulesetScript c {} [] = .ok rs := hc.renders.mpr hknown
  -- The packet of an address to the port of the route.
  have hone : ∀ x < 2 ^ 32,
      ((checkSourceIP w.zones (fun _ => "") c (ipv4String x) false).verdict = "allowed" →
          passesSets c (w.filledHost c fun _ _ => false) x = true) ∧
        ((checkSourceIP w.zones (fun _ => "") c (ipv4String x) false).verdict = "blocked" →
          ¬passesSets c (w.filledHost c fun _ _ => false) x = true) := by
    intro x hx
    have hout : FromOutside c { packetTo proto port with iif := c.network.publicInterface, src := x } := ⟨rfl, rfl, rfl⟩
    have htold := htruth {} rs hrs (fun _ => []) (fun _ _ => false) (ipv4String x) false x (dotted_to4 hx) p hp hinherit _ hout rfl hclaims
    dsimp only at htold
    rwa [forwarded_inherits hbare hv halike hrs hp hinherit hout hclaims] at htold
  constructor
  · intro hon x hx
    have hverdict : (checkSourceIP w.zones (fun _ => "") c (ipv4String x) false).verdict = if passesLists c w x then "allowed" else "blocked" :=
      hc.verdict_on hon hdir (hready hon) (dotted_to4 hx)
    have htold := hone x hx
    rw [hverdict] at htold
    cases hlists : passesLists c w x with
    | true => exact (htold.1 (by rw [hlists]; rfl)).symm
    | false => exact (Bool.eq_false_iff.mpr (htold.2 (by rw [hlists]; rfl))).symm
  · intro hoff x hx hdenied
    refine Bool.eq_false_iff.mpr ((hone x hx).2 ?_)
    rw [verdict_off hoff (dotted_to4 hx), if_pos hdenied]

theorem tellsTruth_of_agree (hagree : Inherited c → ListsAgree c w) : TellsTruth c w := by
  have hc := Config.checked hv
  intro ord rs hrs m limited ipStr fromDraft a hip p hp hinherit k hout hsrc hclaims
  have hagree := hagree ⟨p, hp, hinherit, _, hclaims⟩
  have ha : a < 2 ^ 32 := by
    obtain ⟨addr, haddr, hto⟩ := Option.bind_eq_some_iff.mp hip
    exact to4_lt haddr hto
  dsimp only
  rw [forwarded_inherits hbare hv halike hrs hp hinherit hout hclaims, hsrc]
  by_cases hon : c.geo.enabled = true
  · rw [hc.verdict_on hon hdir (hready hon) hip, ← hagree.on hon a ha]
    cases passesLists c w a with
    | true => simp
    | false => simp
  · rw [Bool.not_eq_true] at hon
    rw [verdict_off hon hip]
    by_cases hdenied : c.forwarding.sourceDenyCIDRs.any (entryContains a) = true
    · rw [if_pos hdenied, hagree.off hon a ha hdenied]
      simp
    · rw [if_neg hdenied]
      simp

/-- For an accepted config without CrowdSec, limits and lists of sources of its routes, the port texts of which nft reads as the config
does, the checker tells the truth exactly where the lists and the sets agree. -/
theorem tellsTruth_iff (hknown : InputProtosKnown c) : TellsTruth c w ↔ (Inherited c → ListsAgree c w) :=
  ⟨fun htruth hinherited => listsAgree_of_truth hbare hv halike hdir hready hknown htruth hinherited,
    fun hagree => tellsTruth_of_agree hbare hv halike hdir hready hagree⟩

end ready

end truth

/-! ## Plain lists -/

/-- Every entry of the lists, and every line of the zone files of the countries, is plain. -/
structure PlainLists (c : Config) (w : World Γ) : Prop where
  deny : ∀ t ∈ c.forwarding.sourceDenyCIDRs, PlainAddress t
  glass : ∀ t ∈ c.geo.breakGlassCIDRs, PlainAddress t
  zones : c.geo.enabled = true → ∀ cc ∈ c.geo.countries, ∀ b, w.files (.zone c.geo.zoneDir (zoneName cc)) = some b →
    ∀ t ∈ zoneLines (Γ.str b), PlainAddress t

/-- A set that no set of countries is named after holds what the config declares for it. -/
theorem Checked.held_declared (hc : Checked c) (hfree : c.geo.enabled = true → GeoNameFree c) {u : SetUse} (hu : UsesSet c u)
    (hgeo : u.isGeo = false) : w.held c (u.name c) = declared c (u.name c) := by
  have hnone : (if c.geo.enabled then w.geoSets c else []).reverse.find? (fun p => p.1 = u.name c) = none := by
    refine List.find?_eq_none.mpr fun p hp heq => ?_
    obtain ⟨hon, hp⟩ := mem_ite_list.mp (List.mem_reverse.mp hp)
    have heq := of_decide_eq_true heq
    rcases List.mem_cons.mp hp with rfl | hp
    · have := name_injOn hfree (u := .geo) hon hu heq
      rw [← this] at hgeo
      cases hgeo
    · obtain ⟨q, hq, rfl⟩ := List.mem_map.mp hp
      obtain ⟨hr, hmode⟩ := (mem_customGeoRoutes hc).mp hq
      have := name_injOn hfree (u := .routeGeo q.1) ⟨hon, q.2, hr, hmode⟩ hu heq
      rw [← this] at hgeo
      cases hgeo
  rw [World.held, hnone]
  rfl

/-- The global geo set holds what the zone files list. -/
theorem Checked.held_geo (hc : Checked c) (hon : c.geo.enabled = true) (hfree : GeoNameFree c) :
    w.held c c.geo.effectiveSetName = w.listed c.geo.zoneDir c.geo.countries := by
  have hroutes : ((customGeoRoutes c).map fun p =>
      (routeGeoSetName p.1, ((w.listed c.geo.zoneDir (routeCountries p.2)).reverse.dedup).reverse)).reverse.find?
        (fun p => p.1 = c.geo.effectiveSetName) = none := by
    refine List.find?_eq_none.mpr fun p hp heq => ?_
    obtain ⟨q, hq, rfl⟩ := List.mem_map.mp (List.mem_reverse.mp hp)
    obtain ⟨hr, hmode⟩ := (mem_customGeoRoutes hc).mp hq
    exact (hfree.routes q hr).geo hmode (of_decide_eq_true heq).symm
  rw [World.held, if_pos hon, World.geoSets, List.reverse_cons, List.find?_append, hroutes]
  simp

theorem any_normalized {cidrs : List String} (hplain : ∀ t ∈ cidrs, PlainAddress t) (x : Nat) :
    (normalizedRouteSourceElems cidrs).any (addrHas · x) = cidrs.any (entryContains x) := by
  rw [normalizedRouteSourceElems, Bool.eq_iff_iff, List.any_eq_true, List.any_eq_true]
  constructor
  · rintro ⟨e, he, hhas⟩
    obtain ⟨t, ht, rfl⟩ := List.mem_map.mp (List.mem_filter.mp he).1
    exact ⟨t, ht, by rw [entryContains_plain (hplain t ht), hhas]⟩
  · rintro ⟨t, ht, hhas⟩
    have hne : trimSpace t ≠ "" := by
      intro hempty
      rw [entryContains, hempty] at hhas
      cases hhas
    refine ⟨trimSpace t, List.mem_filter.mpr ⟨List.mem_map_of_mem ht, decide_eq_true hne⟩, ?_⟩
    rw [← entryContains_plain (hplain t ht), hhas]

/-- A list and its set have the same addresses. -/
theorem inSome_list {cidrs : List String} (hplain : ∀ t ∈ cidrs, PlainAddress t) {name : String} {limited : Stmt → Packet → Bool}
    (hheld : normalizedRouteSourceElems cidrs ≠ [] → w.held c name = normalizedRouteSourceElems cidrs) (x : Nat) :
    inSome (w.filledHost c limited) (setNameIf name cidrs) x = cidrs.any (entryContains x) := by
  rw [← any_normalized hplain, setNameIf]
  by_cases hnil : normalizedRouteSourceElems cidrs = []
  · rw [if_pos hnil, hnil]
    rfl
  · rw [if_neg hnil, inSome, World.filledHost]
    dsimp only
    rw [hheld hnil]

/-- Plain lists under names of their own agree with their sets. -/
theorem listsAgree_of_plain (hc : Checked c) (hfree : c.geo.enabled = true → GeoNameFree c) (hplain : PlainLists c w) : ListsAgree c w := by
  have hnames : ¬setBreakGlass = setGlobalDeny := by decide
  have hdeny : ∀ x, inSome (w.filledHost c fun _ _ => false) c.denySet x = c.forwarding.sourceDenyCIDRs.any (entryContains x) := by
    refine inSome_list hplain.deny fun hne => ?_
    have hheld := hc.held_declared (w := w) hfree (u := .globalDeny) hne rfl
    simpa [SetUse.name, declared, hnames] using hheld
  have hglass : ∀ x, inSome (w.filledHost c fun _ _ => false) (setNameIf setBreakGlass c.geo.breakGlassCIDRs) x =
      c.geo.breakGlassCIDRs.any (entryContains x) := by
    refine inSome_list hplain.glass fun hne => ?_
    have hheld := hc.held_declared (w := w) hfree (u := .breakGlass) hne rfl
    simpa [SetUse.name, declared, Ne.symm hnames] using hheld
  constructor
  · intro hon x _
    have hzones : (w.listed c.geo.zoneDir c.geo.countries).any (addrHas · x) = c.geo.countries.any (w.inZone c.geo.zoneDir x) := by
      rw [World.listed, List.any_flatMap, Bool.eq_iff_iff, List.any_eq_true, List.any_eq_true]
      refine exists_congr fun cc => and_congr_right fun hcc => ?_
      rw [World.inZone]
      cases hfile : w.files (.zone c.geo.zoneDir (zoneName cc)) with
      | none => simp
      | some b =>
        have hlines := hplain.zones hon cc hcc b hfile
        have htrimmed : ∀ t ∈ zoneLines (Γ.str b), trimSpace t = t := by
          intro t ht
          obtain ⟨l, -, rfl⟩ := List.mem_map.mp (List.mem_filter.mp ht).1
          exact trimSpace_trimSpace l
        simp only [List.any_eq_true]
        refine exists_congr fun t => and_congr_right fun ht => ?_
        rw [entryContains_plain (hlines t ht), htrimmed t ht]
    have hset : (w.filledHost c fun _ _ => false).inSet c.geo.effectiveSetName x = c.geo.countries.any (w.inZone c.geo.zoneDir x) := by
      rw [World.filledHost]
      dsimp only
      rw [hc.held_geo hon (hfree hon), hzones]
    rw [passesSets, hdeny, hglass, hset, hon, passesLists]
    rfl
  · intro _ x _ hdenied
    rw [passesSets, hdeny, hdenied]
    rfl

/-! ## A shared name -/

/-- A config that blocks the addresses of one country but for one address, with a name for the set of the country. -/
def glassConfig (setName : String) : Config :=
  { mapConfig ["443"] [] with
    geo := { enabled := true, mode := "block", countries := ["nl"], zoneDir := "/zones", setName := setName, breakGlassCIDRs := ["198.51.100.7"] } }

theorem glassConfig_bare (setName : String) : Bare (glassConfig setName) :=
  ⟨rfl, rfl, rfl, fun p hp => by obtain rfl := List.mem_singleton.mp hp; rfl, fun p hp => by obtain rfl := List.mem_singleton.mp hp; rfl,
    fun p hp => by obtain rfl := List.mem_singleton.mp hp; rfl⟩

theorem glassConfig_alike (setName : String) : PortsAlike (glassConfig setName) := by
  intro p hp
  obtain rfl : p = (0, mapRoute ["443"] []) := List.mem_singleton.mp hp
  exact PlainPorts.alike ⟨by decide +kernel, by decide +kernel⟩

theorem tellsTruth_iff_sample : TellsTruth (glassConfig "geo_v4") (Sample.zones "nl") ↔
    (Inherited (glassConfig "geo_v4") → ListsAgree (glassConfig "geo_v4") (Sample.zones "nl")) :=
  tellsTruth_iff (glassConfig_bare _) (by decide +kernel) (glassConfig_alike _) (by decide +kernel)
    (fun _ cc hcc => zones_ready _ (by rw [List.mem_singleton.mp hcc]; decide +kernel)) (by decide +kernel)

/-- The set of the country takes the name of that of `break_glass_cidrs`, and its place: no address is blocked any more. -/
theorem blocked_let_in : (glassConfig setBreakGlass).normalize.validate = .ok () ∧
    (checkSourceIP (Sample.zones "nl").zones (fun _ => "") (glassConfig setBreakGlass) "10.0.0.1" false).verdict = "blocked" ∧
    ¬TellsTruth (glassConfig setBreakGlass) (Sample.zones "nl") := by
  refine ⟨by decide +kernel, by decide +kernel, fun htruth => ?_⟩
  have hinherited : Inherited (glassConfig setBreakGlass) :=
    ⟨(0, mapRoute ["443"] []), by decide +kernel, by decide +kernel, (.tcp, 443), [.tcp], [443], by decide +kernel, by decide +kernel,
      by decide, by decide⟩
  have hagree := listsAgree_of_truth (glassConfig_bare _) (by decide +kernel) (glassConfig_alike _) (by decide +kernel)
    (fun _ cc hcc => zones_ready _ (by rw [List.mem_singleton.mp hcc]; decide +kernel)) (by decide +kernel) htruth hinherited
  have hone := hagree.on rfl (10 * 2 ^ 24 + 1) (by decide)
  revert hone
  decide +kernel

end EvuProxy

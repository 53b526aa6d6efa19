import EvuProxy.Apply.Sample
import EvuProxy.Apply.Zones
import EvuProxy.Go.Lexical
import EvuProxy.Theorems.Rendering
import EvuProxy.Theorems.Sets

/-!
# Geo sets are filled with what they are for

The loader fills the global geo set first and then the set of each route with countries of its own. It empties each set before it fills
it, so what counts is the last one of a name. The names of the routes differ, but the operator chooses the name of the global set.
-/

namespace EvuProxy

open Go Nft Fault Fault.Prog

variable {Γ : Ctx} {c : Config} {w : World Γ}

/-! ## What the loader leaves in a set -/

theorem loadScript_file {rs : Script} {m : SetState} :
    loadScript (rs ++ .blank :: w.geoLoader c) m = loadScript (refillAll ["inet", "ip"] "evuproxy" (w.geoSets c)) (loadScript rs m) := by
  have hblank : ∀ m, Command.load m .blank = m := fun _ => rfl
  have hcomment : ∀ m s, Command.load m (.comment s) = m := fun _ _ => rfl
  rw [loadScript_append, loadScript_cons, hblank, World.geoLoader, loadScript_cons, hcomment]

theorem routeGeoSetName_inj {i j : Nat} (h : routeGeoSetName i = routeGeoSetName j) : i = j := toString_inj.mp (append_left_inj h)

theorem nodup_routeGeoSetNames (c : Config) : ((customGeoRoutes c).map fun p => routeGeoSetName p.1).Nodup := by
  have hindex : ((customGeoRoutes c).map (·.1)).Nodup := (nodup_activeRoutes c).sublist (List.filter_sublist.map _)
  have hmap : ((customGeoRoutes c).map fun p => routeGeoSetName p.1) = ((customGeoRoutes c).map (·.1)).map routeGeoSetName := by
    rw [List.map_map]
    rfl
  rw [hmap]
  exact hindex.map fun _ _ h => routeGeoSetName_inj h

section loaded

variable {f : String} (hf : f = "inet" ∨ f = "ip") {rs : Script} {m : SetState}
include hf

theorem loadScript_routeGeo {p : Nat × ForwardRoute} (hp : p ∈ customGeoRoutes c) :
    loadScript (rs ++ .blank :: w.geoLoader c) m (f, "evuproxy", routeGeoSetName p.1) =
      ((w.listed c.geo.zoneDir (routeCountries p.2)).reverse.dedup).reverse := by
  rw [loadScript_file, World.geoSets, refillAll_cons, loadScript_append]
  refine loadScript_refillAll (by simpa using hf) ?_ (List.mem_map_of_mem hp)
  rw [List.map_map]
  exact nodup_routeGeoSetNames c

theorem loadScript_geo (hfree : ∀ p ∈ customGeoRoutes c, c.geo.effectiveSetName ≠ routeGeoSetName p.1) :
    loadScript (rs ++ .blank :: w.geoLoader c) m (f, "evuproxy", c.geo.effectiveSetName) = w.listed c.geo.zoneDir c.geo.countries := by
  have hnot : c.geo.effectiveSetName ∉ (customGeoRoutes c).map fun p => routeGeoSetName p.1 := by
    rw [List.mem_map]
    rintro ⟨p, hp, he⟩
    exact hfree p hp he.symm
  rw [loadScript_file]
  refine loadScript_refillAll (by simpa using hf) ?_ List.mem_cons_self
  rw [World.geoSets, List.map_cons, List.map_map, List.nodup_cons]
  exact ⟨hnot, nodup_routeGeoSetNames c⟩

end loaded

/-! ## What a set is to hold -/

/-- A country whose addresses a set is for. -/
def SetCountry (c : Config) : SetUse → String → Prop
  | .geo, cc => cc ∈ c.geo.countries
  | .routeGeo i, cc => ∃ r, (i, r) ∈ activeRoutes c ∧ cc ∈ r.geoCountries
  | _, _ => False

/-- The zone file of a country lists an address. -/
def World.Lists (w : World Γ) (dir cc x : String) : Prop := ∃ b, w.files (.zone dir (zoneName cc)) = some b ∧ x ∈ zoneLines (Γ.str b)

theorem mem_listed {dir x : String} {ccs : List String} : x ∈ w.listed dir ccs ↔ ∃ cc ∈ ccs, w.Lists dir cc x := by
  unfold World.listed World.Lists
  rw [List.mem_flatMap]
  refine exists_congr fun cc => and_congr_right fun _ => ?_
  cases w.files (.zone dir (zoneName cc)) with
  | none => simp
  | some b => simp

/-- Every geo set that a rule of the file names holds an address, and exactly those that the zone files list for its countries. -/
def GeoSetsFilled (c : Config) (w : World Γ) (s : Script) : Prop :=
  ∀ t, .table t ∈ s → ∀ n ∈ t.usedSets, ∀ u, UsesSet c u → u.isGeo = true → u.name c = n → ∀ m,
    loadScript s m (t.family, t.name, n) ≠ [] ∧
      ∀ x, x ∈ loadScript s m (t.family, t.name, n) ↔ ∃ cc, SetCountry c u cc ∧ w.Lists c.geo.zoneDir cc x

/-- Wherever an Apply stops, it has loaded nothing, or one file that fills the geo sets from the zone files. -/
def GeoSafe (c : Config) : Prop :=
  ∀ (Γ : Ctx) (w : World Γ) (script : List (Choice Γ)),
    let w' := ((host Γ).run (applyToHost c) script w).state
    w'.nft = w.nft ∨ ∃ ord rs, rulesetScript c ord [] = .ok rs ∧
      w'.nft = Γ.text (scriptText (rs ++ .blank :: w'.geoLoader c)) :: w.nft ∧ GeoSetsFilled c w' (rs ++ .blank :: w'.geoLoader c)

/-! ## The sets that rules name -/

/-- A rule of the ruleset names geo sets: that of a route, or of an entry of `input_allows`. -/
def GeoNamed (c : Config) : Prop :=
  c.forwarding.maintenanceMode = false ∨ c.geo.applyToInputAllows = true ∧ ∃ a ∈ c.inputAllows, a.disabled = false

/-- Two lists name the same countries. -/
def SameCountries (ccs ccs' : List String) : Prop := ∀ cc, cc ∈ ccs.map zoneName ↔ cc ∈ ccs'.map zoneName

/-- Where the global geo set has the name of a route's, both are for the same countries or no rule names them. -/
def GeoNameApart (c : Config) : Prop :=
  ∀ p ∈ activeRoutes c, toLower (trimSpace p.2.geoMode) = "custom" → c.geo.effectiveSetName = routeGeoSetName p.1 →
    SameCountries c.geo.countries p.2.geoCountries ∨ ¬GeoNamed c

theorem equalFold_custom {s : String} (h : toLower s = "custom") : equalFold s "custom" = true := by
  rw [equalFold, map_foldChar h (by decide) (by decide)]
  decide

/-- The routes with a set of their own are those whose rules name it. -/
theorem mem_customGeoRoutes (h : Checked c) {p : Nat × ForwardRoute} :
    p ∈ customGeoRoutes c ↔ p ∈ activeRoutes c ∧ toLower (trimSpace p.2.geoMode) = "custom" := by
  unfold customGeoRoutes
  rw [List.mem_filter]
  exact ⟨fun hp => ⟨hp.1, (h.active hp.1).custom hp.2⟩, fun hp => ⟨hp.1, equalFold_custom hp.2⟩⟩

/-! ## Countries -/

theorem zoneName_ne_empty {cc : String} (h : validateGeoCountryCode cc = .ok ()) : zoneName cc ≠ "" := by
  intro hempty
  unfold validateGeoCountryCode at h
  dsimp only at h
  rw [zoneName] at hempty
  rw [hempty] at h
  cases h

theorem RouteChecked.countries {i : Nat} {r : ForwardRoute} (h : RouteChecked c i r) (hmode : toLower (trimSpace r.geoMode) = "custom") :
    r.geoCountries ≠ [] ∧ ∀ cc ∈ r.geoCountries, validateGeoCountryCode cc = .ok () := by
  have hcustom : routeGeoMode r = "custom" := by
    unfold routeGeoMode
    rw [hmode]
    rfl
  have hcheck := h.geoMode
  unfold validateRouteGeoMode at hcheck
  dsimp only at hcheck
  rw [hcustom, if_neg (by decide), if_pos rfl] at hcheck
  obtain ⟨hne, hall⟩ := ite_errorf_ok.mp hcheck
  exact ⟨hne, forIdx_ok_mem.mp (wrapf_ok.mp hall)⟩

theorem RouteChecked.routeCountries {i : Nat} {r : ForwardRoute} (h : RouteChecked c i r)
    (hmode : toLower (trimSpace r.geoMode) = "custom") : EvuProxy.routeCountries r = r.geoCountries :=
  List.filter_eq_self.mpr fun cc hcc => decide_eq_true (zoneName_ne_empty ((h.countries hmode).2 cc hcc))

theorem Checked.countries (h : Checked c) (hon : c.geo.enabled = true) :
    c.geo.countries ≠ [] ∧ ∀ cc ∈ c.geo.countries, validateGeoCountryCode cc = .ok () := by
  have hcheck := h.geo
  unfold validateGeo at hcheck
  dsimp only at hcheck
  rw [if_neg (not_not.mpr hon)] at hcheck
  obtain ⟨-, hcheck⟩ := ite_errorf_ok.mp hcheck
  obtain ⟨hne, hcheck⟩ := ite_errorf_ok.mp hcheck
  obtain ⟨-, hcheck⟩ := ite_errorf_ok.mp hcheck
  exact ⟨hne, forIdx_ok_mem.mp (seq_ok.mp hcheck).2⟩

/-- The same countries have the same addresses. -/
theorem SameCountries.lists {ccs ccs' : List String} (h : SameCountries ccs ccs') {dir x : String} :
    (∃ cc ∈ ccs, w.Lists dir cc x) ↔ ∃ cc ∈ ccs', w.Lists dir cc x := by
  have hname : ∀ {ccs ccs' : List String}, SameCountries ccs ccs' → (∃ cc ∈ ccs, w.Lists dir cc x) → ∃ cc ∈ ccs', w.Lists dir cc x := by
    rintro ccs ccs' h ⟨cc, hcc, hlists⟩
    obtain ⟨cc', hcc', hz⟩ := List.mem_map.mp ((h (zoneName cc)).mp (List.mem_map_of_mem hcc))
    unfold World.Lists at hlists
    rw [← hz] at hlists
    exact ⟨cc', hcc', hlists⟩
  exact ⟨hname h, hname fun cc => (h cc).symm⟩

/-! ## The tables whose rules name sets -/

variable {ord : MapOrder} {rs : Script}

/-- The rules of two tables name sets: those that the loader refills. -/
theorem Checked.usedTable (h : Checked c) (hrs : EvuProxy.rulesetScript c ord [] = .ok rs) {t : Table} (ht : .table t ∈ rs) {n : String}
    (hn : n ∈ t.usedSets) : (t.family = "inet" ∨ t.family = "ip") ∧ t.name = "evuproxy" := by
  rw [h.rulesetScript] at hrs
  obtain ⟨routes, hroutes, hrs⟩ := bind_ok.mp hrs
  obtain ⟨allows, hallows, hrs⟩ := bind_ok.mp hrs
  obtain rfl := Except.ok.inj hrs
  unfold rulesetOf at ht
  simp only [List.cons_append, List.nil_append, List.mem_cons, reduceCtorEq, false_or, Command.table.injEq] at ht
  rcases ht with rfl | rfl | ht
  · exact ⟨.inl rfl, rfl⟩
  · exact ⟨.inr rfl, rfl⟩
  · obtain ⟨u, -, hkind, -⟩ := (@routeAccepted_declares c ord _ _ _ _ ht).used n hn
    cases hkind

/-- The vocabulary without sets. -/
abbrev noSets : Vocabulary := setsOnly fun _ => False

theorem inputAllowRules_unnamed (hgeo : ¬(c.geo.applyToInputAllows = true ∧ ∃ a ∈ c.inputAllows, a.disabled = false)) :
    ∀ {as : List AllowRule} {allows : List Rule}, (∀ a ∈ as, a ∈ c.inputAllows) → inputAllowRules c as = .ok allows → Worded noSets allows
  | [], allows, _, h => by
    obtain rfl := Except.ok.inj h
    exact worded_nil
  | a :: as, allows, hsub, h => by
    unfold inputAllowRules at h
    obtain ⟨rules, hrules, h⟩ := bind_ok.mp h
    obtain ⟨rest, hrest, h⟩ := bind_ok.mp h
    obtain rfl := Except.ok.inj h
    refine worded_append.mpr ⟨?_, inputAllowRules_unnamed hgeo (fun a' ha' => hsub a' (List.mem_cons_of_mem _ ha')) hrest⟩
    unfold inputAllowRulesOf at hrules
    cases hd : a.disabled with
    | true =>
      rw [hd, if_pos rfl] at hrules
      obtain rfl := Except.ok.inj hrules
      exact worded_nil
    | false =>
      have hoff : (c.geo.enabled && c.geo.applyToInputAllows) = false := by
        by_contra hon
        rw [Bool.not_eq_false, Bool.and_eq_true] at hon
        exact hgeo ⟨hon.2, a, hsub a List.mem_cons_self, hd⟩
      rw [hd, if_neg Bool.false_ne_true] at hrules
      obtain ⟨⟨proto, dport⟩, -, hrules⟩ := bind_ok.mp hrules
      obtain rfl := Except.ok.inj hrules
      simp [hoff, writeGeoProtoPortInputRules, writePolicyAllow, fromSet, Stmt.Words, setsOnly]

/-- No rule names a set of a config in maintenance mode whose `input_allows` are not under geo. -/
theorem Checked.unnamed (h : Checked c) (hnamed : ¬GeoNamed c) (hrs : EvuProxy.rulesetScript c ord [] = .ok rs) {t : Table}
    (ht : .table t ∈ rs) (n : String) : n ∉ t.usedSets := by
  obtain ⟨hmaint, hgeo⟩ := not_or.mp hnamed
  rw [h.rulesetScript] at hrs
  obtain ⟨routes, hroutes, hrs⟩ := bind_ok.mp hrs
  obtain ⟨allows, hallows, hrs⟩ := bind_ok.mp hrs
  obtain rfl := Except.ok.inj hrs
  unfold EvuProxy.routePolicies at hroutes
  rw [if_pos (Bool.eq_true_of_not_eq_false hmaint)] at hroutes
  obtain rfl := Except.ok.inj hroutes
  have hinput : Worded noSets (inputChain c [] allows).rules := by
    have hadmin : Worded noSets ((adminTCPPortsForInput c).map fun p => [.dport .tcp (.tok (toString p)), .accept]) :=
      worded_map fun p _ => by simp [Stmt.Words, setsOnly]
    simp only [inputChain, worded_append, worded_cons, worded_nil, hadmin, inputAllowRules_unnamed hgeo (fun _ ha => ha) hallows]
    simp [Stmt.Words, setsOnly]
  have hforward : Worded noSets (forwardChain c []).rules := by
    have hlocal : Worded noSets ((forwardAllowLocalCIDRs c).flatMap (localForwardRules c.network.publicInterface c.wireGuard.interface)) :=
      worded_flatMap fun cidr _ => by simp [localForwardRules, Stmt.Words, setsOnly]
    have hcounter : ∀ r, RuleWorded noSets (counterStmt c.dropCounters ++ r) ↔ RuleWorded noSets r := by
      cases c.dropCounters <;> simp [counterStmt, RuleWorded, Stmt.Words]
    simp only [forwardChain, forwardRules, List.flatMap_nil, List.map_nil, List.append_nil, worded_append, worded_cons, worded_nil, hlocal,
      hcounter]
    simp [Stmt.Words, setsOnly]
  unfold rulesetOf writeRouteAcceptedTable at ht
  simp only [List.cons_append, List.nil_append, List.mem_cons, reduceCtorEq, false_or, Command.table.injEq, if_true, List.append_nil,
    List.not_mem_nil, or_false] at ht
  rcases ht with rfl | rfl
  · refine (worded_usedSets (S := fun _ => False)).mpr ?_ n
    intro ch hch
    simp only [filterTable, List.mem_cons, List.not_mem_nil, or_false] at hch
    rcases hch with rfl | rfl
    · exact hinput
    · exact hforward
  · exact (worded_usedSets (S := fun _ => False)).mpr (worded_natChains (fun _ hq => absurd hq List.not_mem_nil) (fun _ _ => trivial) trivial) n

/-! ## Apart -/

theorem filled_of_apart (h : Checked c) (hapart : GeoNameApart c)
    (hrs : EvuProxy.rulesetScript c ord [] = .ok rs) (hfilled : w.Filled c) : GeoSetsFilled c w (rs ++ .blank :: w.geoLoader c) := by
  intro t ht n hn u hu hgeo hname m
  have ht : .table t ∈ rs := by
    rcases List.mem_append.mp ht with ht | ht
    · exact ht
    · simp [World.geoLoader, refillAll, refill] at ht
  obtain ⟨hf, htable⟩ := h.usedTable hrs ht hn
  have hnamed : GeoNamed c := by
    by_contra hno
    exact h.unnamed hno hrs ht n hn
  rw [htable, ← hname]
  -- What the set of a route holds.
  have hroute : ∀ p ∈ customGeoRoutes c, loadScript (rs ++ .blank :: w.geoLoader c) m (t.family, "evuproxy", routeGeoSetName p.1) ≠ [] ∧
      ∀ x, x ∈ loadScript (rs ++ .blank :: w.geoLoader c) m (t.family, "evuproxy", routeGeoSetName p.1) ↔
        ∃ cc ∈ p.2.geoCountries, w.Lists c.geo.zoneDir cc x := by
    intro p hp
    obtain ⟨hr, hmode⟩ := (mem_customGeoRoutes h).mp hp
    have hne := hfilled _ (List.mem_cons_of_mem _ (List.mem_map_of_mem hp))
    rw [loadScript_routeGeo hf hp]
    refine ⟨hne, fun x => ?_⟩
    rw [List.mem_reverse, List.mem_dedup, List.mem_reverse, mem_listed, (h.active hr).routeCountries hmode]
  cases u with
  | geo =>
    show loadScript _ m (_, _, c.geo.effectiveSetName) ≠ [] ∧ _
    by_cases hfree : ∀ p ∈ customGeoRoutes c, c.geo.effectiveSetName ≠ routeGeoSetName p.1
    · show _ ∧ ∀ x, x ∈ loadScript _ m (_, _, c.geo.effectiveSetName) ↔ ∃ cc ∈ c.geo.countries, _
      rw [loadScript_geo hf hfree]
      exact ⟨hfilled _ List.mem_cons_self, fun x => mem_listed⟩
    · push Not at hfree
      obtain ⟨p, hp, heq⟩ := hfree
      obtain ⟨hr, hmode⟩ := (mem_customGeoRoutes h).mp hp
      have hsame := (hapart p hr hmode heq).resolve_right (not_not.mpr hnamed)
      obtain ⟨hne, hmem⟩ := hroute p hp
      show _ ∧ ∀ x, x ∈ loadScript _ m (_, _, c.geo.effectiveSetName) ↔ ∃ cc ∈ c.geo.countries, _
      rw [heq]
      exact ⟨hne, fun x => (hmem x).trans hsame.lists.symm⟩
  | routeGeo i =>
    obtain ⟨-, r, hr, hmode⟩ := hu
    obtain ⟨hne, hmem⟩ := hroute (i, r) ((mem_customGeoRoutes h).mpr ⟨hr, hmode⟩)
    refine ⟨hne, fun x => (hmem x).trans ⟨?_, ?_⟩⟩
    · rintro ⟨cc, hcc, hlists⟩
      exact ⟨cc, ⟨r, hr, hcc⟩, hlists⟩
    · rintro ⟨cc, ⟨r', hr', hcc⟩, hlists⟩
      obtain rfl : r = r' := Option.some.inj ((mem_activeRoutes.mp hr).1.symm.trans (mem_activeRoutes.mp hr').1)
      exact ⟨cc, hcc, hlists⟩
  | _ => cases hgeo

/-! ## An Apply without faults -/

/-- No command fails, and the process is not killed. -/
abbrev calm (Γ : Ctx) : Rules (host Γ) := faultless fun _ => False

section calm

variable {α : Type}

theorem wp_calm {cmd : Cmd Γ} {Q : Except Err (cmd.Ans Γ) → World Γ → Prop} (h : ∀ ch, Q (respond w ch cmd) (effect w ch cmd)) :
    wp (calm Γ) cmd.run Q w := by
  refine wp_run (fun ch hch hf => ?_) (fun ch hch hf => ?_) fun ch _ => h ch
  · rw [show ch.fate = .ok from hch] at hf
    cases hf
  · rw [show ch.fate = .ok from hch] at hf
    cases hf

/-- What holds of a program wherever it stops, for a run without faults. -/
theorem wp_calm_of {I : World Γ → Prop} {p : App Γ α} {Q : Except Err α → World Γ → Prop} (h : wp ((calm Γ).withCrash I) p Q w) :
    wp (calm Γ) p Q w := by
  refine wp_unkilled (fun cmd ch s s' hch => ?_) h
  show hostStep cmd ch s ≠ _
  rw [hostStep, show ch.fate = .ok from hch]
  exact nofun

theorem calm_readExisting {f : FileName} {b : Γ.Bytes} {Q : Except Err Γ.Bytes → World Γ → Prop} (hb : w.files f = some b) (h : Q (.ok b) w) :
    wp (calm Γ) (readExisting f) Q w := by
  refine wp_bind.2 (wp_calm fun ch => ?_)
  dsimp only [respond]
  rw [hb]
  exact wp_of_ret h

theorem calm_writeFile {f : FileName} {b : Γ.Bytes} {Q : Except Err Unit → World Γ → Prop} (h : Q (.ok ()) (w.set f (some b))) :
    wp (calm Γ) (writeFile f b) Q w := wp_calm fun _ => h

/-- The zone file of a country is there, with well-formed lines. -/
structure ZoneReady (w : World Γ) (dir cc : String) : Prop where
  code : validateGeoCountryCode cc = .ok ()
  file : ∃ b, w.files (.zone dir (zoneName cc)) = some b ∧ Γ.isEmpty b = false ∧ zoneLines (Γ.str b) ≠ [] ∧
    (zoneLines (Γ.str b)).find? (fun l => !validGeoLine l) = none

theorem ZoneReady.listed {dir cc : String} {ccs : List String} (h : ZoneReady w dir cc) (hcc : cc ∈ ccs) : w.listed dir ccs ≠ [] := by
  obtain ⟨b, hb, -, hlines, -⟩ := h.file
  obtain ⟨x, hx⟩ := List.exists_mem_of_ne_nil _ hlines
  exact List.ne_nil_of_mem (mem_listed.mpr ⟨cc, hcc, b, hb, hx⟩)

theorem calm_zoneRanges {dir : String} : ∀ {ccs : List String}, (∀ cc ∈ ccs, ZoneReady w dir cc) →
    wp (calm Γ) (zoneRanges dir ccs) (fun r w' => w = w' ∧ r = .ok (w.listed dir ccs)) w
  | [], _ => wp_of_ret ⟨rfl, rfl⟩
  | cc :: ccs, h => by
    obtain ⟨b, hb, -, -, hvalid⟩ := (h cc List.mem_cons_self).file
    have hcons : w.listed dir (cc :: ccs) = zoneLines (Γ.str b) ++ w.listed dir ccs := by
      rw [World.listed, List.flatMap_cons, hb]
      rfl
    unfold zoneRanges
    refine wp_bind.2 (wp_mapErr.2 (calm_readExisting hb ?_))
    show andThen (calm Γ) _ _ (.ok b) _
    rw [andThen_ok, hvalid]
    refine wp_bind.2 (wp_post ?_ (calm_zoneRanges fun cc' hcc' => h cc' (List.mem_cons_of_mem _ hcc')))
    rintro _ _ ⟨rfl, rfl⟩
    exact wp_of_ret ⟨rfl, by rw [hcons]⟩

theorem zoneName_zoneName {cc : String} (h : validateGeoCountryCode cc = .ok ()) : zoneName (zoneName cc) = zoneName cc := by
  have hletter : ∀ x ∈ (zoneName cc).toList, 'a' ≤ x ∧ x ≤ 'z' := by
    intro x hx
    unfold validateGeoCountryCode at h
    dsimp only at h
    by_contra hno
    rw [if_neg] at h
    · cases h
    · rintro ⟨-, hall⟩
      have := List.all_eq_true.mp hall x hx
      simp only [Bool.and_eq_true, decide_eq_true_eq] at this
      exact hno this
  have hrange : ∀ x ∈ (zoneName cc).toList, 97 ≤ x.toNat ∧ x.toNat ≤ 122 := by
    intro x hx
    exact ⟨Char.le_def.mp (hletter x hx).1, Char.le_def.mp (hletter x hx).2⟩
  have htrim : trimSpace (zoneName cc) = zoneName cc := trimmed_of_noSpace fun x hx => by
    obtain ⟨hlo, hhi⟩ := hrange x hx
    simp [isSpace]
    omega
  have hlower : (zoneName cc).toList.map toLowerChar = (zoneName cc).toList := by
    refine (List.map_congr_left fun x hx => ?_).trans (List.map_id _)
    obtain ⟨hlo, hhi⟩ := hrange x hx
    unfold toLowerChar
    rw [if_neg, if_neg (by omega), if_neg (by omega)]
    · rfl
    · rintro ⟨-, hz⟩
      have hz : x.toNat ≤ 90 := Char.le_def.mp hz
      omega
  rw [zoneName, htrim, toLower, hlower, String.ofList_toList]

theorem validate_zoneName {cc : String} (h : validateGeoCountryCode cc = .ok ()) : validateGeoCountryCode (zoneName cc) = .ok () := by
  have hsame : validateGeoCountryCode (zoneName cc) = validateGeoCountryCode cc := by
    unfold validateGeoCountryCode
    rw [show toLower (trimSpace (zoneName cc)) = toLower (trimSpace cc) from zoneName_zoneName h]
  rw [hsame, h]

theorem calm_zoneCIDRs {dir : String} : ∀ {ccs : List String}, (∀ cc ∈ ccs, ZoneReady w dir cc) →
    wp (calm Γ) (zoneCIDRs dir ccs) (fun r w' => w = w' ∧ r = .ok (w.listed dir ccs)) w
  | [], _ => wp_of_ret ⟨rfl, rfl⟩
  | cc :: ccs, h => by
    have hready := h cc List.mem_cons_self
    obtain ⟨b, hb, -, -, hvalid⟩ := hready.file
    have hcons : w.listed dir (cc :: ccs) = zoneLines (Γ.str b) ++ w.listed dir ccs := by
      rw [World.listed, List.flatMap_cons, hb]
      rfl
    have hcode := validate_zoneName hready.code
    unfold zoneCIDRs
    refine wp_ite (fun hempty => absurd hempty (zoneName_ne_empty hready.code)) fun _ => ?_
    refine wp_bind.2 (wp_check (fun e he => ?_) fun _ _ => ?_)
    · cases hcode.symm.trans he
    refine wp_bind.2 (wp_mapErr.2 (calm_readExisting hb ?_))
    show andThen (calm Γ) _ _ (.ok b) _
    rw [andThen_ok, hvalid]
    refine wp_bind.2 (wp_post ?_ (calm_zoneCIDRs fun cc' hcc' => h cc' (List.mem_cons_of_mem _ hcc')))
    rintro _ _ ⟨rfl, rfl⟩
    exact wp_of_ret ⟨rfl, by rw [hcons]⟩

theorem calm_routeGeoLoaders {dir : String} : ∀ {rs : List (Nat × ForwardRoute)},
    (∀ p ∈ rs, p.2.geoCountries ≠ [] ∧ ∀ cc ∈ p.2.geoCountries, ZoneReady w dir cc) →
      wp (calm Γ) (routeGeoLoaders dir rs) (fun r w' => w = w' ∧ ∃ l, r = .ok l) w
  | [], _ => wp_of_ret ⟨rfl, _, rfl⟩
  | (i, r) :: rs, h => by
    obtain ⟨hne, hready⟩ := h (i, r) List.mem_cons_self
    obtain ⟨cc, hcc⟩ := List.exists_mem_of_ne_nil _ hne
    unfold routeGeoLoaders
    refine wp_bind.2 (wp_mapErr.2 (wp_post ?_ (calm_zoneCIDRs hready)))
    rintro _ _ ⟨rfl, rfl⟩
    refine wp_ite (fun hnil => absurd hnil ((hready cc hcc).listed hcc)) fun _ => ?_
    refine wp_bind.2 (wp_post ?_ (calm_routeGeoLoaders fun p hp => h p (List.mem_cons_of_mem _ hp)))
    rintro _ _ ⟨rfl, l, rfl⟩
    exact wp_of_ret ⟨rfl, _, rfl⟩

/-- Everything that an Apply with geo on needs is there. -/
structure Ready (w : World Γ) (c : Config) : Prop where
  renders : ∀ ord, ∃ rs, rulesetScript c ord [] = .ok rs
  key : ∃ b, w.files (.privateKey c.wireGuard.privateKeyFile) = some b
  some : c.geo.countries ≠ []
  countries : ∀ cc ∈ c.geo.countries, ZoneReady w c.geo.zoneDir cc
  routes : ∀ p ∈ customGeoRoutes c, p.2.geoCountries ≠ [] ∧ ∀ cc ∈ p.2.geoCountries, ZoneReady w c.geo.zoneDir cc

/-- A generated file is no zone file and no private key. -/
theorem Ready.set {f : FileName} {b : Option Γ.Bytes} (h : Ready w c) (hzone : ∀ dir cc, f ≠ .zone dir cc) (hkey : ∀ path, f ≠ .privateKey path) :
    Ready (w.set f b) c := by
  have hsame : ∀ dir cc, (w.set f b).files (.zone dir cc) = w.files (.zone dir cc) := fun dir cc => if_neg fun he => hzone dir cc he.symm
  have hzoneReady : ∀ {dir cc}, ZoneReady w dir cc → ZoneReady (w.set f b) dir cc := fun hz => ⟨hz.code, by rw [hsame]; exact hz.file⟩
  refine ⟨h.renders, ?_, h.some, fun cc hcc => hzoneReady (h.countries cc hcc),
    fun p hp => ⟨(h.routes p hp).1, fun cc hcc => hzoneReady ((h.routes p hp).2 cc hcc)⟩⟩
  rw [set_files, if_neg fun he => hkey _ he.symm]
  exact h.key

theorem calm_genGeoLoader (hon : c.geo.enabled = true) (h : Ready w c) :
    wp (calm Γ) (genGeoLoader c) (fun r w' => w = w' ∧ ∃ s, r = .ok s) w := by
  obtain ⟨cc, hcc⟩ := List.exists_mem_of_ne_nil _ h.some
  refine wp_bind.2 ?_
  unfold geoLoaderScript
  refine wp_ite (fun hoff => absurd hon hoff) fun _ => wp_bind.2 (wp_post ?_ (calm_zoneRanges h.countries))
  rintro _ _ ⟨rfl, rfl⟩
  refine wp_ite (fun hnil => absurd hnil ((h.countries cc hcc).listed hcc)) fun _ => wp_bind.2 (wp_post ?_ (calm_routeGeoLoaders h.routes))
  rintro _ _ ⟨rfl, l, rfl⟩
  exact wp_of_ret (wp_of_ret ⟨rfl, _, rfl⟩)

theorem calm_ensureGeoZones : ∀ {ccs : List String},
    (∀ cc ∈ ccs, ∃ b, w.files (.zone c.geo.zoneDir cc) = some b ∧ Γ.isEmpty b = false) →
      wp (calm Γ) (ensureGeoZones c ccs) (fun r w' => w = w' ∧ r = .ok ()) w
  | [], _ => wp_of_ret ⟨rfl, rfl⟩
  | cc :: ccs, h => by
    obtain ⟨b, hb, hne⟩ := h cc List.mem_cons_self
    refine wp_bind.2 (wp_attempt.2 (wp_calm fun ch => ?_))
    simp only [respond, effect, hb]
    show wp (calm Γ) (if Γ.isEmpty b = true then _ else _) _ w
    rw [hne, if_neg Bool.false_ne_true]
    exact calm_ensureGeoZones fun cc' hcc' => h cc' (List.mem_cons_of_mem _ hcc')

theorem Ready.downloads (h : Ready w c) : ∀ cc ∈ geoDownloadCountries c,
    ∃ b, w.files (.zone c.geo.zoneDir cc) = Option.some b ∧ Γ.isEmpty b = false := by
  intro cc hcc
  unfold geoDownloadCountries at hcc
  simp only [List.mem_reverse, List.mem_dedup, List.mem_filter, List.mem_map, List.mem_append, List.mem_flatMap] at hcc
  obtain ⟨⟨cc', hcc', rfl⟩, -⟩ := hcc
  have hready : ZoneReady w c.geo.zoneDir cc' := by
    rcases hcc' with hcc' | ⟨p, hp, hcc'⟩
    · exact h.countries cc' hcc'
    · exact (h.routes p hp).2 cc' hcc'
  obtain ⟨b, hb, hne, -⟩ := hready.file
  exact ⟨b, hb, hne⟩

theorem calm_genApplySrc (hon : c.geo.enabled = true) (h : Ready w c) (n : String) :
    wp (calm Γ) (genApplySrc c n) (fun r w' => (∃ s, r = .ok s) ∧ ∀ dir cc, w'.files (.zone dir cc) = w.files (.zone dir cc)) w := by
  unfold genApplySrc
  rw [if_neg (not_not.mpr hon)]
  refine wp_bind.2 (wp_mapErr.2 (wp_post ?_ (calm_ensureGeoZones h.downloads)))
  rintro _ _ ⟨rfl, rfl⟩
  refine wp_bind.2 (wp_mapErr.2 (wp_post ?_ (calm_genGeoLoader hon h)))
  rintro _ _ ⟨rfl, s, rfl⟩
  refine wp_bind.2 (wp_mapErr.2 (calm_writeFile ?_))
  exact wp_of_ret ⟨⟨_, rfl⟩, fun _ _ => by simp⟩

theorem calm_prepareApply (hon : c.geo.enabled = true) (h : Ready w c) :
    wp (calm Γ) (prepareApply c) (fun r w' => r = .ok () ∧ (∃ b, w'.files .applyNft = some b) ∧
      ∀ dir cc, w'.files (.zone dir cc) = w.files (.zone dir cc)) w := by
  refine wp_bind.2 (wp_calm fun _ => ?_)
  show wp (calm Γ) _ _ w
  have hrender : wp (calm Γ) (genNFTables c) (fun r w' => w = w' ∧ ∃ n, r = .ok n) w := by
    refine wp_bind.2 (wp_calm fun ch => ?_)
    obtain ⟨rs, hrs⟩ := h.renders ch.order
    show wp (calm Γ) (check (nftables c ch.order)) _ w
    rw [nftables, hrs]
    exact wp_of_ret ⟨rfl, _, rfl⟩
  refine wp_bind.2 (wp_post ?_ hrender)
  rintro _ _ ⟨rfl, n, rfl⟩
  refine wp_bind.2 (wp_mapErr.2 (calm_writeFile ?_))
  have h₁ : Ready (w.set .nftables (some (Γ.text n))) c := h.set (by simp) (by simp)
  obtain ⟨key, hkey⟩ := h₁.key
  refine wp_bind.2 (wp_bind.2 (wp_mapErr.2 (calm_readExisting hkey ?_)))
  refine wp_of_ret (wp_bind.2 (wp_mapErr.2 (wp_calm fun _ => ?_)))
  refine wp_bind.2 (wp_mapErr.2 (calm_writeFile ?_))
  refine wp_bind.2 (wp_post ?_ (calm_genApplySrc hon (h₁.set (by simp) (by simp)) n))
  rintro _ w₂ ⟨⟨src, rfl⟩, hzones⟩
  rw [andThen_ok]
  refine wp_mapErr.2 (calm_writeFile ⟨rfl, ⟨Γ.text src, by rw [set_files, if_pos rfl]⟩, fun dir cc => ?_⟩)
  rw [set_files, if_neg (by simp), hzones]
  simp

theorem calm_loadFirewall (hfile : ∃ b, w.files .applyNft = some b) : wp (calm Γ) (loadFirewall c) (fun r _ => r = .ok ()) w := by
  obtain ⟨b, hb⟩ := hfile
  have hbans : wp (calm Γ) (savedBans c) (fun r w' => w = w' ∧ ∃ saved, r = .ok saved) w := by
    refine wp_ite (fun _ => ?_) fun _ => wp_of_ret ⟨rfl, _, rfl⟩
    exact wp_bind.2 (wp_attempt.2 (wp_calm fun ch => wp_of_ret ⟨rfl, _, rfl⟩))
  refine wp_bind.2 (wp_post ?_ hbans)
  rintro _ _ ⟨rfl, saved, rfl⟩
  refine wp_bind.2 (wp_mapErr.2 (wp_calm fun ch => ?_))
  simp only [respond, effect, hb, Option.isSome_some, if_true]
  refine wp_bind.2 (wp_mapErr.2 (wp_calm fun ch => ?_))
  simp only [respond, effect, hb, Option.isSome_some, if_true]
  have hignore : ∀ {α : Type} {p : App Γ α} {w : World Γ} {Q : Except Err Unit → World Γ → Prop}, (∀ w', Q (.ok ()) w') →
      wp (calm Γ) (ignore p) Q w := fun hQ => wp_ignore (wp_calm_of (I := fun _ => True) (wp_post (fun _ w' _ => hQ w') (wp_any fun _ => trivial)))
  refine wp_bind.2 (wp_ite (fun _ => wp_of_ret ?_) fun _ => hignore fun w' => ?_)
  · exact wp_ite (fun _ => hignore fun _ => rfl) fun _ => wp_of_ret rfl
  · exact wp_ite (fun _ => hignore fun _ => rfl) fun _ => wp_of_ret rfl

/-- Without faults, an Apply loads something and leaves the zone files as they are. -/
theorem calm_applyToHost (hon : c.geo.enabled = true) (h : Ready w c) :
    wp (calm Γ) (applyToHost c) (fun _ w' => w'.nft ≠ w.nft ∧ ∀ dir cc, w'.files (.zone dir cc) = w.files (.zone dir cc)) w := by
  have hprep : wp (calm Γ) (prepareApply c) (fun r w' => ((Preparing c w w' ∧ (r = .ok () → Prepared c w')) ∧
      r = .ok () ∧ (∃ b, w'.files .applyNft = some b) ∧ ∀ dir cc, w'.files (.zone dir cc) = w.files (.zone dir cc))) w := by
    refine wp_mono ?_ ?_ ?_ (wp_and (wp_calm_of (prepareApply_spec (R := calm Γ) c)) (calm_prepareApply hon h))
    · exact fun _ _ _ h => ⟨h, h⟩
    · exact fun _ h => h.1
    · exact fun _ _ h => h
  refine wp_bind.2 (wp_post ?_ hprep)
  rintro _ w₁ ⟨⟨h₁, hp⟩, rfl, hfile, hzones⟩
  have hp := hp rfl
  have hload : wp (calm Γ) (loadFirewall c) (fun r w' => (Loading w₁ w' ∧ (r = .ok () → ∃ b, w₁.files .applyNft = some b ∧
      w'.nft = b :: w₁.nft)) ∧ r = .ok ()) w₁ := by
    refine wp_mono ?_ ?_ ?_ (wp_and (wp_calm_of (loadFirewall_spec (R := calm Γ) c hp)) (calm_loadFirewall hfile))
    · exact fun _ _ _ h => ⟨h, h⟩
    · exact fun _ h => h.1
    · exact fun _ _ h => h
  refine wp_bind.2 (wp_post ?_ hload)
  rintro _ w₂ ⟨⟨h₂, hnft⟩, rfl⟩
  obtain ⟨b, -, hnft⟩ := hnft rfl
  obtain ⟨s, hs, hc⟩ := hp.tunnel
  refine wp_post ?_ (wp_calm_of (reloadWireGuard_spec (R := calm Γ) c ⟨s, hs, (h₂.within.files _ (by simp [loadsE])).trans hc⟩))
  rintro r w₃ ⟨h₃, -⟩
  refine ⟨fun he => ?_, fun dir cc => ?_⟩
  · rw [h₃.nft, hnft, h₁.within.nft id] at he
    exact absurd (congrArg List.length he) (by simp)
  · rw [h₃.within.files _ (by simp [tunnelsE]), h₂.within.files _ (by simp [loadsE]), hzones]

theorem run_calm {p : App Γ α} {Q : Except Err α → World Γ → Prop} (h : wp (calm Γ) p Q w) : ∃ r, Q r ((host Γ).run p [] w).state := by
  have hsat := run_faultless h fun _ hch => absurd hch List.not_mem_nil
  cases hrun : (host Γ).run p [] w with
  | done r s' =>
    rw [hrun] at hsat
    exact ⟨r, hsat⟩
  | killed s' =>
    rw [hrun] at hsat
    exact hsat.elim

end calm

/-! ## Not apart -/

/-- A rule names a set. -/
def Named (n : String) (rules : List Rule) : Prop := ∃ rule ∈ rules, ∃ st ∈ rule, st.setName = some n

theorem mem_usedSets {t : Table} {n : String} : n ∈ t.usedSets ↔ ∃ ch ∈ t.chains, Named n ch.rules := by
  simp [Table.usedSets, Named]

theorem Named.of_subset {n : String} {rules rules' : List Rule} (h : Named n rules) (hsub : rules ⊆ rules') : Named n rules' := by
  obtain ⟨rule, hrule, hst⟩ := h
  exact ⟨rule, hsub hrule, hst⟩

theorem named_writePolicyInputPort {q : RoutePolicy} (hon : q.geo.enabled = true) : Named q.geo.setName (writePolicyInputPort q) := by
  have hend : ∀ {rules : List Rule}, Named q.geo.setName rules → ∀ rest, Named q.geo.setName (rest ++ rules) :=
    fun h rest => h.of_subset (List.subset_append_right _ _)
  refine hend ?_ _
  rw [if_neg (not_not.mpr hon)]
  by_cases hblock : q.geo.blockListed = true
  · rw [if_pos hblock]
    exact ⟨_, List.mem_append_left _ List.mem_cons_self, .saddrSet false q.geo.setName, by simp [geoBlockMatch], rfl⟩
  · rw [if_neg hblock]
    exact ⟨_, List.mem_append_left _ List.mem_cons_self, .saddrSet false q.geo.setName, by simp [fromSet], rfl⟩

theorem named_inputAllowRules {a : AllowRule} (hon : c.geo.enabled = true) (happly : c.geo.applyToInputAllows = true)
    (hd : a.disabled = false) : ∀ {as : List AllowRule} {allows : List Rule}, a ∈ as → inputAllowRules c as = .ok allows →
      Named c.geo.effectiveSetName allows
  | a' :: as, allows, ha, h => by
    unfold inputAllowRules at h
    obtain ⟨rules, hrules, h⟩ := bind_ok.mp h
    obtain ⟨rest, hrest, h⟩ := bind_ok.mp h
    obtain rfl := Except.ok.inj h
    rcases List.mem_cons.mp ha with rfl | ha
    · refine Named.of_subset ?_ (List.subset_append_left _ _)
      unfold inputAllowRulesOf at hrules
      rw [hd, if_neg Bool.false_ne_true] at hrules
      obtain ⟨⟨proto, dport⟩, -, hrules⟩ := bind_ok.mp hrules
      obtain rfl := Except.ok.inj hrules
      simp only [hon, happly, Bool.and_self, Bool.true_and, writeGeoProtoPortInputRules, not_true_eq_false, if_false]
      by_cases hblock : geoBlockListed c = true
      · rw [if_pos hblock]
        exact ⟨_, List.mem_append_left _ List.mem_cons_self, .saddrSet false c.geo.effectiveSetName, by simp [geoBlockMatch], rfl⟩
      · rw [if_neg hblock]
        exact ⟨_, List.mem_append_left _ (List.mem_append_left _ List.mem_cons_self), .saddrSet false c.geo.effectiveSetName,
          by simp [fromSet], rfl⟩
    · exact (named_inputAllowRules hon happly hd ha hrest).of_subset (List.subset_append_right _ _)

theorem named_customRoute (hon : c.geo.enabled = true) {i : Nat} {r : ForwardRoute} {dnat : List RouteDNATLine} {p : Proto}
    (hmode : toLower (trimSpace r.geoMode) = "custom") (heq : c.geo.effectiveSetName = routeGeoSetName i) :
    Named c.geo.effectiveSetName (writePolicyInputPort (policyOf c i r dnat p)) := by
  have hcustom : routeGeoMode r = "custom" := by
    unfold routeGeoMode
    rw [hmode]
    rfl
  have hgeo : routeGeoParamsFor c i r = { enabled := true, blockListed := geoBlockListed c, setName := c.geo.effectiveSetName } := by
    rw [routeGeoParamsFor, hcustom, if_neg (by simp [hon]), if_pos rfl, heq]
  have hport := @named_writePolicyInputPort (policyOf c i r dnat p)
  rw [policyOf_geo, hgeo] at hport
  exact hport rfl

/-- A rule names the set of a route that shares it with the global one. -/
theorem Checked.named (h : Checked c) (hon : c.geo.enabled = true) (hnamed : GeoNamed c)
    (hrs : EvuProxy.rulesetScript c ord [] = .ok rs) {i : Nat} {r : ForwardRoute} (hr : (i, r) ∈ activeRoutes c)
    (hmode : toLower (trimSpace r.geoMode) = "custom") (heq : c.geo.effectiveSetName = routeGeoSetName i) :
    ∃ t, .table t ∈ rs ∧ c.geo.effectiveSetName ∈ t.usedSets := by
  rw [h.rulesetScript] at hrs
  obtain ⟨routes, hroutes, hrs⟩ := bind_ok.mp hrs
  obtain ⟨allows, hallows, hrs⟩ := bind_ok.mp hrs
  obtain rfl := Except.ok.inj hrs
  refine ⟨filterTable c (tableSets c ord true) routes allows, by simp [rulesetOf], mem_usedSets.mpr ⟨_, List.mem_cons_self, ?_⟩⟩
  rcases hnamed with hmaint | ⟨happly, a, ha, hd⟩
  · obtain ⟨protos, dnat, hprotos, -, hmem⟩ := policyOf_mem_routePolicies hroutes hmaint hr
    obtain ⟨p, hp⟩ := List.exists_mem_of_ne_nil _ (parseRouteProtocols_ok hprotos).1
    exact (named_customRoute hon hmode heq).of_subset fun rule hrule =>
      List.mem_append_right _ (List.mem_flatMap.mpr ⟨_, hmem p hp, hrule⟩)
  · refine (named_inputAllowRules hon happly hd ha hallows).of_subset ?_
    intro rule hrule
    simp [inputChain, hrule]

/-- A host with a zone file for every country. That of one country lists an address more. -/
def Sample.zones (cc : String) : World Sample.ctx where
  files := fun
    | .zone _ cc' => some (.text (if cc' = cc then "10.0.0.1\n10.0.0.2" else "10.0.0.1"))
    | .privateKey _ => some (.text "secret")
    | _ => none

section zones

variable {cc₀ : String}

theorem zones_lines (cc₀ dir cc : String) : ∃ b, (Sample.zones cc₀).files (.zone dir cc) = some b ∧ Sample.ctx.isEmpty b = false ∧
    zoneLines (Sample.ctx.str b) = if cc = cc₀ then ["10.0.0.1", "10.0.0.2"] else ["10.0.0.1"] := by
  refine ⟨_, rfl, ?_⟩
  by_cases hcc : cc = cc₀
  · rw [if_pos hcc, if_pos hcc]
    exact ⟨by decide, by decide⟩
  · rw [if_neg hcc, if_neg hcc]
    exact ⟨by decide, by decide⟩

theorem zones_ready (dir : String) {cc : String} (h : validateGeoCountryCode cc = .ok ()) : ZoneReady (Sample.zones cc₀) dir cc := by
  obtain ⟨b, hb, hne, hlines⟩ := zones_lines cc₀ dir (zoneName cc)
  refine ⟨h, b, hb, hne, ?_, ?_⟩
  · rw [hlines]
    split <;> simp
  · rw [hlines]
    split <;> decide

theorem zones_lists (dir : String) {cc : String} : (Sample.zones cc₀).Lists dir cc "10.0.0.2" ↔ zoneName cc = cc₀ := by
  obtain ⟨b, hb, -, hlines⟩ := zones_lines cc₀ dir (zoneName cc)
  unfold World.Lists
  simp only [hb, Option.some.injEq, exists_eq_left', hlines]
  by_cases hcc : zoneName cc = cc₀
  · rw [if_pos hcc]
    simp [hcc]
  · rw [if_neg hcc]
    simp [hcc]

theorem Checked.ready (cc₀ : String) (h : Checked c) (hon : c.geo.enabled = true) (hknown : InputProtosKnown c) : Ready (Sample.zones cc₀) c where
  renders _ := h.renders.mpr hknown
  key := ⟨_, rfl⟩
  some := (h.countries hon).1
  countries cc hcc := zones_ready _ ((h.countries hon).2 cc hcc)
  routes p hp := by
    obtain ⟨hr, hmode⟩ := (mem_customGeoRoutes h).mp hp
    obtain ⟨hne, hall⟩ := (h.active hr).countries hmode
    exact ⟨hne, fun cc hcc => zones_ready _ (hall cc hcc)⟩

end zones

/-- On a small host, an Apply that fills one set for two lists of countries leaves an address in it that one of them has not. -/
theorem Checked.not_geoSafe (h : Checked c) (hon : c.geo.enabled = true) (hknown : InputProtosKnown c) (hapart : ¬GeoNameApart c) :
    ¬GeoSafe c := by
  intro hsafe
  unfold GeoNameApart at hapart
  push Not at hapart
  obtain ⟨⟨i, r⟩, hr, hmode, heq, hother, hnamed⟩ := hapart
  -- A country of one list and not of the other.
  obtain ⟨cc₀, hcc₀⟩ := not_forall.mp hother
  obtain ⟨_, hrun, hzones⟩ := run_calm (calm_applyToHost hon (h.ready cc₀ hon hknown))
  rcases hsafe Sample.ctx (Sample.zones cc₀) [] with hnone | ⟨ord, rs, hrs, -, hfilled⟩
  · exact hrun hnone
  obtain ⟨t, ht, hn⟩ := h.named hon hnamed hrs hr hmode heq
  have hboth := hfilled t (List.mem_append_left _ ht) _ hn
  have hgeo := (hboth .geo hon rfl rfl fun _ => []).2 "10.0.0.2"
  have hroute := (hboth (.routeGeo i) ⟨hon, r, hr, hmode⟩ rfl heq.symm fun _ => []).2 "10.0.0.2"
  have hlists : ∀ {dir cc}, World.Lists ((host Sample.ctx).run (applyToHost c) [] (Sample.zones cc₀)).state dir cc "10.0.0.2" ↔
      zoneName cc = cc₀ := by
    intro dir cc
    rw [← zones_lists dir, World.Lists, World.Lists, hzones]
  have hsame : (∃ cc ∈ c.geo.countries, zoneName cc = cc₀) ↔ ∃ cc ∈ r.geoCountries, zoneName cc = cc₀ := by
    simp only [hlists] at hgeo hroute
    refine hgeo.symm.trans (hroute.trans ⟨?_, ?_⟩)
    · rintro ⟨cc, ⟨r', hr', hcc⟩, hz⟩
      obtain rfl : r = r' := Option.some.inj ((mem_activeRoutes.mp hr).1.symm.trans (mem_activeRoutes.mp hr').1)
      exact ⟨cc, hcc, hz⟩
    · rintro ⟨cc, hcc, hz⟩
      exact ⟨cc, ⟨r, hr, hcc⟩, hz⟩
  exact hcc₀ (by rw [List.mem_map, List.mem_map, hsame])

/-- An Apply with geo on is safe exactly when the global geo set shares its name with no set for other countries, or when the config does
not render at all. -/
theorem geoSafe_iff (c : Config) (hv : c.validate = .ok ()) (hon : c.geo.enabled = true) :
    GeoSafe c ↔ GeoNameApart c ∨ ¬InputProtosKnown c := by
  have h := Config.checked hv
  constructor
  · intro hsafe
    by_contra hnot
    obtain ⟨hapart, hknown⟩ := not_or.mp hnot
    exact h.not_geoSafe hon (not_not.mp hknown) hapart hsafe
  · intro hcond Γ w script
    have hallowed : Allowed (choiceRules fun _ : Choice Γ => True) (applyToHost c) script w := allowed_choiceRules trivial fun _ _ => trivial
    rcases ((applyToHost_geo hon).sat hallowed).1 with hnone | ⟨hfilled, ord, rs, hrs, hnft⟩
    · exact .inl hnone
    · have hknown : InputProtosKnown c := h.renders.mp ⟨rs, hrs⟩
      have hapart : GeoNameApart c := hcond.resolve_right (not_not.mpr hknown)
      exact .inr ⟨ord, rs, hrs, hnft, filled_of_apart h hapart hrs hfilled⟩

/-- A config whose global geo set has a name, with a route for countries of its own. -/
def Sample.ownCountries (name : String) : Config :=
  { Sample.config 1 false with
    geo := { enabled := true, mode := "allow", setName := name, countries := ["de"], zoneDir := "/zones" }
    forwarding := { routes :=
      [{ proto := "tcp", ports := ["80"], targetIP := "10.0.0.2", geoMode := "custom", geoCountries := ["fr"] }] } }

theorem geoSafe_iff_sample : GeoSafe (Sample.ownCountries "geo_allowed") ↔
    GeoNameApart (Sample.ownCountries "geo_allowed") ∨ ¬InputProtosKnown (Sample.ownCountries "geo_allowed") :=
  geoSafe_iff (Sample.ownCountries "geo_allowed") (by decide +kernel) rfl

/-- Under the name of the route's set, the global one holds the addresses of France and is for Germany. -/
theorem shared_set_refilled : (Sample.ownCountries "route_geo_0").validate = .ok () ∧ (Sample.ownCountries "route_geo_0").geo.enabled = true ∧
    ¬GeoSafe (Sample.ownCountries "route_geo_0") := by
  have hv : (Sample.ownCountries "route_geo_0").validate = .ok () := by decide +kernel
  refine ⟨hv, rfl, (Config.checked hv).not_geoSafe rfl (by decide +kernel) fun hapart => ?_⟩
  obtain ⟨r, hr, hfr⟩ : ∃ r, (0, r) ∈ activeRoutes (Sample.ownCountries "route_geo_0") ∧ toLower (trimSpace r.geoMode) = "custom" ∧
      r.geoCountries = ["fr"] := ⟨_, mem_activeRoutes.mpr ⟨rfl, rfl⟩, by decide, rfl⟩
  have hname : (Sample.ownCountries "route_geo_0").geo.effectiveSetName = routeGeoSetName 0 := by decide
  rcases hapart (0, r) hr hfr.1 hname with hsame | hnamed
  · have hde := (hsame "de").mp (by decide)
    rw [hfr.2] at hde
    exact absurd hde (by decide)
  · exact hnamed (.inl rfl)

end EvuProxy

import EvuProxy.Apply.Zones
import EvuProxy.Theorems.Embedding
import EvuProxy.Theorems.WayIn

/-!
# What the sets hold

The elements of every set after the file of an Apply is loaded: a list of the config that has entries fills the set that is named after
it, and where geo is on, the last set of countries with the name takes its place.
-/

namespace EvuProxy

open Go Nft

variable {Γ : Ctx} {c : Config} {w : World Γ} {ord : MapOrder} {m : SetState} {family n : String}

/-! ## Refilling -/

/-- A set that is refilled holds what it was refilled with last. -/
theorem refillAll_last {families : List String} {table : String} {sets : List (String × List String)} (hf : family ∈ families) :
    loadScript (refillAll families table sets) m (family, table, n) =
      ((sets.reverse.find? fun p => p.1 = n).map (·.2)).getD (m (family, table, n)) := by
  induction sets generalizing m with
  | nil => rfl
  | cons p sets ih =>
    rw [refillAll_cons, loadScript_append, ih, loadScript_families, List.reverse_cons, List.find?_append]
    cases sets.reverse.find? fun p => p.1 = n with
    | some q => rfl
    | none =>
      by_cases hp : p.1 = n
      · simp [hp, hf]
      · simp [hp, Ne.symm hp]

/-! ## Declared elements -/

/-- The elements that the tables of a config without lists of its routes declare for a set. -/
def declared (c : Config) (n : String) : List String :=
  (if setBreakGlass = n then normalizedRouteSourceElems c.geo.breakGlassCIDRs else []) ++
    if setGlobalDeny = n then normalizedRouteSourceElems c.forwarding.sourceDenyCIDRs else []

/-- The elements of the sets of a name. -/
def elementsOf (n : String) (ds : List SetDecl) : List String := ds.flatMap fun d => if d.name = n then d.elements else []

theorem elementsOf_append {ds ds' : List SetDecl} : elementsOf n (ds ++ ds') = elementsOf n ds ++ elementsOf n ds' := List.flatMap_append ..

theorem elementsOf_empty {ds : List SetDecl} (h : ∀ d ∈ ds, d.elements = []) : elementsOf n ds = [] := by
  refine List.flatMap_eq_nil_iff.mpr fun d hd => ?_
  rw [h d hd]
  exact ite_self _

theorem elementsOf_sourceSet {name : String} {cidrs : List String} :
    elementsOf n (sourceSet name cidrs) = if name = n then normalizedRouteSourceElems cidrs else [] := by
  unfold sourceSet
  by_cases hnil : normalizedRouteSourceElems cidrs = []
  · rw [if_pos hnil, hnil, ite_self]
    rfl
  · rw [if_neg hnil]
    exact List.flatMap_singleton ..

theorem Bare.elementsOf_tableSets (hbare : Bare c) {filter : Bool} : elementsOf n (tableSets c ord filter) = declared c n := by
  have hgeo : elementsOf n (if c.geo.enabled then [geoSetDecl c.geo.effectiveSetName] else []) = [] := by
    refine elementsOf_empty fun d hd => ?_
    obtain ⟨-, hd⟩ := mem_ite_list.mp hd
    rw [List.mem_singleton.mp hd]
    rfl
  have hcrowdsec : elementsOf n (if filter ∧ c.crowdSecEnabled then [crowdsecSetDecl] else []) = [] := by
    rw [hbare.crowdsec]
    simp [elementsOf]
  have hallow : ((activeRoutes c).flatMap fun p => sourceSet (routeSrcSetName p.1) p.2.sourceAllowCIDRs) = [] := by
    refine List.flatMap_eq_nil_iff.mpr fun p hp => ?_
    rw [hbare.srcAllow p hp]
    rfl
  have hdeny : ((activeRoutes c).flatMap fun p => sourceSet (routeDenySetName p.1) p.2.sourceDenyCIDRs) = [] := by
    refine List.flatMap_eq_nil_iff.mpr fun p hp => ?_
    rw [hbare.srcDeny p hp]
    rfl
  have hcustom : elementsOf n (writeRouteCustomGeoSets c) = [] := by
    refine elementsOf_empty fun d hd => ?_
    unfold writeRouteCustomGeoSets at hd
    split at hd
    · cases hd
    · obtain ⟨_, _, rfl⟩ := List.mem_map.mp hd
      rfl
  have hrate : elementsOf n (if filter then rateLimitSets c ord else []) = [] :=
    elementsOf_empty fun d hd => rateLimitSets_elements (mem_ite_list.mp hd).2
  unfold tableSets
  rw [hallow, hdeny]
  simp only [elementsOf_append, hgeo, hcrowdsec, hcustom, hrate, elementsOf_sourceSet, List.nil_append, List.append_nil]
  rfl

/-! ## Loaded elements -/

theorem loadScript_accepted {pub wg : String} {routes : List RoutePolicy} :
    loadScript (writeRouteAcceptedTable pub wg routes) m (family, "evuproxy", n) = m (family, "evuproxy", n) := by
  have hname : ¬"evuproxy" = routeAcceptedTable := by decide
  unfold writeRouteAcceptedTable
  split
  · simp [Command.load, hname]
  · simp [Command.load, Table.elements, hname]

/-- What the ruleset leaves in the sets of both tables, whatever was in them. -/
theorem Bare.loadScript_ruleset (hbare : Bare c) (hf : family = "inet" ∨ family = "ip") {paused : List Nat} {routes : List RoutePolicy}
    {allows : List Rule} : loadScript (rulesetOf c ord paused routes allows) m (family, "evuproxy", n) = declared c n := by
  have hfilter : (filterTable c (tableSets c ord true) routes allows).elements (family, "evuproxy", n) =
      if family = "inet" then declared c n else [] := by
    have hsets : elementsOf n (tableSets c ord true) = declared c n := hbare.elementsOf_tableSets
    rw [Table.elements, ← hsets]
    simp [filterTable, elementsOf]
  have hnat : (natTable c (tableSets c ord false) routes paused).elements (family, "evuproxy", n) =
      if family = "ip" then declared c n else [] := by
    have hsets : elementsOf n (tableSets c ord false) = declared c n := hbare.elementsOf_tableSets
    rw [Table.elements, ← hsets]
    simp [natTable, elementsOf]
  rw [rulesetOf, loadScript_append, loadScript_accepted]
  simp only [loadScript_cons, loadScript_nil, Command.load, hfilter, hnat]
  rcases hf with rfl | rfl
  · simp
  · simp

/-- The file that an Apply loads: the ruleset, and where geo is on the loader of its sets. -/
def loadedFile (c : Config) (w : World Γ) (rs : Script) : Script := if c.geo.enabled then rs ++ .blank :: w.geoLoader c else rs

/-- The elements of a set after that file is loaded. -/
def World.held (w : World Γ) (c : Config) (n : String) : List String :=
  (((if c.geo.enabled then w.geoSets c else []).reverse.find? fun p => p.1 = n).map (·.2)).getD (declared c n)

theorem Bare.loadScript_loadedFile (hbare : Bare c) (hf : family = "inet" ∨ family = "ip") {routes : List RoutePolicy} {allows : List Rule} :
    loadScript (loadedFile c w (rulesetOf c ord [] routes allows)) m (family, "evuproxy", n) = w.held c n := by
  have hblank : ∀ m, Command.load m .blank = m := fun _ => rfl
  have hcomment : ∀ m s, Command.load m (.comment s) = m := fun _ _ => rfl
  unfold loadedFile World.held
  cases hon : c.geo.enabled with
  | false => exact hbare.loadScript_ruleset hf
  | true =>
    rw [if_pos rfl, if_pos rfl, loadScript_append, loadScript_cons, hblank, World.geoLoader, loadScript_cons, hcomment,
      refillAll_last (by simpa using hf), hbare.loadScript_ruleset hf]

/-- The loader adds no rules. -/
theorem chainRules_loadedFile {rs : Script} {table chain : String} :
    chainRules (loadedFile c w rs) family table chain = chainRules rs family table chain := by
  have hrefill : ∀ sets, chainRules (refillAll ["inet", "ip"] "evuproxy" sets) family table chain = [] := by
    intro sets
    refine List.flatMap_eq_nil_iff.mpr fun cmd hcmd => ?_
    obtain ⟨p, -, hcmd⟩ := List.mem_flatMap.mp hcmd
    obtain ⟨f, -, hcmd⟩ := List.mem_flatMap.mp hcmd
    simp only [refill, List.mem_cons, List.not_mem_nil, or_false] at hcmd
    rcases hcmd with rfl | rfl <;> rfl
  unfold loadedFile
  cases c.geo.enabled with
  | false => rfl
  | true =>
    rw [if_pos rfl, chainRules_append]
    exact (congrArg _ (hrefill _)).trans (List.append_nil _)

end EvuProxy

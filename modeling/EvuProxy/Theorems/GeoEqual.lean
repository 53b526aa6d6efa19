import EvuProxy.Apply.Loader
import EvuProxy.Theorems.GeoSets
import EvuProxy.Theorems.HeldSets
import Mathlib.Data.String.Basic

/-!
# When two configs have the same geo sets

`GeoSetsEqual` compares, set by set, how often each country is named. The loaders of two configs fill the same sets when the sets are for the
same countries, and fail alike when no list that one of them reads and then replaces asks for more than the other.
-/

namespace EvuProxy

open Go Nft

/-! ## The countries of the sets -/

/-- The sets that the loader of a config fills, one after another, with their countries. -/
def countryLists (c : Config) : List (String × List String) :=
  (c.geo.effectiveSetName, c.geo.countries.map zoneName) :: (customGeoRoutes c).map fun p => (routeGeoSetName p.1, p.2.geoCountries.map zoneName)

/-- The countries of a set: those of the last list that is written under its name. -/
def setCountries (c : Config) (n : String) : Option (List String) := ((countryLists c).reverse.find? fun p => p.1 = n).map (·.2)

/-- A set is for a country. -/
def SetFor (c : Config) (n cc : String) : Prop := ∃ ccs, setCountries c n = some ccs ∧ cc ∈ ccs

/-- The sets of two configs are for the same countries. -/
def SameMembers (a b : Config) : Prop := ∀ n cc, SetFor a n cc ↔ SetFor b n cc

/-- How often a country is named for a set. -/
def timesNamed (c : Config) (n cc : String) : Nat := ((setCountries c n).getD []).count cc

/-- Each country is named equally often. -/
def SameCounts (a b : Config) : Prop := ∀ n cc, timesNamed a n cc = timesNamed b n cc

/-- A country whose zone file the loader reads. -/
def Reads (c : Config) (cc : String) : Prop := ∃ p ∈ countryLists c, cc ∈ p.2

/-- Every list that the loader of `b` reads has all countries of a list that the loader of `a` reads. -/
def ListsCover (a b : Config) : Prop := ∀ q ∈ countryLists b, ∃ p ∈ countryLists a, p.2 ⊆ q.2

/-- The loaders read the same countries, and neither reads a list that the other's lists do not stand for. -/
structure ReadAs (a b : Config) : Prop where
  same : ∀ cc, Reads a cc ↔ Reads b cc
  left : ListsCover a b
  right : ListsCover b a

/-! ## What the function compares -/

theorem lookup_map_find {α β : Type} {f : α → β} {n : String} (l : List (String × α)) :
    (l.map fun p => (p.1, f p.2)).lookup n = (l.find? fun p => p.1 = n).map fun p => f p.2 := by
  induction l with
  | nil => rfl
  | cons p l ih =>
    rw [List.map_cons, List.lookup_cons, List.find?_cons]
    by_cases hn : p.1 = n
    · rw [hn, beq_self_eq_true, decide_eq_true rfl]
      rfl
    · rw [beq_false_of_ne (Ne.symm hn), decide_eq_false hn, ih]

theorem lookup_geoSetCountries (c : Config) (n : String) :
    (geoSetCountries c).lookup n = (setCountries c n).map (List.insertionSort (· ≤ ·)) := by
  have hlists : geoSetCountries c = (countryLists c).reverse.map fun p => (p.1, p.2.insertionSort (· ≤ ·)) := by
    rw [countryLists, List.reverse_cons, List.map_append, ← List.map_reverse, List.map_map]
    rfl
  rw [hlists, lookup_map_find, setCountries, Option.map_map]
  rfl

theorem geoSetsEqual_eq {a b : Config} (hon : a.geo.enabled = b.geo.enabled) (hdir : a.geo.zoneDir = b.geo.zoneDir) :
    geoSetsEqual a b = true ↔ ∀ n, (geoSetCountries a).lookup n = (geoSetCountries b).lookup n := by
  unfold geoSetsEqual
  rw [hon, hdir, beq_self_eq_true, beq_self_eq_true, Bool.true_and, Bool.true_and, List.all_eq_true]
  constructor
  · intro h n
    by_cases hn : n ∈ (geoSetCountries a ++ geoSetCountries b).map (·.1)
    · exact beq_iff_eq.mp (h n hn)
    · rw [List.map_append, List.mem_append, not_or] at hn
      have hnone : ∀ {sets : List (String × List String)}, n ∉ sets.map (·.1) → sets.lookup n = none := fun hn =>
        List.lookup_eq_none_iff.mpr fun p hp => bne_iff_ne.mpr fun he => hn (List.mem_map.mpr ⟨p, hp, he.symm⟩)
      rw [hnone hn.1, hnone hn.2]
  · exact fun h n _ => beq_iff_eq.mpr (h n)

variable {a b c : Config}

/-- The countries of the sets of an accepted config: each list has one, and all are codes in lower case. -/
theorem countryLists_checked (h : Checked c) (hon : c.geo.enabled = true) {p : String × List String} (hp : p ∈ countryLists c) :
    p.2 ≠ [] ∧ ∀ cc ∈ p.2, validateGeoCountryCode cc = .ok () ∧ zoneName cc = cc := by
  have hlist : ∀ {ccs : List String}, ccs ≠ [] ∧ (∀ cc ∈ ccs, validateGeoCountryCode cc = .ok ()) →
      ccs.map zoneName ≠ [] ∧ ∀ cc ∈ ccs.map zoneName, validateGeoCountryCode cc = .ok () ∧ zoneName cc = cc := by
    rintro ccs ⟨hne, hall⟩
    refine ⟨fun hnil => hne (List.map_eq_nil_iff.mp hnil), fun cc hcc => ?_⟩
    obtain ⟨x, hx, rfl⟩ := List.mem_map.mp hcc
    exact ⟨validate_zoneName (hall x hx), zoneName_zoneName (hall x hx)⟩
  rcases List.mem_cons.mp hp with rfl | hp
  · exact hlist (h.countries hon)
  · obtain ⟨q, hq, rfl⟩ := List.mem_map.mp hp
    obtain ⟨hactive, hmode⟩ := (mem_customGeoRoutes h).mp hq
    exact hlist ((h.active hactive).countries hmode)

theorem mem_of_setCountries {n : String} {ccs : List String} (h : setCountries c n = some ccs) : (n, ccs) ∈ countryLists c := by
  obtain ⟨p, hp, rfl⟩ := Option.map_eq_some_iff.mp h
  have hn : p.1 = n := by simpa using List.find?_some hp
  rw [← hn]
  exact List.mem_reverse.mp (List.mem_of_find?_eq_some hp)

/-- Sorted lists are the same when they name everything equally often. -/
theorem sort_eq_iff {xs ys : List String} : xs.insertionSort (· ≤ ·) = ys.insertionSort (· ≤ ·) ↔ ∀ x, xs.count x = ys.count x := by
  rw [← List.perm_iff_count]
  constructor
  · intro h
    exact (List.perm_insertionSort _ xs).symm.trans (h ▸ List.perm_insertionSort _ ys)
  · intro h
    refine List.Perm.eq_of_pairwise (fun x y _ _ hxy hyx => le_antisymm hxy hyx) (List.pairwise_insertionSort _ _)
      (List.pairwise_insertionSort _ _) ?_
    exact (List.perm_insertionSort _ xs).trans (h.trans (List.perm_insertionSort _ ys).symm)

theorem setFor_iff {n cc : String} : SetFor c n cc ↔ 0 < timesNamed c n cc := by
  unfold SetFor timesNamed
  cases setCountries c n with
  | none => simp
  | some ccs => simp

/-- Nothing is named for a set only when there is no such set. -/
theorem setCountries_none (h : Checked c) (hon : c.geo.enabled = true) {n : String} : setCountries c n = none ↔ ∀ cc, timesNamed c n cc = 0 := by
  constructor
  · intro hnone cc
    rw [timesNamed, hnone]
    rfl
  · intro hzero
    by_contra hsome
    obtain ⟨ccs, hccs⟩ := Option.ne_none_iff_exists'.mp hsome
    obtain ⟨cc, hcc⟩ := List.exists_mem_of_ne_nil _ (countryLists_checked h hon (mem_of_setCountries hccs)).1
    have hpos := setFor_iff.mp ⟨ccs, hccs, hcc⟩
    rw [hzero] at hpos
    exact absurd hpos (Nat.lt_irrefl 0)

/-- The function compares how often each country is named. -/
theorem geoSetsEqual_counts (ha : Checked a) (hb : Checked b) (hona : a.geo.enabled = true) (honb : b.geo.enabled = true)
    (hdir : a.geo.zoneDir = b.geo.zoneDir) : geoSetsEqual a b = true ↔ SameCounts a b := by
  rw [geoSetsEqual_eq (hona.trans honb.symm) hdir]
  refine forall_congr' fun n => ?_
  rw [lookup_geoSetCountries, lookup_geoSetCountries]
  have hnonea := @setCountries_none a ha hona n
  have hnoneb := @setCountries_none b hb honb n
  unfold timesNamed at hnonea hnoneb ⊢
  cases hsa : setCountries a n with
  | none =>
    cases hsb : setCountries b n with
    | none => simp
    | some ccs' =>
      rw [hsb] at hnoneb
      refine iff_of_false (by simp) fun hsame => ?_
      exact absurd (hnoneb.mpr fun cc => (hsame cc).symm) (by simp)
  | some ccs =>
    cases hsb : setCountries b n with
    | none =>
      rw [hsa] at hnonea
      refine iff_of_false (by simp) fun hsame => ?_
      exact absurd (hnonea.mpr hsame) (by simp)
    | some ccs' => rw [Option.map_some, Option.map_some, Option.some.injEq, sort_eq_iff, Option.getD_some, Option.getD_some]

theorem SameCounts.members (h : SameCounts a b) : SameMembers a b := fun n cc => by
  rw [setFor_iff, setFor_iff, h n cc]

/-! ## What a loader reads -/

variable {zones : ZoneFiles} {dir : String}

/-- The zone file of a country can be read, and every line of it is an address or a network. -/
def ZoneValid (zones : ZoneFiles) (dir cc : String) : Prop := ∃ content, zones dir cc = some content ∧ (zoneLines content).all validGeoLine = true

/-- What the zone file of a country lists. -/
def zoneList (zones : ZoneFiles) (dir cc : String) : List String :=
  match zones dir cc with
  | some content => zoneLines content
  | none => []

theorem zoneRangesOf_some {ccs es : List String} : zoneRangesOf zones dir ccs = some es ↔
    (∀ cc ∈ ccs.map zoneName, ZoneValid zones dir cc) ∧ es = (ccs.map zoneName).flatMap (zoneList zones dir) := by
  induction ccs generalizing es with
  | nil => simp [zoneRangesOf, eq_comm]
  | cons cc ccs ih =>
    rw [zoneRangesOf, List.map_cons, List.forall_mem_cons, List.flatMap_cons, Option.bind_eq_bind, Option.bind_eq_some_iff]
    have hname : toLower (trimSpace cc) = zoneName cc := rfl
    rw [hname]
    constructor
    · rintro ⟨content, hzone, h⟩
      split at h
      · rename_i hvalid
        obtain ⟨rest, hrest, h⟩ := Option.bind_eq_some_iff.mp h
        obtain ⟨hall, rfl⟩ := ih.mp hrest
        refine ⟨⟨⟨content, hzone, hvalid⟩, hall⟩, ?_⟩
        rw [← Option.some.inj h, zoneList, hzone]
      · cases h
    · rintro ⟨⟨⟨content, hzone, hvalid⟩, hall⟩, rfl⟩
      refine ⟨content, hzone, ?_⟩
      rw [if_pos hvalid, ih.mpr ⟨hall, rfl⟩, zoneList, hzone]
      rfl

/-- On codes that are accepted `ZoneCIDRsForCountries` reads the same. -/
theorem zoneCIDRsForCountries_eq {ccs : List String} (h : ∀ cc ∈ ccs, validateGeoCountryCode cc = .ok ()) :
    zoneCIDRsForCountries zones dir ccs = zoneRangesOf zones dir ccs := by
  induction ccs with
  | nil => rfl
  | cons cc ccs ih =>
    have hcc := h cc List.mem_cons_self
    have hne : toLower (trimSpace cc) ≠ "" := zoneName_ne_empty hcc
    have hcode : validateGeoCountryCode (toLower (trimSpace cc)) = .ok () := validate_zoneName hcc
    rw [zoneCIDRsForCountries, if_neg hne, if_neg (not_not.mpr hcode), ih fun x hx => h x (List.mem_cons_of_mem _ hx)]
    rfl

/-- The zone files of a list of countries are all valid, and one of them lists an address. -/
structure ListReady (zones : ZoneFiles) (dir : String) (ccs : List String) : Prop where
  valid : ∀ cc ∈ ccs, ZoneValid zones dir cc
  filled : ∃ cc ∈ ccs, zoneList zones dir cc ≠ []

/-- A set as the loader fills it, from a list of countries. -/
structure FilledFrom (zones : ZoneFiles) (dir : String) (set list : String × List String) : Prop where
  name : set.1 = list.1
  elements : ∀ e, e ∈ set.2 ↔ ∃ cc ∈ list.2, e ∈ zoneList zones dir cc

theorem flatMap_ne_nil {ccs : List String} : ccs.flatMap (zoneList zones dir) ≠ [] ↔ ∃ cc ∈ ccs, zoneList zones dir cc ≠ [] := by
  rw [Ne, List.flatMap_eq_nil_iff]
  simp

theorem routeLoaderSets_some {rs : List (Nat × ForwardRoute)} (h : ∀ p ∈ rs, ∀ cc ∈ p.2.geoCountries, validateGeoCountryCode cc = .ok ()) :
    let lists := rs.map fun p => (routeGeoSetName p.1, p.2.geoCountries.map zoneName)
    (∀ sets, routeLoaderSets zones dir rs = some sets → (∀ p ∈ lists, ListReady zones dir p.2) ∧ List.Forall₂ (FilledFrom zones dir) sets lists) ∧
      ((∀ p ∈ lists, ListReady zones dir p.2) → ∃ sets, routeLoaderSets zones dir rs = some sets) := by
  induction rs with
  | nil =>
    refine ⟨fun sets hsets => ?_, fun _ => ⟨[], rfl⟩⟩
    obtain rfl := Option.some.inj hsets
    exact ⟨fun _ hp => absurd hp List.not_mem_nil, .nil⟩
  | cons p rs ih =>
    obtain ⟨ihsome, ihready⟩ := ih fun q hq => h q (List.mem_cons_of_mem _ hq)
    have hcodes := h p List.mem_cons_self
    obtain ⟨i, r⟩ := p
    dsimp only at hcodes ⊢
    rw [List.map_cons, routeLoaderSets, zoneCIDRsForCountries_eq hcodes]
    constructor
    · intro sets hsets
      obtain ⟨elems, helems, hsets⟩ := Option.bind_eq_some_iff.mp hsets
      obtain ⟨hvalid, rfl⟩ := zoneRangesOf_some.mp helems
      split at hsets
      · cases hsets
      · rename_i hne
        obtain ⟨rest, hrest, hsets⟩ := Option.bind_eq_some_iff.mp hsets
        obtain ⟨hready, hfilled⟩ := ihsome rest hrest
        rw [← Option.some.inj hsets]
        refine ⟨List.forall_mem_cons.mpr ⟨⟨hvalid, flatMap_ne_nil.mp hne⟩, hready⟩, .cons ⟨rfl, fun e => ?_⟩ hfilled⟩
        rw [List.mem_reverse, List.mem_dedup, List.mem_reverse, List.mem_flatMap]
    · intro hall
      obtain ⟨hready, hall⟩ := List.forall_mem_cons.mp hall
      obtain ⟨rest, hrest⟩ := ihready hall
      rw [zoneRangesOf_some.mpr ⟨hready.valid, rfl⟩, Option.bind_eq_bind, Option.bind_some, if_neg (flatMap_ne_nil.mpr hready.filled), hrest]
      exact ⟨_, rfl⟩

/-- The loader succeeds when every list is ready, and fills each set from its list. -/
theorem loaderSets_some (h : Checked c) (hon : c.geo.enabled = true) :
    (∀ sets, loaderSets zones c = some sets → (∀ p ∈ countryLists c, ListReady zones c.geo.zoneDir p.2) ∧
      List.Forall₂ (FilledFrom zones c.geo.zoneDir) sets (countryLists c)) ∧
      ((∀ p ∈ countryLists c, ListReady zones c.geo.zoneDir p.2) → ∃ sets, loaderSets zones c = some sets) := by
  obtain ⟨hsome, hready⟩ := @routeLoaderSets_some zones c.geo.zoneDir (customGeoRoutes c) fun p hp => by
    obtain ⟨hactive, hmode⟩ := (mem_customGeoRoutes h).mp hp
    exact ((h.active hactive).countries hmode).2
  unfold loaderSets countryLists
  rw [if_neg (not_not.mpr hon)]
  constructor
  · intro sets hsets
    obtain ⟨elems, helems, hsets⟩ := Option.bind_eq_some_iff.mp hsets
    obtain ⟨hvalid, rfl⟩ := zoneRangesOf_some.mp helems
    split at hsets
    · cases hsets
    · rename_i hne
      obtain ⟨rest, hrest, hsets⟩ := Option.bind_eq_some_iff.mp hsets
      obtain ⟨hall, hfilled⟩ := hsome rest hrest
      rw [← Option.some.inj hsets]
      exact ⟨List.forall_mem_cons.mpr ⟨⟨hvalid, flatMap_ne_nil.mp hne⟩, hall⟩, .cons ⟨rfl, fun e => List.mem_flatMap⟩ hfilled⟩
  · intro hall
    obtain ⟨hglobal, hall⟩ := List.forall_mem_cons.mp hall
    obtain ⟨rest, hrest⟩ := hready hall
    rw [zoneRangesOf_some.mpr ⟨hglobal.valid, rfl⟩, Option.bind_eq_bind, Option.bind_some, if_neg (flatMap_ne_nil.mpr hglobal.filled), hrest]
    exact ⟨_, rfl⟩

/-! ## What a loader leaves in the sets -/

/-- A key that the loader does not name keeps its elements. -/
theorem refillAll_other {families : List String} {t : String} {sets : List (String × List String)} {m : SetState} {k : SetKey}
    (h : ¬(k.1 ∈ families ∧ k.2.1 = t)) : loadScript (refillAll families t sets) m k = m k := by
  induction sets generalizing m with
  | nil => rfl
  | cons p sets ih =>
    rw [refillAll_cons, loadScript_append, ih, loadScript_families, if_neg]
    exact fun hk => h ⟨hk.1, congrArg Prod.fst hk.2⟩

theorem find_filled {n : String} {sets lists : List (String × List String)} (h : List.Forall₂ (FilledFrom zones dir) sets lists) :
    (sets.find? fun p => p.1 = n) = none ∧ (lists.find? fun p => p.1 = n) = none ∨
      ∃ set list, (sets.find? fun p => p.1 = n) = some set ∧ (lists.find? fun p => p.1 = n) = some list ∧ FilledFrom zones dir set list := by
  induction h with
  | nil => exact .inl ⟨rfl, rfl⟩
  | @cons set list sets lists hfilled _ ih =>
    rw [List.find?_cons, List.find?_cons]
    by_cases hn : list.1 = n
    · rw [decide_eq_true hn, decide_eq_true (hfilled.name.trans hn)]
      exact .inr ⟨set, list, rfl, rfl, hfilled⟩
    · rw [decide_eq_false hn, decide_eq_false fun he => hn (hfilled.name.symm.trans he)]
      exact ih

/-- A set holds what the zone files list for its countries, if the loader fills it, and else what it held. -/
theorem mem_loaded (h : Checked c) (hon : c.geo.enabled = true) {s : Script} (hs : geoLoaderNFT zones c = some s) {m : SetState} {k : SetKey}
    {e : String} : e ∈ loadScript s m k ↔ if k.1 ∈ ["inet", "ip"] ∧ k.2.1 = "evuproxy" ∧ (setCountries c k.2.2).isSome then
      ∃ cc, SetFor c k.2.2 cc ∧ e ∈ zoneList zones c.geo.zoneDir cc else e ∈ m k := by
  obtain ⟨sets, hsets, rfl⟩ := Option.map_eq_some_iff.mp hs
  have hfilled := ((loaderSets_some h hon).1 sets hsets).2
  have hload : loadScript (.comment "Generated by evuproxy update-geo" :: refillAll ["inet", "ip"] "evuproxy" sets) m k =
      loadScript (refillAll ["inet", "ip"] "evuproxy" sets) m k := rfl
  rw [hload]
  obtain ⟨f, t, n⟩ := k
  by_cases hkey : f ∈ ["inet", "ip"] ∧ t = "evuproxy"
  · obtain ⟨hf, rfl⟩ := hkey
    rw [refillAll_last hf]
    rcases @find_filled zones c.geo.zoneDir n _ _ (List.forall₂_reverse_iff.mpr hfilled) with ⟨hset, hlist⟩ | ⟨set, list, hset, hlist, hfrom⟩
    · have hnone : setCountries c n = none := by rw [setCountries, hlist]; rfl
      rw [hset, if_neg (by simp [hnone])]
      rfl
    · have hsome : setCountries c n = some list.2 := by rw [setCountries, hlist]; rfl
      rw [hset, if_pos ⟨hf, rfl, by rw [hsome]; rfl⟩]
      refine (hfrom.elements e).trans (exists_congr fun cc => and_congr_left fun _ => ?_)
      simp [SetFor, hsome]
  · rw [refillAll_other hkey, if_neg]
    exact fun hall => hkey ⟨hall.1, hall.2.1⟩

/-- The loader succeeds exactly where every list is ready. -/
theorem loads_iff (h : Checked c) (hon : c.geo.enabled = true) :
    (geoLoaderNFT zones c).isSome = true ↔ ∀ p ∈ countryLists c, ListReady zones c.geo.zoneDir p.2 := by
  rw [geoLoaderNFT, Option.isSome_map, Option.isSome_iff_exists]
  refine ⟨?_, (loaderSets_some h hon).2⟩
  rintro ⟨sets, hsets⟩
  exact ((loaderSets_some h hon).1 sets hsets).1

/-! ## Two loaders -/

/-- A set holds an address. -/
def HoldsAddr (m : SetState) (k : SetKey) (x : Nat) : Prop := ∃ e ∈ m k, entryContains x e = true

/-- Two runs of the generator fail alike, or their files leave the same addresses in every set, whatever it held before. -/
inductive LoadAlike : Option Script → Option Script → Prop where
  | fail : LoadAlike none none
  | fill {s s' : Script} (h : ∀ m k x, HoldsAddr (loadScript s m) k x ↔ HoldsAddr (loadScript s' m) k x) : LoadAlike (some s) (some s')

/-- The loaders of two configs do the same on every content of the zone files. -/
def LoadersAgree (a b : Config) : Prop := ∀ zones, LoadAlike (geoLoaderNFT zones a) (geoLoaderNFT zones b)

theorem LoadAlike.isSome {o o' : Option Script} (h : LoadAlike o o') : o.isSome = o'.isSome := by
  cases h <;> rfl

theorem ReadAs.ready (h : ReadAs a b) (hall : ∀ p ∈ countryLists a, ListReady zones dir p.2) : ∀ q ∈ countryLists b, ListReady zones dir q.2 := by
  intro q hq
  constructor
  · intro cc hcc
    obtain ⟨p, hp, hcc⟩ := (h.same cc).mpr ⟨q, hq, hcc⟩
    exact (hall p hp).valid cc hcc
  · obtain ⟨p, hp, hsub⟩ := h.left q hq
    obtain ⟨cc, hcc, hlines⟩ := (hall p hp).filled
    exact ⟨cc, hsub hcc, hlines⟩

theorem ReadAs.symm (h : ReadAs a b) : ReadAs b a where
  same cc := (h.same cc).symm
  left := h.right
  right := h.left

theorem SameMembers.isSome (h : SameMembers a b) (ha : Checked a) (hb : Checked b) (hona : a.geo.enabled = true) (honb : b.geo.enabled = true)
    (n : String) : (setCountries a n).isSome = (setCountries b n).isSome := by
  have hside : ∀ {c c' : Config}, Checked c → c.geo.enabled = true → SameMembers c c' → (setCountries c n).isSome = true →
      (setCountries c' n).isSome = true := by
    intro c c' hc hon hsame hsome
    obtain ⟨ccs, hccs⟩ := Option.isSome_iff_exists.mp hsome
    obtain ⟨cc, hcc⟩ := List.exists_mem_of_ne_nil _ (countryLists_checked hc hon (mem_of_setCountries hccs)).1
    obtain ⟨ccs', hccs', -⟩ := (hsame n cc).mp ⟨ccs, hccs, hcc⟩
    rw [hccs']
    rfl
  exact Bool.eq_iff_iff.mpr ⟨hside ha hona h, hside hb honb fun n cc => (h n cc).symm⟩

theorem loadersAgree_of (ha : Checked a) (hb : Checked b) (hona : a.geo.enabled = true) (honb : b.geo.enabled = true)
    (hdir : a.geo.zoneDir = b.geo.zoneDir) (hsame : SameMembers a b) (hread : ReadAs a b) : LoadersAgree a b := by
  intro zones
  have hsome : (geoLoaderNFT zones a).isSome = (geoLoaderNFT zones b).isSome := by
    rw [Bool.eq_iff_iff, loads_iff ha hona, loads_iff hb honb, hdir]
    exact ⟨hread.ready, hread.symm.ready⟩
  cases hsa : geoLoaderNFT zones a with
  | none =>
    rw [hsa] at hsome
    rw [Option.isSome_eq_false_iff.mp hsome.symm |> Option.isNone_iff_eq_none.mp]
    exact .fail
  | some s =>
    rw [hsa] at hsome
    obtain ⟨s', hsb⟩ := Option.isSome_iff_exists.mp hsome.symm
    rw [hsb]
    refine .fill fun m k x => exists_congr fun e => and_congr_left fun _ => ?_
    rw [mem_loaded ha hona hsa, mem_loaded hb honb hsb, hsame.isSome ha hb hona honb, hdir]
    simp only [hsame k.2.2]

/-! ## Telling two configs apart -/

/-- An address that one zone file lists alone. -/
def ownAddr : String := "2.2.2.2"

/-- An address for the others. -/
def sharedAddr : String := "1.1.1.1"

theorem zoneLines_addr : zoneLines ownAddr = [ownAddr] ∧ zoneLines sharedAddr = [sharedAddr] ∧ zoneLines "" = [] := by
  refine ⟨?_, ?_, ?_⟩ <;> decide +kernel

theorem valid_addr : validGeoLine ownAddr = true ∧ validGeoLine sharedAddr = true := by
  refine ⟨?_, ?_⟩ <;> decide +kernel

theorem contains_addr : entryContains 0x02020202 ownAddr = true ∧ entryContains 0x02020202 sharedAddr = false := by
  refine ⟨?_, ?_⟩ <;> decide +kernel

/-- Zone files of which that of one country lists an address of its own. -/
def ownZone (cc : String) : ZoneFiles := fun _ x => some (if x = cc then ownAddr else sharedAddr)

/-- Zone files of which that of one country is missing. -/
def missingZone (cc : String) : ZoneFiles := fun _ x => if x = cc then none else some sharedAddr

/-- Zone files of which those of some countries are empty. -/
def emptyZones (ccs : List String) : ZoneFiles := fun _ x => some (if x ∈ ccs then "" else sharedAddr)

theorem zoneValid_of {x : String} (h : zones dir x = some ownAddr ∨ zones dir x = some sharedAddr ∨ zones dir x = some "") : ZoneValid zones dir x := by
  obtain ⟨hown, hshared, hempty⟩ := zoneLines_addr
  rcases h with h | h | h
  · exact ⟨ownAddr, h, by rw [hown]; simpa using valid_addr.1⟩
  · exact ⟨sharedAddr, h, by rw [hshared]; simpa using valid_addr.2⟩
  · exact ⟨"", h, by rw [hempty]; rfl⟩

theorem zoneList_of {x content : String} (h : zones dir x = some content) : zoneList zones dir x = zoneLines content := by
  rw [zoneList, h]

/-- Loaders that agree fill sets for the same countries: else one zone file with an address of its own tells them apart. -/
theorem LoadersAgree.members (h : LoadersAgree a b) (ha : Checked a) (hb : Checked b) (hona : a.geo.enabled = true)
    (honb : b.geo.enabled = true) : SameMembers a b := by
  intro n cc
  obtain ⟨hownLines, hsharedLines, -⟩ := zoneLines_addr
  obtain ⟨hown, hshared⟩ := contains_addr
  have hlines : ∀ {dir x}, zoneList (ownZone cc) dir x = [if x = cc then ownAddr else sharedAddr] := by
    intro dir x
    rw [zoneList_of rfl]
    split
    · exact hownLines
    · exact hsharedLines
  -- The set of a config holds the address exactly if it is for the country.
  have hside : ∀ {c : Config}, Checked c → c.geo.enabled = true →
      ∃ s, geoLoaderNFT (ownZone cc) c = some s ∧
        (HoldsAddr (loadScript s fun _ => []) ("inet", "evuproxy", n) 0x02020202 ↔ SetFor c n cc) := by
    intro c hc hon
    have hready : ∀ p ∈ countryLists c, ListReady (ownZone cc) c.geo.zoneDir p.2 := by
      intro p hp
      obtain ⟨hne, -⟩ := countryLists_checked hc hon hp
      obtain ⟨x, hx⟩ := List.exists_mem_of_ne_nil _ hne
      refine ⟨fun y _ => zoneValid_of ?_, x, hx, by rw [hlines]; exact List.cons_ne_nil _ _⟩
      by_cases hy : y = cc
      · exact .inl (congrArg some (if_pos hy))
      · exact .inr (.inl (congrArg some (if_neg hy)))
    obtain ⟨s, hs⟩ := Option.isSome_iff_exists.mp ((loads_iff hc hon).mpr hready)
    refine ⟨s, hs, ?_⟩
    unfold HoldsAddr
    constructor
    · rintro ⟨e, he, hcontains⟩
      rw [mem_loaded hc hon hs] at he
      split at he
      · obtain ⟨x, hx, hmem⟩ := he
        rw [hlines, List.mem_singleton] at hmem
        by_cases hxc : x = cc
        · rwa [← hxc]
        · rw [hmem, if_neg hxc, hshared] at hcontains
          cases hcontains
      · cases he
    · rintro ⟨ccs, hccs, hcc⟩
      refine ⟨ownAddr, ?_, hown⟩
      rw [mem_loaded hc hon hs, if_pos ⟨List.mem_cons_self, rfl, by rw [hccs]; rfl⟩]
      exact ⟨cc, ⟨ccs, hccs, hcc⟩, by rw [hlines, if_pos rfl]; exact List.mem_singleton_self _⟩
  obtain ⟨s, hs, hholds⟩ := hside ha hona
  obtain ⟨s', hs', hholds'⟩ := hside hb honb
  have hagree := h (ownZone cc)
  rw [hs, hs'] at hagree
  cases hagree with
  | fill hall => rw [← hholds, ← hholds', hall]

/-- Loaders that agree read the same countries: else the missing zone file of one makes one of them fail. -/
theorem LoadersAgree.reads (h : LoadersAgree a b) (ha : Checked a) (hb : Checked b) (hona : a.geo.enabled = true)
    (honb : b.geo.enabled = true) (cc : String) : Reads a cc ↔ Reads b cc := by
  have hside : ∀ {c : Config}, Checked c → c.geo.enabled = true →
      ((geoLoaderNFT (missingZone cc) c).isSome = true ↔ ¬Reads c cc) := by
    intro c hc hon
    rw [loads_iff hc hon]
    constructor
    · rintro hready ⟨p, hp, hcc⟩
      obtain ⟨content, hzone, -⟩ := (hready p hp).valid cc hcc
      rw [missingZone, if_pos rfl] at hzone
      cases hzone
    · intro hno p hp
      have hne : ∀ y ∈ p.2, y ≠ cc := fun y hy he => hno ⟨p, hp, he ▸ hy⟩
      obtain ⟨x, hx⟩ := List.exists_mem_of_ne_nil _ (countryLists_checked hc hon hp).1
      refine ⟨fun y hy => zoneValid_of (.inr (.inl (if_neg (hne y hy)))), x, hx, ?_⟩
      rw [zoneList_of (if_neg (hne x hx)), zoneLines_addr.2.1]
      exact List.cons_ne_nil _ _
  have hagree := (h (missingZone cc)).isSome
  rw [Bool.eq_iff_iff, hside ha hona, hside hb honb] at hagree
  exact not_iff_not.mp hagree

/-- Loaders that agree cover each other's lists: else empty zone files for the countries of one list make one of them fail. -/
theorem LoadersAgree.covers (h : LoadersAgree a b) (ha : Checked a) (hb : Checked b) (hona : a.geo.enabled = true)
    (honb : b.geo.enabled = true) : ListsCover a b := by
  intro q hq
  have hvalid : ∀ {dir x}, ZoneValid (emptyZones q.2) dir x := by
    intro dir x
    refine zoneValid_of ?_
    by_cases hx : x ∈ q.2
    · exact .inr (.inr (congrArg some (if_pos hx)))
    · exact .inr (.inl (congrArg some (if_neg hx)))
  have hlines : ∀ {dir x}, zoneList (emptyZones q.2) dir x = [] ↔ x ∈ q.2 := by
    intro dir x
    rw [zoneList_of rfl]
    split
    · rename_i hx
      exact iff_of_true zoneLines_addr.2.2 hx
    · rename_i hx
      rw [zoneLines_addr.2.1]
      exact iff_of_false (List.cons_ne_nil _ _) hx
  have hagree := (h (emptyZones q.2)).isSome
  rw [Bool.eq_iff_iff, loads_iff ha hona, loads_iff hb honb] at hagree
  by_contra hnone
  have hready : ∀ p ∈ countryLists a, ListReady (emptyZones q.2) a.geo.zoneDir p.2 := by
    intro p hp
    refine ⟨fun _ _ => hvalid, ?_⟩
    by_contra hall
    refine hnone ⟨p, hp, fun x hx => ?_⟩
    by_contra hxq
    exact hall ⟨x, hx, fun hempty => hxq (hlines.mp hempty)⟩
  obtain ⟨x, hx, hne⟩ := (hagree.mp hready q hq).filled
  exact hne (hlines.mpr hx)

theorem LoadAlike.symm {o o' : Option Script} (h : LoadAlike o o') : LoadAlike o' o := by
  cases h with
  | fail => exact .fail
  | fill h => exact .fill fun m k x => (h m k x).symm

/-- The loaders of two accepted configs agree when their sets are for the same countries and they read alike. -/
theorem loadersAgree_iff (ha : Checked a) (hb : Checked b) (hona : a.geo.enabled = true) (honb : b.geo.enabled = true)
    (hdir : a.geo.zoneDir = b.geo.zoneDir) : LoadersAgree a b ↔ SameMembers a b ∧ ReadAs a b := by
  refine ⟨fun h => ⟨h.members ha hb hona honb, h.reads ha hb hona honb, h.covers ha hb hona honb, ?_⟩,
    fun h => loadersAgree_of ha hb hona honb hdir h.1 h.2⟩
  have hsymm : LoadersAgree b a := fun zones => (h zones).symm
  exact hsymm.covers hb ha honb hona

/-! ## The result -/

/-- A config with a geo set for some countries. -/
def Sample.globalCountries (ccs : List String) : Config :=
  { Sample.config 1 false with geo := { enabled := true, mode := "allow", countries := ccs, zoneDir := "/zones" } }

/-- The config of `Sample.ownCountries "route_geo_0"`, with another country in the list that the route's replaces. -/
def Sample.replacedCountries : Config :=
  { Sample.ownCountries "route_geo_0" with
    geo := { enabled := true, mode := "allow", setName := "route_geo_0", countries := ["us"], zoneDir := "/zones" } }

end EvuProxy

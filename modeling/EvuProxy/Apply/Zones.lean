import EvuProxy.Apply.Live
import EvuProxy.Nft.Elements
import Mathlib.Data.List.Dedup

/-!
# Zone files and the sets they fill

`World.geoSets` are the sets of a config with the addresses that the zone files of their countries list. `applyToHost_geo` says that an Apply
loads one file, in which the loader fills these sets from the zone files as they are when it is done, each with an address at least.
-/

namespace EvuProxy

open Go Nft Fault Fault.Prog

variable {Γ : Ctx} {R : Rules (host Γ)} {w : World Γ} {c : Config}

/-- The name of a country in the path of its zone file. -/
def zoneName (cc : String) : String := toLower (trimSpace cc)

/-- The addresses that the zone files of countries list. -/
def World.listed (w : World Γ) (dir : String) (ccs : List String) : List String :=
  ccs.flatMap fun cc => match w.files (.zone dir (zoneName cc)) with | some b => zoneLines (Γ.str b) | none => []

/-- The countries of a route with a set of its own. -/
def routeCountries (r : ForwardRoute) : List String := r.geoCountries.filter fun cc => zoneName cc ≠ ""

/-- The sets of a config, with the addresses that the zone files list for them. -/
def World.geoSets (w : World Γ) (c : Config) : List (String × List String) :=
  (c.geo.effectiveSetName, w.listed c.geo.zoneDir c.geo.countries) :: (customGeoRoutes c).map fun p =>
    (routeGeoSetName p.1, ((w.listed c.geo.zoneDir (routeCountries p.2)).reverse.dedup).reverse)

/-- The loader that the zone files make. -/
def World.geoLoader (w : World Γ) (c : Config) : Script :=
  .comment "Generated by evuproxy update-geo" :: refillAll ["inet", "ip"] "evuproxy" (w.geoSets c)

/-- Every set has an address. -/
def World.Filled (w : World Γ) (c : Config) : Prop := ∀ p ∈ w.geoSets c, p.2 ≠ []

theorem geoSets_congr {w' : World Γ} (h : ∀ dir cc, w'.files (.zone dir cc) = w.files (.zone dir cc)) : w'.geoSets c = w.geoSets c := by
  unfold World.geoSets World.listed
  simp only [h]

/-! ## Reading -/

theorem stops_readZone {f : FileName} : Stops R (w = ·) (readExisting f) (fun b _ => w.files f = some b) w :=
  stops_readExisting rfl fun _ hb => hb

theorem zoneRanges_spec {dir : String} : ∀ ccs : List String,
    Stops R (w = ·) (zoneRanges dir ccs) (fun elems _ => elems = w.listed dir ccs) w
  | [] => .ret rfl rfl
  | cc :: ccs => by
    unfold zoneRanges
    refine .bind (stops_wrapErr stops_readZone) ?_
    rintro b _ rfl hb
    split
    · exact .fail rfl
    · refine .bind (zoneRanges_spec ccs) ?_
      rintro rest _ rfl rfl
      refine .ret rfl ?_
      have hcons : w.listed dir (cc :: ccs) = (match w.files (.zone dir (zoneName cc)) with
        | some b => zoneLines (Γ.str b) | none => []) ++ w.listed dir ccs := List.flatMap_cons
      rw [hcons, zoneName, hb]

theorem zoneCIDRs_spec {dir : String} : ∀ ccs : List String,
    Stops R (w = ·) (zoneCIDRs dir ccs) (fun elems _ => elems = w.listed dir (ccs.filter fun cc => zoneName cc ≠ "")) w
  | [] => .ret rfl rfl
  | cc :: ccs => by
    unfold zoneCIDRs
    refine .ite (fun hempty => ?_) fun hne => ?_
    · have hskip : ((cc :: ccs).filter fun cc => zoneName cc ≠ "") = ccs.filter fun cc => zoneName cc ≠ "" :=
        List.filter_cons_of_neg fun h => of_decide_eq_true h hempty
      rw [hskip]
      exact zoneCIDRs_spec ccs
    · have hkeep : ((cc :: ccs).filter fun cc => zoneName cc ≠ "") = cc :: ccs.filter fun cc => zoneName cc ≠ "" :=
        List.filter_cons_of_pos (decide_eq_true hne)
      rw [hkeep]
      refine .bind (P := fun _ _ => True) (stops_check rfl fun _ _ => trivial) ?_
      rintro _ _ rfl -
      refine .bind (stops_wrapErr stops_readZone) ?_
      rintro b _ rfl hb
      split
      · exact .fail rfl
      · refine .bind (zoneCIDRs_spec ccs) ?_
        rintro rest _ rfl rfl
        refine .ret rfl ?_
        have hcons : ∀ ccs, w.listed dir (cc :: ccs) = (match w.files (.zone dir (zoneName cc)) with
          | some b => zoneLines (Γ.str b) | none => []) ++ w.listed dir ccs := fun _ => List.flatMap_cons
        rw [hcons, zoneName, hb]

theorem routeGeoLoaders_spec {dir : String} : ∀ rs : List (Nat × ForwardRoute), Stops R (w = ·) (routeGeoLoaders dir rs) (fun l _ =>
    l = refillAll ["inet", "ip"] "evuproxy" (rs.map fun p =>
        (routeGeoSetName p.1, ((w.listed dir (routeCountries p.2)).reverse.dedup).reverse)) ∧
      ∀ p ∈ rs, w.listed dir (routeCountries p.2) ≠ []) w
  | [] => .ret rfl ⟨rfl, nofun⟩
  | (i, r) :: rs => by
    unfold routeGeoLoaders
    refine .bind (stops_wrapErr (zoneCIDRs_spec r.geoCountries)) ?_
    rintro elems _ rfl rfl
    refine .ite (fun _ => .fail rfl) fun hne => .bind (routeGeoLoaders_spec rs) ?_
    rintro rest _ rfl ⟨rfl, hall⟩
    refine .ret rfl ⟨rfl, fun p hp => ?_⟩
    rcases List.mem_cons.mp hp with rfl | hp
    · exact hne
    · exact hall p hp

theorem genGeoLoader_spec (c : Config) :
    Stops R (w = ·) (genGeoLoader c) (fun src _ => src = scriptText (w.geoLoader c) ∧ w.Filled c) w := by
  have hscript : Stops R (w = ·) (geoLoaderScript c) (fun l _ => l = w.geoLoader c ∧ w.Filled c) w := by
    unfold geoLoaderScript
    refine .ite (fun _ => .fail rfl) fun _ => .bind (zoneRanges_spec c.geo.countries) ?_
    rintro elems _ rfl rfl
    refine .ite (fun _ => .fail rfl) fun hne => .bind (routeGeoLoaders_spec (customGeoRoutes c)) ?_
    rintro loaders _ rfl ⟨rfl, hall⟩
    refine .ret rfl ⟨rfl, fun p hp => ?_⟩
    rcases List.mem_cons.mp hp with rfl | hp
    · exact hne
    · obtain ⟨q, hq, rfl⟩ := List.mem_map.mp hp
      intro hnil
      obtain ⟨x, hx⟩ := List.exists_mem_of_ne_nil _ (hall q hq)
      rw [List.reverse_eq_nil_iff] at hnil
      have hdedup : x ∈ (w.listed c.geo.zoneDir (routeCountries q.2)).reverse.dedup :=
        List.mem_dedup.mpr (List.mem_reverse.mpr hx)
      rw [hnil] at hdedup
      cases hdedup
  refine .bind hscript ?_
  rintro l _ rfl ⟨rfl, hfilled⟩
  exact .ret rfl ⟨rfl, hfilled⟩

/-! ## An Apply -/

/-- The file to be loaded is a ruleset and the loader that the zone files make. -/
structure GeoPrepared (c : Config) (w : World Γ) : Prop where
  file : ∃ ord rs, rulesetScript c ord [] = .ok rs ∧ w.files .applyNft = some (Γ.text (scriptText (rs ++ .blank :: w.geoLoader c)))
  filled : w.Filled c

theorem genNFTables_script {n : String} (h : (genNFTables c : App Γ String).CanReturn n) :
    ∃ ord rs, rulesetScript c ord [] = .ok rs ∧ n = scriptText rs := by
  obtain ⟨ord, -, h⟩ := canReturn_bind.1 h
  have hcheck : nftables c ord = (rulesetScript c ord []).map scriptText := rfl
  rw [hcheck] at h
  cases hrs : rulesetScript c ord [] with
  | error e =>
    rw [hrs] at h
    exact absurd h canReturn_fail
  | ok rs =>
    rw [hrs] at h
    exact ⟨ord, rs, hrs, (canReturn_ret.1 h).symm⟩

theorem genApplySrc_spec (hon : c.geo.enabled = true) (n : String) : Stops R (zonesE.Within w) (genApplySrc c n)
    (fun src w' => src = n ++ "\n" ++ scriptText (w'.geoLoader c) ∧ w'.Filled c) w := by
  unfold genApplySrc
  rw [if_neg (not_not.mpr hon)]
  refine .call (stops_wrapErr (stops_frame (uses_ensureGeoZones c _))) (fun _ h => h) fun _ w₁ h₁ _ => ?_
  refine .bind (P := fun src w' => w₁ = w' ∧ src = scriptText (w₁.geoLoader c) ∧ w₁.Filled c)
    (stops_wrapErr ((genGeoLoader_spec c).mono (fun w' (hw : w₁ = w') => hw ▸ h₁) fun _ _ hw h => ⟨hw, h⟩)) ?_
  rintro src _ - ⟨rfl, rfl, hfilled⟩
  have hset : (World.set w₁ .geoLoader (some (Γ.text (scriptText (World.geoLoader w₁ c))))).geoSets c = World.geoSets w₁ c :=
    geoSets_congr fun dir cc => by simp
  refine .bind (P := fun _ (w' : World Γ) => w'.geoSets c = World.geoSets w₁ c)
    (stops_wrapErr (stops_writeFile h₁ (h₁.trans (within_set (.inl rfl))) hset)) fun _ w₃ h₃ heq => .ret h₃ ?_
  unfold World.geoLoader World.Filled
  rw [heq]
  exact ⟨rfl, hfilled⟩

theorem prepareApply_geo (hon : c.geo.enabled = true) :
    Stops R (generatesE.Within w) (prepareApply c) (fun _ w' => GeoPrepared c w') w := by
  refine .call (stops_frame (E := readsE) (uses_mkdirAll _)) (fun _ h => h.mono readsE_le) fun _ w₁ h₁ _ => ?_
  refine .call (stops_frame (E := readsE) (uses_genNFTables c)) (fun _ h => (h₁.trans h).mono readsE_le) fun n w₂ h₂ hn => ?_
  have h₂ : generatesE.Within w w₂ := (h₁.trans h₂).mono readsE_le
  obtain ⟨ord, rs, hrs, rfl⟩ := genNFTables_script hn
  refine .bind (P := fun _ _ => True) (stops_wrapErr (stops_writeFile h₂ (h₂.trans (within_set rfl)) trivial)) fun _ w₃ h₃ _ => ?_
  refine .call (stops_frame (E := readsE) (uses_genWireGuardConf c)) (fun _ h => h₃.trans (h.mono readsE_le)) fun s w₄ h₄ _ => ?_
  have h₄ := h₃.trans (h₄.mono readsE_le)
  refine .call (stops_wrapErr (stops_frame (E := readsE) (uses_mkdirAll _))) (fun _ h => h₄.trans (h.mono readsE_le)) fun _ w₅ h₅ _ => ?_
  have h₅ := h₄.trans (h₅.mono readsE_le)
  refine .bind (P := fun _ _ => True) (stops_wrapErr (stops_writeFile h₅ (h₅.trans (within_set rfl)) trivial)) fun _ w₆ h₆ _ => ?_
  refine .call (genApplySrc_spec hon _) (fun _ h => h₆.trans (h.mono zonesE_le)) fun src w₇ h₇ hsrc => ?_
  have h₇ := h₆.trans (h₇.mono zonesE_le)
  obtain ⟨rfl, hfilled⟩ := hsrc
  have hset : ∀ b, (World.set w₇ .applyNft b).geoSets c = World.geoSets w₇ c := fun b => geoSets_congr fun dir cc => by simp
  refine stops_wrapErr (stops_writeFile h₇ (h₇.trans (within_set rfl)) ⟨⟨ord, rs, hrs, ?_⟩, fun p hp => hfilled p (hset _ ▸ hp)⟩)
  have hloader : ∀ b, (World.set w₇ .applyNft b).geoLoader c = World.geoLoader w₇ c := fun b => by
    rw [World.geoLoader, World.geoLoader, hset]
  have hblank : Command.text .blank = "\n" := rfl
  rw [hloader, scriptText_append, scriptText_cons, hblank, ← String.append_assoc, set_files, if_pos rfl]

/-- What an Apply with geo on has loaded: nothing, or a ruleset with the loader of its sets. -/
def GeoLoaded (c : Config) (w w' : World Γ) : Prop :=
  w'.nft = w.nft ∨ w'.Filled c ∧ ∃ ord rs, rulesetScript c ord [] = .ok rs ∧
    w'.nft = Γ.text (scriptText (rs ++ .blank :: w'.geoLoader c)) :: w.nft

theorem applyToHost_geo (hon : c.geo.enabled = true) : Stops R (GeoLoaded c w) (applyToHost c) (fun _ _ => True) w := by
  have hprep : wp (R.withCrash (GeoLoaded c w)) (prepareApply c) (fun r w' => (r = .ok () → Prepared c w') ∧
      generatesE.Within w w' ∧ ∀ a, r = .ok a → GeoPrepared c w') w := by
    refine wp_mono ?_ ?_ ?_ (wp_and (prepareApply_spec (R := R) (w := w) c) (prepareApply_geo (R := R) (w := w) hon).wp)
    · exact fun _ _ _ h => ⟨h, h⟩
    · exact fun w' h => .inl (h.2.nft id)
    · exact fun _ _ h => ⟨h.1.2, h.2⟩
  refine .of_wp <| wp_bind.2 (wp_post ?_ hprep)
  rintro (e | ⟨⟩) w₁ ⟨hp, h₁, hgeo⟩
  · exact ⟨.inl (h₁.nft id), nofun⟩
  have hp := hp rfl
  obtain ⟨⟨ord, rs, hrs, hfile⟩, hfilled⟩ := hgeo () rfl
  have hsame : ∀ {w'}, (∀ dir cc, w'.files (.zone dir cc) = w₁.files (.zone dir cc)) →
      (w'.nft = w₁.nft ∨ ∃ b, w₁.files .applyNft = some b ∧ w'.nft = b :: w₁.nft) → GeoLoaded c w w' := by
    intro w' hzones hnft
    rcases hnft with hnft | ⟨b, hb, hnft⟩
    · exact .inl (hnft.trans (h₁.nft id))
    · have hsets := geoSets_congr (c := c) hzones
      refine .inr ⟨fun p hp => hfilled p (hsets ▸ hp), ord, rs, hrs, ?_⟩
      rw [World.geoLoader, hsets, hnft, h₁.nft id, ← Option.some.inj (hfile.symm.trans hb)]
      rfl
  have hloading : ∀ w', Loading w₁ w' → GeoLoaded c w w' := fun w' h => hsame (fun _ _ => h.within.files _ (by simp [loadsE])) h.nft
  refine wp_bind.2 (wp_mono (R := R.withCrash (Loading w₁)) (fun _ _ _ h => h) hloading ?_ (loadFirewall_spec c hp))
  rintro (e | ⟨⟩) w₂ ⟨h₂, -⟩
  · exact ⟨hloading _ h₂, nofun⟩
  obtain ⟨s, hs, hc⟩ := hp.tunnel
  have htunnel : ∀ w', Tunnelling c w₂ w' → GeoLoaded c w w' := fun w' h =>
    hsame (fun _ _ => (h.within.files _ (by simp [tunnelsE])).trans (h₂.within.files _ (by simp [loadsE]))) (by rw [h.nft]; exact h₂.nft)
  refine wp_mono (R := R.withCrash (Tunnelling c w₂)) (fun _ _ _ h => h) htunnel (fun r w₃ h => ⟨htunnel _ h.1, fun _ _ => trivial⟩)
    (reloadWireGuard_spec c ⟨s, hs, (h₂.within.files _ (by simp [loadsE])).trans hc⟩)

end EvuProxy

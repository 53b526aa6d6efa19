import EvuProxy.Apply.Operations
import EvuProxy.Apply.Pending
import EvuProxy.Apply.Sample
import EvuProxy.Gen.Sets
import EvuProxy.Nft.Text

/-!
# When a config has one rendering

`NFTables` walks two Go maps: the routes with a SYN limit of their own, and those with a UDP limit. The order of a walk is the order
of the sets in the text, so a config has one rendering exactly when neither map has two keys.
-/

namespace EvuProxy

open Go Nft Fault Fault.Prog

variable {c : Config} {ord ord' : MapOrder}

/-! ## The text around the sets of the rate limits -/

/-- The sets of the filter table before those of the rate limits. -/
def sourceSets (c : Config) : List SetDecl :=
  (if c.geo.enabled then [geoSetDecl c.geo.effectiveSetName] else []) ++
    (if c.crowdSecEnabled then [crowdsecSetDecl] else []) ++
    sourceSet setBreakGlass c.geo.breakGlassCIDRs ++ sourceSet setGlobalDeny c.forwarding.sourceDenyCIDRs ++
    ((activeRoutes c).flatMap fun p => sourceSet (routeSrcSetName p.1) p.2.sourceAllowCIDRs) ++
    ((activeRoutes c).flatMap fun p => sourceSet (routeDenySetName p.1) p.2.sourceDenyCIDRs) ++
    writeRouteCustomGeoSets c

theorem tableSets_filter : tableSets c ord true = sourceSets c ++ rateLimitSets c ord := by
  simp [tableSets, sourceSets]

theorem tableSets_nat : tableSets c ord false = tableSets c ord' false := by
  simp [tableSets]

/-- The text before the sets of the rate limits. -/
def textBefore (c : Config) : String :=
  scriptText [.comment "Generated by evuproxy — do not edit. Regenerate with: evuproxy reload", .blank,
    .addTable "inet" "evuproxy", .deleteTable "inet" "evuproxy"] ++
    ("table inet evuproxy \x7b\n" ++ setsText (sourceSets c))

/-- The text after them. -/
def textAfter (c : Config) (routes : List RoutePolicy) (allows : List Rule) : String :=
  join ([inputChain c routes allows, forwardChain c routes].map Chain.text) "\n" ++ "\x7d\n" ++
    scriptText ([.blank, .addTable "ip" "evuproxy", .deleteTable "ip" "evuproxy",
      .table (natTable c (tableSets c {} false) routes [])] ++
        writeRouteAcceptedTable c.network.publicInterface c.wireGuard.interface routes)

theorem filterTable_text (routes : List RoutePolicy) (allows : List Rule) :
    (filterTable c (tableSets c ord true) routes allows).text = "table inet evuproxy \x7b\n" ++ setsText (sourceSets c) ++
      (setsText (rateLimitSets c ord) ++
        (join ([inputChain c routes allows, forwardChain c routes].map Chain.text) "\n" ++ "\x7d\n")) := by
  have htext : (filterTable c (tableSets c ord true) routes allows).text = "table " ++ "inet" ++ " " ++ "evuproxy" ++ " \x7b\n" ++
      setsText (tableSets c ord true) ++ join ([inputChain c routes allows, forwardChain c routes].map Chain.text) "\n" ++ "\x7d\n" := rfl
  have hname : "table " ++ "inet" ++ " " ++ "evuproxy" ++ " \x7b\n" = "table inet evuproxy \x7b\n" := by decide
  rw [htext, hname, tableSets_filter, setsText_append]
  simp only [String.append_assoc]

/-- The sets of the rate limits are the one part of the text that the order has a say in. -/
theorem text_rulesetOf (routes : List RoutePolicy) (allows : List Rule) : scriptText (rulesetOf c ord [] routes allows) =
    textBefore c ++ (setsText (rateLimitSets c ord) ++ textAfter c routes allows) := by
  have hnat : tableSets c ord false = tableSets c {} false := tableSets_nat
  have hsplit : rulesetOf c ord [] routes allows =
      [.comment "Generated by evuproxy — do not edit. Regenerate with: evuproxy reload", .blank,
        .addTable "inet" "evuproxy", .deleteTable "inet" "evuproxy"] ++
      (.table (filterTable c (tableSets c ord true) routes allows) ::
        ([.blank, .addTable "ip" "evuproxy", .deleteTable "ip" "evuproxy", .table (natTable c (tableSets c {} false) routes [])] ++
          writeRouteAcceptedTable c.network.publicInterface c.wireGuard.interface routes)) := by
    rw [← hnat]
    rfl
  have htable : (Command.table (filterTable c (tableSets c ord true) routes allows)).text =
      (filterTable c (tableSets c ord true) routes allows).text := rfl
  rw [hsplit, scriptText_append, scriptText_cons (.table _), htable, filterTable_text]
  unfold textBefore textAfter
  simp only [String.append_assoc]

theorem Checked.nftables (h : Checked c) : nftables c ord = (do
    let routes ← EvuProxy.routePolicies c
    let allows ← inputAllowRules c c.inputAllows
    return textBefore c ++ (setsText (rateLimitSets c ord) ++ textAfter c routes allows)) := by
  unfold EvuProxy.nftables
  rw [h.rulesetScript]
  cases EvuProxy.routePolicies c with
  | error e => rfl
  | ok routes =>
    cases inputAllowRules c c.inputAllows with
    | error e => rfl
    | ok allows => exact congrArg Except.ok (text_rulesetOf routes allows)

/-! ## The order of the walks -/

/-- No two routes that are on have a limit of their own. -/
def OwnLimitAlone (c : Config) (limit : RateLimit → Nat) : Prop := ∀ i ∈ ownLimits c limit, ∀ j ∈ ownLimits c limit, i = j

instance (limit : RateLimit → Nat) : Decidable (OwnLimitAlone c limit) := inferInstanceAs (Decidable (∀ i ∈ _, ∀ j ∈ _, i = j))

/-- A walk over at most one key goes one way. -/
theorem walkKeys_alone {keys : List Nat} (hnodup : keys.Nodup) (h : ∀ i ∈ keys, ∀ j ∈ keys, i = j) (order : List Nat) :
    walkKeys keys order = keys := by
  have hperm := walkKeys_perm hnodup order
  match keys, hnodup, h with
  | [], _, _ => exact List.perm_nil.mp hperm
  | [k], _, _ => exact List.perm_singleton.mp hperm
  | k :: l :: ks, hnodup, h =>
    have hkl : k = l := h k (by simp) l (by simp)
    exact absurd List.mem_cons_self (hkl ▸ (List.nodup_cons.mp hnodup).1)

/-- Any key can come first. -/
theorem walkKeys_first {keys : List Nat} {k : Nat} (hk : k ∈ keys) : walkKeys keys [k] = k :: keys.filter (· ≠ k) := by
  unfold walkKeys
  rw [List.dedup_eq_self.mpr (List.nodup_singleton k), List.filter_cons_of_pos (by simpa using hk), List.filter_nil]
  simp

/-- The texts of two sets that are named by a number differ as soon as the numbers do. -/
theorem rateSetDecl_text_inj {pre : String} {name : Nat → String} (hname : ∀ i, name i = pre ++ toString i) {i j : Nat} {t u : String}
    (h : (rateSetDecl (name i)).text ++ t = (rateSetDecl (name j)).text ++ u) : i = j := by
  have htext : ∀ (k : Nat) (v : String), (rateSetDecl (name k)).text ++ v = "    set " ++ pre ++ (toString k ++
      (" " ++ ("\x7b\n        type ipv4_addr\n        flags " ++ "dynamic" ++ "\n" ++ "" ++ ("        timeout " ++ "2s" ++ "\n") ++
        "" ++ "    \x7d\n\n" ++ v))) := by
    intro k v
    unfold rateSetDecl SetDecl.text
    rw [hname]
    have hopen : " \x7b\n        type ipv4_addr\n        flags " = " " ++ "\x7b\n        type ipv4_addr\n        flags " := by decide
    simp only [hopen, String.append_assoc]
    rfl
  rw [htext, htext] at h
  exact numeral_space_inj (append_left_inj h)

/-- Two walks that start at different routes give different texts. -/
theorem setsText_walk_ne {pre : String} {name : Nat → String} (hname : ∀ i, name i = pre ++ toString i) {keys : List Nat} {i j : Nat}
    (hi : i ∈ keys) (hj : j ∈ keys) (hij : i ≠ j) (t u : String) :
    setsText ((walkKeys keys [i]).map fun k => rateSetDecl (name k)) ++ t ≠
      setsText ((walkKeys keys [j]).map fun k => rateSetDecl (name k)) ++ u := by
  intro h
  rw [walkKeys_first hi, walkKeys_first hj, List.map_cons, List.map_cons, setsText_cons, setsText_cons, String.append_assoc,
    String.append_assoc] at h
  exact hij (rateSetDecl_text_inj hname h)

/-! ## One rendering -/

/-- A config has one rendering: whatever order its maps are walked in, the text is the same, `SyncPausedRoutes` takes a file with
any of its renderings for its ruleset, and the pending view shows no difference from such a file. -/
structure RendersOnce (c : Config) : Prop where
  same : ∀ ord ord', nftables c ord = nftables c ord'
  recognised : ∀ (Γ : Ctx) (w : World Γ) ord t update (script : List (Choice Γ)), nftables c ord = .ok t →
    w.files .nftables = some (Γ.text t) → (∀ ch ∈ script, ch.fate = .ok) →
      ∃ w', (host Γ).run (loadPausedRoutes c update) script w = .done (.ok ()) w'
  pending : ∀ (Γ : Ctx) (w w' : World Γ) b ord t (script : List (Choice Γ)) info, w.files .config = some b →
    parseConfig Γ b = .ok c → nftables c ord = .ok t → w.files .nftables = some (Γ.text t) → (∀ ch ∈ script, ch.fate = .ok) →
      (host Γ).run pendingSummary script w = .done (.ok info) w' → info.nftables = info.nftablesBaseline

/-- No two routes that are on have a SYN limit of their own, and no two a UDP limit. -/
def OwnLimitsAlone (c : Config) : Prop := OwnLimitAlone c (·.tcpSynPerSecond) ∧ OwnLimitAlone c (·.udpPerSecond)

instance : Decidable (OwnLimitsAlone c) := inferInstanceAs (Decidable (_ ∧ _))

theorem nftables_same (h : Checked c) (hown : OwnLimitsAlone c) : nftables c ord = nftables c ord' := by
  have hsets : rateLimitSets c ord = rateLimitSets c ord' := by
    simp only [rateLimitSets_eq, walkKeys_alone (nodup_ownLimits c _) hown.1, walkKeys_alone (nodup_ownLimits c _) hown.2]
  rw [h.nftables, h.nftables, hsets]

/-- A config that does not render gives the same error in every order. -/
theorem nftables_same_of_error (h : Checked c) (hinput : ¬InputProtosKnown c) : nftables c ord = nftables c ord' := by
  have hallows : ∀ allows, inputAllowRules c c.inputAllows ≠ .ok allows :=
    fun allows hok => hinput ((inputAllowRules_ok h.inputAllows).mp ⟨allows, hok⟩)
  rw [h.nftables, h.nftables]
  cases hok : inputAllowRules c c.inputAllows with
  | error e => rfl
  | ok allows => exact absurd hok (hallows allows)

/-- Two routes with a limit of their own: the walks that start at one and at the other give different texts. -/
theorem nftables_ne (h : Checked c) (hinput : InputProtosKnown c) (hown : ¬OwnLimitsAlone c) :
    ∃ ord ord', nftables c ord ≠ nftables c ord' := by
  obtain ⟨routes, hroutes⟩ := h.routePolicies
  obtain ⟨allows, hallows⟩ := (inputAllowRules_ok h.inputAllows).mpr hinput
  have htext : ∀ ord, nftables c ord = .ok (textBefore c ++ (setsText (globalLimitSets c) ++
      (setsText ((walkKeys (ownLimits c (·.tcpSynPerSecond)) ord.syn).map fun i => rateSetDecl (rateLimitSynSetRoute i)) ++
        (setsText ((walkKeys (ownLimits c (·.udpPerSecond)) ord.udp).map fun i => rateSetDecl (rateLimitUDPSetRoute i)) ++
          (setsText (connLimitSets c) ++ textAfter c routes allows))))) := by
    intro ord
    rw [h.nftables, hroutes, hallows, rateLimitSets_eq]
    simp only [setsText_append, String.append_assoc]
    rfl
  rcases not_and_or.mp hown with hsyn | hudp
  · unfold OwnLimitAlone at hsyn
    push Not at hsyn
    obtain ⟨i, hi, j, hj, hij⟩ := hsyn
    refine ⟨{ syn := [i] }, { syn := [j] }, fun heq => ?_⟩
    rw [htext, htext] at heq
    exact setsText_walk_ne (fun _ => rfl) hi hj hij _ _ (append_left_inj (append_left_inj (Except.ok.inj heq)))
  · unfold OwnLimitAlone at hudp
    push Not at hudp
    obtain ⟨i, hi, j, hj, hij⟩ := hudp
    refine ⟨{ udp := [i] }, { udp := [j] }, fun heq => ?_⟩
    rw [htext, htext] at heq
    exact setsText_walk_ne (fun _ => rfl) hi hj hij _ _ (append_left_inj (append_left_inj (append_left_inj (Except.ok.inj heq))))

section Runs

variable {Γ : Ctx} {w : World Γ} {I : World Γ → Prop}

/-- The rules of a run in which no command fails; `I` would have to hold where the program is killed, which never happens. -/
def faultless (I : World Γ → Prop) : Rules (host Γ) := (choiceRules fun ch => ch.fate = .ok).withCrash I

theorem run_faultless {α : Type} {p : App Γ α} {Q : Except Err α → World Γ → Prop} {script : List (Choice Γ)}
    (h : wp (faultless I) p Q w) (hscript : ∀ ch ∈ script, ch.fate = .ok) : ((host Γ).run p script w).Sat I Q :=
  run_sat h (allowed_choiceRules (P := fun ch => ch.fate = .ok) rfl hscript).withCrash

theorem not_mayKill_faultless {c : Cmd Γ} : ¬MayKill (faultless I) c w := by
  rintro ⟨ch, hok, hkill⟩
  exact absurd (hok.symm.trans hkill) (by decide)

theorem not_mayFail_faultless {c : Cmd Γ} : ¬MayFail (faultless I) c w := by
  rintro ⟨ch, hok, hfail⟩
  exact absurd (hok.symm.trans hfail) (by decide)

/-- A rendering that finishes gives the one text there is. -/
theorem wp_genNFTables {t : String} {Q : Except Err String → World Γ → Prop} (hone : ∀ ord, nftables c ord = .ok t)
    (hQ : Q (.ok t) w) : wp (faultless I) (genNFTables c) Q w := by
  refine wp_bind.2 (wp_run (fun ch hch hf => absurd ⟨ch, hch, hf⟩ not_mayKill_faultless)
    (fun ch hch hf => absurd ⟨ch, hch, hf⟩ not_mayFail_faultless) fun ch _ => ?_)
  refine wp_check (fun e he => ?_) fun a ha => ?_
  · rw [hone] at he
    cases he
  · rw [hone] at ha
    cases ha
    exact hQ

theorem loadPausedRoutes_recognises {t update : String} (hone : ∀ ord, nftables c ord = .ok t)
    (hfile : w.files .nftables = some (Γ.text t)) :
    wp (faultless I) (loadPausedRoutes c update) (fun r _ => r = .ok ()) w := by
  refine wp_bind.2 (wp_genNFTables hone ?_)
  refine wp_bind.2 (wp_attempt.2 (wp_readFile (fun hk => absurd hk not_mayKill_faultless)
    (fun hf => absurd hf not_mayFail_faultless) ?_))
  rw [hfile]
  refine wp_ite (fun hne => absurd (Γ.str_text t) hne) fun _ => ?_
  refine wp_bind.2 (wp_mapErr.2 (wp_writeFile (fun hk => absurd hk not_mayKill_faultless)
    (fun hf => absurd hf not_mayFail_faultless) ?_))
  have hwritten : ((w.set .pausedRoutes (some (Γ.text update))).files .pausedRoutes) = some (Γ.text update) := by simp
  refine wp_bind.2 (wp_mapErr.2 (wp_run (fun ch hch hf => absurd ⟨ch, hch, hf⟩ not_mayKill_faultless)
    (fun ch hch hf => absurd ⟨ch, hch, hf⟩ not_mayFail_faultless) fun ch _ => ?_))
  simp only [respond, effect, hwritten, Option.isSome_some, if_true]
  exact wp_mapErr.2 (wp_nftLoad hwritten (fun hk => absurd hk not_mayKill_faultless)
    (fun hf => absurd hf not_mayFail_faultless) (fun hf => absurd hf not_mayFail_faultless) rfl)

theorem pendingSummary_shows {t : String} {b : Γ.Bytes} (hone : ∀ ord, nftables c ord = .ok t) (hconfig : w.files .config = some b)
    (hparse : parseConfig Γ b = .ok c) (hfile : w.files .nftables = some (Γ.text t)) :
    wp (faultless fun _ => True) pendingSummary (fun r _ => ∀ info, r = .ok info → info.nftables = info.nftablesBaseline) w := by
  refine wp_bind.2 (wp_bind.2 (wp_readExisting (fun _ => trivial) (fun _ _ _ => nofun) fun _ _ => wp_of_ret ?_))
  refine wp_bind.2 (wp_readAppliedHash trivial (fun _ _ _ => nofun) fun _ _ => ?_)
  refine wp_bind.2 (wp_loadConfig trivial (fun _ _ _ => nofun) fun b' c' hb' hc' => ?_)
  obtain rfl : b = b' := Option.some.inj (hconfig.symm.trans hb')
  obtain rfl : c = c' := Except.ok.inj (hparse.symm.trans hc')
  refine wp_bind.2 (wp_genNFTables hone ?_)
  refine wp_bind.2 (wp_attempt.2 (wp_readFile (fun _ => trivial) (fun hf => absurd hf not_mayFail_faultless) ?_))
  rw [hfile]
  refine wp_of_ret fun info hinfo => ?_
  cases hinfo
  exact (Γ.str_text t).symm

end Runs

/-- A config with two routes, each with a SYN limit of its own. -/
def Sample.twoLimits : Config :=
  { Sample.config 1 false with forwarding := { routes :=
    [{ proto := "tcp", ports := ["80"], targetIP := "10.0.0.2", rateLimit := { tcpSynPerSecond := 10 } },
      { proto := "tcp", ports := ["443"], targetIP := "10.0.0.2", rateLimit := { tcpSynPerSecond := 20 } }] } }

end EvuProxy

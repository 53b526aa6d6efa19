import EvuProxy.Config.Validate

/-!
# What an accepted config satisfies

`Validate` is a chain of checks of which the first error ends the chain. Here is what each of them leaves behind when it passes, so
that nothing below has to unfold it again.
-/

namespace EvuProxy

open Go

variable {ε α β : Type}

/-- A chain that ends well went well at its first step and from there on. -/
theorem bind_ok {x : Except ε α} {f : α → Except ε β} {b : β} : (x >>= f) = .ok b ↔ ∃ a, x = .ok a ∧ f a = .ok b := by
  cases x with
  | error e => exact ⟨nofun, fun ⟨_, h, _⟩ => nomatch h⟩
  | ok a => exact ⟨fun h => ⟨a, rfl, h⟩, fun ⟨_, h, hf⟩ => by cases h; exact hf⟩

theorem seq_ok {x : Except ε Unit} {y : Except ε β} {b : β} : (x >>= fun _ => y) = .ok b ↔ x = .ok () ∧ y = .ok b := by
  rw [bind_ok]
  exact ⟨fun ⟨_, hx, hy⟩ => ⟨hx, hy⟩, fun ⟨hx, hy⟩ => ⟨(), hx, hy⟩⟩

theorem wrapf_ok {pre : String} {x : Except ValidationError α} {a : α} : wrapf pre x = .ok a ↔ x = .ok a := by
  cases x <;> simp [wrapf]

theorem errorf_ne_ok {msg : String} {a : α} : errorf msg ≠ .ok a := nofun

/-- A check that is skipped under a condition. -/
theorem ite_errorf_ok {p : Prop} [Decidable p] {e : ValidationError} {y : Except ValidationError α} {a : α} :
    (if p then .error e else y) = .ok a ↔ ¬p ∧ y = .ok a := by
  by_cases hp : p <;> simp [hp]

theorem forIdx_ok_zero {f : Nat → α → Except ε Unit} {as : List α} :
    forIdx f 0 as = .ok () ↔ ∀ j (h : j < as.length), f j as[j] = .ok () := by
  rw [forIdx_ok]
  simp only [Nat.zero_add]

/-- A loop whose check does not look at the index. -/
theorem forIdx_ok_mem {f : α → Except ε Unit} {as : List α} :
    forIdx (fun _ => f) 0 as = .ok () ↔ ∀ a ∈ as, f a = .ok () := by
  rw [forIdx_ok_zero, List.forall_mem_iff_forall_getElem]

/-! ## Port maps -/

/-- What each row of `port_maps` has passed. -/
structure PortMapChecked (m : PortMap) : Prop where
  pub : trimSpace m.pub ≠ ""
  internal : trimSpace m.internal ≠ ""
  pair : validatePortMapPair (trimSpace m.pub) (trimSpace m.internal) = .ok ()

theorem validatePortMapRows_ok {i : Nat} : ∀ {ms : List PortMap} {j : Nat} {seen : List String},
    validatePortMapRows i j seen ms = .ok () → ∀ m ∈ ms, PortMapChecked m
  | [], _, _, _, _, hm => (nomatch hm)
  | m :: ms, j, seen, h, m', hm => by
    unfold validatePortMapRows at h
    simp only at h
    obtain ⟨hne, h⟩ := ite_errorf_ok.mp h
    split at h
    · cases h
    · rename_i hpair
      obtain ⟨_, h⟩ := ite_errorf_ok.mp h
      rcases List.mem_cons.mp hm with rfl | hm
      · exact ⟨fun he => hne (.inl he), fun he => hne (.inr he), hpair⟩
      · exact validatePortMapRows_ok h m' hm

/-- The public expressions of the rows differ from each other. -/
theorem validatePortMapRows_nodup {i : Nat} : ∀ {ms : List PortMap} {j : Nat} {seen : List String},
    validatePortMapRows i j seen ms = .ok () →
      (∀ m ∈ ms, trimSpace m.pub ∉ seen) ∧ (ms.map fun m => trimSpace m.pub).Nodup
  | [], _, _, _ => ⟨fun _ hm => (nomatch hm), List.nodup_nil⟩
  | m :: ms, j, seen, h => by
    unfold validatePortMapRows at h
    simp only at h
    obtain ⟨_, h⟩ := ite_errorf_ok.mp h
    split at h
    · cases h
    · obtain ⟨hseen, h⟩ := ite_errorf_ok.mp h
      obtain ⟨hnot, hnodup⟩ := validatePortMapRows_nodup h
      refine ⟨fun m' hm' => ?_, ?_⟩
      · rcases List.mem_cons.mp hm' with rfl | hm'
        · exact hseen
        · exact fun hs => hnot m' hm' (List.mem_append_left _ hs)
      · rw [List.map_cons, List.nodup_cons]
        refine ⟨fun hmem => ?_, hnodup⟩
        obtain ⟨m', hm', heq⟩ := List.mem_map.mp hmem
        exact hnot m' hm' (heq ▸ List.mem_append_right _ (List.mem_singleton_self _))

/-- What `port_maps` has passed as a whole. -/
structure PortMapsChecked (ports : List String) (maps : List PortMap) : Prop where
  rows : ∀ m ∈ maps, PortMapChecked m
  nodup : (maps.map fun m => trimSpace m.pub).Nodup
  entries : ∀ m ∈ maps, trimSpace m.pub ∈ normalizedPortTokens ports

theorem validatePortMaps_ok {i : Nat} {ports : List String} {maps : List PortMap}
    (h : validatePortMaps i ports maps = .ok ()) : PortMapsChecked ports maps := by
  unfold validatePortMaps at h
  by_cases hnil : maps = []
  · subst hnil
    exact ⟨fun _ hm => (nomatch hm), List.nodup_nil, fun _ hm => (nomatch hm)⟩
  · rw [if_neg hnil] at h
    obtain ⟨_, h⟩ := ite_errorf_ok.mp h
    obtain ⟨hrows, h⟩ := seq_ok.mp h
    obtain ⟨_, h⟩ := ite_errorf_ok.mp h
    refine ⟨validatePortMapRows_ok hrows, (validatePortMapRows_nodup hrows).2, fun m hm => ?_⟩
    have hmem := forIdx_ok_mem.mp h m hm
    by_contra hnot
    rw [if_neg hnot] at hmem
    cases hmem

/-- A row that maps to a range of ports maps a range of ports of the same width. -/
theorem PortMapChecked.range {m : PortMap} (h : PortMapChecked m) (hdash : containsChar (trimSpace m.internal) '-')
    (hbrace : ¬containsChar (trimSpace m.internal) '{') :
    ∃ ps qs, expandPortToken (trimSpace m.pub) = .ok ps ∧ expandPortToken (trimSpace m.internal) = .ok qs ∧
      ps.length = qs.length := by
  have hp := h.pair
  unfold validatePortMapPair at hp
  obtain ⟨_, hp⟩ := ite_errorf_ok.mp hp
  split at hp
  · obtain ⟨_, hp⟩ := ite_errorf_ok.mp hp
    obtain ⟨ps, hps, hp⟩ := bind_ok.mp hp
    obtain ⟨qs, hqs, hp⟩ := bind_ok.mp hp
    refine ⟨ps, qs, hps, hqs, ?_⟩
    by_contra hne
    rw [if_pos hne] at hp
    cases hp
  · rw [if_pos ⟨hdash, hbrace⟩] at hp
    cases hp

/-- No row maps to a list in braces. -/
theorem PortMapChecked.noBrace {m : PortMap} (h : PortMapChecked m) :
    ¬hasPrefix (trimSpace (trimSpace m.internal)) "\x7b" ∨ ¬containsChar (trimSpace m.internal) '{' := by
  have hp := h.pair
  unfold validatePortMapPair at hp
  obtain ⟨_, hp⟩ := ite_errorf_ok.mp hp
  by_cases hpub : containsChar (trimSpace m.pub) '-' ∧ ¬containsChar (trimSpace m.pub) '{'
  · rw [if_pos hpub] at hp
    obtain ⟨hint, _⟩ := ite_errorf_ok.mp hp
    exact .inr fun hb => hint (.inr hb)
  · rw [if_neg hpub] at hp
    obtain ⟨_, hp⟩ := ite_errorf_ok.mp hp
    by_cases hbrace : hasPrefix (trimSpace (trimSpace m.pub)) "\x7b" = true
    · rw [if_pos hbrace] at hp
      obtain ⟨_, _, hp⟩ := bind_ok.mp hp
      exact .inl (ite_errorf_ok.mp hp).1
    · rw [if_neg hbrace] at hp
      obtain ⟨_, _, hp⟩ := bind_ok.mp hp
      exact .inl (ite_errorf_ok.mp hp).1

/-! ## Routes -/

/-- What a route that is on has passed. -/
structure RouteChecked (c : Config) (i : Nat) (r : ForwardRoute) : Prop where
  protos : ∃ ps, parseRouteProtocols r.proto = .ok ps
  ports : normalizedPortTokens r.ports ≠ []
  ip : (parseIP (trimSpace r.targetIP)).isSome
  target : trimSpace r.targetIP ∈ allowedTargets c
  allow : validateSourceAllowCIDRs i r.sourceAllowCIDRs = .ok ()
  deny : validateSourceDenyCIDRs (some i) r.sourceDenyCIDRs = .ok ()
  maps : PortMapsChecked r.ports r.portMaps
  geoMode : validateRouteGeoMode i r = .ok ()
  rate : validateRateLimit (routePath i ++ ".rate_limit") r.rateLimit = .ok ()

theorem validateActiveRoute_ok {c : Config} {i : Nat} {r : ForwardRoute} (h : validateActiveRoute c i r = .ok ()) :
    RouteChecked c i r := by
  unfold validateActiveRoute at h
  obtain ⟨ps, hps, h⟩ := bind_ok.mp h
  obtain ⟨_, h⟩ := ite_errorf_ok.mp h
  obtain ⟨hports, h⟩ := ite_errorf_ok.mp h
  obtain ⟨hip, h⟩ := ite_errorf_ok.mp h
  obtain ⟨htarget, h⟩ := ite_errorf_ok.mp h
  obtain ⟨hallow, h⟩ := seq_ok.mp h
  obtain ⟨hdeny, h⟩ := seq_ok.mp h
  obtain ⟨hmaps, h⟩ := seq_ok.mp h
  obtain ⟨hgeo, hrate⟩ := seq_ok.mp h
  exact ⟨⟨ps, wrapf_ok.mp hps⟩, hports, Option.isSome_iff_ne_none.mpr (by simpa using hip), not_not.mp htarget, hallow, hdeny, validatePortMaps_ok hmaps, hgeo, hrate⟩

/-- Every route that is on has claimed its ports. -/
theorem validateForwardingRoutePortOverlaps_claims : ∀ {i : Nat} {rs : List ForwardRoute} {claimed : List (ProtoPort × Nat)},
    validateForwardingRoutePortOverlaps i rs claimed = .ok () →
      ∀ j r, rs[j]? = some r → r.disabled = false → ∃ ks, routeClaims (i + j) r = .ok ks
  | _, [], _, _, _, _, hr, _ => (nomatch hr)
  | i, r :: rs, claimed, h, j, r', hr, hd => by
    unfold validateForwardingRoutePortOverlaps at h
    cases j with
    | zero =>
      obtain rfl := Option.some.inj hr
      rw [hd] at h
      obtain ⟨ks, hks, _⟩ := bind_ok.mp h
      exact ⟨ks, hks⟩
    | succ j =>
      have hrest : ∃ claimed', validateForwardingRoutePortOverlaps (i + 1) rs claimed' = .ok () := by
        split at h
        · exact ⟨claimed, h⟩
        · obtain ⟨_, _, h⟩ := bind_ok.mp h
          obtain ⟨claimed', _, h⟩ := bind_ok.mp h
          exact ⟨claimed', h⟩
      obtain ⟨claimed', hrest⟩ := hrest
      have hclaims := validateForwardingRoutePortOverlaps_claims hrest j r' hr hd
      rwa [Nat.add_assoc, Nat.add_comm 1 j] at hclaims

/-! ## The whole config -/

/-- What an accepted config has passed. -/
structure Checked (c : Config) : Prop where
  wgInterface : validLinuxIface c.wireGuard.interface = .ok ()
  listenPort : 0 < c.wireGuard.listenPort ∧ c.wireGuard.listenPort ≤ 65535
  publicInterface : validLinuxIface c.network.publicInterface = .ok ()
  inputAllows : ∀ a ∈ c.inputAllows, a.disabled = false → validateInputAllowDport a.dport = .ok ()
  adminPorts : ∀ p ∈ c.network.adminTCPPorts, 0 < p ∧ p ≤ 65535
  extraLocal : ∀ s ∈ c.network.forwardExtraLocalCIDRs, trimSpace s ≠ "" ∧
    ∃ p, parseCIDR (trimSpace s) = some p ∧ p.1.to4.isSome
  sourceDeny : validateSourceDenyCIDRs none c.forwarding.sourceDenyCIDRs = .ok ()
  rate : validateRateLimit "forwarding.rate_limit" c.forwarding.rateLimit = .ok ()
  routes : ∀ i r, c.forwarding.routes[i]? = some r → r.disabled = false → RouteChecked c i r
  overlaps : validateForwardingRoutePortOverlaps 0 c.forwarding.routes [] = .ok ()
  breakGlass : validateBreakGlassCIDRs c.geo.breakGlassCIDRs = .ok ()
  geo : validateGeo c.geo = .ok ()
  peers : ∀ p ∈ c.peers, validatePeer p = .ok ()

theorem validateInput_ok {c : Config} (h : validateInput c = .ok ()) :
    (∀ a ∈ c.inputAllows, a.disabled = false → validateInputAllowDport a.dport = .ok ()) ∧
      (∀ p ∈ c.network.adminTCPPorts, 0 < p ∧ p ≤ 65535) ∧
      ∀ s ∈ c.network.forwardExtraLocalCIDRs, trimSpace s ≠ "" ∧ ∃ p, parseCIDR (trimSpace s) = some p ∧ p.1.to4.isSome := by
  unfold validateInput at h
  obtain ⟨hallows, h⟩ := seq_ok.mp h
  obtain ⟨hadmin, hlocal⟩ := seq_ok.mp h
  refine ⟨fun a ha hd => ?_, fun p hp => ?_, fun s hs => ?_⟩
  · obtain ⟨j, hj, rfl⟩ := List.getElem_of_mem ha
    have := forIdx_ok_zero.mp hallows j hj
    rw [hd] at this
    exact wrapf_ok.mp this
  · have := (ite_errorf_ok.mp (forIdx_ok_mem.mp hadmin p hp)).1
    omega
  · obtain ⟨j, hj, rfl⟩ := List.getElem_of_mem hs
    have := forIdx_ok_zero.mp hlocal j hj
    obtain ⟨hne, this⟩ := ite_errorf_ok.mp this
    refine ⟨hne, ?_⟩
    split at this
    · cases this
    · rename_i a n hcidr
      obtain ⟨h4, _⟩ := ite_errorf_ok.mp this
      exact ⟨_, hcidr, Option.isSome_iff_ne_none.mpr (by simpa using h4)⟩

theorem validateRoutes_ok {c : Config} (h : forIdx (validateRoute c) 0 c.forwarding.routes = .ok ()) :
    ∀ i r, c.forwarding.routes[i]? = some r → r.disabled = false → RouteChecked c i r := by
  intro i r hr hd
  obtain ⟨hi, rfl⟩ := List.getElem?_eq_some_iff.mp hr
  have h := forIdx_ok_zero.mp h i hi
  unfold validateRoute at h
  obtain ⟨_, h⟩ := seq_ok.mp h
  rw [hd] at h
  exact validateActiveRoute_ok h

/-- What a peer that is on has passed. -/
structure PeerChecked (p : Peer) : Prop where
  name : validPeerName p.name = .ok ()
  publicKey : validateWireGuardKey p.publicKey = .ok ()
  tunnelIP : (parseCIDR (trimSpace p.tunnelIP)).isSome ∨ (parseIP (trimSpace p.tunnelIP)).isSome

theorem validatePeer_ok {p : Peer} (h : validatePeer p = .ok ()) (hd : p.disabled = false) : PeerChecked p := by
  unfold validatePeer at h
  simp only [hd, Bool.false_eq_true, if_false] at h
  obtain ⟨_, h⟩ := ite_errorf_ok.mp h
  obtain ⟨hname, h⟩ := seq_ok.mp h
  obtain ⟨hkey, h⟩ := seq_ok.mp h
  obtain ⟨htip, _⟩ := ite_errorf_ok.mp h
  refine ⟨wrapf_ok.mp hname, wrapf_ok.mp hkey, ?_⟩
  rcases not_and_or.mp htip with h | h
  · exact .inl (Option.isSome_iff_ne_none.mpr (by simpa using h))
  · exact .inr (Option.isSome_iff_ne_none.mpr (by simpa using h))

/-- The address of the interface passed its check. -/
theorem Config.address_checked {c : Config} (h : c.validate = .ok ()) : validateWireGuardAddress c.wireGuard.address = .ok () := by
  unfold Config.validate at h
  obtain ⟨_, h⟩ := ite_errorf_ok.mp h
  obtain ⟨hifaces, _⟩ := seq_ok.mp h
  unfold validateInterfaces at hifaces
  obtain ⟨_, hifaces⟩ := ite_errorf_ok.mp hifaces
  obtain ⟨_, hifaces⟩ := seq_ok.mp hifaces
  obtain ⟨_, hifaces⟩ := ite_errorf_ok.mp hifaces
  obtain ⟨_, hifaces⟩ := ite_errorf_ok.mp hifaces
  exact (seq_ok.mp hifaces).1

theorem Config.checked {c : Config} (h : c.validate = .ok ()) : Checked c := by
  unfold Config.validate at h
  obtain ⟨_, h⟩ := ite_errorf_ok.mp h
  obtain ⟨hifaces, h⟩ := seq_ok.mp h
  obtain ⟨hinput, h⟩ := seq_ok.mp h
  obtain ⟨hdeny, h⟩ := seq_ok.mp h
  obtain ⟨hrate, h⟩ := seq_ok.mp h
  obtain ⟨hroutes, h⟩ := seq_ok.mp h
  obtain ⟨_, h⟩ := seq_ok.mp h
  obtain ⟨hglass, h⟩ := seq_ok.mp h
  obtain ⟨hgeo, hpeers⟩ := seq_ok.mp h
  obtain ⟨hallows, hadmin, hlocal⟩ := validateInput_ok hinput
  obtain ⟨hroutes, hoverlaps⟩ := seq_ok.mp hroutes
  unfold validateInterfaces at hifaces
  obtain ⟨_, hifaces⟩ := ite_errorf_ok.mp hifaces
  obtain ⟨hwg, hifaces⟩ := seq_ok.mp hifaces
  obtain ⟨hlisten, hifaces⟩ := ite_errorf_ok.mp hifaces
  obtain ⟨_, hifaces⟩ := ite_errorf_ok.mp hifaces
  obtain ⟨_, hifaces⟩ := seq_ok.mp hifaces
  obtain ⟨_, hpub⟩ := ite_errorf_ok.mp hifaces
  exact {
    wgInterface := wrapf_ok.mp hwg
    listenPort := by omega
    publicInterface := wrapf_ok.mp hpub
    inputAllows := hallows
    adminPorts := hadmin
    extraLocal := hlocal
    sourceDeny := hdeny
    rate := hrate
    routes := validateRoutes_ok hroutes
    overlaps := hoverlaps
    breakGlass := hglass
    geo := hgeo
    peers := forIdx_ok_mem.mp hpeers }

end EvuProxy

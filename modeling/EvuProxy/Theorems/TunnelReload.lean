import EvuProxy.Apply.Sample
import EvuProxy.Apply.Tunnel
import EvuProxy.Theorems.Carriers

/-!
# Reloading the tunnel

`reloadWireGuard` sets an interface that runs to a new config with `wg syncconf` and `ip addr replace`. That is what `wg-quick up` would
have made of the config where the address is one of IPv4 that the interface has already, and the peers bring no other routes.
-/

namespace EvuProxy

open Go Wg Fault

variable {Γ : Ctx}

/-! ## The condition -/

/-- A route for a prefix of a peer of a config, next to the one that the address of the interface brings. -/
def PeerRoute (c : Config) (x y : Prefix) : Prop :=
  ∃ p ∈ enabledPeers c, ∃ q ∈ allowedIPs (peerAllowedIPs p.tunnelIP), y = mask q ∧ ¬∃ r ∈ subnetRoute x, RouteCovers r q

/-- The address of the second config is one of IPv4, written so that both tools read it, the first config has that address only, and
the peers of both need the same routes. -/
def ReloadsPlainly (a b : Config) : Prop :=
  AsciiSpaced b.wireGuard.address ∧ ∃ n m, readPrefix (trimSpace b.wireGuard.address) = some (.v4 n, m) ∧
    (∀ raw ∈ split (trimSpace a.wireGuard.address) ',', readPrefix (trimSpace raw) = some (.v4 n, m)) ∧
    ∀ y, PeerRoute a (.v4 n, m) y ↔ PeerRoute b (.v4 n, m) y

/-! ## What is compared -/

/-- The interface runs as `wg-quick up` set it up for a config. -/
def Running (c : Config) (key : String) (s : TunnelHost Γ) : Prop :=
  ∃ i, bringUp (wireGuardText c key) = some i ∧ s.ifaces c.wireGuard.interface = some i

/-- A reload succeeds and leaves the interface as `wg-quick up` would set it up. -/
def ReloadsLikeUp (c : Config) (key : String) (s : TunnelHost Γ) : Prop :=
  ∃ s' i j, RunsTo (tunnelHost Γ) (reloadWireGuard c.wireGuard.interface (trimSpace c.wireGuard.address)) s (.ok ()) s' ∧
    s'.ifaces c.wireGuard.interface = some i ∧ bringUp (wireGuardText c key) = some j ∧ Same i j

/-- `wg-quick strip` keeps the port and the peers of a file. -/
def StripKeeps (Γ : Ctx) (text : String) : Prop :=
  ∀ ss, parse text = some ss → ∃ ss', parse (Γ.str (Γ.wgStrip (Γ.text text))) = some ss' ∧ listenPort ss' = listenPort ss ∧
    sectionPeers ss' = sectionPeers ss

/-! ## The interface of a config -/

theorem mapM_eq_some_iff {α β : Type} {f : α → Option β} {l : List α} {ys : List β} : l.mapM f = some ys ↔ l.map f = ys.map some := by
  induction l generalizing ys with
  | nil => cases ys <;> simp
  | cons a l ih =>
    rw [List.mapM_cons, List.map_cons]
    cases ys with
    | nil => simp [Option.bind_eq_some_iff]
    | cons y ys => simp [Option.bind_eq_some_iff, ih]

/-- The interface that the config describes, when it has the addresses given. -/
def configIface (c : Config) (addresses : List Prefix) : Iface where
  addresses := addresses
  listenPort := readValue (toString c.wireGuard.listenPort)
  peers := (enabledPeers c).map tunnelEntry
  routes := peerRoutes (addresses.flatMap subnetRoute) ((enabledPeers c).map tunnelEntry)

theorem listenPort_read (c : Config) (key : String) :
    listenPort (readInterface c key :: (enabledPeers c).map readPeer) = readValue (toString c.wireGuard.listenPort) := by
  simp [listenPort, readInterface, Section.value, List.lookup_cons]

theorem bringUp_config {c : Config} (h : c.validate = .ok ()) {key : String} (hkey : '\n' ∉ key.toList) :
    bringUp (wireGuardText c key) = ((listOf (readValue c.wireGuard.address)).mapM readPrefix).map (configIface c) := by
  have haddress : addressEntries (readInterface c key :: (enabledPeers c).map readPeer) = listOf (readValue c.wireGuard.address) := by
    simp [addressEntries, readInterface, Section.value]
  rw [bringUp, parse_wireGuardText (confLines_noNewline h hkey)]
  simp only [haddress, listenPort_read, sectionPeers_read h]
  rfl

/-- The prefix of an entry of an accepted address. -/
theorem address_prefix {addr : String} (h : validateWireGuardAddress addr = .ok ()) :
    ∀ raw ∈ split (trimSpace addr) ',', (readPrefix (trimSpace raw)).isSome := by
  unfold validateWireGuardAddress at h
  obtain ⟨_, h⟩ := ite_errorf_ok.mp h
  obtain ⟨_, h⟩ := ite_errorf_ok.mp h
  intro raw hraw
  have hentry := forIdx_ok_mem.mp h raw hraw
  obtain ⟨_, hentry⟩ := ite_errorf_ok.mp hentry
  unfold readPrefix
  split at hentry
  · rename_i hslash
    rw [if_pos hslash]
    simpa [Option.isSome_iff_ne_none] using (ite_errorf_ok.mp hentry).1
  · rename_i hslash
    rw [if_neg hslash]
    simpa [Option.isSome_iff_ne_none] using (ite_errorf_ok.mp hentry).1

theorem isSome_mapM {α β : Type} {f : α → Option β} {l : List α} : (l.mapM f).isSome ↔ ∀ a ∈ l, (f a).isSome := by
  induction l with
  | nil => simp
  | cons a l ih =>
    rw [List.mapM_cons, List.forall_mem_cons, ← ih]
    cases f a <;> cases l.mapM f <;> simp

theorem readPrefix_chars {s : String} (h : (readPrefix s).isSome) : ∀ ch ∈ s.toList, addrChar ch = true := by
  obtain ⟨q, hq⟩ := Option.isSome_iff_exists.mp h
  unfold readPrefix at hq
  split at hq
  · exact parseCIDR_chars hq
  · obtain ⟨a, ha, -⟩ := Option.map_eq_some_iff.mp hq
    exact parseIP_chars ha

/-- `wg-quick` can read an accepted address where the white space in it is ASCII. -/
theorem address_readable_iff {addr : String} (h : validateWireGuardAddress addr = .ok ()) :
    ((listOf (readValue addr)).mapM readPrefix).isSome ↔ AsciiSpaced addr := by
  rw [isSome_mapM]
  constructor
  · rw [listOf_pieces addr (address_noHash h), List.forall_mem_map]
    intro hread c hc hspace
    rcases @mem_splitList (· == ',') c _ hc with hcomma | ⟨cs, hcs, hc⟩
    · rw [beq_iff_eq.mp hcomma] at hspace
      exact absurd hspace (by decide)
    · obtain ⟨ws, vs, hws, hvs, hbetween⟩ := trimBy_between isBlank cs
      rw [hbetween, List.mem_append, List.mem_append] at hc
      rcases hc with (hc | hc) | hc
      · exact hws c hc
      · have haddr := readPrefix_chars (hread cs hcs) c (by rwa [String.toList_ofList])
        rw [addrChar_space haddr] at hspace
        cases hspace
      · exact hvs c hc
  · intro hascii
    rw [(address_iff h).mpr hascii, List.forall_mem_map]
    exact address_prefix h

/-- The addresses that `wg-quick` reads are those of the entries. -/
theorem address_read {addr : String} (h : validateWireGuardAddress addr = .ok ()) {ps : List Prefix}
    (hread : (listOf (readValue addr)).mapM readPrefix = some ps) :
    (split (trimSpace addr) ',').map (readPrefix ∘ trimSpace) = ps.map some := by
  have hascii := (address_readable_iff h).mp (by rw [hread, Option.isSome_some])
  rw [(address_iff h).mpr hascii, mapM_eq_some_iff, List.map_map] at hread
  exact hread

/-! ## The interface after a reload -/

theorem tunnelEntry_prefixes (p : Peer) : (tunnelEntry p).2 = allowedIPs (peerAllowedIPs p.tunnelIP) := by
  simp only [tunnelEntry]

theorem mem_peerRoutes_config {c : Config} {x y : Prefix} {base : List Prefix} (hbase : ∀ r, r ∈ base ↔ r ∈ subnetRoute x) :
    y ∈ peerRoutes base ((enabledPeers c).map tunnelEntry) ↔ y ∈ subnetRoute x ∨ PeerRoute c x y := by
  rw [mem_peerRoutes, hbase]
  refine or_congr_right ?_
  simp only [hbase, PeerRoute]
  constructor
  · rintro ⟨k, hk, q, hq, hroute⟩
    obtain ⟨p, hp, rfl⟩ := List.mem_map.mp hk
    rw [tunnelEntry_prefixes] at hq
    exact ⟨p, hp, q, hq, hroute⟩
  · rintro ⟨p, hp, q, hq, hroute⟩
    refine ⟨tunnelEntry p, List.mem_map_of_mem hp, q, ?_, hroute⟩
    rwa [tunnelEntry_prefixes]

/-- A route for a prefix of a peer is not the one that the address brings. -/
theorem PeerRoute.not_mem {c : Config} {x y : Prefix} (h : PeerRoute c x y) : y ∉ subnetRoute x := by
  obtain ⟨p, -, q, -, rfl, hno⟩ := h
  exact fun hmem => hno ⟨mask q, hmem, routeCovers_mask_self q⟩

/-- What the interface has after a reload is what `wg-quick up` gives it, where no other address was there and the routes agree. -/
theorem same_iff {a b : Config} {x : Prefix} {ps : List Prefix} (hps : ps ≠ []) {port : String} {peers : List (String × List Prefix)}
    (hport : port = (configIface b [x]).listenPort) (hpeers : peers = (configIface b [x]).peers) :
    Same { addresses := x :: ps, listenPort := port, peers := peers, routes := subnetRoute x ++ (configIface a ps).routes }
        (configIface b [x]) ↔
      (∀ p ∈ ps, p = x) ∧ ∀ y, PeerRoute a x y ↔ PeerRoute b x y := by
  have hsingle : ∀ r, r ∈ [x].flatMap subnetRoute ↔ r ∈ subnetRoute x := by simp
  have haddresses : (∀ y, y ∈ x :: ps ↔ y ∈ [x]) ↔ ∀ p ∈ ps, p = x := by
    simp only [List.mem_cons, List.not_mem_nil, or_false, or_iff_left_iff_imp]
  have hroutes : (∀ p ∈ ps, p = x) → ((∀ y, y ∈ subnetRoute x ++ (configIface a ps).routes ↔ y ∈ (configIface b [x]).routes) ↔
      ∀ y, PeerRoute a x y ↔ PeerRoute b x y) := by
    intro hall
    have hbase : ∀ r, r ∈ ps.flatMap subnetRoute ↔ r ∈ subnetRoute x := by
      intro r
      rw [List.mem_flatMap]
      constructor
      · rintro ⟨p, hp, hr⟩
        rwa [hall p hp] at hr
      · intro hr
        obtain ⟨p, hp⟩ := List.exists_mem_of_ne_nil ps hps
        exact ⟨p, hp, by rwa [hall p hp]⟩
    refine forall_congr' fun y => ?_
    rw [List.mem_append]
    simp only [configIface]
    rw [mem_peerRoutes_config hbase, mem_peerRoutes_config hsingle]
    have ha := fun h : PeerRoute a x y => h.not_mem
    have hb := fun h : PeerRoute b x y => h.not_mem
    tauto
  constructor
  · intro h
    have hall := haddresses.mp h.addresses
    exact ⟨hall, (hroutes hall).mp h.routes⟩
  · rintro ⟨hall, hsame⟩
    exact ⟨haddresses.mpr hall, hport, hpeers, (hroutes hall).mpr hsame⟩

/-! ## The reload -/

theorem address_ne_empty {addr : String} (h : validateWireGuardAddress addr = .ok ()) : trimSpace addr ≠ "" := by
  unfold validateWireGuardAddress at h
  exact (ite_errorf_ok.mp (ite_errorf_ok.mp h).2).1

/-- An address that `ip addr replace` takes is the only entry. -/
theorem address_single {addr : String} {x : Prefix} (hx : readPrefix (trimSpace addr) = some x) : split (trimSpace addr) ',' = [trimSpace addr] := by
  have hnocomma : ∀ ch ∈ (trimSpace addr).toList, (ch == ',') = false := by
    intro ch hch
    exact beq_eq_false_iff_ne.mpr (not_hash_of_addrChar (readPrefix_chars (by rw [hx, Option.isSome_some]) ch hch)).2.2.1
  rw [split, splitList_noSep hnocomma, List.map_singleton, String.ofList_toList]

theorem address_read_single {addr : String} {x : Prefix} {ps : List Prefix} (h : validateWireGuardAddress addr = .ok ())
    (hx : readPrefix (trimSpace addr) = some x) (hread : (listOf (readValue addr)).mapM readPrefix = some ps) : ps = [x] := by
  have hmap := address_read h hread
  rw [address_single hx, List.map_singleton, Function.comp_apply, trimmed_trimSpace, hx] at hmap
  exact List.map_injective_iff.mpr (Option.some_injective _) hmap.symm

/-- After `wg-quick up` of one accepted config, a reload for another one of the same interface leaves it as `wg-quick up` would set it
up exactly where the two configs agree on the address and the routes. -/
theorem reloadsLikeUp_iff {a b : Config} (ha : a.validate = .ok ()) (hb : b.validate = .ok ())
    (hname : a.wireGuard.interface = b.wireGuard.interface) {keyA keyB : String} (hkeyA : '\n' ∉ keyA.toList) (hkeyB : '\n' ∉ keyB.toList)
    (hstrip : StripKeeps Γ (wireGuardText b keyB)) {s : TunnelHost Γ} (hup : Running a keyA s)
    (hfile : s.files (.wgConf b.wireGuard.interface) = some (Γ.text (wireGuardText b keyB))) :
    ReloadsLikeUp b keyB s ↔ ReloadsPlainly a b := by
  obtain ⟨i, hi, hs⟩ := hup
  rw [hname] at hs
  rw [bringUp_config ha hkeyA] at hi
  obtain ⟨ps, hps, rfl⟩ := Option.map_eq_some_iff.mp hi
  have hentries := address_read (Config.address_checked ha) hps
  have haddress := Config.address_checked hb
  obtain ⟨ss', hss', hport, hpeers⟩ := hstrip _ (parse_wireGuardText (confLines_noNewline hb hkeyB))
  rw [listenPort_read] at hport
  rw [sectionPeers_read hb] at hpeers
  have hsync : syncconf (Γ.str (Γ.wgStrip (Γ.text (wireGuardText b keyB)))) (configIface a ps) =
      some { configIface a ps with listenPort := listenPort ss', peers := sectionPeers ss' } := by
    rw [syncconf, hss', Option.map_some]
  have hne : ps ≠ [] := by
    rintro rfl
    exact split_ne_nil _ _ (List.map_eq_nil_iff.mp hentries)
  unfold ReloadsLikeUp ReloadsPlainly
  constructor
  · rintro ⟨s', i', j, hends, hi', hj, hsame⟩
    obtain ⟨i₁, hi₁, hreplace⟩ := (reloads_iff hfile hs (address_ne_empty haddress)).mp ⟨s', hends, hi'⟩
    obtain rfl := Option.some.inj (hsync.symm.trans hi₁)
    rw [bringUp_config hb hkeyB] at hj
    obtain ⟨qs, hqs, rfl⟩ := Option.map_eq_some_iff.mp hj
    unfold addrReplace at hreplace
    split at hreplace
    · rename_i n m hx
      obtain rfl := address_read_single haddress hx hqs
      obtain rfl := Option.some.inj hreplace
      obtain ⟨hall, hroutes⟩ := (same_iff hne hport hpeers).mp hsame
      refine ⟨(address_readable_iff haddress).mp (by rw [hqs, Option.isSome_some]), n, m, hx, fun raw hraw => ?_, hroutes⟩
      have hmem := List.mem_map_of_mem (f := readPrefix ∘ trimSpace) hraw
      rw [hentries] at hmem
      obtain ⟨p, hp, hraw⟩ := List.mem_map.mp hmem
      rw [← hall p hp, hraw, Function.comp_apply]
    · cases hreplace
  · rintro ⟨hascii, n, m, hx, hall, hroutes⟩
    obtain ⟨qs, hqs⟩ := Option.isSome_iff_exists.mp ((address_readable_iff haddress).mpr hascii)
    obtain rfl := address_read_single haddress hx hqs
    have hps : ∀ p ∈ ps, p = (.v4 n, m) := by
      intro p hp
      have hmem := List.mem_map_of_mem (f := some) hp
      rw [← hentries] at hmem
      obtain ⟨raw, hraw, heq⟩ := List.mem_map.mp hmem
      rw [Function.comp_apply, hall raw hraw] at heq
      exact (Option.some.inj heq).symm
    obtain ⟨s', hends, hs'⟩ := (reloads_iff hfile hs (address_ne_empty haddress)).mpr ⟨_, hsync, addrReplace_some hx _⟩
    refine ⟨s', _, configIface b [(.v4 n, m)], hends, hs', ?_, (same_iff hne hport hpeers).mpr ⟨hps, hroutes⟩⟩
    rw [bringUp_config hb hkeyB, hqs, Option.map_some]

/-! ## An address of IPv6 -/

/-- The small host with a `wg-quick`. -/
def tunnelCtx : Ctx :=
  { Sample.ctx with
    wgStrip := fun
      | .text s => .text (strip s)
      | b => b }

/-- The host on which one config runs and the file of another one is written. -/
def reloadHost (a b : Config) : TunnelHost tunnelCtx where
  files f := if f = .wgConf b.wireGuard.interface then some (tunnelCtx.text (wireGuardText b "key=")) else none
  ifaces name := if name = a.wireGuard.interface then bringUp (wireGuardText a "key=") else none

theorem stripKeeps_tunnelCtx (text : String) : StripKeeps tunnelCtx text := fun _ hss => parse_strip hss

/-- A config with a peer, whose interface has the address given. -/
def addressConfig (address : String) : Config :=
  { tunnelConfig "10.0.0.2" with wireGuard := { interface := "wg0", listenPort := 51820, privateKeyFile := "/k", address := address } }

theorem running_reloadHost {a b : Config} {i : Iface} (hi : bringUp (wireGuardText a "key=") = some i) : Running a "key=" (reloadHost a b) :=
  ⟨i, hi, (if_pos rfl).trans hi⟩

theorem reloadHost_file (a b : Config) :
    (reloadHost a b).files (.wgConf b.wireGuard.interface) = some (tunnelCtx.text (wireGuardText b "key=")) := if_pos rfl

theorem bringUp_addressConfig {address : String} {ps : List Prefix} (h : (addressConfig address).validate = .ok ())
    (hps : (listOf (readValue address)).mapM readPrefix = some ps) :
    bringUp (wireGuardText (addressConfig address) "key=") = some (configIface (addressConfig address) ps) := by
  rw [bringUp_config h (by decide), show (addressConfig address).wireGuard.address = address from rfl, hps, Option.map_some]

theorem reloadsLikeUp_iff_sample :
    ReloadsLikeUp (addressConfig "10.0.0.1/24 ") "key=" (reloadHost (addressConfig "10.0.0.1/24") (addressConfig "10.0.0.1/24 ")) ↔
      ReloadsPlainly (addressConfig "10.0.0.1/24") (addressConfig "10.0.0.1/24 ") := by
  have ha : (addressConfig "10.0.0.1/24").validate = .ok () := by decide +kernel
  have hb : (addressConfig "10.0.0.1/24 ").validate = .ok () := by decide +kernel
  have hup := bringUp_addressConfig ha (show _ = some [(.v4 0x0A000001, 24)] by decide +kernel)
  exact reloadsLikeUp_iff ha hb rfl (by decide) (by decide) (stripKeeps_tunnelCtx _) (running_reloadHost hup) (reloadHost_file _ _)

/-- With an address of IPv6 next to the one of IPv4, not even a reload for the config that runs succeeds. -/
theorem reload_fails_on_ipv6 : (addressConfig "10.0.0.1/24, fd00::1/64").normalize.validate = .ok () ∧
    Running (addressConfig "10.0.0.1/24, fd00::1/64") "key="
      (reloadHost (addressConfig "10.0.0.1/24, fd00::1/64") (addressConfig "10.0.0.1/24, fd00::1/64")) ∧
    ¬ReloadsLikeUp (addressConfig "10.0.0.1/24, fd00::1/64") "key="
      (reloadHost (addressConfig "10.0.0.1/24, fd00::1/64") (addressConfig "10.0.0.1/24, fd00::1/64")) := by
  have hrunning := @running_reloadHost _ (addressConfig "10.0.0.1/24, fd00::1/64") _ (@bringUp_addressConfig "10.0.0.1/24, fd00::1/64"
    [(.v4 0x0A000001, 24), (.v6 (0xfd00 * 2 ^ 112 + 1), 64)] (by decide +kernel) (by decide +kernel))
  refine ⟨by decide +kernel, hrunning, ?_⟩
  rintro ⟨s', i, j, hends, hi, -⟩
  obtain ⟨i₀, -, hi₀⟩ := hrunning
  obtain ⟨i₁, -, hreplace⟩ := (reloads_iff (reloadHost_file _ _) hi₀ (by decide +kernel)).mp ⟨s', hends, hi⟩
  unfold addrReplace at hreplace
  have hread : readPrefix (trimSpace "10.0.0.1/24, fd00::1/64") = none := by decide +kernel
  rw [show (addressConfig "10.0.0.1/24, fd00::1/64").wireGuard.address = "10.0.0.1/24, fd00::1/64" from rfl, hread] at hreplace
  cases hreplace

end EvuProxy

import EvuProxy.AutoPause.Loop
import EvuProxy.Theorems.TunnelConf
import EvuProxy.Wg.Routing

/-!
# The peer that carries a route

Auto-pause judges a route by the first peer with its target as tunnel address; the interface sends the packets for the target to the
peer with the longest prefix around it, the last one of several. The two are the same peer unless another one outdoes the first, with
the same address once more or with a prefix of its own.
-/

namespace EvuProxy

open Go Wg AutoPause

/-- Auto-pause judges a route by the handshake of the peer to which the interface, set up from the text of the config, sends the packets
for the target. -/
def WatchesCarrier (c : Config) (priv : String) (r : ForwardRoute) : Prop :=
  ∃ p ss a n, peerForRoute c r = some p ∧ parse (wireGuardText c priv) = some ss ∧ parseIP (trimSpace r.targetIP) = some a ∧
    carrier (sectionPeers ss) a = some (p.publicKey, n)

/-- The length of the prefix that lets packets to an address through to a peer. -/
def tunnelReach (p : Peer) (a : Addr) : Option Nat := reach (allowedIPs (peerAllowedIPs p.tunnelIP)) a

/-- The public key of the first peer with the target of a route as tunnel address is not outdone at the target: a peer with that key has
a prefix around it, and those of peers with other keys are no longer if they stand before it, and shorter if they stand after it. -/
def HoldsTarget (c : Config) (r : ForwardRoute) : Prop :=
  ∃ pre p post a, enabledPeers c = pre ++ p :: post ∧ peerTunnelIPv4 p.tunnelIP = trimSpace r.targetIP ∧
    (∀ q ∈ pre, peerTunnelIPv4 q.tunnelIP ≠ trimSpace r.targetIP) ∧ parseIP (trimSpace r.targetIP) = some a ∧
    ∃ l₁ o l₂ n, enabledPeers c = l₁ ++ o :: l₂ ∧ readValue o.publicKey = p.publicKey ∧ tunnelReach o a = some n ∧
      (∀ q ∈ l₁, readValue q.publicKey ≠ p.publicKey → ∀ m, tunnelReach q a = some m → m ≤ n) ∧
      ∀ q ∈ l₂, readValue q.publicKey ≠ p.publicKey → ∀ m, tunnelReach q a = some m → m < n

/-! ## The two rules -/

/-- `peerForRoute` looks among the peers that are on. -/
theorem peerForRoute_eq_some {c : Config} {r : ForwardRoute} {p : Peer} : peerForRoute c r = some p ↔
    peerTunnelIPv4 p.tunnelIP = trimSpace r.targetIP ∧ ∃ pre post, enabledPeers c = pre ++ p :: post ∧
      ∀ q ∈ pre, peerTunnelIPv4 q.tunnelIP ≠ trimSpace r.targetIP := by
  have hfind : peerForRoute c r = (enabledPeers c).find? fun p => peerTunnelIPv4 p.tunnelIP = trimSpace r.targetIP := by
    unfold peerForRoute enabledPeers
    rw [List.find?_filter]
    refine congrArg (List.find? · c.peers) (funext fun p => ?_)
    rw [Bool.decide_and, Bool.decide_eq_true, Bool.decide_eq_true]
  rw [hfind, List.find?_eq_some_iff_append]
  simp

/-- A peer as the interface knows it. -/
def tunnelEntry (p : Peer) : String × List Prefix := (readValue p.publicKey, allowedIPs (peerAllowedIPs p.tunnelIP))

theorem reach_tunnelEntry (p : Peer) (a : Addr) : reach (tunnelEntry p).2 a = tunnelReach p a := by
  simp only [tunnelEntry, tunnelReach]

theorem sectionPeers_readPeers (ps : List Peer) (hps : ∀ p ∈ ps, PeerChecked p) :
    sectionPeers (ps.map readPeer) = ps.map tunnelEntry := by
  induction ps with
  | nil => rfl
  | cons p ps ih =>
    have hentry : ((readPeer p).value "PublicKey", allowedIPs ((readPeer p).value "AllowedIPs")) = tunnelEntry p := by
      show (readValue p.publicKey, allowedIPs (readValue (peerAllowedIPs p.tunnelIP))) = tunnelEntry p
      rw [readValue_peerAllowedIPs (hps p List.mem_cons_self), tunnelEntry]
    have ih := ih fun q hq => hps q (List.mem_cons_of_mem _ hq)
    unfold sectionPeers at ih ⊢
    rw [List.map_cons, List.filter_cons, if_pos (by simp [readPeer]), List.map_cons, ih, hentry, List.map_cons]

/-- The peers of the file are those that are on, each with the prefixes of its tunnel address. -/
theorem sectionPeers_read {c : Config} (h : c.validate = .ok ()) (priv : String) :
    sectionPeers (readInterface c priv :: (enabledPeers c).map readPeer) = (enabledPeers c).map tunnelEntry := by
  have hpeers := sectionPeers_readPeers (enabledPeers c) fun p hp => (Config.checked h).peerChecked hp
  unfold sectionPeers at hpeers ⊢
  rw [List.filter_cons, if_neg (by simp [readInterface]), hpeers]

/-- Which key carries, among the peers of the file. -/
theorem carrier_iff {ps : List Peer} {a : Addr} {k : String} :
    (∃ n, carrier (ps.map tunnelEntry) a = some (k, n)) ↔
      ∃ l₁ o l₂ n, ps = l₁ ++ o :: l₂ ∧ readValue o.publicKey = k ∧ tunnelReach o a = some n ∧
        (∀ q ∈ l₁, readValue q.publicKey ≠ k → ∀ m, tunnelReach q a = some m → m ≤ n) ∧
        ∀ q ∈ l₂, readValue q.publicKey ≠ k → ∀ m, tunnelReach q a = some m → m < n := by
  rw [carrier_key_iff]
  constructor
  · rintro ⟨m₁, qs, m₂, n, hmap, hreach, hbefore, hafter⟩
    obtain ⟨l₁, rest, rfl, rfl, hrest⟩ := List.map_eq_append_iff.mp hmap
    obtain ⟨o, l₂, rfl, ho, rfl⟩ := List.map_eq_cons_iff.mp hrest
    obtain ⟨hkey, hprefixes⟩ := Prod.mk.inj ho
    refine ⟨l₁, o, l₂, n, rfl, hkey, ?_, fun q hq hne m hm => ?_, fun q hq hne m hm => ?_⟩
    · rw [tunnelReach, hprefixes, hreach]
    · rw [← reach_tunnelEntry] at hm
      exact hbefore (tunnelEntry q) (List.mem_map_of_mem hq) hne m hm
    · rw [← reach_tunnelEntry] at hm
      exact hafter (tunnelEntry q) (List.mem_map_of_mem hq) hne m hm
  · rintro ⟨l₁, o, l₂, n, rfl, rfl, hreach, hbefore, hafter⟩
    refine ⟨l₁.map tunnelEntry, (tunnelEntry o).2, l₂.map tunnelEntry, n, ?_, ?_, fun x hx hne m hm => ?_, fun x hx hne m hm => ?_⟩
    · rw [List.map_append, List.map_cons, tunnelEntry]
    · rw [reach_tunnelEntry, hreach]
    · obtain ⟨q, hq, rfl⟩ := List.mem_map.mp hx
      rw [reach_tunnelEntry] at hm
      exact hbefore q hq hne m hm
    · obtain ⟨q, hq, rfl⟩ := List.mem_map.mp hx
      rw [reach_tunnelEntry] at hm
      exact hafter q hq hne m hm

/-- For an accepted config, a route is judged by the peer that carries it exactly where the peer holds the target. -/
theorem watchesCarrier_iff {c : Config} (h : c.validate = .ok ()) {priv : String} (hpriv : '\n' ∉ priv.toList) (r : ForwardRoute) :
    WatchesCarrier c priv r ↔ HoldsTarget c r := by
  have hparse := parse_wireGuardText (confLines_noNewline h hpriv)
  constructor
  · rintro ⟨p, ss, a, n, hpeer, hss, ha, hcarrier⟩
    obtain rfl := Option.some.inj (hparse.symm.trans hss)
    rw [sectionPeers_read h] at hcarrier
    obtain ⟨htunnel, pre, post, hsplit, hfirst⟩ := peerForRoute_eq_some.mp hpeer
    exact ⟨pre, p, post, a, hsplit, htunnel, hfirst, ha, carrier_iff.mp ⟨n, hcarrier⟩⟩
  · rintro ⟨pre, p, post, a, hsplit, htunnel, hfirst, ha, hheld⟩
    obtain ⟨n, hcarrier⟩ := carrier_iff.mpr hheld
    refine ⟨p, _, a, n, peerForRoute_eq_some.mpr ⟨htunnel, pre, post, hsplit, hfirst⟩, hparse, ha, ?_⟩
    rw [sectionPeers_read h]
    exact hcarrier

/-! ## One address twice -/

/-- A route that pauses when its peer is offline. -/
def twinRoute : ForwardRoute where
  proto := "tcp"
  ports := ["80"]
  targetIP := "10.0.0.2"
  pauseWhenPeerOffline := true

/-- A config of that route, and of two peers with the tunnel addresses given. -/
def twinConfig (first second : String) : Config where
  wireGuard := { interface := "wg0", listenPort := 51820, privateKeyFile := "/k", address := "10.0.0.1/24" }
  network := { publicInterface := "eth0" }
  forwarding := { routes := [twinRoute] }
  peers := [{ name := "a", publicKey := "AAAAAAAAAAAAAAAAAAAAAAAAAAAAAAAAAAAAAAAAAAA=", tunnelIP := first },
    { name := "b", publicKey := "BBBBBBBBBBBBBBBBBBBBBBBBBBBBBBBBBBBBBBBBBBA=", tunnelIP := second }]

theorem watchesCarrier_iff_sample : WatchesCarrier (twinConfig "10.0.0.2" "10.0.0.0/24") "key=" twinRoute ↔
    HoldsTarget (twinConfig "10.0.0.2" "10.0.0.0/24") twinRoute :=
  watchesCarrier_iff (by decide +kernel) (by decide) twinRoute

/-- Of two peers with one tunnel address, the first is watched and the second carries the traffic. -/
theorem second_twin_carries : (twinConfig "10.0.0.2/32" "10.0.0.2/32").normalize.validate = .ok () ∧
    (peerForRoute (twinConfig "10.0.0.2/32" "10.0.0.2/32") twinRoute).map (·.publicKey) =
      some "AAAAAAAAAAAAAAAAAAAAAAAAAAAAAAAAAAAAAAAAAAA=" ∧
    (parse (wireGuardText (twinConfig "10.0.0.2/32" "10.0.0.2/32") "key=")).map (fun ss => carrier (sectionPeers ss) (.v4 0x0A000002)) =
      some (some ("BBBBBBBBBBBBBBBBBBBBBBBBBBBBBBBBBBBBBBBBBBA=", 32)) ∧
    ¬WatchesCarrier (twinConfig "10.0.0.2/32" "10.0.0.2/32") "key=" twinRoute := by
  have hvalid : (twinConfig "10.0.0.2/32" "10.0.0.2/32").validate = .ok () := by decide +kernel
  have hpeer : (peerForRoute (twinConfig "10.0.0.2/32" "10.0.0.2/32") twinRoute).map (·.publicKey) =
      some "AAAAAAAAAAAAAAAAAAAAAAAAAAAAAAAAAAAAAAAAAAA=" := by
    decide +kernel
  have hip : parseIP (trimSpace twinRoute.targetIP) = some (.v4 0x0A000002) := by decide +kernel
  have hcarrier : (parse (wireGuardText (twinConfig "10.0.0.2/32" "10.0.0.2/32") "key=")).map
      (fun ss => carrier (sectionPeers ss) (.v4 0x0A000002)) = some (some ("BBBBBBBBBBBBBBBBBBBBBBBBBBBBBBBBBBBBBBBBBBA=", 32)) := by
    rw [parse_wireGuardText (confLines_noNewline hvalid (by decide)), Option.map_some, sectionPeers_read hvalid]
    decide +kernel
  refine ⟨hvalid, hpeer, hcarrier, ?_⟩
  rintro ⟨p, ss, a, n, hp, hss, ha, hc⟩
  obtain rfl := Option.some.inj (hip.symm.trans ha)
  rw [hp] at hpeer
  rw [hss, Option.map_some, hc] at hcarrier
  have hfirst : p.publicKey = "AAAAAAAAAAAAAAAAAAAAAAAAAAAAAAAAAAAAAAAAAAA=" := Option.some.inj hpeer
  have hsecond := (Prod.mk.inj (Option.some.inj (Option.some.inj hcarrier))).1
  exact absurd (hfirst.symm.trans hsecond) (by decide +kernel)

end EvuProxy

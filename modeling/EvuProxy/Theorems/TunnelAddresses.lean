import EvuProxy.Apply.NextTunnel
import EvuProxy.Theorems.PortMaps

/-!
# Suggested tunnel addresses

Which suggestions are free: the search knows the addresses of the peers, but of the server only an address that is the whole of
`wireguard.address` and has a prefix length.
-/

namespace EvuProxy

open Go

/-- The IPv4 addresses of the server in the tunnel. -/
def serverIPv4s (c : Config) : List Nat := (split (trimSpace c.wireGuard.address) ',').filterMap fun raw => entryIPv4 (trimSpace raw)

/-- The IPv4 tunnel addresses of the peers that are on. -/
def peerIPv4s (c : Config) : List Nat := (c.peers.filter fun p => !p.disabled).filterMap fun p => entryIPv4 (trimSpace p.tunnelIP)

/-- The network address of a prefix, and its broadcast address. -/
def netOf (a n : Nat) : Nat := a / 2 ^ (32 - n) * 2 ^ (32 - n)

def bcastOf (a n : Nat) : Nat := netOf a n + (2 ^ (32 - n) - 1)

/-- An address is free for a new peer of a subnet. -/
structure FreeFor (c : Config) (a n x : Nat) : Prop where
  lower : netOf a n < x
  upper : x < bcastOf a n
  server : x ∉ serverIPv4s c
  peers : x ∉ peerIPv4s c

/-- What is suggested is free, and where nothing is suggested nothing is free. -/
structure SuggestsFree (c : Config) (subnet : String) (a n : Nat) : Prop where
  free : ∀ s, nextFreeTunnelIP subnet c = .ok s → ∃ x, s = ipv4String x ++ "/32" ∧ FreeFor c a n x
  complete : ∀ e, nextFreeTunnelIP subnet c = .error e → ¬∃ x, FreeFor c a n x

/-- Below each address of the server in the subnet that the search does not know there is one that it takes for free; and the subnet is
not that of the last address alone, or the search takes no other address at all for free. -/
structure ServerPassedOver (c : Config) (a n : Nat) : Prop where
  server : ∀ s ∈ serverIPv4s c, s ∉ usedTunnelIPs c → netOf a n < s → s < bcastOf a n →
    ∃ x, netOf a n < x ∧ x < s ∧ x ∉ usedTunnelIPs c
  last : netOf a n = 2 ^ 32 - 1 → ∀ x < 2 ^ 32 - 1, x ∈ usedTunnelIPs c

theorem mem_usedTunnelIPs {c : Config} {x : Nat} :
    x ∈ usedTunnelIPs c ↔ (parseCIDR (trimSpace c.wireGuard.address)).bind (fun p => p.1.to4) = some x ∨ x ∈ peerIPv4s c := by
  have hpeers : (c.peers.filter fun p => !p.disabled).filterMap (fun p =>
      let tip := peerTunnelIPv4 p.tunnelIP
      if tip = "" then none else (parseIP tip).bind Addr.to4) = peerIPv4s c :=
    List.filterMap_congr fun p _ => usedTunnelIP_peer p.tunnelIP
  rw [usedTunnelIPs, hpeers, List.mem_append, Option.mem_toList]

/-- What the search knows of the server is one of its addresses. -/
theorem server_of_cidr {c : Config} {x : Nat} (h : (parseCIDR (trimSpace c.wireGuard.address)).bind (fun p => p.1.to4) = some x) :
    x ∈ serverIPv4s c := by
  obtain ⟨p, hp, hx⟩ := Option.bind_eq_some_iff.mp h
  have hnocomma : ∀ ch ∈ (trimSpace c.wireGuard.address).toList, (ch == ',') = false := fun ch hch => by
    rw [beq_eq_false_iff_ne]
    rintro rfl
    exact absurd (parseCIDR_chars hp _ hch) (by decide)
  have hsplit : split (trimSpace c.wireGuard.address) ',' = [trimSpace c.wireGuard.address] := by
    rw [split, splitList_noSep hnocomma, List.map_singleton, String.ofList_toList]
  rw [serverIPv4s, hsplit]
  refine List.mem_filterMap.mpr ⟨_, List.mem_singleton_self _, ?_⟩
  rw [trimSpace_trimSpace, entryIPv4, hp]
  exact hx

section subnet

variable {c : Config} {subnet : String} {a n : Nat}

theorem nextFree_eq (h : parseCIDR (trimSpace subnet) = some (.v4 a, n)) : nextFreeTunnelIP subnet c =
    match firstFree (usedTunnelIPs c) ((netOf a n + 1) % 2 ^ 32) (bcastOf a n) with
    | some host => .ok (ipv4String host ++ "/32")
    | none => errorf ("no free tunnel IP in " ++ subnet) := by
  rw [nextFreeTunnelIP, h]
  rfl

theorem bcast_lt (h : parseCIDR (trimSpace subnet) = some (.v4 a, n)) : bcastOf a n < 2 ^ 32 := by
  have ha : a < 2 ^ 32 := by
    obtain ⟨t, ht⟩ := parseCIDR_parseIP h
    exact to4_lt ht rfl
  obtain ⟨m, hm⟩ : ∃ m, 2 ^ 32 = 2 ^ m * 2 ^ (32 - n) := by
    by_cases hn : n ≤ 32
    · exact ⟨n, by rw [← Nat.pow_add, Nat.add_sub_cancel' hn]⟩
    · exact ⟨32, by rw [Nat.sub_eq_zero_of_le (Nat.le_of_not_le hn), Nat.pow_zero, Nat.mul_one]⟩
  have hpos : 0 < 2 ^ (32 - n) := Nat.two_pow_pos _
  have hdiv : a / 2 ^ (32 - n) < 2 ^ m := by
    rw [Nat.div_lt_iff_lt_mul hpos, ← hm]
    exact ha
  have hmul : (a / 2 ^ (32 - n) + 1) * 2 ^ (32 - n) ≤ 2 ^ 32 := by
    rw [hm]
    exact Nat.mul_le_mul_right _ hdiv
  rw [Nat.add_mul, Nat.one_mul] at hmul
  unfold bcastOf netOf
  omega

theorem ipv4String_inj {x y : Nat} (hx : x < 2 ^ 32) (hy : y < 2 ^ 32) (h : ipv4String x ++ "/32" = ipv4String y ++ "/32") : x = y := by
  have hlist := congrArg String.toList h
  rw [String.toList_append, String.toList_append] at hlist
  have hstr : ipv4String x = ipv4String y := String.toList_inj.mp (List.append_cancel_right hlist)
  have hip := parseIP_ipv4String hx
  rw [hstr, parseIP_ipv4String hy] at hip
  exact (Addr.v4.inj (Option.some.inj hip)).symm

/-- The addresses that the search looks at are those between the network address and the broadcast address, or all but the last one
where there is no address between the two and the network address is the last one. -/
theorem searched_iff (hbcast : bcastOf a n < 2 ^ 32) {x : Nat} : (netOf a n + 1) % 2 ^ 32 ≤ x ∧ x < bcastOf a n ↔
    netOf a n < x ∧ x < bcastOf a n ∨ netOf a n = 2 ^ 32 - 1 ∧ x < 2 ^ 32 - 1 := by
  have hnet : netOf a n ≤ bcastOf a n := Nat.le_add_right _ _
  by_cases hlast : netOf a n = 2 ^ 32 - 1
  · rw [hlast] at hnet ⊢
    have hzero : (2 ^ 32 - 1 + 1) % 2 ^ 32 = 0 := by decide
    omega
  · have hstart : (netOf a n + 1) % 2 ^ 32 = netOf a n + 1 := Nat.mod_eq_of_lt (by omega)
    omega

/-- An address that the search takes for used is not free. -/
theorem not_free_of_used {x : Nat} (hx : x ∈ usedTunnelIPs c) : ¬FreeFor c a n x := by
  intro hfree
  rcases mem_usedTunnelIPs.mp hx with hserver | hpeer
  · exact hfree.server (server_of_cidr hserver)
  · exact hfree.peers hpeer

/-- The suggestions are free exactly where the addresses of the server that the search does not know are passed over. -/
theorem suggestsFree_iff (h : parseCIDR (trimSpace subnet) = some (.v4 a, n)) : SuggestsFree c subnet a n ↔ ServerPassedOver c a n := by
  have heq := @nextFree_eq c subnet a n h
  have hbcast := bcast_lt h
  cases hsearch : firstFree (usedTunnelIPs c) ((netOf a n + 1) % 2 ^ 32) (bcastOf a n) with
  | some x =>
    rw [hsearch] at heq
    obtain ⟨⟨hlo, hhi, hunused⟩, hleast⟩ := firstFree_eq_some.mp hsearch
    have hused : ∀ y, netOf a n < y → y < x → y ∈ usedTunnelIPs c := fun y hy hyx =>
      hleast y ((searched_iff hbcast).mpr (.inl ⟨hy, Nat.lt_trans hyx hhi⟩)).1 hyx
    constructor
    · intro hsuggests
      obtain ⟨y, hy, hfor⟩ := hsuggests.free _ heq
      obtain rfl := ipv4String_inj (Nat.lt_trans hhi hbcast) (Nat.lt_trans hfor.upper hbcast) hy
      refine ⟨fun s hs hnew hlower hupper => ⟨x, hfor.lower, ?_, hunused⟩, fun hlast => ?_⟩
      · rcases Nat.lt_trichotomy x s with hlt | rfl | hlt
        · exact hlt
        · exact absurd hs hfor.server
        · exact absurd (hused s hlower hlt) hnew
      · have := hfor.lower
        omega
    · intro hpassed
      have hlower : netOf a n < x := by
        rcases (searched_iff hbcast).mp ⟨hlo, hhi⟩ with ⟨hlower, -⟩ | ⟨hlast, hx⟩
        · exact hlower
        · exact absurd (hpassed.last hlast x hx) hunused
      refine ⟨fun s hs => ?_, fun e he => ?_⟩
      · obtain rfl := Except.ok.inj (heq.symm.trans hs)
        refine ⟨x, rfl, hlower, hhi, fun hserver => ?_, fun hpeer => hunused (mem_usedTunnelIPs.mpr (.inr hpeer))⟩
        obtain ⟨y, hy, hyx, hfree⟩ := hpassed.server x hserver hunused hlower hhi
        exact hfree (hused y hy hyx)
      · rw [heq] at he
        cases he
  | none =>
    rw [hsearch] at heq
    have hall : ∀ y, (netOf a n + 1) % 2 ^ 32 ≤ y ∧ y < bcastOf a n → y ∈ usedTunnelIPs c := fun y hy =>
      firstFree_eq_none.mp hsearch y hy.1 hy.2
    refine iff_of_true ⟨fun s hs => ?_, fun e _ => ?_⟩ ⟨fun s _ hnew hlower hupper => ?_, fun hlast x hx => ?_⟩
    · rw [heq] at hs
      cases hs
    · rintro ⟨x, hfree⟩
      exact not_free_of_used (hall x ((searched_iff hbcast).mpr (.inl ⟨hfree.lower, hfree.upper⟩))) hfree
    · exact absurd (hall s ((searched_iff hbcast).mpr (.inl ⟨hlower, hupper⟩))) hnew
    · exact hall x ((searched_iff hbcast).mpr (.inr ⟨hlast, hx⟩))

end subnet

theorem suggestsFree_iff_sample : SuggestsFree (mapConfig ["80"] []) "10.0.0.0/24" 0x0a000000 24 ↔ ServerPassedOver (mapConfig ["80"] []) 0x0a000000 24 :=
  suggestsFree_iff (by decide +kernel)

/-- A config whose server has an address without a prefix length. -/
def bareAddressConfig : Config := { mapConfig ["80"] [] with wireGuard := { (mapConfig ["80"] []).wireGuard with address := "10.0.0.1" } }

/-- The server's own address is suggested, and for the subnet of the last address alone the address 0.0.0.0. -/
theorem server_suggested : bareAddressConfig.validate = .ok () ∧ serverIPv4s bareAddressConfig = [0x0a000001] ∧
    nextFreeTunnelIP "10.0.0.0/24" bareAddressConfig = .ok "10.0.0.1/32" ∧ ¬SuggestsFree bareAddressConfig "10.0.0.0/24" 0x0a000000 24 ∧
    nextFreeTunnelIP "255.255.255.255/32" bareAddressConfig = .ok "0.0.0.0/32" := by
  have hserver : serverIPv4s bareAddressConfig = [0x0a000001] := by decide +kernel
  have hfound : nextFreeTunnelIP "10.0.0.0/24" bareAddressConfig = .ok "10.0.0.1/32" := by decide +kernel
  refine ⟨by decide +kernel, hserver, hfound, fun hsuggests => ?_, by decide +kernel⟩
  obtain ⟨x, hx, hfree⟩ := hsuggests.free _ hfound
  have hone : x = 0x0a000001 := ipv4String_inj (Nat.lt_trans hfree.upper (by decide)) (by decide)
    (hx.symm.trans (by decide +kernel))
  refine hfree.server ?_
  rw [hserver, hone]
  exact List.mem_singleton_self _

end EvuProxy

import EvuProxy.Gen.Prerouting

/-!
# Port maps

Where the prerouting rules of a route lead the packets to its public ports. A map says so for the ports that it covers; the rules follow
the first entry of `ports` that lists a port, be it the one of the map or another.
-/

namespace EvuProxy

open Go Nft

/-! ## What port maps say -/

/-- Whether an entry of `ports` lists a port. -/
def listsPort (p : Nat) (tok : String) : Bool :=
  (portTokens [tok]).any fun t =>
    match expandPortToken t with
    | .ok qs => qs.contains p
    | .error _ => false

/-- For each port that a map covers, the first entry of `ports` that lists it leads it to the port that the map names. -/
def FirstEntryAgrees (r : ForwardRoute) : Prop :=
  ∀ m ∈ r.portMaps, ∀ p, m.Covers p → ∀ tok, (normalizedPortTokens r.ports).find? (listsPort p) = some tok →
    leadsTo r.portMaps tok p = some (m.names p)

/-- The first rule of a policy that matches a packet and rewrites it gives it the destination; so does the first rule that matches it,
where no rule of the policy drops it. -/
def Rewrites (h : Host) (k : Packet) (q : RoutePolicy) (d : String × Nat) : Prop :=
  (verdict h k (dnatRules q)).bind (Verdict.destination k.dport) = some d ∧
    ((∀ rule ∈ policyRules q, Rule.fires h k rule = true → Rule.verdict rule ≠ some .drop) →
      (verdict h k (policyRules q)).bind (Verdict.destination k.dport) = some d)

/-- What the port maps of a route say of a policy of it. -/
structure MapsKept (r : ForwardRoute) (q : RoutePolicy) : Prop where
  mapped : ∀ h k, k.proto = q.proto → q.passes h k.src = true → ∀ m ∈ r.portMaps, m.Covers k.dport →
    Rewrites h k q (trimSpace r.targetIP, m.names k.dport)
  unmapped : ∀ h k, k.proto = q.proto → q.passes h k.src = true → InTokens k.dport (portTokens r.ports) →
    (∀ m ∈ r.portMaps, ¬m.Covers k.dport) → Rewrites h k q (trimSpace r.targetIP, k.dport)
  outside : ∀ h k, ¬InTokens k.dport (portTokens r.ports) → ∀ rule ∈ policyRules q, Rule.fires h k rule = false

/-- What the port maps of the route at an index say of the rules that the config renders for it. -/
def PortMapsKept (c : Config) (i : Nat) (r : ForwardRoute) : Prop :=
  ∀ qs, routePolicies c = .ok qs → ∀ q ∈ qs, q.routeIndex = i → MapsKept r q

/-! ## The rules of a route -/

theorem listsPort_iff {p : Nat} {tok : String} : listsPort p tok = true ↔ InTokens p (portTokens [tok]) := by
  rw [listsPort, List.any_eq_true]
  unfold InTokens
  refine exists_congr fun t => and_congr_right fun _ => ?_
  cases expandPortToken t with
  | ok qs => simp
  | error e => simp

section route

variable {c : Config} {i : Nat} {r : ForwardRoute} {dnat : List RouteDNATLine} {proto : Proto}

/-- nft finds the first entry that the config lists a port in. -/
theorem find_entry (hread : PlainlyRead (portTokens r.ports)) (p : Nat) :
    (normalizedPortTokens r.ports).find? (fun tok => (Ports.tok tok).has p) = (normalizedPortTokens r.ports).find? (listsPort p) :=
  List.find?_congr fun _ htok => Bool.eq_iff_iff.mpr ((has_tok (hread.entry htok) p).trans listsPort_iff.symm)

theorem find_listsPort {p : Nat} : InTokens p (portTokens r.ports) ↔ ∃ tok, (normalizedPortTokens r.ports).find? (listsPort p) = some tok := by
  rw [← Option.isSome_iff_exists, List.find?_isSome]
  constructor
  · rintro ⟨t, ht, hp⟩
    obtain ⟨tok, htok, ht⟩ := mem_portTokens.mp ht
    exact ⟨tok, htok, listsPort_iff.mpr ⟨t, ht, hp⟩⟩
  · rintro ⟨tok, htok, hp⟩
    obtain ⟨t, ht, hp⟩ := listsPort_iff.mp hp
    exact ⟨t, mem_portTokens.mpr ⟨tok, htok, ht⟩, hp⟩

theorem dnat_target_ne (hc : RouteChecked c i r) (hdnat : buildRouteDNATLines r (normalizedPortTokens r.ports) = .ok dnat) :
    ∀ l ∈ (policyOf c i r dnat proto).dnat, l.dnatTo.1 ≠ "" := by
  intro l hl hempty
  rw [routeLines_target hdnat l hl] at hempty
  have hip := hc.ip
  rw [hempty] at hip
  exact absurd hip (by decide)

/-- The rules of a policy that rewrite send a packet where the first entry that lists its port leads it. -/
theorem destination_eq (hc : RouteChecked c i r) (hread : PlainlyRead (portTokens r.ports))
    (hdnat : buildRouteDNATLines r (normalizedPortTokens r.ports) = .ok dnat) {h : Host} {k : Packet} (hproto : k.proto = proto)
    (hpasses : (policyOf c i r dnat proto).passes h k.src = true) :
    (verdict h k (dnatRules (policyOf c i r dnat proto))).bind (Verdict.destination k.dport) =
      ((normalizedPortTokens r.ports).find? (listsPort k.dport)).bind fun tok =>
        (leadsTo r.portMaps tok k.dport).map fun d => (trimSpace r.targetIP, d) := by
  have hfind := routeLines_find hc.maps k.dport
    (fun tok htok => ⟨trimmed_of_mem_normalized htok, hread.entry htok⟩) hdnat
  rw [find_entry hread] at hfind
  have hjoin := congrArg Option.join hfind
  rw [← Option.bind_id_eq_join, ← Option.bind_id_eq_join, Option.bind_map, Option.bind_map] at hjoin
  rw [verdict_dnatRules (dnat_target_ne hc hdnat) hproto hpasses, Option.bind_map]
  exact hjoin

/-- The rules of a policy lead a packet where the first entry that lists its port does. -/
theorem rewrites_iff (hc : RouteChecked c i r) (hread : PlainlyRead (portTokens r.ports))
    (hdnat : buildRouteDNATLines r (normalizedPortTokens r.ports) = .ok dnat) {h : Host} {k : Packet} (hproto : k.proto = proto)
    (hpasses : (policyOf c i r dnat proto).passes h k.src = true) {d : Nat} :
    Rewrites h k (policyOf c i r dnat proto) (trimSpace r.targetIP, d) ↔
      ∃ tok, (normalizedPortTokens r.ports).find? (listsPort k.dport) = some tok ∧ leadsTo r.portMaps tok k.dport = some d := by
  have hsome : ∀ o : Option String, (o.bind fun tok => (leadsTo r.portMaps tok k.dport).map fun d => (trimSpace r.targetIP, d)) =
      some (trimSpace r.targetIP, d) ↔ ∃ tok, o = some tok ∧ leadsTo r.portMaps tok k.dport = some d := by
    intro o
    simp [Option.bind_eq_some_iff]
  unfold Rewrites
  rw [destination_eq hc hread hdnat hproto hpasses, hsome]
  refine and_iff_left_of_imp fun hleads hdrop => ?_
  rw [verdict_policyRules hdrop, destination_eq hc hread hdnat hproto hpasses, hsome]
  exact hleads

/-- A port of a line is one of those that the route lists. -/
theorem listed_of_line (hc : RouteChecked c i r) (hread : PlainlyRead (portTokens r.ports))
    (hdnat : buildRouteDNATLines r (normalizedPortTokens r.ports) = .ok dnat) {l : RouteDNATLine} (hl : l ∈ dnat) {p : Nat}
    (hhas : RouteDNATLine.has p l = true) : InTokens p (portTokens r.ports) := by
  have hfind := routeLines_find hc.maps p (fun tok htok => ⟨trimmed_of_mem_normalized htok, hread.entry htok⟩) hdnat
  rw [find_entry hread] at hfind
  rw [find_listsPort, ← Option.isSome_iff_exists]
  have hsome : (dnat.find? (RouteDNATLine.has p)).isSome := List.find?_isSome.mpr ⟨l, hl, hhas⟩
  have := congrArg Option.isSome hfind
  rwa [Option.isSome_map, Option.isSome_map, hsome, eq_comm] at this

/-- A host whose sets have every address. -/
def openHost : Host := { inSet := fun _ _ => true, limited := fun _ _ => false }

/-- A new packet to a port. -/
def packetTo (proto : Proto) (p : Nat) : Packet :=
  { iif := "eth0", oif := "wg0", src := 0, dst := 0, proto := proto, dport := p, origDport := p, ct := .new, syn := true }

/-- The port maps of a route say what its rules do exactly where the first entries agree with them. -/
theorem mapsKept_policy (hc : RouteChecked c i r) (hread : PlainlyRead (portTokens r.ports))
    (hdnat : buildRouteDNATLines r (normalizedPortTokens r.ports) = .ok dnat) :
    MapsKept r (policyOf c i r dnat proto) ↔ FirstEntryAgrees r := by
  have hlisted : ∀ m ∈ r.portMaps, ∀ p, m.Covers p → InTokens p (portTokens r.ports) := by
    rintro m hm p ⟨t, ht, hp⟩
    exact ⟨t, mem_portTokens.mpr ⟨_, hc.maps.entries m hm, ht⟩, hp⟩
  constructor
  · intro hkept m hm p hcovers tok htok
    have hpasses : (policyOf c i r dnat proto).passes openHost (packetTo proto p).src = true := passes_of_inSet (fun _ => rfl) _
    have hrewrites := hkept.mapped openHost (packetTo proto p) rfl hpasses m hm hcovers
    obtain ⟨tok', htok', hleads⟩ := (rewrites_iff hc hread hdnat rfl hpasses).mp hrewrites
    rw [← Option.some.inj (htok'.symm.trans htok)]
    exact hleads
  · intro hagrees
    refine ⟨fun h k hproto hpasses m hm hcovers => ?_, fun h k hproto hpasses hin hno => ?_, fun h k hout rule hrule => ?_⟩
    · obtain ⟨tok, htok⟩ := find_listsPort.mp (hlisted m hm _ hcovers)
      exact (rewrites_iff hc hread hdnat hproto hpasses).mpr ⟨tok, htok, hagrees m hm _ hcovers tok htok⟩
    · obtain ⟨tok, htok⟩ := find_listsPort.mp hin
      refine (rewrites_iff hc hread hdnat hproto hpasses).mpr ⟨tok, htok, leadsTo_unmapped (List.find?_eq_none.mpr fun m hm hpub => ?_)⟩
      refine hno m hm ?_
      rw [PortMap.Covers, of_decide_eq_true hpub]
      exact listsPort_iff.mp (List.find?_some htok)
    · refine Bool.eq_false_iff.mpr fun hfires => ?_
      obtain ⟨-, l, hl, hhas⟩ := port_of_fires hrule hfires
      exact hout (listed_of_line hc hread hdnat hl hhas)

end route

/-- Where every policy of a route does what its port maps say, the first entries agree with them. -/
theorem firstEntryAgrees_of_kept {c : Config} (hv : c.validate = .ok ()) (hon : c.forwarding.maintenanceMode = false) {i : Nat}
    {r : ForwardRoute} (hr : (i, r) ∈ activeRoutes c) (hplain : ∀ tok ∈ portTokens r.ports, plainToken tok = true)
    (hkept : PortMapsKept c i r) : FirstEntryAgrees r := by
  have hchecked := Config.checked hv
  obtain ⟨hget, hd⟩ := mem_activeRoutes.mp hr
  obtain ⟨ps, hps⟩ := hchecked.ports_expand hget hd
  obtain ⟨qs, hqs⟩ := hchecked.routePolicies
  obtain ⟨protos, dnat, hprotos, hdnat, hmem⟩ := policyOf_mem_routePolicies hqs hon hr
  obtain ⟨proto, hproto⟩ := List.exists_mem_of_ne_nil _ (parseRouteProtocols_ok hprotos).1
  exact (mapsKept_policy (hchecked.active hr) (plainlyRead_plain hps hplain) hdnat).mp (hkept qs hqs _ (hmem proto hproto) rfl)

/-- For an accepted config out of maintenance mode, the rules of an active route do what its port maps say exactly where the first entry
of `ports` that lists a port covered by a map leads it to the port that the map names. -/
theorem portMapsKept_iff {c : Config} (hv : c.validate = .ok ()) (hon : c.forwarding.maintenanceMode = false) {i : Nat} {r : ForwardRoute}
    (hr : (i, r) ∈ activeRoutes c) (hplain : ∀ tok ∈ portTokens r.ports, plainToken tok = true) :
    PortMapsKept c i r ↔ FirstEntryAgrees r := by
  refine ⟨firstEntryAgrees_of_kept hv hon hr hplain, fun hagrees qs hqs q hq hi => ?_⟩
  have hchecked := Config.checked hv
  obtain ⟨hget, hd⟩ := mem_activeRoutes.mp hr
  obtain ⟨ps, hps⟩ := hchecked.ports_expand hget hd
  obtain ⟨j, r', protos, dnat, hr', -, -, hdnat, heq⟩ := mem_routePolicies hqs hq
  rw [heq] at hi ⊢
  obtain rfl : j = i := hi
  obtain rfl := Option.some.inj ((mem_activeRoutes.mp hr').1.symm.trans hget)
  exact (mapsKept_policy (hchecked.active hr) (plainlyRead_plain hps hplain) hdnat).mpr hagrees

/-! ## Overlapping entries -/

/-- A config of one route, with the entries of `ports` and the maps given. -/
def mapConfig (ports : List String) (maps : List PortMap) : Config where
  wireGuard := { interface := "wg0", listenPort := 51820, privateKeyFile := "/k", address := "10.0.0.1/24" }
  network := { publicInterface := "eth0" }
  forwarding := { routes := [{ proto := "tcp", ports := ports, targetIP := "10.0.0.2", portMaps := maps }] }
  peers := [{ name := "a", publicKey := "AAAAAAAAAAAAAAAAAAAAAAAAAAAAAAAAAAAAAAAAAAA=", tunnelIP := "10.0.0.2/32" }]

/-- The route of that config. -/
def mapRoute (ports : List String) (maps : List PortMap) : ForwardRoute :=
  { proto := "tcp", ports := ports, targetIP := "10.0.0.2", portMaps := maps }

theorem portMapsKept_iff_sample : PortMapsKept (mapConfig ["80-81", "443"] [⟨"80-81", "8080-8081"⟩]) 0
      (mapRoute ["80-81", "443"] [⟨"80-81", "8080-8081"⟩]) ↔
    FirstEntryAgrees (mapRoute ["80-81", "443"] [⟨"80-81", "8080-8081"⟩]) :=
  portMapsKept_iff (by decide +kernel) rfl (by decide +kernel) (by decide +kernel)

/-- Port 85, which its map leads to 8085, is listed by the range before it too: the packets to it keep their port. -/
theorem nested_entry_ignored : (mapConfig ["80-90", "85"] [⟨"85", "8085"⟩]).normalize.validate = .ok () ∧
    PortMap.Covers ⟨"85", "8085"⟩ 85 ∧ PortMap.names ⟨"85", "8085"⟩ 85 = 8085 ∧
    (routePolicies (mapConfig ["80-90", "85"] [⟨"85", "8085"⟩]).normalize).toOption.map (fun qs => qs.map fun q =>
      (verdict openHost (packetTo .tcp 85) (policyRules q)).bind (Verdict.destination 85)) = some [some ("10.0.0.2", 85)] ∧
    ¬PortMapsKept (mapConfig ["80-90", "85"] [⟨"85", "8085"⟩]).normalize 0 (mapRoute ["80-90", "85"] [⟨"85", "8085"⟩]) := by
  have hcovers : PortMap.Covers ⟨"85", "8085"⟩ 85 := listsPort_iff.mp (show listsPort 85 (trimSpace "85") = true by decide +kernel)
  have hnames : PortMap.names ⟨"85", "8085"⟩ 85 = 8085 := by decide +kernel
  have hfound : (routePolicies (mapConfig ["80-90", "85"] [⟨"85", "8085"⟩]).normalize).toOption.map (fun qs => qs.map fun q =>
      (verdict openHost (packetTo .tcp 85) (policyRules q)).bind (Verdict.destination 85)) = some [some ("10.0.0.2", 85)] := by
    decide +kernel
  have hvalid : (mapConfig ["80-90", "85"] [⟨"85", "8085"⟩]).normalize.validate = .ok () := by decide +kernel
  refine ⟨hvalid, hcovers, hnames, hfound, fun hkept => ?_⟩
  have hagrees := firstEntryAgrees_of_kept hvalid rfl (by decide +kernel) (by decide +kernel) hkept ⟨"85", "8085"⟩ List.mem_cons_self 85
    hcovers "80-90" (by decide +kernel)
  rw [hnames] at hagrees
  exact absurd hagrees (by decide +kernel)

end EvuProxy

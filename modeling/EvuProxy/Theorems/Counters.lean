import EvuProxy.Gen.Sets
import EvuProxy.Theorems.PortMaps

/-!
# DNAT, forwarding and counting

Three generators write down the ports of a route: for prerouting, where a public port is rewritten, for the forward chain, where the
packet has the port it was rewritten to, and for the counters. A packet that the first sends on is the packet of the same route to the
other two.
-/

namespace EvuProxy

open Go Nft

/-! ## A packet that is sent on -/

/-- The first packet of a connection from the public interface is sent on into the tunnel by a policy, the first of the policies that
says anything of it. -/
structure SentOn (c : Config) (h : Host) (qs : List RoutePolicy) (paused : List Nat) (q : RoutePolicy) (k k' : Packet) : Prop where
  iif : k.iif = c.network.publicInterface
  new : k.ct = .new
  orig : k.origDport = k.dport
  chain : ∃ pre post, qs = pre ++ q :: post ∧ verdict h k (writeNATPreroutingRules pre paused) = none
  rewritten : ∃ d, (verdict h k (writeNATPreroutingRules [q] paused)).bind (Verdict.destination k.dport) = some d ∧
    k.sentTo c.wireGuard.interface d = some k'

/-- A packet that the prerouting chain rewrites is sent on by a policy. It goes through the accept rule of that policy, as far as its
source is concerned, and through the counter of that policy alone; and the accept rule of a route with port maps takes no packet of a
connection to another port. -/
structure CountersAgree (c : Config) : Prop where
  decided : ∀ h qs paused k k' d, routePolicies c = .ok qs → k.iif = c.network.publicInterface → k.ct = .new → k.origDport = k.dport →
    (verdict h k (preroutingChain qs paused).rules).bind (Verdict.destination k.dport) = some d →
      k.sentTo c.wireGuard.interface d = some k' → ∃ q ∈ qs, SentOn c h qs paused q k k'
  forwarded : ∀ h qs paused q k k', routePolicies c = .ok qs → SentOn c h qs paused q k k' →
    (q.srcAllow.isNone || inSome h q.srcAllow k.src) = true →
      Rule.fires h k' (forwardAccept c.network.publicInterface c.wireGuard.interface q) = true
  counted : ∀ h qs paused q k k', routePolicies c = .ok qs → SentOn c h qs paused q k k' →
    verdict h k' (forwardRules c qs) = some .accept → k'.proto = q.proto ∧
      (qs.map (routeAcceptedRule c.network.publicInterface c.wireGuard.interface)).filter (Rule.fires h k') =
        [routeAcceptedRule c.network.publicInterface c.wireGuard.interface q]
  mapped : ∀ h qs q k i r, routePolicies c = .ok qs → q ∈ qs → (i, r) ∈ activeRoutes c → q.routeIndex = i → r.portMaps ≠ [] →
    ¬InTokens k.origDport (portTokens r.ports) →
      Rule.fires h k (forwardAccept c.network.publicInterface c.wireGuard.interface q) = false

/-- Every port numeral of the routes that are on is plain. -/
def PlainNumerals (c : Config) : Prop := ∀ p ∈ activeRoutes c, PlainPorts p.2

/-- The port texts of the routes that are on are read alike. -/
def PortsAlike (c : Config) : Prop := ∀ p ∈ activeRoutes c, RouteAlike p.2

theorem PlainPorts.alike {r : ForwardRoute} (h : PlainPorts r) : RouteAlike r where
  ports tok htok := readAlike_of_plain (trimmed_of_mem_portTokens htok) (h.ports tok htok)
  ranges m hm _ := readAlike_of_plain (trimmed_trimSpace _) (h.internal m hm)
  numerals m hm hrange := by
    have hplain := h.internal m hm
    have hnodash : '-' ∉ (trimSpace m.internal).toList := by simpa [PortMap.isRange, containsChar] using hrange
    rw [plainToken, cut_none hnodash] at hplain
    dsimp only at hplain
    rw [trimSpace_trimSpace] at hplain
    rw [readNumeral_plain hplain, Option.isSome_some]

theorem PlainNumerals.alike {c : Config} (h : PlainNumerals c) : PortsAlike c := fun p hp => (h p hp).alike

/-! ## The ports of a policy -/

section policy

variable {c : Config} {i : Nat} {r : ForwardRoute} {dnat : List RouteDNATLine} {proto : Proto} {h : Host} {k : Packet}

theorem not_dnat_paused {q : RoutePolicy} {d : String × Nat} :
    (verdict h k (writePausedRouteDrop q)).bind (Verdict.destination k.dport) ≠ some d := by
  intro hd
  obtain ⟨v, hv, hd⟩ := Option.bind_eq_some_iff.mp hd
  obtain ⟨rule, hrule, -, hverdict⟩ := verdict_eq_some hv
  obtain ⟨l, -, hrule⟩ := List.mem_flatMap.mp hrule
  have hdrop : Rule.verdict rule = some .drop := by
    split at hrule
    · cases hrule
    · obtain ⟨drops, heq, hdrops⟩ := @prerouting_perm q l.publicDport
        (counterStmt q.counter ++ [.drop, .comment (pausedRouteComment ++ toString q.routeIndex)])
      rw [heq] at hrule
      rcases List.mem_append.mp hrule with hrule | hrule
      · exact hdrops rule hrule
      · rw [allowRules_verdict hrule]
        simp [Stmt.verdict]
  obtain rfl := Option.some.inj (hverdict.symm.trans hdrop)
  cases hd

/-- Where a policy sends a packet, an entry of `ports` that lists its port leads it there. -/
theorem sent_entry (hc : RouteChecked c i r) (hread : PlainlyRead (portTokens r.ports))
    (hdnat : buildRouteDNATLines r (normalizedPortTokens r.ports) = .ok dnat) {d : String × Nat} {paused : List Nat}
    (hsent : (verdict h k (writeNATPreroutingRules [policyOf c i r dnat proto] paused)).bind (Verdict.destination k.dport) = some d) :
    k.proto = proto ∧ d.1 = trimSpace r.targetIP ∧
      ∃ tok ∈ normalizedPortTokens r.ports, listsPort k.dport tok = true ∧ leadsTo r.portMaps tok k.dport = some d.2 := by
  rw [writeNATPreroutingRules, List.flatMap_singleton] at hsent
  split at hsent
  · exact absurd hsent not_dnat_paused
  · obtain ⟨v, hv, hd⟩ := Option.bind_eq_some_iff.mp hsent
    obtain ⟨host, port, rfl⟩ : ∃ host port, v = .dnat host port := by
      cases v with
      | dnat host port => exact ⟨host, port, rfl⟩
      | accept => cases hd
      | drop => cases hd
      | masquerade => cases hd
    have hrules : verdict h k (dnatRules (policyOf c i r dnat proto)) = some (.dnat host port) :=
      verdict_filter_of_some hv fun rule _ hverdict => isDnat_of_dnat hverdict
    obtain ⟨hproto, hpasses⟩ := passes_of_dnatRules (dnat_target_ne hc hdnat) (by rw [hrules, Option.isSome_some])
    have hproto : k.proto = proto := hproto
    have heq := destination_eq hc hread hdnat hproto hpasses
    rw [hrules, Option.bind_some, hd] at heq
    obtain ⟨tok, htok, heq⟩ := Option.bind_eq_some_iff.mp heq.symm
    obtain ⟨p, hp, rfl⟩ := Option.map_eq_some_iff.mp heq
    exact ⟨hproto, rfl, tok, List.mem_of_find?_eq_some htok, List.find?_some htok, hp⟩

theorem set_has {ts : List String} {t : String} {p : Nat} (ht : t ∈ ts) (hp : (Ports.tok t).has p = true) : (Ports.set ts).has p = true := by
  refine List.any_eq_true.mpr ⟨t, ht, ?_⟩
  simpa [Ports.has, Ports.tokens] using hp

/-- A range that a map leads to has the port that it names. -/
theorem names_mem {m : PortMap} (hm : PortMapChecked m) (hrange : m.isRange = true) {p : Nat} (hcovers : m.Covers p) :
    ∃ qs, expandPortToken (trimSpace m.internal) = .ok qs ∧ m.names p ∈ qs := by
  obtain ⟨ps, qs, hps, hqs, hlen⟩ := hm.range hrange (by rw [hm.internal_noBrace]; exact Bool.false_ne_true)
  have hp := (inTokens_singleton (trimmed_trimSpace _) hps).mp hcovers
  rw [(expandPortToken_run hps).2, hlen] at hp
  refine ⟨qs, hqs, ?_⟩
  rw [(expandPortToken_run hqs).2, PortMap.names, if_pos hrange]
  omega

/-- The port that an entry leads to is one of those that the forward chain has for it. -/
theorem internalPort_has (hc : RouteChecked c i r) (halike : RouteAlike r) (hread : PlainlyRead (portTokens r.ports)) {tok : String}
    (htok : tok ∈ normalizedPortTokens r.ports) {p d : Nat} (hlists : listsPort p tok = true) (hleads : leadsTo r.portMaps tok p = some d) :
    (Ports.tok (internalPort tok r.portMaps)).has d = true := by
  have htrim : trimSpace tok = tok := trimmed_of_mem_normalized htok
  unfold internalPort
  rw [htrim]
  cases hfind : r.portMaps.find? fun m => trimSpace m.pub = tok with
  | none =>
    rw [leadsTo_unmapped hfind] at hleads
    obtain rfl := Option.some.inj hleads
    exact (has_tok (hread.entry htok) p).mpr (listsPort_iff.mp hlists)
  | some m =>
    have hm := List.mem_of_find?_eq_some hfind
    have hpub : trimSpace m.pub = tok := by simpa using List.find?_some hfind
    have hchecked := hc.maps.rows m hm
    rw [leadsTo_mapped hfind] at hleads
    dsimp only
    by_cases hrange : m.isRange = true
    · rw [if_pos hrange] at hleads
      obtain rfl := Option.some.inj hleads
      obtain ⟨qs, hqs, hmem⟩ := names_mem hchecked hrange (p := p) (by rw [PortMap.Covers, hpub]; exact listsPort_iff.mp hlists)
      have htokens := portTokens_of_token (trimmed_trimSpace m.internal) hqs
      have hinternal : PlainlyRead (portTokens [trimSpace m.internal]) := by
        rw [htokens]
        refine ⟨?_, ?_, ?_⟩ <;> intro t ht <;> rw [List.mem_singleton.mp ht]
        · exact trimmed_trimSpace m.internal
        · exact halike.ranges m hm hrange
        · exact ⟨qs, hqs⟩
      exact (has_tok hinternal _).mpr ((inTokens_singleton (trimmed_trimSpace _) hqs).mpr hmem)
    · rw [if_neg hrange] at hleads
      have hentries : listEntries (trimSpace m.internal) = [trimSpace m.internal] := by
        rw [listEntries_eq, portTokens_singleton, trimSpace_trimSpace, if_neg hchecked.internal, if_neg]
        intro hbrace
        have := containsChar_of_hasPrefix (Bool.and_eq_true_iff.mp hbrace).1
        rw [hchecked.internal_noBrace] at this
        cases this
      have hnodash : '-' ∉ (trimSpace m.internal).toList := by simpa [PortMap.isRange, containsChar] using hrange
      have hin : inRange d (trimSpace m.internal) = true := by
        rw [inRange, readRange, cut_none hnodash]
        dsimp only
        rw [trimSpace_trimSpace, hleads]
        simp
      simp [Ports.has, Ports.tokens, hentries, hin]

/-- A port that is sent on is one of those that the forward chain has for the route. -/
theorem forwardPorts_has (hc : RouteChecked c i r) (halike : RouteAlike r) (hread : PlainlyRead (portTokens r.ports)) {tok : String}
    (htok : tok ∈ normalizedPortTokens r.ports) {p d : Nat} (hlists : listsPort p tok = true) (hleads : leadsTo r.portMaps tok p = some d) :
    (routeForwardPorts r (.set (normalizedPortTokens r.ports))).dport.has d = true := by
  unfold routeForwardPorts
  by_cases hmaps : r.portMaps = []
  · rw [if_pos hmaps]
    rw [hmaps] at hleads
    obtain rfl := Option.some.inj hleads
    exact set_has htok ((has_tok (hread.entry htok) p).mpr (listsPort_iff.mp hlists))
  · rw [if_neg hmaps]
    refine set_has (mem_normalizedPortTokens.mpr ⟨internalPort tok r.portMaps, List.mem_map_of_mem htok, ?_, ?_⟩)
      (internalPort_has hc halike hread htok hlists hleads)
    · unfold internalPort
      split <;> exact trimSpace_trimSpace _
    · intro hempty
      have hhas := internalPort_has hc halike hread htok hlists hleads
      rw [hempty] at hhas
      cases hhas

theorem fires_wanToTunnel {pub wg : String} : Rule.fires h k (wanToTunnel pub wg) = (k.iif == pub && k.oif == wg) := by
  simp [wanToTunnel, Stmt.matches]

theorem addrHas_self {t : String} {a : Nat} (ht : parseIP t = some (.v4 a)) : addrHas t a = true := by
  rw [addrHas, cut_none (parseIP_noSlash ht), ht]
  exact beq_self_eq_true _

/-- The ports that the counter of a policy matches: those of the forward chain, and the public ones. -/
theorem routeAcceptedRule_eq (pub wg : String) : routeAcceptedRule pub wg (policyOf c i r dnat proto) =
    wanToTunnel pub wg ++ [.daddr (trimSpace r.targetIP)] ++
      [.dport proto (routeForwardPorts r (.set (normalizedPortTokens r.ports))).dport, .origDport (.set (normalizedPortTokens r.ports))] ++
      [.counter, .comment (routeAcceptedComment i proto)] := by
  unfold routeAcceptedRule policyOf routeForwardPorts PortMatch.stmts
  dsimp only
  by_cases hmaps : r.portMaps = []
  · rw [if_pos hmaps, if_pos rfl]
  · rw [if_neg hmaps, if_neg (by simp)]

theorem fires_accepted {pub wg : String} : Rule.fires h k (routeAcceptedRule pub wg (policyOf c i r dnat proto)) =
    (k.iif == pub && k.oif == wg && addrHas (trimSpace r.targetIP) k.dst && (k.proto == proto &&
      (routeForwardPorts r (.set (normalizedPortTokens r.ports))).dport.has k.dport) &&
        (Ports.set (normalizedPortTokens r.ports)).has k.origDport) := by
  rw [routeAcceptedRule_eq]
  simp only [fires_append, fires_cons, fires_nil, fires_wanToTunnel, Stmt.matches, Bool.and_true, Bool.and_assoc]

end policy

/-! ## The policies of a config -/

/-- What tells the policies of a config apart. -/
def RoutePolicy.key (q : RoutePolicy) : Nat × Proto := (q.routeIndex, q.proto)

theorem nodup_routePoliciesFrom {c : Config} : ∀ {i : Nat} {rs : List ForwardRoute} {qs : List RoutePolicy},
    routePoliciesFrom c i rs = .ok qs → (qs.map RoutePolicy.key).Nodup ∧ ∀ q ∈ qs, i ≤ q.routeIndex
  | _, [], _, h => by
    cases h
    exact ⟨List.nodup_nil, fun _ hq => absurd hq List.not_mem_nil⟩
  | i, r :: rs, _, h => by
    unfold routePoliciesFrom at h
    obtain ⟨ps, hps, h⟩ := bind_ok.mp h
    obtain ⟨rest, hrest, h⟩ := bind_ok.mp h
    obtain rfl := Except.ok.inj h
    obtain ⟨hnodup, hle⟩ := nodup_routePoliciesFrom hrest
    have hfirst : (ps.map RoutePolicy.key).Nodup ∧ ∀ q ∈ ps, q.routeIndex = i := by
      rcases routePoliciesOf_eq hps with ⟨_, rfl⟩ | ⟨_, _, protos, dnat, hprotos, _, rfl⟩
      · exact ⟨List.nodup_nil, fun _ hq => absurd hq List.not_mem_nil⟩
      · rw [List.map_map, List.forall_mem_map]
        exact ⟨(nodup_protos hprotos).map fun _ _ heq => (Prod.mk.inj heq).2, fun _ _ => rfl⟩
    rw [List.map_append]
    refine ⟨hfirst.1.append hnodup ?_, fun q hq => ?_⟩
    · intro key hkey hkey'
      obtain ⟨q, hq, rfl⟩ := List.mem_map.mp hkey
      obtain ⟨q', hq', heq⟩ := List.mem_map.mp hkey'
      have hindex := (Prod.mk.inj heq).1
      have := hfirst.2 q hq
      have := hle q' hq'
      omega
    · rcases List.mem_append.mp hq with hq | hq
      · exact Nat.le_of_eq (hfirst.2 q hq).symm
      · exact Nat.le_of_succ_le (hle q hq)

theorem nodup_routePolicies {c : Config} {qs : List RoutePolicy} (h : routePolicies c = .ok qs) : qs.Nodup := by
  unfold routePolicies at h
  split at h
  · cases h
    exact List.nodup_nil
  · exact List.Nodup.of_map _ (nodup_routePoliciesFrom h).1

/-- Of a list without duplicates a condition that one element meets alone leaves that element. -/
theorem filter_eq_singleton {α : Type} {P : α → Bool} {l : List α} (hnodup : l.Nodup) {a : α} (ha : a ∈ l) (hP : P a = true)
    (honly : ∀ b ∈ l, P b = true → b = a) : l.filter P = [a] := by
  have hmem : a ∈ l.filter P := List.mem_filter.mpr ⟨ha, hP⟩
  have hall : ∀ b ∈ l.filter P, b = a := fun b hb => honly b (List.mem_filter.mp hb).1 (List.mem_filter.mp hb).2
  have hreplicate := List.eq_replicate_of_mem hall
  have hnodup := hnodup.filter P
  rw [hreplicate, List.nodup_replicate] at hnodup
  have hlen : (l.filter P).length = 1 := Nat.le_antisymm hnodup (List.length_pos_of_mem hmem)
  rw [hreplicate, hlen, List.replicate_one]

/-- A packet that comes out of the prerouting chain rewritten by a policy of a route. -/
structure Carried (c : Config) (i : Nat) (r : ForwardRoute) (dnat : List RouteDNATLine) (k k' : Packet) : Prop where
  active : (i, r) ∈ activeRoutes c
  protos : ∃ protos, parseRouteProtocols r.proto = .ok protos ∧ k.proto ∈ protos
  lines : buildRouteDNATLines r (normalizedPortTokens r.ports) = .ok dnat
  listed : InTokens k.dport (portTokens r.ports)
  target : parseIP (trimSpace r.targetIP) = some (.v4 k'.dst)
  forwarded : (routeForwardPorts r (.set (normalizedPortTokens r.ports))).dport.has k'.dport = true
  iif : k'.iif = c.network.publicInterface
  oif : k'.oif = c.wireGuard.interface
  src : k'.src = k.src
  proto : k'.proto = k.proto
  orig : k'.origDport = k.dport

/-- The ports of an active route are read by nft as the config reads them. -/
theorem plainlyRead_active {c : Config} (hc : Checked c) (halike : PortsAlike c) {i : Nat} {r : ForwardRoute}
    (hr : (i, r) ∈ activeRoutes c) : PlainlyRead (portTokens r.ports) := by
  obtain ⟨hget, hd⟩ := mem_activeRoutes.mp hr
  obtain ⟨ps, hps⟩ := hc.ports_expand hget hd
  exact plainlyRead_ports hps (halike _ hr).ports

theorem sentTo_eq {k k' : Packet} {oif : String} {d : String × Nat} (h : k.sentTo oif d = some k') :
    parseIP d.1 = some (.v4 k'.dst) ∧ k' = { k with oif := oif, dst := k'.dst, dport := d.2 } := by
  unfold Packet.sentTo at h
  split at h
  · rename_i hip
    obtain rfl := Option.some.inj h
    exact ⟨hip, rfl⟩
  · cases h

/-- A packet that a policy sends on is carried by its route. -/
theorem SentOn.carried {c : Config} (hv : c.validate = .ok ()) (halike : PortsAlike c) {h : Host} {qs : List RoutePolicy}
    (hqs : routePolicies c = .ok qs) {paused : List Nat} {q : RoutePolicy} {k k' : Packet} (hsent : SentOn c h qs paused q k k') :
    q ∈ qs ∧ ∃ i r dnat, q = policyOf c i r dnat k.proto ∧ Carried c i r dnat k k' := by
  obtain ⟨pre, post, rfl, -⟩ := hsent.chain
  have hq : q ∈ pre ++ q :: post := List.mem_append_right _ List.mem_cons_self
  refine ⟨hq, ?_⟩
  obtain ⟨i, r, protos, dnat, hr, hprotos, hproto, hdnat, heq⟩ := mem_routePolicies hqs hq
  obtain ⟨d, hd, hto⟩ := hsent.rewritten
  have hc := (Config.checked hv).active hr
  have hread := plainlyRead_active (Config.checked hv) halike hr
  rw [heq] at hd
  obtain ⟨hk, htarget, tok, htok, hlists, hleads⟩ := sent_entry hc hread hdnat hd
  obtain ⟨hip, hk'⟩ := sentTo_eq hto
  obtain ⟨t, ht, hp⟩ := listsPort_iff.mp hlists
  refine ⟨i, r, dnat, by rwa [hk], ?_⟩
  exact
    { active := hr
      protos := ⟨protos, hprotos, by rwa [hk]⟩
      lines := hdnat
      listed := ⟨t, mem_portTokens.mpr ⟨tok, htok, ht⟩, hp⟩
      target := by rwa [htarget] at hip
      forwarded := by
        rw [hk']
        exact forwardPorts_has hc (halike _ hr) hread htok hlists hleads
      iif := by rw [hk', ← hsent.iif]
      oif := by rw [hk']
      src := by rw [hk']
      proto := by rw [hk']
      orig := by rw [hk', ← hsent.orig] }

/-! ## Agreement -/

/-- What the chain says of a packet, one of the policies says, and those before it say nothing. -/
theorem policy_of_verdict {h : Host} {k : Packet} {paused : List Nat} : ∀ {qs : List RoutePolicy} {v : Verdict},
    verdict h k (writeNATPreroutingRules qs paused) = some v →
      ∃ pre q post, qs = pre ++ q :: post ∧ verdict h k (writeNATPreroutingRules pre paused) = none ∧
        verdict h k (writeNATPreroutingRules [q] paused) = some v
  | [], _, hv => (nomatch hv)
  | q :: qs, v, hv => by
    have hcons : ∀ rest, writeNATPreroutingRules (q :: rest) paused =
        writeNATPreroutingRules [q] paused ++ writeNATPreroutingRules rest paused := fun rest => by
      rw [writeNATPreroutingRules, List.flatMap_cons, writeNATPreroutingRules, List.flatMap_singleton, writeNATPreroutingRules]
    rw [hcons, verdict_append] at hv
    cases hq : verdict h k (writeNATPreroutingRules [q] paused) with
    | some v' =>
      rw [hq, Option.some_or] at hv
      exact ⟨[], q, qs, rfl, rfl, hq.trans hv⟩
    | none =>
      rw [hq, Option.none_or] at hv
      obtain ⟨pre, q', post, rfl, hpre, hq'⟩ := policy_of_verdict hv
      refine ⟨q :: pre, q', post, rfl, ?_, hq'⟩
      rw [hcons, verdict_append, hq, hpre, Option.none_or]

section carried

variable {c : Config} {i : Nat} {r : ForwardRoute} {dnat : List RouteDNATLine} {h : Host} {k k' : Packet}

/-- The accept rule of the route takes a packet that it carries. -/
theorem Carried.forward (hk : Carried c i r dnat k k') (hread : PlainlyRead (portTokens r.ports))
    (hsrc : ((policyOf c i r dnat k.proto).srcAllow.isNone || inSome h (policyOf c i r dnat k.proto).srcAllow k.src) = true) :
    Rule.fires h k' (forwardAccept c.network.publicInterface c.wireGuard.interface (policyOf c i r dnat k.proto)) = true := by
  have hports : Rule.fires h k' ((routeForwardPorts r (.set (normalizedPortTokens r.ports))).stmts k.proto) = true := by
    have hhas := hk.forwarded
    have horig := (has_set hread k.dport).mpr hk.listed
    unfold routeForwardPorts at hhas ⊢
    unfold PortMatch.stmts
    split <;> simp_all [Stmt.matches, hk.proto, hk.orig]
  rw [forwardAccept, fires_append, fires_append, fires_append, fires_append, fires_fromSet, fires_wanToTunnel, hk.src, hsrc]
  rw [show (policyOf c i r dnat k.proto).forwardPorts = routeForwardPorts r (.set (normalizedPortTokens r.ports)) from rfl,
    show (policyOf c i r dnat k.proto).proto = k.proto from rfl, hports]
  simp [Stmt.matches, hk.iif, hk.oif, policyOf, addrHas_self hk.target]

/-- The counter of the route counts a packet that it carries. -/
theorem Carried.counted (hk : Carried c i r dnat k k') (hread : PlainlyRead (portTokens r.ports)) :
    Rule.fires h k' (routeAcceptedRule c.network.publicInterface c.wireGuard.interface (policyOf c i r dnat k.proto)) = true := by
  rw [fires_accepted, hk.iif, hk.oif, addrHas_self hk.target, hk.proto, hk.orig, hk.forwarded, (has_set hread k.dport).mpr hk.listed]
  simp

/-- No other policy's counter counts it. -/
theorem Carried.counted_once (hc : Checked c) (halike : PortsAlike c) {qs : List RoutePolicy} (hqs : routePolicies c = .ok qs)
    (hk : Carried c i r dnat k k') {q : RoutePolicy} (hq : q ∈ qs)
    (hfires : Rule.fires h k' (routeAcceptedRule c.network.publicInterface c.wireGuard.interface q) = true) :
    q = policyOf c i r dnat k.proto := by
  obtain ⟨j, r', protos', dnat', hr', hprotos', hproto', hdnat', heq⟩ := mem_routePolicies hqs hq
  rw [heq, fires_accepted, hk.proto, hk.orig] at hfires
  simp only [Bool.and_eq_true, beq_iff_eq] at hfires
  obtain ⟨⟨-, hproto, -⟩, horig⟩ := hfires
  have hlisted := (has_set (plainlyRead_active hc halike hr') k.dport).mp horig
  obtain ⟨hget, hd⟩ := mem_activeRoutes.mp hk.active
  obtain ⟨hget', hd'⟩ := mem_activeRoutes.mp hr'
  obtain ⟨protos, hprotos, hmem⟩ := hk.protos
  obtain ⟨ps, hps⟩ := hc.ports_expand hget hd
  obtain ⟨ps', hps'⟩ := hc.ports_expand hget' hd'
  have hclaims : Claims r (k.proto, k.dport) :=
    ⟨protos, ps, hprotos, hps, hmem, (publicPorts_mem hps (hc.active hk.active).maps _).mpr hk.listed⟩
  have hclaims' : Claims r' (k.proto, k.dport) :=
    ⟨protos', ps', hprotos', hps', by rwa [hproto], (publicPorts_mem hps' (hc.active hr').maps _).mpr hlisted⟩
  have hindex : j = i := by
    by_contra hne
    exact hc.claims_apart hget' hget hne hd' hd hclaims' hclaims
  subst hindex
  obtain rfl := Option.some.inj (hget'.symm.trans hget)
  obtain rfl := Except.ok.inj (hdnat'.symm.trans hk.lines)
  rw [heq, ← hproto]

end carried

/-- The rules of an accepted config with plain port numerals agree. -/
theorem countersAgree {c : Config} (hv : c.validate = .ok ()) (hplain : PlainNumerals c) : CountersAgree c where
  decided h qs paused k k' d _ hiif hnew horig hd hto := by
    obtain ⟨v, hverdict, hv⟩ := Option.bind_eq_some_iff.mp hd
    obtain ⟨pre, q, post, rfl, hpre, hq⟩ := policy_of_verdict hverdict
    refine ⟨q, List.mem_append_right _ List.mem_cons_self, hiif, hnew, horig, ⟨pre, post, rfl, hpre⟩, d, ?_, hto⟩
    rw [hq, Option.bind_some, hv]
  forwarded h qs paused q k k' hqs hsent hsrc := by
    obtain ⟨-, i, r, dnat, rfl, hk⟩ := hsent.carried hv hplain.alike hqs
    exact hk.forward (plainlyRead_active (Config.checked hv) hplain.alike hk.active) hsrc
  counted h qs paused q k k' hqs hsent _ := by
    obtain ⟨hq, i, r, dnat, rfl, hk⟩ := hsent.carried hv hplain.alike hqs
    refine ⟨hk.proto, ?_⟩
    rw [List.filter_map, filter_eq_singleton (nodup_routePolicies hqs) hq, List.map_singleton]
    · exact hk.counted (plainlyRead_active (Config.checked hv) hplain.alike hk.active)
    · exact fun q' hq' hfires => hk.counted_once (Config.checked hv) hplain.alike hqs hq' hfires
  mapped h qs q k i r hqs hq hr hi hmaps hout := by
    obtain ⟨j, r', protos, dnat, hr', -, -, -, heq⟩ := mem_routePolicies hqs hq
    obtain rfl : j = i := by rw [heq] at hi; exact hi
    obtain rfl := Option.some.inj ((mem_activeRoutes.mp hr').1.symm.trans (mem_activeRoutes.mp hr).1)
    refine Bool.eq_false_iff.mpr fun hfires => hout ?_
    have hmem : Stmt.origDport (.set (normalizedPortTokens r'.ports)) ∈ forwardAccept c.network.publicInterface c.wireGuard.interface q := by
      rw [heq]
      simp [forwardAccept, policyOf, routeForwardPorts, if_neg hmaps, PortMatch.stmts]
    have hhas := matches_of_fires hfires hmem
    exact (has_set (plainlyRead_active (Config.checked hv) hplain.alike hr) _).mp hhas

theorem countersAgree_sample : CountersAgree (mapConfig ["80-81", "443"] [⟨"80-81", "8080-8081"⟩]) :=
  countersAgree (by decide +kernel) fun p hp => by
    obtain rfl : p = (0, mapRoute ["80-81", "443"] [⟨"80-81", "8080-8081"⟩]) := List.mem_singleton.mp hp
    exact ⟨by decide +kernel, by decide +kernel⟩

end EvuProxy

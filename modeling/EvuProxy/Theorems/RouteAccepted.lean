import EvuProxy.Theorems.AcceptedLines

/-!
# Route counters

The rows of `parseRouteAccepted` and the rules they count. The live rules may have been rendered from another config than the one they
are described from, and a row for them is right only if the route fits the rule in its protocol, its target and its public ports.
-/

namespace EvuProxy

open Go Nft

/-! ## Rows and rules -/

/-- The rule of a policy in the chain of the counters. -/
def Config.acceptedRule (c : Config) (q : RoutePolicy) : Rule := routeAcceptedRule c.network.publicInterface c.wireGuard.interface q

/-- A listing of the chain that a config renders, with the counters of its rules. -/
structure AcceptedListing (c : Config) (rules : List (RoutePolicy × Counter)) (listing : String) : Prop where
  rendered : routePolicies c = .ok (rules.map Prod.fst)
  listed : ChainListed (rules.map fun x => (c.acceptedRule x.1, x.2)) listing

/-- The protocols of a route. -/
def ForwardRoute.protocols (r : ForwardRoute) : List Proto := (parseRouteProtocols r.proto).toOption.getD []

/-- The active routes of a config with each of their protocols, in order; there are none in maintenance mode. -/
def activeProtocols (c : Config) : List (Nat × ForwardRoute × Proto) :=
  if c.forwarding.maintenanceMode then [] else (activeRoutes c).flatMap fun p => p.2.protocols.map fun proto => (p.1, p.2, proto)

/-- The row of a route and one of its protocols. -/
def acceptedRow (x : Nat × ForwardRoute × Proto) (k : Counter) : RouteAcceptedCounter where
  routeIndex := x.1
  name := x.2.1.name
  proto := x.2.2
  ports := x.2.1.ports
  targetIP := trimSpace x.2.1.targetIP
  packets := k.packets.toNat
  bytes := k.bytes.toNat

/-- The public ports of a route are those that a rule asks for. -/
def HasPorts (r : ForwardRoute) (q : RoutePolicy) : Prop :=
  ∃ ps, expandRoutePortNumbers r.ports = .ok ps ∧ ∀ p, q.portExpr.has p = true ↔ p ∈ ps

/-- A route has the protocol, the target and the public ports of a rule. -/
structure FitsRule (r : ForwardRoute) (q : RoutePolicy) : Prop where
  proto : q.proto ∈ r.protocols
  target : trimSpace r.targetIP = q.target
  ports : HasPorts r q

/-- A row has the counts of a rule with its index and protocol, and is of a route that fits that rule. -/
def RightlyCounted (c : Config) (rules : List (RoutePolicy × Counter)) (row : RouteAcceptedCounter) : Prop :=
  ∃ x ∈ rules, ∃ r, c.forwarding.routes[x.1.routeIndex]? = some r ∧ row = acceptedRow (x.1.routeIndex, r, x.1.proto) x.2 ∧
    FitsRule r x.1

/-- Each rule of a config's own listing is the row of its route and protocol, with its counts, and no rule of another listing is a row of
a route that it does not fit. -/
structure AttributedRightly (c : Config) (rules : List (RoutePolicy × Counter)) (listing : String) (rules' : List (RoutePolicy × Counter))
    (listing' : String) : Prop where
  counters : rules.length = (activeProtocols c).length
  own : parseRouteAccepted c listing = List.zipWith acceptedRow (activeProtocols c) (rules.map Prod.snd)
  other : ∀ row ∈ parseRouteAccepted c listing', RightlyCounted c rules' row

/-- A line spells, as the address of its rule and what follows it, the target of the route with the rule's index, in which there is a
blank; and the route has the protocol and the public ports of the rule. -/
def Misread (c : Config) (q : RoutePolicy) (line : String) : Prop :=
  ∃ r, c.forwarding.routes[q.routeIndex]? = some r ∧ q.proto ∈ r.protocols ∧ HasPorts r q ∧ ' ' ∈ (trimSpace r.targetIP).toList ∧
    contains line ("ip daddr " ++ trimSpace r.targetIP ++ " ") = true

/-! ## One line -/

theorem mem_protocols {r : ForwardRoute} {proto : Proto} :
    proto ∈ r.protocols ↔ ∃ protos, parseRouteProtocols r.proto = .ok protos ∧ proto ∈ protos := by
  unfold ForwardRoute.protocols
  cases parseRouteProtocols r.proto with
  | error e => simp [Except.toOption]
  | ok protos => simp [Except.toOption]

section line

variable {c : Config} {q : RoutePolicy} {k : Counter} {line : String} {r : ForwardRoute}

/-- What the checks of a rule come to. -/
theorem ruleFits_iff (h : LineListed q k line) : ruleFits line q.proto r = true ↔
    q.proto ∈ r.protocols ∧ contains line ("ip daddr " ++ trimSpace r.targetIP ++ " ") = true ∧ HasPorts r q := by
  obtain ⟨e, he, hexpr⟩ := search_publicPorts h
  unfold ruleFits
  rw [mem_protocols, HasPorts, ← routeAcceptedPortsFit_iff he hexpr]
  cases parseRouteProtocols r.proto with
  | error e => simp
  | ok protos => simp [and_assoc]

theorem parseUint64_toString (n : UInt64) : parseUint64 (toString n.toNat).toList = n.toNat := by
  have hlt := n.toNat_lt
  rw [parseUint64, digitsVal_toString]
  omega

/-- The row of a listed rule. -/
theorem parseRouteAcceptedLine_listed (h : LineListed q k line) (hlen : c.forwarding.routes.length ≤ 2 ^ 63) :
    parseRouteAcceptedLine c line = (c.forwarding.routes[q.routeIndex]?).bind fun r =>
      if ruleFits line q.proto r then some (acceptedRow (q.routeIndex, r, q.proto) k) else none := by
  have hcomment : parseRouteAcceptedComment line = if q.routeIndex < 2 ^ 63 then some (q.routeIndex, q.proto) else none := by
    rw [parseRouteAcceptedComment, search_comment h, Option.bind_eq_bind, Option.bind_some]
    dsimp only
    rw [String.ofList_toList, atoi_numeral]
    by_cases hint : q.routeIndex < 2 ^ 63
    · rw [if_pos hint, if_pos hint, Option.bind_eq_bind, Option.bind_some, Int.toNat_natCast]
      rfl
    · rw [if_neg hint, if_neg hint, Option.bind_eq_bind, Option.bind_none]
  unfold parseRouteAcceptedLine
  rw [hcomment, search_counter h]
  cases hr : c.forwarding.routes[q.routeIndex]? with
  | none =>
    by_cases hint : q.routeIndex < 2 ^ 63
    · rw [if_pos hint, Option.bind_eq_bind, Option.bind_some]
      dsimp only
      rw [hr, Option.bind_eq_bind, Option.bind_none, Option.bind_none]
    · rw [if_neg hint, Option.bind_eq_bind, Option.bind_none, Option.bind_none]
  | some r =>
    have hlt := (List.getElem?_eq_some_iff.mp hr).1
    rw [if_pos (Nat.lt_of_lt_of_le hlt hlen), Option.bind_eq_bind, Option.bind_some, Option.bind_some]
    dsimp only
    rw [hr, Option.bind_eq_bind, Option.bind_some]
    cases hfits : ruleFits line q.proto r with
    | false => rfl
    | true =>
      rw [Bool.not_true, if_neg Bool.false_ne_true, if_pos rfl, Option.bind_eq_bind, Option.bind_some]
      dsimp only
      rw [parseUint64_toString, parseUint64_toString]
      rfl

/-- A line without quotes has no row. -/
theorem parseRouteAcceptedLine_frame (h : '"' ∉ line.toList) : parseRouteAcceptedLine c line = none := by
  have hnone : search routeAcceptedCommentRE line.toList = none := by
    have hskip := @search_skip _ routeAcceptedCommentRE line.toList [] fun v _ hsuf => ?_
    · rw [List.append_nil] at hskip
      rw [hskip]
      decide
    · by_contra hsome
      rw [List.append_nil] at hsome
      obtain ⟨d, t, rfl, -, hpre⟩ := twoWords_comment v hsome
      have hmem : '"' ∈ "\"evuproxy-accepted route=".toList := by decide
      exact h (hsuf.subset (List.mem_append_right _ (List.mem_cons_of_mem _ ((List.dropWhile_sublist _).subset (hpre.subset hmem)))))
  unfold parseRouteAcceptedLine parseRouteAcceptedComment
  rw [hnone]
  rfl

end line

/-! ## The lines of a listing -/

theorem quotedName_oneLine {lead core trail : List Char} (hlead : ∀ c ∈ lead, isSpace c = true) (hcore : ∀ c ∈ core, isBlankRE c = false)
    (htrail : ∀ c ∈ trail, isSpace c = true) : '\n' ∉ quotedName lead core trail := by
  have hspace : ∀ {cs : List Char}, (∀ c ∈ cs, isSpace c = true) → '\n' ∉ quotedSpace cs := by
    intro cs hcs hmem
    rcases mem_quotedSpace hcs hmem with hmem | hhigh
    · exact absurd hmem (by decide)
    · exact absurd hhigh (by decide)
  have hname : '\n' ∉ core := fun hmem => absurd (hcore _ hmem) (by decide)
  simp [quotedName, hspace hlead, hspace htrail, hname]

theorem LineListed.oneLine {q : RoutePolicy} {k : Counter} {line : String} (h : LineListed q k line) : '\n' ∉ line.toList := by
  obtain ⟨pub, wg, dport, e, S, hpub, hwg, hdport, he, hline⟩ := h.shape
  obtain ⟨lead, core, trail, hlead, hcore, htrail, hquote⟩ := quote_iface hpub
  obtain ⟨lead', core', trail', hlead', hcore', htrail', hquote'⟩ := quote_iface hwg
  have hnumber : ∀ n : Nat, '\n' ∉ (toString n).toList := fun n => not_mem_toString (by decide)
  have htarget : '\n' ∉ q.target.toList := by
    intro hmem
    rcases h.target _ hmem with hdigit | hdot
    · exact absurd hdigit (by decide)
    · exact absurd hdot (by decide)
  have hproto : '\n' ∉ (" " ++ q.proto.text ++ " dport ").toList ∧ '\n' ∉ (q.proto.text ++ "\"").toList := by
    cases q.proto <;> decide +kernel
  have hiif : '\n' ∉ "\t\tiifname ".toList := by decide
  have hoif : '\n' ∉ " oifname ".toList := by decide
  have hdaddr : '\n' ∉ "ip daddr ".toList := by decide
  have hct : '\n' ∉ "ct original proto-dst ".toList := by decide
  have hpackets : '\n' ∉ "counter packets ".toList := by decide
  have hbytes : '\n' ∉ " bytes ".toList := by decide
  have hcomment : '\n' ∉ "comment \"evuproxy-accepted route=".toList := by decide
  have hprotoeq : '\n' ∉ " proto=".toList := by decide
  have happend : ∀ {a b : List Char}, '\n' ∉ a → '\n' ∉ b → '\n' ∉ a ++ b := fun ha hb hmem => (List.mem_append.mp hmem).elim ha hb
  have hblank : ∀ {a : List Char}, '\n' ∉ a → '\n' ∉ ' ' :: a := fun ha hmem => (List.mem_cons.mp hmem).elim (by decide) ha
  have hfromComment : '\n' ∉ commentPart q := happend hcomment (happend (hnumber _) (happend hprotoeq hproto.2))
  have hfromCounter : '\n' ∉ counterPart q k :=
    happend hpackets (happend (hnumber _) (happend hbytes (happend (hnumber _) (hblank hfromComment))))
  have hfromPorts : '\n' ∉ portsPart q k e := happend hct (happend (listed_oneLine he) (hblank hfromCounter))
  have hfromDaddr : '\n' ∉ daddrPart q k dport e :=
    happend hdaddr (happend htarget (happend hproto.1 (happend (listed_oneLine hdport) (hblank hfromPorts))))
  have hpubLine : '\n' ∉ (quote pub).toList := hquote ▸ quotedName_oneLine hlead hcore htrail
  have hwgLine : '\n' ∉ (quote wg).toList := hquote' ▸ quotedName_oneLine hlead' hcore' htrail'
  rw [hline]
  exact happend hiif (happend hpubLine (happend hoif (happend hwgLine (hblank hfromDaddr))))

/-- Lines that are joined are split again. -/
theorem split_lines {lines : List String} (hne : lines ≠ []) (h : ∀ line ∈ lines, '\n' ∉ line.toList) :
    split (join lines "\n") '\n' = lines := by
  have hone : ∀ line ∈ lines, splitList (· == '\n') line.toList = [line.toList] := by
    intro line hline
    refine splitList_noSep fun c hc => beq_eq_false_iff_ne.mpr ?_
    rintro rfl
    exact h line hline hc
  have hnewline : "\n".toList = ['\n'] := by decide
  have hpieces : splitList (· == '\n') (join lines "\n").toList = lines.map String.toList := by
    clear h
    induction lines with
    | nil => exact absurd rfl hne
    | cons line lines ih =>
      cases lines with
      | nil => exact hone line List.mem_cons_self
      | cons next lines =>
        rw [join, @String.toList_append (line ++ "\n"), @String.toList_append line, hnewline, List.append_assoc, List.singleton_append,
          splitList_append (by decide), hone line List.mem_cons_self,
          ih (List.cons_ne_nil _ _) fun l hl => hone l (List.mem_cons_of_mem _ hl)]
        rfl
  have hself : String.ofList ∘ String.toList = id := funext fun _ => String.ofList_toList
  rw [split, hpieces, List.map_map, hself, List.map_id]

theorem forall₂_mem_right {α β : Type} {R : α → β → Prop} {as : List α} {bs : List β} (h : List.Forall₂ R as bs) {b : β}
    (hb : b ∈ bs) : ∃ a ∈ as, R a b := by
  induction h with
  | nil => exact absurd hb List.not_mem_nil
  | cons hab _ ih =>
    rcases List.mem_cons.mp hb with rfl | hb
    · exact ⟨_, List.mem_cons_self, hab⟩
    · obtain ⟨a, ha, hab⟩ := ih hb
      exact ⟨a, List.mem_cons_of_mem _ ha, hab⟩

/-- A rule that an accepted config renders is listed with its interfaces and its target. -/
theorem lineListed {c : Config} {qs : List RoutePolicy} {q : RoutePolicy} {k : Counter} {line : String} (hchecked : Checked c)
    (hqs : routePolicies c = .ok qs) (hq : q ∈ qs) (h : RuleListed k (c.acceptedRule q) line) : LineListed q k line := by
  obtain ⟨i, r, protos, dnat, hr, -, -, -, heq⟩ := mem_routePolicies hqs hq
  rw [heq] at h ⊢
  obtain ⟨ports, dport, e, hdport, he, hline⟩ := listed_line h
  exact ⟨⟨_, _, dport, e, _, hchecked.publicInterface, hchecked.wgInterface, hdport, he, hline⟩, (hchecked.active hr).target_chars⟩

section listing

variable {c : Config} {rules : List (RoutePolicy × Counter)} {listing : String}

/-- The listed rules of an accepted config, line by line. -/
theorem AcceptedListing.lines (hv : c.validate = .ok ()) (h : AcceptedListing c rules listing) :
    ∃ opening lines closing,
      List.Forall₂ (fun x line => RuleListed x.2 (c.acceptedRule x.1) line ∧ LineListed x.1 x.2 line) rules lines ∧
      (∀ line ∈ opening, '"' ∉ line.toList) ∧ (∀ line ∈ closing, '"' ∉ line.toList) ∧
      split listing '\n' = opening ++ lines ++ closing := by
  obtain ⟨opening, lines, closing, hlines, hopening, hclosing, hne, rfl⟩ := h.listed
  have hchecked := c.checked hv
  have hrules : List.Forall₂ (fun x line => RuleListed x.2 (c.acceptedRule x.1) line ∧ LineListed x.1 x.2 line) rules lines := by
    rw [List.forall₂_map_left_iff] at hlines
    have hmem := (List.forall₂_and_left rules lines).mpr ⟨fun x hx => List.mem_map_of_mem (f := Prod.fst) hx, hlines⟩
    exact hmem.imp fun x line hx => ⟨hx.2, lineListed hchecked h.rendered hx.1 hx.2⟩
  have hline : ∀ line ∈ lines, '\n' ∉ line.toList := by
    intro line hline
    obtain ⟨x, -, hx⟩ := forall₂_mem_right hrules hline
    exact hx.2.oneLine
  refine ⟨opening, lines, closing, hrules, fun line hline => (hopening line hline).1, fun line hline => (hclosing line hline).1, ?_⟩
  refine split_lines (fun hnil => hne (List.append_eq_nil_iff.mp hnil).2) fun line hmem => ?_
  rcases List.mem_append.mp hmem with hmem | hmem
  · rcases List.mem_append.mp hmem with hmem | hmem
    · exact (hopening line hmem).2
    · exact hline line hmem
  · exact (hclosing line hmem).2

end listing

/-! ## The policies of the active routes -/

theorem mem_activeProtocols {c : Config} {y : Nat × ForwardRoute × Proto} (h : y ∈ activeProtocols c) :
    (y.1, y.2.1) ∈ activeRoutes c ∧ y.2.2 ∈ y.2.1.protocols := by
  unfold activeProtocols at h
  split at h
  · exact absurd h List.not_mem_nil
  · obtain ⟨p, hp, h⟩ := List.mem_flatMap.mp h
    obtain ⟨proto, hproto, rfl⟩ := List.mem_map.mp h
    exact ⟨hp, hproto⟩

/-- The policies from a route on are those of the active routes from it on, with their protocols. -/
theorem policies_activeFrom {c : Config} : ∀ {i : Nat} {rs : List ForwardRoute} {qs : List RoutePolicy}, routePoliciesFrom c i rs = .ok qs →
    List.Forall₂ (fun q y => ∃ dnat, q = policyOf c y.1 y.2.1 dnat y.2.2) qs
      (((rs.zipIdx i).filter fun p => !p.1.disabled).flatMap fun p => p.1.protocols.map fun proto => (p.2, p.1, proto))
  | _, [], _, h => by
    cases h
    exact .nil
  | i, r :: rs, _, h => by
    unfold routePoliciesFrom at h
    obtain ⟨ps, hps, h⟩ := bind_ok.mp h
    obtain ⟨rest, hrest, h⟩ := bind_ok.mp h
    obtain rfl := Except.ok.inj h
    have ih := policies_activeFrom hrest
    rw [List.zipIdx_cons, List.filter_cons]
    rcases routePoliciesOf_eq hps with ⟨hd, rfl⟩ | ⟨hd, -, protos, dnat, hprotos, -, rfl⟩
    · rw [hd]
      exact ih
    · have hprotocols : r.protocols = protos := by
        rw [ForwardRoute.protocols, hprotos]
        rfl
      rw [hd, Bool.not_false, if_pos rfl, List.flatMap_cons]
      refine List.rel_append ?_ ih
      dsimp only
      rw [hprotocols, List.forall₂_map_left_iff, List.forall₂_map_right_iff]
      exact List.forall₂_same.mpr fun proto _ => ⟨dnat, rfl⟩

theorem policies_active {c : Config} {qs : List RoutePolicy} (h : routePolicies c = .ok qs) :
    List.Forall₂ (fun q y => ∃ dnat, q = policyOf c y.1 y.2.1 dnat y.2.2) qs (activeProtocols c) := by
  unfold routePolicies at h
  unfold activeProtocols
  split at h
  · rename_i hon
    obtain rfl := Except.ok.inj h
    rw [if_pos hon]
    exact .nil
  · rename_i hon
    rw [if_neg hon, activeRoutes, List.flatMap_map]
    exact policies_activeFrom h

/-- The policies of a config are determined by their index and protocol. -/
theorem policy_unique {c : Config} {qs : List RoutePolicy} (h : routePolicies c = .ok qs) {q q' : RoutePolicy} (hq : q ∈ qs) (hq' : q' ∈ qs)
    (hindex : q.routeIndex = q'.routeIndex) (hproto : q.proto = q'.proto) : q = q' := by
  obtain ⟨i, r, protos, dnat, hr, -, -, hdnat, heq⟩ := mem_routePolicies h hq
  obtain ⟨j, r', protos', dnat', hr', -, -, hdnat', heq'⟩ := mem_routePolicies h hq'
  rw [heq, heq'] at hindex
  obtain rfl : i = j := hindex
  obtain rfl := Option.some.inj ((mem_activeRoutes.mp hr).1.symm.trans (mem_activeRoutes.mp hr').1)
  obtain rfl := Except.ok.inj (hdnat.symm.trans hdnat')
  rw [heq, heq', hproto]

/-! ## Rows of a config's own rules -/

section own

variable {c : Config} {i : Nat} {r : ForwardRoute} {dnat : List RouteDNATLine} {proto : Proto} {k : Counter} {line : String}

/-- An active route fits the rules of its policies. -/
theorem fitsRule_policyOf (hchecked : Checked c) (hr : (i, r) ∈ activeRoutes c) (hproto : proto ∈ r.protocols)
    (hplain : ∀ tok ∈ portTokens r.ports, plainToken tok = true) : FitsRule r (policyOf c i r dnat proto) := by
  obtain ⟨hget, hd⟩ := mem_activeRoutes.mp hr
  obtain ⟨ps, hps⟩ := hchecked.ports_expand hget hd
  have hread := plainlyRead_plain hps hplain
  obtain ⟨seen, hseen, hlist⟩ := @expandTokens_total "ports" (fun _ e => e) (portTokens r.ports) [] portList_nil hread.ports
  refine ⟨hproto, rfl, seen.insertionSort (· ≤ ·), ?_, fun p => ?_⟩
  · rw [expandRoutePortNumbers, hseen]
    rfl
  · rw [List.mem_insertionSort, expandTokens_mem hseen, or_iff_right List.not_mem_nil]
    exact has_set hread p

/-- A target without a blank that is found is the target of the rule. -/
theorem ruleFits_own {q : RoutePolicy} (h : LineListed q k line) (hfits : FitsRule r q) : ruleFits line q.proto r = true := by
  have hnoblank : ' ' ∉ (trimSpace r.targetIP).toList := by
    rw [hfits.target]
    exact h.noBlank
  exact (ruleFits_iff h).mpr ⟨hfits.proto, (contains_daddr h hnoblank).mpr hfits.target, hfits.ports⟩

end own

/-! ## Rows of any listing -/

theorem filterMap_zipWith {α β γ δ : Type} {L : α × β → String → Prop} {P : α → γ → Prop} {f : String → Option δ}
    {g : γ → β → δ}
    (h : ∀ x line y, L x line → P x.1 y → f line = some (g y x.2)) {rules : List (α × β)} {lines : List String} :
    List.Forall₂ L rules lines → ∀ {ys : List γ}, List.Forall₂ P (rules.map Prod.fst) ys →
      lines.filterMap f = List.zipWith g ys (rules.map Prod.snd) := by
  intro hlines
  induction hlines with
  | nil =>
    intro ys hys
    cases hys
    rfl
  | cons hline _ ih =>
    intro ys hys
    cases hys with
    | cons hy hys => rw [List.filterMap_cons_some (h _ _ _ hline hy), ih hys, List.map_cons, List.zipWith_cons_cons]

section rows

variable {c c' : Config} {rules : List (RoutePolicy × Counter)} {listing : String}

/-- The rows of a listing are those of the lines of its rules. -/
theorem AcceptedListing.rows (hv : c'.validate = .ok ()) (h : AcceptedListing c' rules listing) : ∃ lines,
    List.Forall₂ (fun x line => RuleListed x.2 (c'.acceptedRule x.1) line ∧ LineListed x.1 x.2 line) rules lines ∧
      (∀ line ∈ lines, line ∈ split listing '\n') ∧ parseRouteAccepted c listing = lines.filterMap (parseRouteAcceptedLine c) := by
  obtain ⟨opening, lines, closing, hlines, hopening, hclosing, hsplit⟩ := h.lines hv
  have hframe : ∀ {ls : List String}, (∀ line ∈ ls, '"' ∉ line.toList) → ls.filterMap (parseRouteAcceptedLine c) = [] := fun hls =>
    List.filterMap_eq_nil_iff.mpr fun line hline => parseRouteAcceptedLine_frame (hls line hline)
  refine ⟨lines, hlines, fun line hline => ?_, ?_⟩
  · rw [hsplit]
    exact List.mem_append_left _ (List.mem_append_right _ hline)
  · rw [parseRouteAccepted, hsplit, List.filterMap_append, List.filterMap_append, hframe hopening, hframe hclosing, List.nil_append,
      List.append_nil]

/-- A config's own listing gives the row of each of its active routes and their protocols. -/
theorem rows_own (hv : c.validate = .ok ()) (hplain : ∀ p ∈ activeRoutes c, ∀ tok ∈ portTokens p.2.ports, plainToken tok = true)
    (hlen : c.forwarding.routes.length ≤ 2 ^ 63) (h : AcceptedListing c rules listing) :
    parseRouteAccepted c listing = List.zipWith acceptedRow (activeProtocols c) (rules.map Prod.snd) := by
  obtain ⟨lines, hlines, -, hrows⟩ := @AcceptedListing.rows c c _ _ hv h
  have hactive : List.Forall₂ (fun q y => ((y.1, y.2.1) ∈ activeRoutes c ∧ y.2.2 ∈ y.2.1.protocols) ∧
      ∃ dnat, q = policyOf c y.1 y.2.1 dnat y.2.2) (rules.map Prod.fst) (activeProtocols c) := by
    have hflip := (List.forall₂_and_left _ _).mpr ⟨fun y => mem_activeProtocols, (policies_active h.rendered).flip⟩
    exact hflip.flip
  rw [hrows]
  refine filterMap_zipWith (fun x line y hline hy => ?_) hlines hactive
  obtain ⟨⟨hr, hproto⟩, dnat, hq⟩ := hy
  obtain ⟨-, hline⟩ := hline
  have hfits := ruleFits_own hline (hq ▸ fitsRule_policyOf (c.checked hv) hr hproto (hplain _ hr))
  have hget : c.forwarding.routes[x.1.routeIndex]? = some y.2.1 := by
    rw [hq]
    exact (mem_activeRoutes.mp hr).1
  rw [parseRouteAcceptedLine_listed hline hlen, hget, Option.bind_some, hfits, if_pos rfl, hq]
  rfl

/-- A row of a listed rule is of the route with its index, which passes the checks. -/
theorem row_listed {q : RoutePolicy} {k : Counter} {line : String} {row : RouteAcceptedCounter} (h : LineListed q k line)
    (hlen : c.forwarding.routes.length ≤ 2 ^ 63) : parseRouteAcceptedLine c line = some row ↔
      ∃ r, c.forwarding.routes[q.routeIndex]? = some r ∧ ruleFits line q.proto r = true ∧
        row = acceptedRow (q.routeIndex, r, q.proto) k := by
  rw [parseRouteAcceptedLine_listed h hlen, Option.bind_eq_some_iff]
  refine exists_congr fun r => and_congr_right fun _ => ?_
  rw [Option.ite_none_right_eq_some, Option.some.injEq]
  exact and_congr_right fun _ => eq_comm

end rows

/-- Only a route that is off can be misread: the target of an active one is an address. -/
theorem Misread.disabled {c : Config} {q : RoutePolicy} {line : String} (hv : c.validate = .ok ()) (h : Misread c q line) :
    ∃ r, c.forwarding.routes[q.routeIndex]? = some r ∧ r.disabled = true := by
  obtain ⟨r, hget, -, -, hblank, -⟩ := h
  refine ⟨r, hget, ?_⟩
  cases hd : r.disabled with
  | true => rfl
  | false =>
    rcases ((c.checked hv).routes _ r hget hd).target_chars _ hblank with hdigit | hdot
    · exact absurd hdigit (by decide)
    · exact absurd hdot (by decide)

/-- A line that is misread has a row, which is not right. -/
theorem not_attributed_of_misread {c c' : Config} {rules rules' : List (RoutePolicy × Counter)} {listing listing' line : String}
    {x : RoutePolicy × Counter} (hlen : c.forwarding.routes.length ≤ 2 ^ 63) (hv' : c'.validate = .ok ())
    (hl' : AcceptedListing c' rules' listing') (hx : x ∈ rules') (hline : line ∈ split listing' '\n')
    (hlisted : RuleListed x.2 (c'.acceptedRule x.1) line) (hmisread : Misread c x.1 line) :
    ¬AttributedRightly c rules listing rules' listing' := by
  obtain ⟨r, hget, hproto, hports, hblank, hcontains⟩ := hmisread
  intro h
  have hshape := lineListed (c'.checked hv') hl'.rendered (List.mem_map_of_mem hx) hlisted
  have hfits := (ruleFits_iff hshape).mpr ⟨hproto, hcontains, hports⟩
  have hrow := (row_listed hshape hlen).mpr ⟨r, hget, hfits, rfl⟩
  obtain ⟨x', hx', r', hget', heq, hright⟩ := h.other _ (List.mem_filterMap.mpr ⟨line, hline, hrow⟩)
  have hindex : x.1.routeIndex = x'.1.routeIndex := congrArg RouteAcceptedCounter.routeIndex heq
  have hsame := policy_unique hl'.rendered (List.mem_map_of_mem hx) (List.mem_map_of_mem hx') hindex
    (congrArg RouteAcceptedCounter.proto heq)
  rw [← hsame] at hget' hright
  obtain rfl := Option.some.inj (hget.symm.trans hget')
  rw [hright.target] at hblank
  exact hshape.noBlank hblank

/-- For an accepted config with plain port numerals, its own listing gives one row for each active route and protocol; and the rows of
the listing of another config are those of routes that fit their rules exactly where no line of it is misread. -/
theorem attributedRightly_iff {c c' : Config} {rules rules' : List (RoutePolicy × Counter)} {listing listing' : String}
    (hv : c.validate = .ok ()) (hplain : ∀ p ∈ activeRoutes c, ∀ tok ∈ portTokens p.2.ports, plainToken tok = true)
    (hlen : c.forwarding.routes.length ≤ 2 ^ 63) (hv' : c'.validate = .ok ()) (hl : AcceptedListing c rules listing)
    (hl' : AcceptedListing c' rules' listing') : AttributedRightly c rules listing rules' listing' ↔
      ∀ x ∈ rules', ∀ line ∈ split listing' '\n', RuleListed x.2 (c'.acceptedRule x.1) line → ¬Misread c x.1 line := by
  constructor
  · exact fun h x hx line hline hlisted hmisread => not_attributed_of_misread hlen hv' hl' hx hline hlisted hmisread h
  · intro hnone
    refine ⟨?_, rows_own hv hplain hlen hl, fun row hrow => ?_⟩
    · rw [← (policies_active hl.rendered).length_eq, List.length_map]
    · obtain ⟨lines, hlines, hsplit, hrows⟩ := @AcceptedListing.rows c c' _ _ hv' hl'
      rw [hrows] at hrow
      obtain ⟨line, hline, hrow⟩ := List.mem_filterMap.mp hrow
      obtain ⟨x, hx, hlisted, hshape⟩ := forall₂_mem_right hlines hline
      obtain ⟨r, hget, hfits, rfl⟩ := (row_listed hshape hlen).mp hrow
      obtain ⟨hproto, hcontains, hports⟩ := (ruleFits_iff hshape).mp hfits
      have hnoblank : ' ' ∉ (trimSpace r.targetIP).toList := fun hblank =>
        hnone x hx line (hsplit line hline) hlisted ⟨r, hget, hproto, hports, hblank, hcontains⟩
      exact ⟨x, hx, r, hget, rfl, hproto, (contains_daddr hshape hnoblank).mp hcontains, hports⟩

/-! ## A target with a blank -/

/-- The rule of a route for port 80 of 10.0.0.2, after five packets. -/
def sampleLine (i : Nat) : String :=
  "\t\t" ++ join ["iifname \"eth0\"", "oifname \"wg0\"", "ip daddr 10.0.0.2", "tcp dport 80", "ct original proto-dst 80",
    "counter packets 5 bytes 300", (Stmt.comment (routeAcceptedComment i .tcp)).text] " "

/-- What stands before the rules of the chain, and after them. -/
def sampleFrame : List String × List String :=
  (["table inet evuproxy_accepted \x7b", "\tchain route_accepted \x7b", "\t\ttype filter hook forward priority filter + 10; policy accept;"],
    ["\t\x7d", "\x7d", ""])

/-- The listing of the chain with that rule. -/
def sampleListing (i : Nat) : String := join (sampleFrame.1 ++ [sampleLine i] ++ sampleFrame.2) "\n"

/-- The policy of the rule. -/
def samplePolicy (c : Config) (i : Nat) : RoutePolicy :=
  policyOf c i (mapRoute ["80"] []) [{ publicDport := "80", dnatTo := ("10.0.0.2", none) }] .tcp

/-- The rule with its counter. -/
def sampleRules (c : Config) (i : Nat) : List (RoutePolicy × Counter) := [(samplePolicy c i, { packets := 5, bytes := 300 })]

/-- A config of a route that is off, whose target has a word after its address, and of one that is on. -/
def wordyConfig : Config :=
  { mapConfig ["80"] [] with
    forwarding := { routes := [{ proto := "tcp", ports := ["80"], targetIP := "10.0.0.2 tcp", disabled := true }, mapRoute ["80"] []] } }

theorem has_eighty (p : Nat) : (Ports.set ["80"]).has p = true ↔ p = 80 := has_toString (n := 80) (by decide) (by decide) p

theorem portsListed_eighty : PortsListed (fun p => (Ports.set ["80"]).has p = true) "80" := by
  refine .item { lo := 80, hi := 80, le := by decide, bound := by decide } fun p => ?_
  rw [has_eighty]
  exact ⟨fun h => ⟨Nat.le_of_eq h.symm, Nat.le_of_eq h⟩, fun h => Nat.le_antisymm h.2 h.1⟩

theorem ruleListed_sample {c : Config} {i : Nat} (hpub : c.network.publicInterface = "eth0") (hwg : c.wireGuard.interface = "wg0") :
    RuleListed { packets := 5, bytes := 300 } (c.acceptedRule (samplePolicy c i)) (sampleLine i) := by
  have htarget : trimSpace "10.0.0.2" = "10.0.0.2" := by decide +kernel
  have hports : normalizedPortTokens ["80"] = ["80"] := by decide +kernel
  have hrule : c.acceptedRule (samplePolicy c i) = [.iifname "eth0", .oifname false "wg0", .daddr "10.0.0.2", .dport .tcp (.set ["80"]),
      .origDport (.set ["80"]), .counter, .comment (routeAcceptedComment i .tcp)] := by
    simp [Config.acceptedRule, samplePolicy, routeAcceptedRule, policyOf, routeForwardPorts, mapRoute, wanToTunnel, PortMatch.stmts,
      htarget, hports, hpub, hwg]
  have hiif : "iifname \"eth0\"" = (Stmt.iifname "eth0").text := by decide +kernel
  have hoif : "oifname \"wg0\"" = (Stmt.oifname false "wg0").text := by decide +kernel
  have hdaddr : "ip daddr 10.0.0.2" = (Stmt.daddr "10.0.0.2").text := by decide +kernel
  have hdport : "tcp dport 80" = Proto.tcp.text ++ " dport " ++ "80" := by decide +kernel
  have horig : "ct original proto-dst 80" = "ct original proto-dst " ++ "80" := by decide +kernel
  have hcounter : "counter packets 5 bytes 300" = "counter packets " ++ toString 5 ++ " bytes " ++ toString 300 := by decide +kernel
  rw [hrule]
  exact ⟨_, .cons hiif (.cons hoif (.cons hdaddr (.cons ⟨"80", portsListed_eighty, hdport⟩ (.cons ⟨"80", portsListed_eighty, horig⟩
    (.cons hcounter (.cons rfl .nil)))))), rfl⟩

theorem sampleFrame_frames : (∀ line ∈ sampleFrame.1, Frame line) ∧ ∀ line ∈ sampleFrame.2, Frame line := by
  have hopening : ∀ line ∈ sampleFrame.1, '"' ∉ line.toList ∧ '\n' ∉ line.toList := by decide +kernel
  have hclosing : ∀ line ∈ sampleFrame.2, '"' ∉ line.toList ∧ '\n' ∉ line.toList := by decide +kernel
  exact ⟨hopening, hclosing⟩

theorem acceptedListing_sample {c : Config} {i : Nat} (hpub : c.network.publicInterface = "eth0") (hwg : c.wireGuard.interface = "wg0")
    (h : routePolicies c = .ok [samplePolicy c i]) : AcceptedListing c (sampleRules c i) (sampleListing i) where
  rendered := h
  listed := by
    obtain ⟨hopening, hclosing⟩ := sampleFrame_frames
    exact ⟨_, [sampleLine i], _, .cons (ruleListed_sample hpub hwg) .nil, hopening, hclosing, List.cons_ne_nil _ _, rfl⟩

theorem attributedRightly_iff_sample : AttributedRightly (mapConfig ["80"] []) (sampleRules (mapConfig ["80"] []) 0) (sampleListing 0)
      (sampleRules (mapConfig ["80"] []) 0) (sampleListing 0) ↔
    ∀ x ∈ sampleRules (mapConfig ["80"] []) 0, ∀ line ∈ split (sampleListing 0) '\n',
      RuleListed x.2 ((mapConfig ["80"] []).acceptedRule x.1) line → ¬Misread (mapConfig ["80"] []) x.1 line :=
  attributedRightly_iff (by decide +kernel) (by decide +kernel) (by decide) (by decide +kernel)
    (acceptedListing_sample rfl rfl (by decide +kernel)) (acceptedListing_sample rfl rfl (by decide +kernel))

/-- The route that is off is taken for the one that is counted under its index: its target ends in the protocol that follows the address. -/
theorem wordy_target_misread : wordyConfig.validate = .ok () ∧
    (∀ p ∈ activeRoutes wordyConfig, ∀ tok ∈ portTokens p.2.ports, plainToken tok = true) ∧
    wordyConfig.forwarding.routes.length ≤ 2 ^ 63 ∧ (mapConfig ["80"] []).validate = .ok () ∧
    AcceptedListing wordyConfig (sampleRules wordyConfig 1) (sampleListing 1) ∧
    AcceptedListing (mapConfig ["80"] []) (sampleRules (mapConfig ["80"] []) 0) (sampleListing 0) ∧
    ¬AttributedRightly wordyConfig (sampleRules wordyConfig 1) (sampleListing 1) (sampleRules (mapConfig ["80"] []) 0) (sampleListing 0) := by
  have hvalid : (mapConfig ["80"] []).validate = .ok () := by decide +kernel
  have hlisting : AcceptedListing (mapConfig ["80"] []) (sampleRules (mapConfig ["80"] []) 0) (sampleListing 0) :=
    acceptedListing_sample rfl rfl (by decide +kernel)
  refine ⟨by decide +kernel, by decide +kernel, by decide, hvalid, acceptedListing_sample rfl rfl (by decide +kernel), hlisting, ?_⟩
  have hline : sampleLine 0 ∈ split (sampleListing 0) '\n' := by
    have hshape := lineListed (Config.checked hvalid) hlisting.rendered List.mem_cons_self (ruleListed_sample rfl rfl)
    have hone : ∀ line ∈ sampleFrame.1 ++ [sampleLine 0] ++ sampleFrame.2, '\n' ∉ line.toList := by
      intro line hline
      rcases List.mem_append.mp hline with hline | hline
      · rcases List.mem_append.mp hline with hline | hline
        · exact (sampleFrame_frames.1 line hline).2
        · rw [List.mem_singleton.mp hline]
          exact hshape.oneLine
      · exact (sampleFrame_frames.2 line hline).2
    have hne : sampleFrame.1 ++ [sampleLine 0] ++ sampleFrame.2 ≠ [] := List.cons_ne_nil _ _
    rw [sampleListing, split_lines hne hone]
    exact List.mem_append_left _ (List.mem_append_right _ List.mem_cons_self)
  refine not_attributed_of_misread (by decide) hvalid hlisting List.mem_cons_self hline (ruleListed_sample rfl rfl)
    ⟨{ proto := "tcp", ports := ["80"], targetIP := "10.0.0.2 tcp", disabled := true }, rfl, ?_, ⟨[80], ?_, fun p => ?_⟩, ?_, ?_⟩
  · exact mem_protocols.mpr ⟨[.tcp], by decide +kernel, List.mem_cons_self⟩
  · decide +kernel
  · have hports : (samplePolicy (mapConfig ["80"] []) 0).portExpr = .set ["80"] := by decide +kernel
    rw [hports, has_eighty, List.mem_singleton]
  · decide +kernel
  · have hsplit : sampleLine 0 = "\t\tiifname \"eth0\" oifname \"wg0\" " ++ ("ip daddr " ++ trimSpace "10.0.0.2 tcp" ++ " ") ++
        "dport 80 ct original proto-dst 80 counter packets 5 bytes 300 comment \"evuproxy-accepted route=0 proto=tcp\"" := by decide +kernel
    rw [hsplit]
    exact contains_append _ _ _

end EvuProxy

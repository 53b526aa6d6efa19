import EvuProxy.Gen.Lines

/-!
# The prerouting rules of a policy

Which packets go through them: those of the policy's protocol to a port of a line, from the sources that the policy names.
-/

namespace EvuProxy

open Go Nft

variable {h : Host} {k : Packet} {q : RoutePolicy}

/-- The rules of a policy, one group for each line. -/
def policyRules (q : RoutePolicy) : List Rule := q.dnat.flatMap (writePolicyDnatLine q)

/-- Whether a rule rewrites where a packet goes. -/
def isDnat (rule : Rule) : Bool :=
  match Rule.verdict rule with
  | some (.dnat _ _) => true
  | _ => false

/-- The rules of a policy that rewrite where a packet goes. -/
def dnatRules (q : RoutePolicy) : List Rule := (policyRules q).filter isDnat

/-- Whether a source is in a set, when there is one. -/
def inSome (h : Host) (set : Option String) (src : Nat) : Bool :=
  match set with
  | some s => h.inSet s src
  | none => false

/-- Whether a source is one that a policy lets through: the one of the route's list of sources and of the countries allowed, when there
are such, or one of those that break the glass. -/
def RoutePolicy.passes (q : RoutePolicy) (h : Host) (src : Nat) : Bool :=
  let allowed := q.srcAllow.isNone || inSome h q.srcAllow src
  if q.geo.enabled && !q.geo.blockListed then (allowed && h.inSet q.geo.setName src) || inSome h q.breakGlass src else allowed

/-- A source that is in all sets passes. -/
theorem passes_of_inSet {src : Nat} (hall : ∀ s, h.inSet s src = true) (q : RoutePolicy) : q.passes h src = true := by
  have hsome : ∀ set : Option String, (set.isNone || inSome h set src) = true := by
    intro set
    cases set with
    | none => rfl
    | some s => simp [inSome, hall]
  unfold RoutePolicy.passes
  dsimp only
  rw [hsome, hall]
  split <;> rfl

/-! ## Ports -/

/-- Every rule of a line matches the line's port. -/
theorem dport_mem {port : String} {v rule : Rule} (hrule : rule ∈ writePolicyPrerouting q port v) :
    Stmt.dport q.proto (.tok port) ∈ rule := by
  unfold writePolicyPrerouting at hrule
  dsimp only at hrule
  rcases List.mem_append.mp hrule with hrule | hrule
  · unfold writeDenyDrops at hrule
    obtain ⟨set, -, hrule⟩ := List.mem_flatMap.mp hrule
    cases set with
    | none => cases hrule
    | some s =>
      rw [List.mem_singleton.mp hrule]
      simp
  · by_cases hgeo : q.geo.enabled = true
    · rw [if_neg (not_not.mpr hgeo)] at hrule
      by_cases hblock : q.geo.blockListed = true
      · rw [if_pos hblock] at hrule
        rcases List.mem_append.mp hrule with hrule | hrule
        · rw [List.mem_singleton.mp hrule]
          simp [geoBlockMatch]
        · rw [List.mem_singleton.mp hrule]
          simp
      · rw [if_neg hblock] at hrule
        rcases List.mem_append.mp hrule with hrule | hrule
        · rw [List.mem_singleton.mp hrule]
          simp
        · cases hglass : q.breakGlass with
          | none =>
            rw [hglass] at hrule
            cases hrule
          | some s =>
            rw [hglass] at hrule
            rw [List.mem_singleton.mp hrule]
            simp
    · rw [if_pos hgeo] at hrule
      rw [List.mem_singleton.mp hrule]
      simp

/-- The rules of a line that is not empty are those for its port. -/
theorem mem_policyRules {rule : Rule} (hrule : rule ∈ policyRules q) : ∃ l ∈ q.dnat, l.publicDport ≠ "" ∧
    rule ∈ writePolicyPrerouting q l.publicDport [.dnat l.dnatTo.1 l.dnatTo.2] := by
  obtain ⟨l, hl, hrule⟩ := List.mem_flatMap.mp hrule
  unfold writePolicyDnatLine at hrule
  split at hrule
  · cases hrule
  · rename_i hne
    exact ⟨l, hl, fun he => hne (.inl he), hrule⟩

/-- A packet that a rule of a policy matches goes to a port of one of its lines. -/
theorem port_of_fires {rule : Rule} (hrule : rule ∈ policyRules q) (hfires : Rule.fires h k rule = true) :
    k.proto = q.proto ∧ ∃ l ∈ q.dnat, RouteDNATLine.has k.dport l = true := by
  obtain ⟨l, hl, -, hrule⟩ := mem_policyRules hrule
  have hmatches := matches_of_fires hfires (dport_mem hrule)
  simp only [Stmt.matches, Bool.and_eq_true, beq_iff_eq] at hmatches
  exact ⟨hmatches.1, l, hl, hmatches.2⟩

/-! ## Rules that rewrite -/

@[simp] theorem rule_verdict_counterStmt {b : Bool} : Rule.verdict (counterStmt b) = none := by
  cases b <;> rfl

@[simp] theorem rule_verdict_fromSet {set : Option String} : Rule.verdict (fromSet set) = none := by
  cases set <;> rfl

@[simp] theorem rule_verdict_notFromSet {set : Option String} : Rule.verdict (notFromSet set) = none := by
  cases set <;> rfl

theorem isDnat_of_drop {rule : Rule} (hrule : Rule.verdict rule = some .drop) : isDnat rule = false := by
  rw [isDnat, hrule]

theorem isDnat_of_dnat {rule : Rule} {host : String} {port : Option String} (hrule : Rule.verdict rule = some (.dnat host port)) :
    isDnat rule = true := by
  rw [isDnat, hrule]

/-- The rules of `writePolicyPrerouting` that carry its verdict. -/
def allowRules (q : RoutePolicy) (port : String) (v : Rule) : List Rule :=
  if q.geo.enabled && !q.geo.blockListed then
    writePolicyAllow q.proto (.tok port) q.srcAllow (some q.geo.setName) v ++
      match q.breakGlass with
      | some s => [[.saddrSet false s, .dport q.proto (.tok port)] ++ v]
      | none => []
  else writePolicyAllow q.proto (.tok port) q.srcAllow none v

/-- The others drop. -/
theorem prerouting_perm {port : String} {v : Rule} : ∃ drops : List Rule, writePolicyPrerouting q port v = drops ++ allowRules q port v ∧
    ∀ rule ∈ drops, Rule.verdict rule = some .drop := by
  have hdeny : ∀ rule ∈ writeDenyDrops [] q [.dport q.proto (.tok port)], Rule.verdict rule = some .drop := by
    intro rule hrule
    obtain ⟨set, -, hrule⟩ := List.mem_flatMap.mp hrule
    cases set with
    | none => cases hrule
    | some s =>
      rw [List.mem_singleton.mp hrule]
      simp [Stmt.verdict]
  unfold writePolicyPrerouting allowRules
  dsimp only
  cases hgeo : q.geo.enabled with
  | false => exact ⟨_, rfl, hdeny⟩
  | true =>
    cases hblock : q.geo.blockListed with
    | false => exact ⟨_, rfl, hdeny⟩
    | true =>
      refine ⟨_, (List.append_assoc ..).symm, fun rule hrule => ?_⟩
      rcases List.mem_append.mp hrule with hrule | hrule
      · exact hdeny rule hrule
      · rw [List.mem_singleton.mp hrule]
        simp [geoBlockMatch, Stmt.verdict]

theorem allowRules_verdict {port : String} {v : Rule} {rule : Rule} (hrule : rule ∈ allowRules q port v) :
    Rule.verdict rule = Rule.verdict v := by
  unfold allowRules at hrule
  split at hrule
  · rcases List.mem_append.mp hrule with hrule | hrule
    · rw [List.mem_singleton.mp hrule]
      simp [Stmt.verdict]
    · cases hglass : q.breakGlass with
      | none =>
        rw [hglass] at hrule
        cases hrule
      | some s =>
        rw [hglass] at hrule
        rw [List.mem_singleton.mp hrule]
        simp [Stmt.verdict]
  · rw [List.mem_singleton.mp hrule]
    simp [Stmt.verdict]

theorem filter_prerouting {port host : String} {dest : Option String} :
    (writePolicyPrerouting q port [.dnat host dest]).filter isDnat = allowRules q port [.dnat host dest] := by
  obtain ⟨drops, heq, hdrops⟩ := @prerouting_perm q port [.dnat host dest]
  rw [heq, List.filter_append, List.filter_eq_nil_iff.mpr fun rule hrule => by rw [isDnat_of_drop (hdrops rule hrule)]; exact Bool.false_ne_true,
    List.nil_append, List.filter_eq_self.mpr fun rule hrule => isDnat_of_dnat (allowRules_verdict hrule)]

theorem fires_fromSet {set : Option String} : Rule.fires h k (fromSet set) = (set.isNone || inSome h set k.src) := by
  cases set with
  | none => rfl
  | some s => simp [fromSet, inSome, Stmt.matches]

theorem verdict_policyAllow {proto : Proto} {ports : Ports} {srcAllow geoSet : Option String} {host : String} {dest : Option String} :
    verdict h k (writePolicyAllow proto ports srcAllow geoSet [.dnat host dest]) =
      if (srcAllow.isNone || inSome h srcAllow k.src) && (geoSet.isNone || inSome h geoSet k.src) && (k.proto == proto && ports.has k.dport)
      then some (.dnat host dest) else none := by
  rw [writePolicyAllow, verdict_cons]
  simp only [fires_append, fires_cons, fires_nil, fires_fromSet, Stmt.matches, rule_verdict_append, rule_verdict_fromSet, rule_verdict_cons,
    rule_verdict_nil, Stmt.verdict, Option.none_or, Option.some_or, verdict_nil, Bool.and_true]

theorem verdict_glass {proto : Proto} {ports : Ports} {s host : String} {dest : Option String} :
    verdict h k [[.saddrSet false s, .dport proto ports] ++ [.dnat host dest]] =
      if h.inSet s k.src && (k.proto == proto && ports.has k.dport) then some (.dnat host dest) else none := by
  rw [verdict_cons]
  simp [Stmt.matches, Stmt.verdict]

/-- A packet goes through the rules that rewrite where its source passes. -/
theorem verdict_allowRules {port host : String} {dest : Option String} : verdict h k (allowRules q port [.dnat host dest]) =
    if k.proto == q.proto && (Ports.tok port).has k.dport && q.passes h k.src then some (.dnat host dest) else none := by
  unfold allowRules RoutePolicy.passes
  dsimp only
  by_cases hgeo : (q.geo.enabled && !q.geo.blockListed) = true
  · rw [if_pos hgeo, if_pos hgeo, verdict_append, verdict_policyAllow]
    cases hglass : q.breakGlass with
    | none =>
      rw [verdict_nil, Option.or_none]
      cases q.srcAllow.isNone || inSome h q.srcAllow k.src <;> cases k.proto == q.proto && (Ports.tok port).has k.dport <;>
        cases hset : h.inSet q.geo.setName k.src <;> simp [inSome, hset]
    | some s =>
      rw [verdict_glass]
      cases q.srcAllow.isNone || inSome h q.srcAllow k.src <;> cases k.proto == q.proto && (Ports.tok port).has k.dport <;>
        cases hset : h.inSet q.geo.setName k.src <;> cases hin : h.inSet s k.src <;> simp [inSome, hset, hin]
  · rw [if_neg hgeo, if_neg hgeo, verdict_policyAllow]
    cases q.srcAllow.isNone || inSome h q.srcAllow k.src <;> cases k.proto == q.proto && (Ports.tok port).has k.dport <;> simp

/-- The rules of a line that rewrite. -/
theorem verdict_line {l : RouteDNATLine} (hne : l.dnatTo.1 ≠ "") : verdict h k ((writePolicyDnatLine q l).filter isDnat) =
    if k.proto == q.proto && RouteDNATLine.has k.dport l && q.passes h k.src then some (.dnat l.dnatTo.1 l.dnatTo.2) else none := by
  unfold writePolicyDnatLine
  by_cases hempty : l.publicDport = "" ∨ l.dnatTo = ("", none)
  · have hhas : RouteDNATLine.has k.dport l = false := by
      rcases hempty with hempty | hempty
      · rw [RouteDNATLine.has, hempty]
        rfl
      · exact absurd (congrArg Prod.fst hempty) hne
    rw [if_pos hempty, hhas, Bool.and_false, Bool.false_and]
    rfl
  · rw [if_neg hempty, filter_prerouting, verdict_allowRules, RouteDNATLine.has]

/-- The first line that has the port of a packet decides where it goes. -/
theorem verdict_dnatRules (hne : ∀ l ∈ q.dnat, l.dnatTo.1 ≠ "") (hproto : k.proto = q.proto) (hpasses : q.passes h k.src = true) :
    verdict h k (dnatRules q) = (q.dnat.find? (RouteDNATLine.has k.dport)).map fun l => .dnat l.dnatTo.1 l.dnatTo.2 := by
  have hrules : dnatRules q = q.dnat.flatMap fun l => (writePolicyDnatLine q l).filter isDnat := by
    rw [dnatRules, policyRules, List.filter_flatMap]
  rw [hrules]
  refine verdict_flatMap fun l hl => ?_
  rw [verdict_line (hne l hl), hproto, hpasses, beq_self_eq_true, Bool.true_and, Bool.and_true]

/-- A packet that a line rewrites is of the policy's protocol, and its source passes. -/
theorem passes_of_dnatRules (hne : ∀ l ∈ q.dnat, l.dnatTo.1 ≠ "") (hsome : (verdict h k (dnatRules q)).isSome) :
    k.proto = q.proto ∧ q.passes h k.src = true := by
  obtain ⟨v, hv⟩ := Option.isSome_iff_exists.mp hsome
  rw [dnatRules, policyRules, List.filter_flatMap, verdict_flatMap fun l hl => verdict_line (hne l hl)] at hv
  obtain ⟨l, hl, -⟩ := Option.map_eq_some_iff.mp hv
  have hfound := List.find?_some hl
  simp only [Bool.and_eq_true, beq_iff_eq] at hfound
  exact ⟨hfound.1.1, hfound.2⟩

/-- Where a packet is rewritten to go that no rule of the policy drops. -/
theorem verdict_policyRules (hdrop : ∀ rule ∈ policyRules q, Rule.fires h k rule = true → Rule.verdict rule ≠ some .drop) :
    verdict h k (policyRules q) = verdict h k (dnatRules q) := by
  refine (verdict_filter fun rule hrule hfires _ => ?_).symm
  obtain ⟨l, -, -, hmem⟩ := mem_policyRules hrule
  obtain ⟨drops, heq, hdrops⟩ := @prerouting_perm q l.publicDport [.dnat l.dnatTo.1 l.dnatTo.2]
  rw [heq] at hmem
  rcases List.mem_append.mp hmem with hmem | hmem
  · exact absurd (hdrops rule hmem) (hdrop rule hrule hfires)
  · exact isDnat_of_dnat (allowRules_verdict hmem)

/-! ## Dropped sources -/

/-- What a policy makes of the packets from a source to its ports: they go on, they are dropped, or nothing is said of them. -/
def RoutePolicy.decision (q : RoutePolicy) (h : Host) (src : Nat) : Option Bool :=
  if inSome h q.globalDeny src || inSome h q.srcDeny src then some false
  else if q.geo.enabled && q.geo.blockListed && h.inSet q.geo.setName src && !inSome h q.breakGlass src then some false
  else if q.passes h src then some true
  else none

theorem fires_notFromSet {set : Option String} : Rule.fires h k (notFromSet set) = !inSome h set k.src := by
  cases set with
  | none => rfl
  | some s =>
    change (h.inSet s k.src != true && true) = !h.inSet s k.src
    cases h.inSet s k.src <;> rfl

theorem verdict_dropRule {cond : Rule} {counter : Bool} (hcond : Rule.verdict cond = none) :
    verdict h k [cond ++ counterStmt counter ++ [.drop]] = if Rule.fires h k cond then some .drop else none := by
  have hcounter : Rule.fires h k (counterStmt counter) = true := by cases counter <;> rfl
  rw [verdict_cons, verdict_nil]
  simp only [fires_append, rule_verdict_append, hcond, hcounter, rule_verdict_counterStmt, fires_cons, fires_nil, rule_verdict_cons,
    rule_verdict_nil, Stmt.matches, Stmt.verdict, Option.none_or, Option.or_none, Bool.and_true]

/-- The drops of denied sources, under a scope. -/
theorem verdict_denyDrops {scope ports : Rule} (hscope : Rule.verdict scope = none) (hports : Rule.verdict ports = none) :
    verdict h k (writeDenyDrops scope q ports) =
      if Rule.fires h k scope && Rule.fires h k ports && (inSome h q.globalDeny k.src || inSome h q.srcDeny k.src) then some .drop else none := by
  let P : Option String → Bool := fun set => Rule.fires h k scope && Rule.fires h k ports && inSome h set k.src
  refine (@verdict_flatMap h k _ _ P (fun _ => .drop) _ fun set _ => ?_).trans ?_
  · cases set with
    | none => exact (if_neg (by simp [P, inSome])).symm
    | some s =>
      dsimp only
      rw [verdict_dropRule (by simp [hscope, hports, Stmt.verdict]), fires_append, fires_append]
      cases hs : Rule.fires h k scope <;> cases hp : Rule.fires h k ports <;> simp [P, Stmt.matches, inSome, hs, hp]
  · cases hs : Rule.fires h k scope <;> cases hp : Rule.fires h k ports <;> cases hg : inSome h q.globalDeny k.src <;>
      cases hd : inSome h q.srcDeny k.src <;> simp [P, hs, hp, hg, hd]

/-- The rules of a port say of a packet what the policy makes of its source. -/
theorem verdict_prerouting {port host : String} {dest : Option String} : verdict h k (writePolicyPrerouting q port [.dnat host dest]) =
    if k.proto == q.proto && (Ports.tok port).has k.dport then
      (q.decision h k.src).map fun through => if through then .dnat host dest else .drop
    else none := by
  have hports : Rule.fires h k [.dport q.proto (.tok port)] = (k.proto == q.proto && (Ports.tok port).has k.dport) := by
    rw [fires_cons, fires_nil, Stmt.matches, Bool.and_true]
  have hrules : writePolicyPrerouting q port [.dnat host dest] = writeDenyDrops [] q [.dport q.proto (.tok port)] ++
      ((if q.geo.enabled && q.geo.blockListed then writePolicyGeoBlockDrop q.geo.setName q.breakGlass q.proto (.tok port) q.counter else []) ++
        allowRules q port [.dnat host dest]) := by
    unfold writePolicyPrerouting allowRules
    cases q.geo.enabled <;> cases q.geo.blockListed <;> rfl
  have hblock : verdict h k
      (if q.geo.enabled && q.geo.blockListed then writePolicyGeoBlockDrop q.geo.setName q.breakGlass q.proto (.tok port) q.counter else []) =
      if k.proto == q.proto && (Ports.tok port).has k.dport &&
          (q.geo.enabled && q.geo.blockListed && h.inSet q.geo.setName k.src && !inSome h q.breakGlass k.src) then some .drop else none := by
    cases q.geo.enabled && q.geo.blockListed with
    | false => simp
    | true =>
      rw [if_pos rfl, writePolicyGeoBlockDrop, verdict_dropRule (by simp [geoBlockMatch, Stmt.verdict]), geoBlockMatch, List.cons_append,
        fires_cons, fires_append, hports, fires_notFromSet, Stmt.matches]
      cases k.proto == q.proto && (Ports.tok port).has k.dport <;> cases h.inSet q.geo.setName k.src <;>
        cases inSome h q.breakGlass k.src <;> rfl
  rw [hrules, verdict_append, verdict_append, verdict_denyDrops rfl (by simp [Stmt.verdict]), fires_nil, hports, hblock,
    verdict_allowRules, RoutePolicy.decision]
  cases k.proto == q.proto && (Ports.tok port).has k.dport with
  | false => rfl
  | true =>
    cases inSome h q.globalDeny k.src || inSome h q.srcDeny k.src with
    | true => rfl
    | false =>
      cases q.geo.enabled && q.geo.blockListed && h.inSet q.geo.setName k.src && !inSome h q.breakGlass k.src with
      | true => rfl
      | false => cases q.passes h k.src <;> rfl

/-- The rules of a policy say of a packet what the policy makes of its source, with the first line that has its port. -/
theorem verdict_policy (hne : ∀ l ∈ q.dnat, l.dnatTo.1 ≠ "") (hproto : k.proto = q.proto) : verdict h k (policyRules q) =
    (q.dnat.find? (RouteDNATLine.has k.dport)).bind fun l =>
      (q.decision h k.src).map fun through => if through then .dnat l.dnatTo.1 l.dnatTo.2 else .drop := by
  have hline : ∀ l ∈ q.dnat, verdict h k (writePolicyDnatLine q l) = if RouteDNATLine.has k.dport l then
      (q.decision h k.src).map fun through => if through then .dnat l.dnatTo.1 l.dnatTo.2 else .drop else none := by
    intro l hl
    unfold writePolicyDnatLine
    by_cases hempty : l.publicDport = "" ∨ l.dnatTo = ("", none)
    · have hport : l.publicDport = "" := by
        rcases hempty with hempty | hempty
        · exact hempty
        · exact absurd (congrArg Prod.fst hempty) (hne l hl)
      have hhas : RouteDNATLine.has k.dport l = false := by
        rw [RouteDNATLine.has, hport]
        rfl
      rw [if_pos hempty, hhas, verdict_nil, if_neg Bool.false_ne_true]
    · rw [if_neg hempty, verdict_prerouting, hproto, beq_self_eq_true, Bool.true_and, RouteDNATLine.has]
  rw [policyRules]
  cases htold : q.decision h k.src with
  | none =>
    have hnone : ∀ l ∈ q.dnat, verdict h k (writePolicyDnatLine q l) = if false then some .drop else none := by
      intro l hl
      rw [hline l hl, htold, Option.map_none, ite_self, if_neg Bool.false_ne_true]
    rw [verdict_flatMap (P := fun _ => false) hnone]
    simp
  | some through =>
    have hsome : ∀ l ∈ q.dnat, verdict h k (writePolicyDnatLine q l) =
        if RouteDNATLine.has k.dport l then some (if through then .dnat l.dnatTo.1 l.dnatTo.2 else .drop) else none := by
      intro l hl
      rw [hline l hl, htold, Option.map_some]
    rw [verdict_flatMap hsome]
    cases q.dnat.find? (RouteDNATLine.has k.dport) <;> rfl

end EvuProxy

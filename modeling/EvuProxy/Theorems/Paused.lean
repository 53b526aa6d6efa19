import EvuProxy.Gen.Prerouting
import EvuProxy.Gen.Ruleset

/-!
# Paused routes and packets

What the prerouting chain of the pause update does to a packet, next to the chain of the full ruleset: the same route decides in both,
and where it is paused the packet is dropped.
-/

namespace Nft

/-- Rules that fire alike and say the one what the other says, turned into something else, decide alike. -/
theorem verdict_forall₂ {h : Host} {k : Packet} {turn : Verdict → Verdict} {rs ss : List Rule}
    (hall : List.Forall₂ (fun r s => Rule.fires h k s = Rule.fires h k r ∧ Rule.verdict s = (Rule.verdict r).map turn) rs ss) :
    verdict h k ss = (verdict h k rs).map turn := by
  induction hall with
  | nil => rfl
  | cons hhead _ ih =>
    rw [verdict_cons, verdict_cons, hhead.1, hhead.2, ih]
    split
    · rw [Option.map_or]
    · rfl

/-- The first of several groups of rules that decides on a packet, and what it says. -/
def decided {ι : Type} (h : Host) (k : Packet) : List (ι × List Rule) → Option (ι × Verdict)
  | [] => none
  | (i, rules) :: groups =>
    match verdict h k rules with
    | some v => some (i, v)
    | none => decided h k groups

/-- Groups that are turned into something else one by one are decided by the same one of them. -/
theorem verdict_groups {ι α : Type} {h : Host} {k : Packet} {index : α → ι} {rules rules' : α → List Rule} (turn : ι → Verdict → Verdict)
    (as : List α) (hall : ∀ a ∈ as, verdict h k (rules' a) = (verdict h k (rules a)).map (turn (index a))) :
    verdict h k (as.flatMap rules') = (decided h k (as.map fun a => (index a, rules a))).map fun d => turn d.1 d.2 := by
  induction as with
  | nil => rfl
  | cons a as ih =>
    have ih := ih fun b hb => hall b (List.mem_cons_of_mem a hb)
    rw [List.flatMap_cons, verdict_append, hall a List.mem_cons_self, ih, List.map_cons, decided]
    cases verdict h k (rules a) with
    | none => rfl
    | some v => rfl

theorem decided_eq_none {ι : Type} {h : Host} {k : Packet} {groups : List (ι × List Rule)} (hall : ∀ g ∈ groups, verdict h k g.2 = none) :
    decided h k groups = none := by
  induction groups with
  | nil => rfl
  | cons g groups ih =>
    rw [decided, hall g List.mem_cons_self]
    exact ih fun g' hg' => hall g' (List.mem_cons_of_mem g hg')

/-- The rules of all groups say what the group that decides says. -/
theorem verdict_decided {ι α : Type} {h : Host} {k : Packet} {index : α → ι} {rules : α → List Rule} (as : List α) :
    verdict h k (as.flatMap rules) = (decided h k (as.map fun a => (index a, rules a))).map Prod.snd :=
  verdict_groups (fun _ v => v) as fun a _ => by rw [Option.map_id']

end Nft

namespace EvuProxy

open Go Nft

variable {h : Host} {k : Packet} {q : RoutePolicy}

/-- The rules of a port with another ending: each fires on the same packets, and where one carried the first ending it carries the other. -/
theorem prerouting_alike {port : String} {w w' : Rule} {turn : Verdict → Verdict} (hfires : Rule.fires h k w' = Rule.fires h k w)
    (hverdict : Rule.verdict w' = (Rule.verdict w).map turn) (hdrop : turn .drop = .drop) :
    List.Forall₂ (fun r s => Rule.fires h k s = Rule.fires h k r ∧ Rule.verdict s = (Rule.verdict r).map turn)
      (writePolicyPrerouting q port w) (writePolicyPrerouting q port w') := by
  have hsame : ∀ {drops : List Rule}, (∀ rule ∈ drops, Rule.verdict rule = some .drop) →
      List.Forall₂ (fun r s => Rule.fires h k s = Rule.fires h k r ∧ Rule.verdict s = (Rule.verdict r).map turn) drops drops := by
    intro drops hdrops
    exact List.forall₂_same.mpr fun rule hrule => ⟨rfl, by rw [hdrops rule hrule, Option.map_some, hdrop]⟩
  have hended : ∀ {cond : Rule}, Rule.verdict cond = none →
      List.Forall₂ (fun r s => Rule.fires h k s = Rule.fires h k r ∧ Rule.verdict s = (Rule.verdict r).map turn)
        [cond ++ w] [cond ++ w'] := by
    intro cond hcond
    refine .cons ⟨?_, ?_⟩ .nil
    · rw [fires_append, fires_append, hfires]
    · rw [rule_verdict_append, rule_verdict_append, hcond, Option.none_or, Option.none_or, hverdict]
  have hdeny : ∀ rule ∈ writeDenyDrops [] q [.dport q.proto (.tok port)], Rule.verdict rule = some .drop := by
    intro rule hrule
    obtain ⟨set, -, hrule⟩ := List.mem_flatMap.mp hrule
    cases set with
    | none => cases hrule
    | some s =>
      rw [List.mem_singleton.mp hrule]
      simp [Stmt.verdict]
  have hblock : ∀ rule ∈ writePolicyGeoBlockDrop q.geo.setName q.breakGlass q.proto (.tok port) q.counter, Rule.verdict rule = some .drop := by
    intro rule hrule
    rw [List.mem_singleton.mp hrule]
    simp [geoBlockMatch, Stmt.verdict]
  have hallow : ∀ srcAllow geoSet, List.Forall₂ (fun r s => Rule.fires h k s = Rule.fires h k r ∧ Rule.verdict s = (Rule.verdict r).map turn)
      (writePolicyAllow q.proto (.tok port) srcAllow geoSet w) (writePolicyAllow q.proto (.tok port) srcAllow geoSet w') := fun _ _ =>
    hended (by simp [Stmt.verdict])
  unfold writePolicyPrerouting
  refine List.rel_append (hsame hdeny) ?_
  split
  · exact hallow _ _
  · split
    · exact List.rel_append (hsame hblock) (hallow _ _)
    · refine List.rel_append (hallow _ _) ?_
      cases q.breakGlass with
      | none => exact .nil
      | some s => exact hended (by simp [Stmt.verdict])

/-- The rules of a paused route drop the packets on which those of the route decide. -/
theorem verdict_pausedRouteDrop : verdict h k (writePausedRouteDrop q) = (verdict h k (policyRules q)).map fun _ => .drop := by
  have hline : ∀ l : RouteDNATLine, verdict h k (if l.publicDport = "" ∨ l.dnatTo = ("", none) then [] else
      writePolicyPrerouting q l.publicDport (counterStmt q.counter ++ [.drop, .comment (pausedRouteComment ++ toString q.routeIndex)])) =
        (verdict h k (writePolicyDnatLine q l)).map fun _ => .drop := by
    intro l
    unfold writePolicyDnatLine
    split
    · rfl
    · refine verdict_forall₂ (prerouting_alike ?_ ?_ rfl)
      · cases q.counter <;> rfl
      · simp [Stmt.verdict]
  rw [policyRules, writePausedRouteDrop]
  induction q.dnat with
  | nil => rfl
  | cons l ls ih =>
    rw [List.flatMap_cons, List.flatMap_cons, verdict_append, verdict_append, hline l, ih, Option.map_or]

/-- The route that decides on a packet in the prerouting chain of the full ruleset, and what becomes of the packet there. -/
def decidingRoute (h : Host) (k : Packet) (qs : List RoutePolicy) : Option (Nat × Verdict) :=
  decided h k (qs.map fun q => (q.routeIndex, policyRules q))

/-- The full chain does what the route that decides says. -/
theorem verdict_full (qs : List RoutePolicy) : verdict h k (preroutingChain qs []).rules = (decidingRoute h k qs).map Prod.snd := by
  have hrules : (preroutingChain qs []).rules = qs.flatMap policyRules := by
    simp only [preroutingChain, writeNATPreroutingRules, List.not_mem_nil, if_false]
    rfl
  rw [hrules, decidingRoute, verdict_decided]

/-- With routes paused the same route decides, and drops the packet where it is paused. -/
theorem verdict_paused (qs : List RoutePolicy) (paused : List Nat) : verdict h k (preroutingChain qs paused).rules =
    (decidingRoute h k qs).map fun d => if d.1 ∈ paused then .drop else d.2 := by
  refine verdict_groups (fun i v => if i ∈ paused then .drop else v) qs fun q _ => ?_
  split
  · exact verdict_pausedRouteDrop
  · rw [policyRules, Option.map_id']

end EvuProxy

import EvuProxy.Gen.Policy
import EvuProxy.Nft.Meter

/-!
# Raising a rate limit

The burst of a limit is twice its rate up to 50 packets a second, and the rate itself above. So it falls where a limit is raised
past 50 and less than doubled; everywhere else the higher limit drops no more than the lower.
-/

namespace EvuProxy

open Nft (Rate Rule Stmt)

/-! ## The limits that are written -/

/-- The limit of a statement. -/
def meterOf : Stmt → Option Rate
  | .rateOver _ n burst => some { perSecond := n, burst := burst }
  | _ => none

/-- The limits in the statements of rules. -/
def meters (rules : List Rule) : List Rate := rules.flatten.filterMap meterOf

/-- The timeout of an element of a rate limit's set. -/
def rateTimeout : Nat := 2 * Nft.second

theorem meters_append (rs rs' : List Rule) : meters (rs ++ rs') = meters rs ++ meters rs' := by
  unfold meters
  rw [List.flatten_append, List.filterMap_append]

theorem meters_cons (r : Rule) (rs : List Rule) : meters (r :: rs) = r.filterMap meterOf ++ meters rs := by
  unfold meters
  rw [List.flatten_cons, List.filterMap_append]

theorem meters_nil : meters [] = [] := rfl

/-- A limit is written only where it is set, for the route or for all. -/
theorem limit_pos {own global : Nat} {ownSet globalSet s : String}
    (h : (if 0 < own then some ownSet else if 0 < global then some globalSet else none) = some s) : 0 < if 0 < own then own else global := by
  split
  · assumption
  · rename_i hown
    rw [if_neg hown] at h
    by_contra hglobal
    rw [if_neg hglobal] at h
    cases h

/-- Every limit that is written for a route is positive, and its burst is that of its rate. -/
theorem meter_written {scope ports : Rule} {r : RoutePolicy} (h : meters [scope ++ ports] = []) {l : Rate}
    (hl : l ∈ meters (writePolicyRateLimitScoped scope r ports)) : 0 < l.perSecond ∧ l.burst = rateLimitBurst l.perSecond := by
  rw [meters_cons, meters_nil, List.append_nil, List.filterMap_append, List.append_eq_nil_iff] at h
  have hstart : (scope ++ notFromSet r.breakGlass ++ ports).filterMap meterOf = [] := by
    have hglass : (notFromSet r.breakGlass).filterMap meterOf = [] := by
      cases r.breakGlass <;> rfl
    rw [List.filterMap_append, List.filterMap_append, h.1, h.2, hglass]
    rfl
  have hend : (rateLimitDrop r.counter).filterMap meterOf = [] := by
    cases r.counter <;> rfl
  have hrule : ∀ {stmts : Rule}, l ∈ meters [scope ++ notFromSet r.breakGlass ++ ports ++ stmts ++ rateLimitDrop r.counter] →
      l ∈ stmts.filterMap meterOf := by
    intro stmts hmem
    rwa [meters_cons, meters_nil, List.append_nil, List.filterMap_append, List.filterMap_append, hstart, hend, List.nil_append,
      List.append_nil] at hmem
  unfold writePolicyRateLimitScoped rateLimitBindingForRoute at hl
  dsimp only at hl
  rw [meters_append, meters_append, List.mem_append, List.mem_append] at hl
  rcases hl with (hconn | hsyn) | hudp
  · by_cases hn : 0 < if 0 < r.routeRL.maxConnPerIP then r.routeRL.maxConnPerIP else r.globalRL.maxConnPerIP
    · rw [if_pos hn, ← List.singleton_append, meters_append, List.mem_append] at hconn
      rcases hconn with hconn | hconn <;> cases hrule hconn
    · rw [if_neg hn] at hconn
      cases hconn
  · split at hsyn
    · rename_i s hset
      obtain rfl := List.mem_singleton.mp (hrule hsyn)
      exact ⟨limit_pos hset, rfl⟩
    · cases hsyn
  · split at hudp
    · rename_i s hset
      obtain rfl := List.mem_singleton.mp (hrule hudp)
      exact ⟨limit_pos hset, rfl⟩
    · cases hudp

/-! ## Comparing two of them -/

/-- The pairs of limits whose bursts are the wrong way round. -/
def BurstFalls (m n : Nat) : Prop := m ≤ 50 ∧ 50 < n ∧ n < 2 * m

theorem rateLimitBurst_lt_iff {m n : Nat} (hle : m ≤ n) : rateLimitBurst n < rateLimitBurst m ↔ BurstFalls m n := by
  unfold rateLimitBurst BurstFalls
  split <;> split <;> omega

/-- Of two limits of routes, whether their own or the global ones, the higher drops no more than the lower, whenever the packets of a
source come; but not where it is above 50, the lower is not, and it is less than twice the lower. -/
theorem looser_iff {scope ports scope' ports' : Rule} {r r' : RoutePolicy} (h : meters [scope ++ ports] = [])
    (h' : meters [scope' ++ ports'] = []) {l l' : Rate} (hl : l ∈ meters (writePolicyRateLimitScoped scope r ports))
    (hl' : l' ∈ meters (writePolicyRateLimitScoped scope' r' ports')) (hle : l.perSecond ≤ l'.perSecond) :
    l'.Looser rateTimeout l ↔ ¬BurstFalls l.perSecond l'.perSecond := by
  obtain ⟨hpos, hburst⟩ := meter_written h hl
  obtain ⟨hpos', hburst'⟩ := meter_written h' hl'
  rw [← rateLimitBurst_lt_iff hle, ← hburst, ← hburst', Nat.not_lt]
  constructor
  · intro hlooser
    by_contra hfalls
    have hpair : BurstFalls l.perSecond l'.perSecond := by
      rw [← rateLimitBurst_lt_iff hle, ← hburst, ← hburst']
      exact Nat.not_le.mp hfalls
    have hsmall : ∀ {k : Rate}, 0 < k.perSecond → k.perSecond ≤ 100 → 0 < k.cost := fun hk hle =>
      Nat.div_pos (Nat.le_trans hle (by decide)) hk
    obtain ⟨hlow, -, hhigh⟩ := hpair
    exact Nft.not_looser_of_burst (hsmall hpos (by omega)) (hsmall hpos' (by omega)) (by decide) (Nat.not_le.mp hfalls) hlooser
  · exact Nft.looser_of_le (Nat.div_le_div_left hle hpos)

/-- A route with a limit on its UDP packets. -/
def meteredPolicy (own : RateLimit) : RoutePolicy where
  routeIndex := 0
  proto := .udp
  portExpr := .tok "53"
  forwardPorts := { dport := .tok "53" }
  target := "10.0.0.2"
  srcAllow := none
  srcDeny := none
  geo := {}
  globalRL := { udpPerSecond := 50 }
  routeRL := own
  dnat := []
  crowdsecSet := none
  breakGlass := none
  globalDeny := none
  counter := false

/-- Its limit, with what it takes from the global one. -/
def meteredRules (own : RateLimit) : List Rule := writePolicyRateLimitScoped [] (meteredPolicy own) [.dport .udp (.tok "53")]

theorem looser_iff_sample : Rate.Looser rateTimeout ⟨200, 200⟩ ⟨50, 100⟩ ↔ ¬BurstFalls 50 200 :=
  @looser_iff [] [.dport .udp (.tok "53")] [] [.dport .udp (.tok "53")] (meteredPolicy {}) (meteredPolicy { udpPerSecond := 200 }) (by decide)
    (by decide) ⟨50, 100⟩ ⟨200, 200⟩ (by decide +kernel) (by decide +kernel) (by decide)

/-- A route's own limit of 51 in place of the global one of 50 drops the last of 52 packets that come at once. -/
theorem raised_drops_more : ⟨50, 100⟩ ∈ meters (meteredRules {}) ∧ ⟨51, 51⟩ ∈ meters (meteredRules { udpPerSecond := 51 }) ∧
    Rate.dropsUpTo rateTimeout ⟨50, 100⟩ 0 (List.replicate 52 0) = 0 ∧ Rate.dropsUpTo rateTimeout ⟨51, 51⟩ 0 (List.replicate 52 0) = 1 := by
  refine ⟨?_, ?_, ?_, ?_⟩ <;> decide +kernel

end EvuProxy

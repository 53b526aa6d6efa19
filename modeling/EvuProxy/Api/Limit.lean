import Mathlib.Logic.Function.Basic

/-!
# The sliding limiter

`internal/api/limit.go`. A time is a number, and so is the length of a window; the mutex makes one call follow the other.
-/

namespace EvuProxy

/-- `slidingLimiter`. -/
structure SlidingLimiter where
  perKey : String → Option (List Int) := fun _ => none
  all : List Int := []

/-- `pruneOld`. -/
def pruneOld (ts : List Int) (cut : Int) : List Int := ts.dropWhile fun t => t < cut

/-- What the loop over the keys makes of the times of one: a key without times is deleted. -/
def pruneKey (cut : Int) (v : List Int) : Option (List Int) :=
  match pruneOld v cut with
  | [] => none
  | t :: ts => some (t :: ts)

/-- `allow`, at the time `now`. -/
def SlidingLimiter.allow (s : SlidingLimiter) (key : String) (perKeyMax globalMax d now : Int) : Bool × SlidingLimiter :=
  let cut := now - d
  let all := if globalMax > 0 then pruneOld s.all cut else s.all
  let perKey := fun k => (s.perKey k).bind (pruneKey cut)
  let kt := pruneOld ((perKey key).getD []) cut
  if (kt.length : Int) ≥ perKeyMax then (false, { perKey := perKey, all := all })
  else if globalMax > 0 ∧ (all.length : Int) ≥ globalMax then (false, { perKey := perKey, all := all })
  else
    (true, { perKey := Function.update perKey key (some (kt ++ [now])), all := if globalMax > 0 then all ++ [now] else all })

end EvuProxy

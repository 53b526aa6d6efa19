import EvuProxy.Api.Limit
import Mathlib.Data.List.Induction

/-!
# What the sliding limiter lets through

Calls on one limiter, one after the other, with the same maxima and the same window. What the limiter stores is the grants of the
current window, key by key and all together, and from this follows what it grants and what it denies.
-/

namespace EvuProxy

/-- A call of `allow`: the key and the time. -/
structure LimiterCall where
  key : String
  now : Int
  deriving DecidableEq

section

variable (perKeyMax globalMax d : Int)

/-- The limiter after a sequence of calls, and the calls that were granted. -/
def limiterRun (calls : List LimiterCall) : SlidingLimiter × List LimiterCall :=
  calls.foldl (fun (s, granted) c =>
    let r := s.allow c.key perKeyMax globalMax d c.now
    (r.2, if r.1 then granted ++ [c] else granted)) ({}, [])

/-- The limiter after a sequence of calls. -/
def limiterAfter (calls : List LimiterCall) : SlidingLimiter := (limiterRun perKeyMax globalMax d calls).1

/-- The calls that were granted. -/
def granted (calls : List LimiterCall) : List LimiterCall := (limiterRun perKeyMax globalMax d calls).2

/-- The answer to a call that follows others. -/
def allowedAfter (calls : List LimiterCall) (c : LimiterCall) : Bool :=
  ((limiterAfter perKeyMax globalMax d calls).allow c.key perKeyMax globalMax d c.now).1

/-- The grants in the window of length `d` that begins at `x`. -/
def inWindow (x : Int) (grants : List LimiterCall) : List LimiterCall := grants.filter fun g => x ≤ g.now ∧ g.now ≤ x + d

/-- The grants of one key. -/
def ofKey (key : String) (grants : List LimiterCall) : List LimiterCall := grants.filter fun g => g.key = key

/-- The window that ends with a call is full: of grants of its key, or of grants at all. -/
def WindowFull (grants : List LimiterCall) (c : LimiterCall) : Prop :=
  perKeyMax ≤ (inWindow d (c.now - d) (ofKey c.key grants)).length ∨
    0 < globalMax ∧ globalMax ≤ (inWindow d (c.now - d) grants).length

instance (grants : List LimiterCall) (c : LimiterCall) : Decidable (WindowFull perKeyMax globalMax d grants c) :=
  inferInstanceAs (Decidable (_ ∨ _ ∧ _))

/-- No window holds more grants than it may, a call is denied exactly where its window is full, and only keys with a grant in the
current window are stored. -/
structure LimitExact (calls : List LimiterCall) : Prop where
  perKey : ∀ key x, (inWindow d x (ofKey key (granted perKeyMax globalMax d calls))).length ≤ perKeyMax.toNat
  global : 0 < globalMax → ∀ x, (inWindow d x (granted perKeyMax globalMax d calls)).length ≤ globalMax.toNat
  denied : ∀ before c after, calls = before ++ c :: after →
    (allowedAfter perKeyMax globalMax d before c = false ↔ WindowFull perKeyMax globalMax d (granted perKeyMax globalMax d before) c)
  stored : ∀ before c after, calls = before ++ c :: after → ∀ key,
    ((limiterAfter perKeyMax globalMax d (before ++ [c])).perKey key).isSome →
      inWindow d (c.now - d) (ofKey key (granted perKeyMax globalMax d (before ++ [c]))) ≠ []

variable {perKeyMax globalMax d}

theorem limiterAfter_snoc (calls : List LimiterCall) (c : LimiterCall) :
    limiterAfter perKeyMax globalMax d (calls ++ [c]) =
      ((limiterAfter perKeyMax globalMax d calls).allow c.key perKeyMax globalMax d c.now).2 := by
  simp [limiterAfter, limiterRun]

theorem granted_snoc (calls : List LimiterCall) (c : LimiterCall) :
    granted perKeyMax globalMax d (calls ++ [c]) =
      granted perKeyMax globalMax d calls ++ if allowedAfter perKeyMax globalMax d calls c then [c] else [] := by
  simp only [granted, allowedAfter, limiterAfter, limiterRun, List.foldl_append, List.foldl_cons, List.foldl_nil]
  split <;> simp_all

/-! ## What is stored -/

/-- Of times in order, `pruneOld` leaves those from the cut on. -/
theorem pruneOld_eq_filter {ts : List Int} (h : ts.Pairwise (· ≤ ·)) (cut : Int) : pruneOld ts cut = ts.filter fun t => cut ≤ t := by
  induction ts with
  | nil => rfl
  | cons t ts ih =>
    obtain ⟨hle, hrest⟩ := List.pairwise_cons.1 h
    rw [pruneOld, List.dropWhile_cons]
    by_cases ht : t < cut
    · rw [if_pos (by simpa using ht), List.filter_cons_of_neg (by simpa using ht)]
      exact ih hrest
    · rw [if_neg (by simpa using ht), List.filter_eq_self.2]
      intro x hx
      rcases List.mem_cons.1 hx with rfl | hx
      · simpa using ht
      · have := hle x hx
        simp only [decide_eq_true_eq]
        omega

/-- Pruning what was pruned before. -/
theorem pruneOld_filter {ts : List Int} (h : ts.Pairwise (· ≤ ·)) {old cut : Int} (hcut : old ≤ cut) :
    pruneOld (ts.filter fun t => old ≤ t) cut = ts.filter fun t => cut ≤ t := by
  rw [pruneOld_eq_filter (h.sublist List.filter_sublist), List.filter_filter]
  refine List.filter_congr fun t _ => ?_
  rw [Bool.eq_iff_iff]
  simp only [Bool.and_eq_true, decide_eq_true_eq]
  omega

/-- The times of grants from a cut on. -/
def timesFrom (cut : Int) (grants : List LimiterCall) : List Int := (grants.map (·.now)).filter fun t => cut ≤ t

/-- At the time `t`, the limiter stores the times of the grants in the current window. -/
structure Stores (globalMax d : Int) (s : SlidingLimiter) (grants : List LimiterCall) (t : Int) : Prop where
  key : ∀ k, (s.perKey k).getD [] = timesFrom (t - d) (ofKey k grants)
  used : ∀ k, s.perKey k ≠ some []
  all : 0 < globalMax → s.all = timesFrom (t - d) grants
  sorted : (grants.map (·.now)).Pairwise (· ≤ ·)
  past : ∀ g ∈ grants, g.now ≤ t

theorem Stores.none (globalMax d t : Int) : Stores globalMax d {} [] t where
  key _ := rfl
  used _ := nofun
  all _ := rfl
  sorted := List.Pairwise.nil
  past := nofun

theorem ofKey_times_sublist (k : String) (grants : List LimiterCall) :
    ((ofKey k grants).map (·.now)).Sublist (grants.map (·.now)) := List.filter_sublist.map _

theorem pruneKey_getD (cut : Int) (v : List Int) : (pruneKey cut v).getD [] = pruneOld v cut := by
  rw [pruneKey]
  cases pruneOld v cut <;> rfl

theorem pruneKey_ne (cut : Int) (v : List Int) : pruneKey cut v ≠ some [] := by
  rw [pruneKey]
  cases pruneOld v cut <;> simp

/-- The times of a key after pruning. -/
theorem pruned_getD {s : SlidingLimiter} {cut : Int} (k : String) :
    ((s.perKey k).bind (pruneKey cut)).getD [] = pruneOld ((s.perKey k).getD []) cut := by
  cases s.perKey k with
  | none => rfl
  | some v => exact pruneKey_getD cut v

theorem pruned_ne {s : SlidingLimiter} {cut : Int} (k : String) : (s.perKey k).bind (pruneKey cut) ≠ some [] := by
  cases s.perKey k with
  | none => nofun
  | some v => exact pruneKey_ne cut v

/-- Of grants up to now, those from `now - d` on are those in the window that ends now. -/
theorem timesFrom_length (d now : Int) (grants : List LimiterCall) (hpast : ∀ g ∈ grants, g.now ≤ now) :
    (timesFrom (now - d) grants).length = (inWindow d (now - d) grants).length := by
  rw [timesFrom, inWindow, List.filter_map, List.length_map]
  congr 1
  refine List.filter_congr fun g hg => ?_
  have := hpast g hg
  rw [Bool.eq_iff_iff]
  simp only [Function.comp_apply, decide_eq_true_eq]
  omega

section step

variable {s : SlidingLimiter} {grants : List LimiterCall} {t : Int} {c : LimiterCall}

/-- The times of a key and of all, as a call finds them. -/
theorem Stores.pruned (h : Stores globalMax d s grants t) {now : Int} (hnow : t ≤ now) (k : String) :
    ((s.perKey k).bind (pruneKey (now - d))).getD [] = timesFrom (now - d) (ofKey k grants) := by
  rw [pruned_getD, h.key]
  exact pruneOld_filter (h.sorted.sublist (ofKey_times_sublist k grants)) (by omega)

theorem Stores.prunedAll (h : Stores globalMax d s grants t) {now : Int} (hnow : t ≤ now) (hglobal : 0 < globalMax) :
    pruneOld s.all (now - d) = timesFrom (now - d) grants := by
  rw [h.all hglobal]
  exact pruneOld_filter h.sorted (by omega)

theorem ofKey_append (k : String) (xs ys : List LimiterCall) : ofKey k (xs ++ ys) = ofKey k xs ++ ofKey k ys :=
  List.filter_append xs ys

theorem timesFrom_append (cut : Int) (xs ys : List LimiterCall) : timesFrom cut (xs ++ ys) = timesFrom cut xs ++ timesFrom cut ys := by
  rw [timesFrom, List.map_append, List.filter_append]
  rfl

theorem Stores.past_now (h : Stores globalMax d s grants t) (hnow : t ≤ c.now) : ∀ g ∈ grants, g.now ≤ c.now :=
  fun g hg => Int.le_trans (h.past g hg) hnow

/-- A call in terms of the grants before it. -/
theorem Stores.allow_eq (h : Stores globalMax d s grants t) (hnow : t ≤ c.now) :
    s.allow c.key perKeyMax globalMax d c.now =
      let pruned := fun k => (s.perKey k).bind (pruneKey (c.now - d))
      let all := if 0 < globalMax then timesFrom (c.now - d) grants else s.all
      if WindowFull perKeyMax globalMax d grants c then (false, { perKey := pruned, all := all })
      else
        (true, {
          perKey := Function.update pruned c.key (some (timesFrom (c.now - d) (ofKey c.key grants) ++ [c.now]))
          all := if 0 < globalMax then all ++ [c.now] else all }) := by
  have hkey : pruneOld (((s.perKey c.key).bind (pruneKey (c.now - d))).getD []) (c.now - d) =
      timesFrom (c.now - d) (ofKey c.key grants) := by
    rw [h.pruned hnow, timesFrom]
    exact pruneOld_filter (h.sorted.sublist (ofKey_times_sublist c.key grants)) (Int.le_refl _)
  have hkeyLength := timesFrom_length d c.now (ofKey c.key grants) fun g hg => h.past_now hnow g (List.mem_filter.1 hg).1
  have hallLength := timesFrom_length d c.now grants (h.past_now hnow)
  have hall : (if globalMax > 0 then pruneOld s.all (c.now - d) else s.all) =
      if 0 < globalMax then timesFrom (c.now - d) grants else s.all := by
    split
    · exact h.prunedAll hnow (by assumption)
    · rfl
  simp only [SlidingLimiter.allow, hkey, hall]
  by_cases hkeyFull : perKeyMax ≤ (timesFrom (c.now - d) (ofKey c.key grants)).length
  · have hfull : WindowFull perKeyMax globalMax d grants c := Or.inl (hkeyLength ▸ hkeyFull)
    rw [if_pos hkeyFull, if_pos hfull]
  · rw [if_neg hkeyFull]
    by_cases hglobal : 0 < globalMax
    · simp only [WindowFull, ← hkeyLength, ← hallLength, hkeyFull, hglobal, ge_iff_le, true_and, false_or, if_true]
    · have hopen : ¬WindowFull perKeyMax globalMax d grants c := by
        rw [WindowFull, ← hkeyLength]
        exact not_or.2 ⟨hkeyFull, fun hg => hglobal hg.1⟩
      rw [if_neg hopen, if_neg (fun hg => hglobal hg.1)]

/-- A call is denied where its window is full. -/
theorem Stores.allow_fst (h : Stores globalMax d s grants t) (hnow : t ≤ c.now) :
    (s.allow c.key perKeyMax globalMax d c.now).1 = false ↔ WindowFull perKeyMax globalMax d grants c := by
  rw [h.allow_eq hnow]
  by_cases hfull : WindowFull perKeyMax globalMax d grants c
  · simp [hfull]
  · simp [hfull]

theorem timesFrom_singleton (hd : 0 ≤ d) : timesFrom (c.now - d) [c] = [c.now] := by
  simp only [timesFrom, List.map_cons, List.map_nil, List.filter_cons, List.filter_nil]
  rw [if_pos (by simp only [decide_eq_true_eq]; omega)]

/-- A call leaves the grants of the current window stored, its own with them. -/
theorem Stores.step (perKeyMax : Int) (h : Stores globalMax d s grants t) (hnow : t ≤ c.now) (hd : 0 ≤ d) :
    Stores globalMax d (s.allow c.key perKeyMax globalMax d c.now).2
      (grants ++ if (s.allow c.key perKeyMax globalMax d c.now).1 then [c] else []) c.now := by
  have hpast := h.past_now hnow
  rw [h.allow_eq hnow]
  by_cases hfull : WindowFull perKeyMax globalMax d grants c
  · simp only [if_pos hfull, Bool.false_eq_true, if_false, List.append_nil]
    exact {
      key := fun k => h.pruned hnow k
      used := fun k => pruned_ne k
      all := fun hglobal => if_pos hglobal
      sorted := h.sorted
      past := hpast }
  · simp only [if_neg hfull, if_true]
    refine {
      key := fun k => ?_
      used := fun k => ?_
      all := fun hglobal => ?_
      sorted := ?_
      past := fun g hg => ?_ }
    · dsimp only
      rw [ofKey_append, timesFrom_append]
      by_cases hk : k = c.key
      · subst hk
        rw [Function.update_self, Option.getD_some, ofKey, ofKey, List.filter_cons_of_pos (by simp), List.filter_nil,
          timesFrom_singleton hd]
      · rw [Function.update_of_ne hk, h.pruned hnow, ofKey, ofKey, List.filter_cons_of_neg (by simpa using Ne.symm hk), List.filter_nil]
        simp [timesFrom]
    · dsimp only
      by_cases hk : k = c.key
      · subst hk
        simp
      · rw [Function.update_of_ne hk]
        exact pruned_ne k
    · dsimp only
      rw [if_pos hglobal, if_pos hglobal, timesFrom_append, timesFrom_singleton hd]
    · rw [List.map_append, List.pairwise_append]
      refine ⟨h.sorted, List.pairwise_singleton _ _, fun x hx y hy => ?_⟩
      obtain ⟨g, hg, rfl⟩ := List.mem_map.1 hx
      rw [List.map_singleton, List.mem_singleton] at hy
      subst hy
      exact hpast g hg
    · rcases List.mem_append.1 hg with hg | hg
      · exact hpast g hg
      · obtain rfl := List.mem_singleton.1 hg
        exact Int.le_refl _

end step

/-! ## Runs -/

/-- After calls in order of time, the grants of the current window are stored. -/
theorem stores_run (perKeyMax globalMax : Int) (hd : 0 ≤ d) {calls : List LimiterCall}
    (hcalls : calls.Pairwise fun b c => b.now ≤ c.now) {now : Int} (hnow : ∀ c ∈ calls, c.now ≤ now) :
    ∃ t, t ≤ now ∧ Stores globalMax d (limiterAfter perKeyMax globalMax d calls) (granted perKeyMax globalMax d calls) t := by
  induction calls using List.reverseRecOn generalizing now with
  | nil => exact ⟨now, Int.le_refl now, .none globalMax d now⟩
  | append_singleton calls c ih =>
    obtain ⟨hbefore, -, hle⟩ := List.pairwise_append.1 hcalls
    obtain ⟨t, ht, hstores⟩ := ih hbefore fun b hb => hle b hb c List.mem_cons_self
    refine ⟨c.now, hnow c (List.mem_append_right _ List.mem_cons_self), ?_⟩
    rw [limiterAfter_snoc, granted_snoc]
    exact hstores.step perKeyMax ht hd

/-- Of grants up to the last one, a window that holds the last one is part of the window that ends with it. -/
theorem inWindow_le {grants : List LimiterCall} {now x : Int} (hpast : ∀ g ∈ grants, g.now ≤ now) (hx : now ≤ x + d) :
    (inWindow d x grants).length ≤ (inWindow d (now - d) grants).length := by
  rw [inWindow, inWindow, ← List.countP_eq_length_filter, ← List.countP_eq_length_filter]
  refine List.countP_mono_left fun g hg hin => ?_
  have := hpast g hg
  simp only [decide_eq_true_eq] at hin ⊢
  omega

/-- One more grant keeps to a maximum, if the window that ends with it held less. -/
theorem window_snoc {grants : List LimiterCall} {c : LimiterCall} {limit : Int} (hpast : ∀ g ∈ grants, g.now ≤ c.now)
    (hroom : (inWindow d (c.now - d) grants).length < limit) {x : Int} (hbefore : (inWindow d x grants).length ≤ limit.toNat) :
    (inWindow d x (grants ++ [c])).length ≤ limit.toNat := by
  rw [inWindow, List.filter_append, List.length_append]
  by_cases hin : x ≤ c.now ∧ c.now ≤ x + d
  · have hle := inWindow_le hpast hin.2
    rw [List.filter_cons_of_pos (by simpa using hin), List.filter_nil, List.length_singleton]
    rw [inWindow] at hle
    omega
  · rw [List.filter_cons_of_neg (by simpa using hin), List.filter_nil, List.length_nil]
    exact hbefore

/-- No window holds more grants than it may. -/
theorem window_bounds (hd : 0 ≤ d) {calls : List LimiterCall} (hcalls : calls.Pairwise fun b c => b.now ≤ c.now) :
    (∀ key x, (inWindow d x (ofKey key (granted perKeyMax globalMax d calls))).length ≤ perKeyMax.toNat) ∧
      (0 < globalMax → ∀ x, (inWindow d x (granted perKeyMax globalMax d calls)).length ≤ globalMax.toNat) := by
  induction calls using List.reverseRecOn with
  | nil => exact ⟨fun _ _ => Nat.zero_le _, fun _ _ => Nat.zero_le _⟩
  | append_singleton calls c ih =>
    obtain ⟨hbefore, -, hle⟩ := List.pairwise_append.1 hcalls
    obtain ⟨hkey, hglobal⟩ := ih hbefore
    obtain ⟨t, ht, hstores⟩ := stores_run perKeyMax globalMax hd hbefore
      fun b hb => hle b hb c List.mem_cons_self
    have hpast := hstores.past_now ht
    rw [granted_snoc]
    by_cases hallowed : allowedAfter perKeyMax globalMax d calls c = true
    · have hopen : ¬WindowFull perKeyMax globalMax d (granted perKeyMax globalMax d calls) c := fun hfull => by
        rw [allowedAfter, (hstores.allow_fst ht).2 hfull] at hallowed
        cases hallowed
      rw [WindowFull, not_or, Int.not_le] at hopen
      rw [if_pos hallowed]
      constructor
      · intro key x
        rw [ofKey_append]
        by_cases hk : c.key = key
        · subst hk
          rw [ofKey, ofKey, List.filter_cons_of_pos (by simp), List.filter_nil]
          exact window_snoc (fun g hg => hpast g (List.mem_filter.1 hg).1) hopen.1 (hkey c.key x)
        · rw [ofKey, ofKey, List.filter_cons_of_neg (by simpa using hk), List.filter_nil, List.append_nil]
          exact hkey key x
      · intro hpos x
        exact window_snoc hpast (Int.not_le.1 fun h => hopen.2 ⟨hpos, h⟩) (hglobal hpos x)
    · rw [if_neg hallowed, List.append_nil]
      exact ⟨hkey, hglobal⟩

/-- The sliding limiter is exact, for every sequence of calls in order of time. -/
theorem limiter_exact (hd : 0 ≤ d) (calls : List LimiterCall) (hcalls : calls.Pairwise fun b c => b.now ≤ c.now) :
    LimitExact perKeyMax globalMax d calls where
  perKey := (window_bounds hd hcalls).1
  global := (window_bounds hd hcalls).2
  denied before c after heq := by
    obtain ⟨hbefore, -, hle⟩ := List.pairwise_append.1 (heq ▸ hcalls)
    obtain ⟨t, ht, hstores⟩ := stores_run perKeyMax globalMax hd hbefore
      fun b hb => hle b hb c List.mem_cons_self
    exact hstores.allow_fst ht
  stored before c after heq key hkey := by
    obtain ⟨hbefore, -, hle⟩ := List.pairwise_append.1 (heq ▸ hcalls)
    obtain ⟨t, ht, hstores⟩ := stores_run perKeyMax globalMax hd hbefore
      fun b hb => hle b hb c List.mem_cons_self
    have hnext := hstores.step perKeyMax ht hd
    obtain ⟨ts, hts⟩ := Option.isSome_iff_exists.1 hkey
    rw [limiterAfter_snoc] at hts
    rw [granted_snoc]
    intro hnil
    have hlen := timesFrom_length d c.now (ofKey key _) fun g hg => hnext.past g (List.mem_filter.1 hg).1
    rw [← hnext.key, hts, Option.getD_some] at hlen
    have hempty : ts = [] := List.length_eq_zero_iff.1 (hlen.trans (List.length_eq_zero_iff.2 hnil))
    exact hnext.used key (hempty ▸ hts)

end

theorem limiter_exact_sample :
    LimitExact 2 3 60 [⟨"a", 0⟩, ⟨"a", 10⟩, ⟨"b", 20⟩, ⟨"a", 61⟩, ⟨"c", 62⟩] :=
  limiter_exact (by decide) _ (by decide)

end EvuProxy

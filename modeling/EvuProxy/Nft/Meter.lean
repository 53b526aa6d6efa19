import Mathlib.Data.List.Count

/-!
# Meters

What `update @set { ip saddr limit rate over N/second burst B packets }` drops of the packets of one source. The element of the source
holds a bucket of tokens, a token a nanosecond; a packet takes the share of a second that the rate leaves to it. Times are in
nanoseconds.
-/

namespace Nft

/-- `limit rate over perSecond/second burst burst packets`. -/
structure Rate where
  perSecond : Nat
  burst : Nat
  deriving DecidableEq

/-- A second. -/
def second : Nat := 1000000000

/-- What a packet takes from the bucket. -/
def Rate.cost (l : Rate) : Nat := second / l.perSecond

/-- What the bucket holds at most. -/
def Rate.full (l : Rate) : Nat := l.cost * l.burst

/-- The element of a source: what its last packet left in the bucket, and when it came. Before the first packet there is no element. -/
structure Bucket where
  tokens : Nat
  last : Option Nat

/-- The bucket before the first packet. -/
def Rate.fresh (l : Rate) : Bucket := { tokens := l.full, last := none }

section meter

variable (timeout : Nat)

/-- What is in the bucket when a packet comes. An element that has timed out is made anew, and full. -/
def Rate.available (l : Rate) (b : Bucket) (now : Nat) : Nat :=
  match b.last with
  | none => l.full
  | some t => if t + timeout ≤ now then l.full else min l.full (b.tokens + (now - t))

/-- Whether the rule matches the packet, and drops it. -/
def Rate.exceeds (l : Rate) (b : Bucket) (now : Nat) : Bool := l.available timeout b now < l.cost

/-- The bucket after the packet. -/
def Rate.update (l : Rate) (b : Bucket) (now : Nat) : Bucket where
  tokens := if l.exceeds timeout b now then l.available timeout b now else l.available timeout b now - l.cost
  last := some now

/-- The times of the packets that are dropped. -/
def Rate.dropped (l : Rate) : Bucket → List Nat → List Nat
  | _, [] => []
  | b, now :: times =>
    if l.exceeds timeout b now then now :: l.dropped (l.update timeout b now) times else l.dropped (l.update timeout b now) times

/-- How many of a source's packets are dropped up to a time. -/
def Rate.dropsUpTo (l : Rate) (t : Nat) (times : List Nat) : Nat := (l.dropped timeout l.fresh times).countP (· ≤ t)

/-- `l'` never drops more than `l`, whenever the packets come. -/
def Rate.Looser (l' l : Rate) : Prop :=
  ∀ times : List Nat, times.Pairwise (· ≤ ·) → ∀ t, l'.dropsUpTo timeout t times ≤ l.dropsUpTo timeout t times

variable {timeout : Nat} {l l' : Rate} {b b' : Bucket} {d d' : Nat}

/-! ## Two meters on the same packets -/

/-- Two meters that have seen the same packets and dropped `d` and `d'` of them. What the bucket of the first holds more, in packets,
the second has let through. -/
structure Coupled (l l' : Rate) (b b' : Bucket) (d d' : Nat) : Prop where
  last : b.last = b'.last
  drops : d' ≤ d
  tokens : b.tokens * l'.cost + d' * (l.cost * l'.cost) ≤ b'.tokens * l.cost + d * (l.cost * l'.cost)

/-- A full bucket of the second holds as many packets. -/
theorem full_le (hburst : l.burst ≤ l'.burst) : l.full * l'.cost ≤ l'.full * l.cost := by
  calc l.full * l'.cost = l.cost * l'.cost * l.burst := by rw [Rate.full, Nat.mul_right_comm]
    _ ≤ l.cost * l'.cost * l'.burst := Nat.mul_le_mul_left _ hburst
    _ = l'.full * l.cost := by rw [Rate.full, Nat.mul_comm l.cost, Nat.mul_right_comm]

theorem coupled_fresh (hburst : l.burst ≤ l'.burst) : Coupled l l' l.fresh l'.fresh 0 0 where
  last := rfl
  drops := Nat.le_refl 0
  tokens := Nat.add_le_add (full_le hburst) (Nat.le_refl _)

/-- Filling the buckets keeps the order. -/
theorem Coupled.available (h : Coupled l l' b b' d d') (hcost : l'.cost ≤ l.cost) (hburst : l.burst ≤ l'.burst) (now : Nat) :
    l.available timeout b now * l'.cost + d' * (l.cost * l'.cost) ≤ l'.available timeout b' now * l.cost + d * (l.cost * l'.cost) := by
  have hdrops : d' * (l.cost * l'.cost) ≤ d * (l.cost * l'.cost) := Nat.mul_le_mul_right _ h.drops
  have hfull := @full_le l l' hburst
  unfold Rate.available
  rw [← h.last]
  cases hlast : b.last with
  | none => exact Nat.add_le_add hfull hdrops
  | some t =>
    dsimp only
    split
    · exact Nat.add_le_add hfull hdrops
    · rcases Nat.le_total l'.full (b'.tokens + (now - t)) with hle | hle
      · rw [Nat.min_eq_left hle]
        exact Nat.add_le_add (Nat.le_trans (Nat.mul_le_mul_right _ (Nat.min_le_left _ _)) hfull) hdrops
      · rw [Nat.min_eq_right hle]
        have hgrow : (now - t) * l'.cost ≤ (now - t) * l.cost := Nat.mul_le_mul_left _ hcost
        have htokens := h.tokens
        have hmin : min l.full (b.tokens + (now - t)) * l'.cost ≤ (b.tokens + (now - t)) * l'.cost :=
          Nat.mul_le_mul_right _ (Nat.min_le_right _ _)
        rw [Nat.add_mul] at hmin ⊢
        omega

/-- One more packet. -/
theorem Coupled.step (h : Coupled l l' b b' d d') (hcost : l'.cost ≤ l.cost) (hburst : l.burst ≤ l'.burst) (now : Nat) :
    Coupled l l' (l.update timeout b now) (l'.update timeout b' now) (d + (l.exceeds timeout b now).toNat) (d' + (l'.exceeds timeout b' now).toNat) := by
  have havail := @Coupled.available timeout l l' b b' d d' h hcost hburst now
  have hdrops := h.drops
  unfold Rate.update Rate.exceeds
  generalize l.available timeout b now = a at havail
  generalize l'.available timeout b' now = a' at havail
  have hcross : l'.cost * l.cost = l.cost * l'.cost := Nat.mul_comm _ _
  by_cases hover : a < l.cost <;> by_cases hover' : a' < l'.cost <;>
    simp only [hover, hover', decide_true, decide_false, Bool.toNat_true, Bool.toNat_false, if_true, Bool.false_eq_true, if_false, Nat.add_zero]
  · refine ⟨rfl, by omega, ?_⟩
    dsimp only
    rw [Nat.succ_mul, Nat.succ_mul]
    omega
  · -- Only the first drops it.
    have hpass : l'.cost * l.cost ≤ a' * l.cost := Nat.mul_le_mul_right _ (Nat.not_lt.mp hover')
    refine ⟨rfl, by omega, ?_⟩
    dsimp only
    rw [Nat.succ_mul, Nat.sub_mul]
    omega
  · -- Only the second drops it: it is ahead by a packet at least.
    have hpass : l.cost * l'.cost ≤ a * l'.cost := Nat.mul_le_mul_right _ (Nat.not_lt.mp hover)
    have hshort : a' * l.cost < l'.cost * l.cost := Nat.mul_lt_mul_of_pos_right hover' (by omega)
    have hahead : d' ≠ d := by
      rintro rfl
      omega
    refine ⟨rfl, by omega, ?_⟩
    dsimp only
    rw [Nat.succ_mul, Nat.sub_mul]
    omega
  · have hpass : l.cost * l'.cost ≤ a * l'.cost := Nat.mul_le_mul_right _ (Nat.not_lt.mp hover)
    have hpass' : l'.cost * l.cost ≤ a' * l.cost := Nat.mul_le_mul_right _ (Nat.not_lt.mp hover')
    refine ⟨rfl, hdrops, ?_⟩
    dsimp only
    rw [Nat.sub_mul, Nat.sub_mul]
    omega

theorem dropped_cons (l : Rate) (b : Bucket) (now : Nat) (times : List Nat) :
    l.dropped timeout b (now :: times) =
      (if l.exceeds timeout b now then [now] else []) ++ l.dropped timeout (l.update timeout b now) times := by
  rw [Rate.dropped]
  split <;> rfl

/-- What is dropped has come. -/
theorem dropped_subset (l : Rate) : ∀ (times : List Nat) (b : Bucket), l.dropped timeout b times ⊆ times
  | [], _ => List.Subset.refl _
  | now :: times, b => by
    rw [dropped_cons]
    refine List.append_subset.mpr ⟨?_, List.subset_cons_of_subset _ (dropped_subset l times _)⟩
    split
    · exact List.cons_subset_cons _ (List.nil_subset _)
    · exact List.nil_subset _

/-- Two coupled meters on more packets, counted up to a time. -/
theorem Coupled.run (hcost : l'.cost ≤ l.cost) (hburst : l.burst ≤ l'.burst) (t : Nat) :
    ∀ {times : List Nat} {b b' : Bucket} {d d' : Nat}, Coupled l l' b b' d d' → times.Pairwise (· ≤ ·) →
      d' + (l'.dropped timeout b' times).countP (· ≤ t) ≤ d + (l.dropped timeout b times).countP (· ≤ t)
  | [], _, _, _, _, h, _ => h.drops
  | now :: times, b, b', d, d', h, hsorted => by
    obtain ⟨hlater, hsorted⟩ := List.pairwise_cons.mp hsorted
    by_cases hnow : now ≤ t
    · have hrest := Coupled.run hcost hburst t (@Coupled.step timeout l l' b b' d d' h hcost hburst now) hsorted
      have hhead : ∀ late : Bool, (if late then [now] else []).countP (· ≤ t) = late.toNat := fun late => by
        cases late <;> simp [hnow]
      rw [dropped_cons, dropped_cons, List.countP_append, List.countP_append, hhead, hhead]
      omega
    · -- Nothing more comes up to the time.
      have hnone : ∀ (k : Rate) (e : Bucket), (k.dropped timeout e (now :: times)).countP (· ≤ t) = 0 := fun k e => by
        refine List.countP_eq_zero.mpr fun x hx => ?_
        rcases List.mem_cons.mp (dropped_subset k _ e hx) with rfl | hx
        · simpa using hnow
        · have hle := hlater x hx
          simp only [decide_eq_true_eq]
          omega
      rw [hnone, hnone]
      exact h.drops

/-- A meter with a packet's cost and a burst that are no worse drops no more. -/
theorem looser_of_le (hcost : l'.cost ≤ l.cost) (hburst : l.burst ≤ l'.burst) : l'.Looser timeout l := by
  intro times hsorted t
  have h := @Coupled.run timeout l l' hcost hburst t times _ _ 0 0 (coupled_fresh hburst) hsorted
  rwa [Nat.zero_add, Nat.zero_add] at h

/-! ## Packets that come at once -/

/-- Of packets that come at once, as many pass as the bucket holds. -/
theorem dropped_atOnce (hcost : 0 < l.cost) (htimeout : 0 < timeout) : ∀ {k j : Nat} {b : Bucket}, l.available timeout b 0 = l.cost * j → j ≤ l.burst →
    ((l.dropped timeout b (List.replicate k 0)).countP (· ≤ 0)) = k - j
  | 0, j, b, _, _ => by simp [Rate.dropped]
  | k + 1, j, b, havail, hj => by
    rw [List.replicate_succ, dropped_cons, List.countP_append]
    have hnext : ∀ i, (l.update timeout b 0).tokens = l.cost * i → i ≤ l.burst → l.available timeout (l.update timeout b 0) 0 = l.cost * i := by
      intro i hi hle
      have hfull : l.cost * i ≤ l.full := Nat.mul_le_mul_left _ hle
      unfold Rate.available
      dsimp only [Rate.update] at hi ⊢
      rw [hi, if_neg (by omega), Nat.sub_zero, Nat.add_zero, Nat.min_eq_right hfull]
    cases j with
    | zero =>
      have hover : l.exceeds timeout b 0 = true := by
        unfold Rate.exceeds
        rw [havail]
        exact decide_eq_true (by omega)
      have htokens : (l.update timeout b 0).tokens = l.cost * 0 := by
        rw [Rate.update, if_pos hover, havail]
      rw [if_pos hover, dropped_atOnce hcost htimeout (hnext 0 htokens (Nat.zero_le _)) (Nat.zero_le _)]
      simp
      omega
    | succ j =>
      have hover : ¬l.exceeds timeout b 0 = true := by
        unfold Rate.exceeds
        rw [havail, Nat.mul_succ, decide_eq_true_eq]
        omega
      have htokens : (l.update timeout b 0).tokens = l.cost * j := by
        rw [Rate.update, if_neg hover, havail, Nat.mul_succ]
        exact Nat.add_sub_cancel _ _
      rw [if_neg hover, dropped_atOnce hcost htimeout (hnext j htokens (by omega)) (by omega)]
      simp

/-- A meter with a smaller burst drops more of so many packets at once. -/
theorem not_looser_of_burst (hcost : 0 < l.cost) (hcost' : 0 < l'.cost) (htimeout : 0 < timeout) (hburst : l'.burst < l.burst) :
    ¬l'.Looser timeout l := by
  intro h
  have hle := h (List.replicate l.burst 0) (List.pairwise_replicate.mpr (.inr (Nat.le_refl 0))) 0
  unfold Rate.dropsUpTo at hle
  rw [dropped_atOnce hcost htimeout rfl (Nat.le_refl _), dropped_atOnce hcost' htimeout rfl (Nat.le_refl _)] at hle
  omega

end meter

end Nft

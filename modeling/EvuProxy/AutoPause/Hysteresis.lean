import Mathlib.Data.List.Infix

/-!
# Runs of probe results

The counters of `internal/autopause` for one peer, and what they say about the list of results they were fed.
-/

namespace EvuProxy.AutoPause

/-- `hysteresis`: the consecutive probe results of one peer. -/
structure Hysteresis where
  paused : Bool := false
  failures : Nat := 0
  successes : Nat := 0
  deriving DecidableEq

/-- `hysteresis.observe`. -/
def Hysteresis.observe (h : Hysteresis) (online : Bool) (failuresToPause successesToResume : Nat) : Hysteresis :=
  if online then
    let h := { h with failures := 0, successes := h.successes + 1 }
    if h.paused ∧ successesToResume ≤ h.successes then { h with paused := false } else h
  else
    let h := { h with successes := 0, failures := h.failures + 1 }
    if ¬h.paused ∧ failuresToPause ≤ h.failures then { h with paused := true } else h

/-! ## Counted rounds -/

/-- A counted round as a peer took part in it: the result, and the thresholds of the round, which are never zero. -/
structure Count where
  online : Bool
  failuresToPause : Nat
  successesToResume : Nat
  failures_pos : 0 < failuresToPause
  successes_pos : 0 < successesToResume

/-- The number of consecutive failures at the end of a list of rounds. -/
def failureRun (cs : List Count) : Nat := (cs.reverse.takeWhile fun c => !c.online).length

/-- The number of consecutive successes at the end of a list of rounds. -/
def successRun (cs : List Count) : Nat := (cs.reverse.takeWhile fun c => c.online).length

theorem failureRun_snoc (cs : List Count) (c : Count) :
    failureRun (cs ++ [c]) = if c.online then 0 else failureRun cs + 1 := by
  cases hc : c.online <;> simp [failureRun, hc]

theorem successRun_snoc (cs : List Count) (c : Count) :
    successRun (cs ++ [c]) = if c.online then successRun cs + 1 else 0 := by
  cases hc : c.online <;> simp [successRun, hc]

/-- At the last of the rounds, the run of failures has reached that round's threshold. -/
def FailuresReached (cs : List Count) : Prop := ∃ c, cs.getLast? = some c ∧ c.failuresToPause ≤ failureRun cs

/-- At the last of the rounds, the run of successes has reached that round's threshold. -/
def SuccessesReached (cs : List Count) : Prop := ∃ c, cs.getLast? = some c ∧ c.successesToResume ≤ successRun cs

theorem failuresReached_snoc {cs : List Count} {c : Count} :
    FailuresReached (cs ++ [c]) ↔ c.failuresToPause ≤ failureRun (cs ++ [c]) := by
  simp [FailuresReached]

theorem successesReached_snoc {cs : List Count} {c : Count} :
    SuccessesReached (cs ++ [c]) ↔ c.successesToResume ≤ successRun (cs ++ [c]) := by
  simp [SuccessesReached]

/-- At some round the failures had reached their threshold, and at no later one the successes theirs. -/
def HeldPaused (cs : List Count) : Prop :=
  ∃ upTo, upTo <+: cs ∧ FailuresReached upTo ∧
    ∀ later, later <+: cs → upTo.length < later.length → ¬SuccessesReached later

theorem not_heldPaused_nil : ¬HeldPaused [] := by
  rintro ⟨upTo, hpre, ⟨c, hc, -⟩, -⟩
  rw [List.prefix_nil.mp hpre] at hc
  cases hc

/-- One more round: it reaches the threshold of failures, or an earlier one did and this one not that of successes. -/
theorem heldPaused_snoc {cs : List Count} {c : Count} :
    HeldPaused (cs ++ [c]) ↔ FailuresReached (cs ++ [c]) ∨ HeldPaused cs ∧ ¬SuccessesReached (cs ++ [c]) := by
  constructor
  · rintro ⟨upTo, hpre, hfail, hlater⟩
    rcases List.prefix_concat_iff.mp hpre with rfl | hpre
    · exact .inl hfail
    · have hlen := hpre.length_le
      refine .inr ⟨⟨upTo, hpre, hfail, fun later hl => hlater later (hl.trans (List.prefix_append _ _))⟩, ?_⟩
      exact hlater _ List.prefix_rfl (by simp; omega)
  · rintro (hfail | ⟨⟨upTo, hpre, hfail, hlater⟩, hsucc⟩)
    · refine ⟨_, List.prefix_rfl, hfail, fun later hl hlen => ?_⟩
      have := hl.length_le
      omega
    · refine ⟨upTo, hpre.trans (List.prefix_append _ _), hfail, fun later hl hlen => ?_⟩
      rcases List.prefix_concat_iff.mp hl with rfl | hl
      · exact hsucc
      · exact hlater later hl hlen

/-- The counters agree with the rounds they were fed. -/
structure Hysteresis.Reads (h : Hysteresis) (cs : List Count) : Prop where
  failures : h.failures = failureRun cs
  successes : h.successes = successRun cs
  paused : h.paused = true ↔ HeldPaused cs

theorem Hysteresis.reads_nil : Hysteresis.Reads {} [] where
  failures := rfl
  successes := rfl
  paused := ⟨fun h => (by cases h), fun h => absurd h not_heldPaused_nil⟩

/-- One observation keeps the counters in agreement. -/
theorem Hysteresis.Reads.observe {h : Hysteresis} {cs : List Count} (hr : h.Reads cs) (c : Count) :
    (h.observe c.online c.failuresToPause c.successesToResume).Reads (cs ++ [c]) := by
  have hf := c.failures_pos
  have hs := c.successes_pos
  cases hc : c.online with
  | true =>
    have hfails : failureRun (cs ++ [c]) = 0 := by rw [failureRun_snoc, if_pos hc]
    have hsuccs : successRun (cs ++ [c]) = h.successes + 1 := by rw [successRun_snoc, if_pos hc, hr.successes]
    have hheld : HeldPaused (cs ++ [c]) ↔ h.paused = true ∧ ¬c.successesToResume ≤ h.successes + 1 := by
      rw [heldPaused_snoc, failuresReached_snoc, successesReached_snoc, hfails, hsuccs, ← hr.paused]
      exact or_iff_right (by omega)
    by_cases hresume : h.paused = true ∧ c.successesToResume ≤ h.successes + 1
    · rw [Hysteresis.observe, if_pos rfl, if_pos hresume]
      exact ⟨hfails.symm, hsuccs.symm, ⟨fun h => (by cases h), fun h => absurd hresume.2 (hheld.mp h).2⟩⟩
    · rw [Hysteresis.observe, if_pos rfl, if_neg hresume]
      exact ⟨hfails.symm, hsuccs.symm, ⟨fun h => hheld.mpr ⟨h, fun hn => hresume ⟨h, hn⟩⟩, fun h => (hheld.mp h).1⟩⟩
  | false =>
    have hfails : failureRun (cs ++ [c]) = h.failures + 1 := by rw [failureRun_snoc, if_neg (by simp [hc]), hr.failures]
    have hsuccs : successRun (cs ++ [c]) = 0 := by rw [successRun_snoc, if_neg (by simp [hc])]
    have hheld : HeldPaused (cs ++ [c]) ↔ c.failuresToPause ≤ h.failures + 1 ∨ h.paused = true := by
      rw [heldPaused_snoc, failuresReached_snoc, successesReached_snoc, hfails, hsuccs, ← hr.paused]
      exact or_congr_right (and_iff_left (by omega))
    by_cases hpause : ¬h.paused = true ∧ c.failuresToPause ≤ h.failures + 1
    · rw [Hysteresis.observe, if_neg (by simp), if_pos hpause]
      exact ⟨hfails.symm, hsuccs.symm, ⟨fun _ => hheld.mpr (.inl hpause.2), fun _ => rfl⟩⟩
    · rw [Hysteresis.observe, if_neg (by simp), if_neg hpause]
      refine ⟨hfails.symm, hsuccs.symm, ⟨fun h => hheld.mpr (.inr h), fun h => ?_⟩⟩
      by_contra hp
      exact hpause ⟨hp, (hheld.mp h).resolve_right hp⟩

end EvuProxy.AutoPause

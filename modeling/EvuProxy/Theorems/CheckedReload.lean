import EvuProxy.Api.ApplyHandlers
import EvuProxy.Apply.System

/-!
# A reload of the file that was checked

A one-way reload that names a hash applies nothing but a config.yaml with that hash, wherever it stops. All it may do beside that is to
roll an interrupted session back.
-/

namespace EvuProxy

open Go Fault Fault.Prog

variable {Γ : Ctx} {R : Rules (host Γ)} {T : World Γ → Prop} {w : World Γ} {K : (FileName → Bool) → Prop}

/-! ## One-way reloads -/

/-- A one-way reload got no further than the rollback of an interrupted session, or it applied a config.yaml of which `P` holds. -/
def AppliesOnly (K : (FileName → Bool) → Prop) (P : Γ.Bytes → Prop) (w w' : World Γ) : Prop :=
  Recover K w w' ∨ ∃ v b, Cleared K w v ∧ v.files .config = some b ∧ P b ∧ Attempting v w'

theorem AppliesOnly.mono {P Q : Γ.Bytes → Prop} {w' : World Γ} (hPQ : ∀ b, P b → Q b) (h : AppliesOnly K P w w') :
    AppliesOnly K Q w w' :=
  h.imp id fun ⟨v, b, hv, hb, hP, hw⟩ => ⟨v, b, hv, hb, hPQ b hP, hw⟩

theorem checkConfigHash_spec {hash : String} (hne : hash ≠ "") :
    Stops R (fun w' => w' = w) (checkConfigHash hash)
      (fun _ w' => w = w' ∧ ∃ b, w.files .config = some b ∧ Γ.sha256 b = hash) w := by
  refine .ite (fun h => absurd h hne) fun _ => ?_
  refine .bind (P := fun h w' => w = w' ∧ ∃ b, w.files .config = some b ∧ Γ.sha256 b = h) ?_ fun cur w' hT h => ?_
  · refine .bind (P := fun b w' => w = w' ∧ w.files .config = some b) (stops_readExisting rfl fun b hb => ⟨rfl, hb⟩) fun b w' hT h => ?_
    exact .ret hT ⟨h.1, b, h.2, rfl⟩
  · obtain ⟨rfl, b, hb, rfl⟩ := h
    exact .ite (fun _ => .fail rfl) fun heq => .ret rfl ⟨rfl, b, hb, not_not.mp heq⟩

theorem reloadIfMatch_applies (hK : Clears R K) {hash : String} (hne : hash ≠ "") :
    Stops R (AppliesOnly K (Γ.sha256 · = hash) w) (reloadIfMatch hash) (fun _ _ => True) w := by
  refine .bind (P := fun _ w' => w = w') (stops_acquireApplyLock (Or.inl (Or.inl rfl)) rfl) fun _ _ _ h => ?_
  subst h
  refine .call (checkOneWayReload_spec hK) (fun _ h => Or.inl h) fun _ v _ hv => ?_
  have hv : Cleared K w v := hv
  refine .call (checkConfigHash_spec hne) (fun w' h => ?_) fun _ _ _ h => ?_
  · subst h
    exact Or.inl hv.recover
  · obtain ⟨rfl, b, hb, hash⟩ := h
    exact (recorded_spec reload_spec).mono (fun _ h => Or.inr ⟨v, b, hv, hb, hash, h⟩) fun _ _ _ _ => trivial

/-! ## The handler -/

theorem stops_emit {event detail errorCode : String} (hT : T w) : Stops R T (emit event detail errorCode) (fun _ w' => w = w') w :=
  .bind (P := fun _ w' => w = w') (stops_attempt_quiet (fun _ => rfl) (fun _ => rfl) hT (fun _ _ _ => rfl) fun _ => rfl)
    fun _ _ hT h => .ret hT h

theorem serveReload_applies (hK : Clears R K) {req : ReloadRequest} (hone : req.confirmTimeoutSeconds ≤ 0) (hforce : req.force = false) :
    Stops R (AppliesOnly K (fun b => Γ.sha256 b = req.configHash ∧ req.configHash ≠ "") w) (serveReload req) (fun _ _ => True) w := by
  have h₀ : AppliesOnly K (fun b => Γ.sha256 b = req.configHash ∧ req.configHash ≠ "") w w := Or.inl (Or.inl rfl)
  refine .ite (fun _ => ?_) fun hhash => ?_
  · exact .bind (stops_emit h₀) fun _ _ hT _ => .ret hT trivial
  have hne : req.configHash ≠ "" := fun h => hhash ⟨h, by simp [hforce]⟩
  have hreload : Stops R (AppliesOnly K (fun b => Γ.sha256 b = req.configHash ∧ req.configHash ≠ "") w) (requestedReload req)
      (fun _ _ => True) w := by
    refine .ite (fun h => absurd h (not_lt.mpr hone)) fun _ => ?_
    exact .bind ((reloadIfMatch_applies hK hne).mono (fun _ h => h.mono fun _ hb => ⟨hb, hne⟩) fun _ _ _ h => h)
      fun _ _ hT _ => .ret hT trivial
  refine .bind (stops_emit h₀) fun _ _ _ h => ?_
  subst h
  refine .bind hreload.attempt fun r v hv _ => ?_
  cases r with
  | ok session => exact .bind (stops_emit hv) fun _ _ hT _ => .ret hT trivial
  | error e =>
    simp only
    split
    · exact .bind (stops_emit hv) fun _ _ hT _ => .ret hT trivial
    · exact .bind (stops_emit hv) fun _ _ hT _ => .ret hT trivial

/-- A request that reads as one-way, and not as forced, applies nothing but the file it names. -/
theorem handleReload_applies (hK : Clears R K) {free : Bool} {body : Option Json}
    (hbody : ∀ req, readReloadRequest body = .ok req → req.confirmTimeoutSeconds ≤ 0 ∧ req.force = false) :
    Stops R (AppliesOnly K (fun b => ∃ req, readReloadRequest body = .ok req ∧ Γ.sha256 b = req.configHash ∧ req.configHash ≠ "") w)
      (handleReload free body) (fun _ _ => True) w := by
  unfold handleReload
  cases hreq : readReloadRequest body with
  | error msg => exact .ret (Or.inl (Or.inl rfl)) trivial
  | ok req =>
    obtain ⟨hone, hforce⟩ := hbody req hreq
    refine .ite (fun _ => .ret (Or.inl (Or.inl rfl)) trivial) fun _ => ?_
    exact (serveReload_applies hK hone hforce).mono (fun _ h => h.mono fun b hb => ⟨req, rfl, hb⟩) fun _ _ _ h => h

end EvuProxy

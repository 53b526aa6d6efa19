import EvuProxy.Apply.Operations

/-!
# Runs of the system

A run is a list of events: operations, each with the script of what the operating system decides while it runs, and reboots. The apply
lock makes an operation run from the state the one before it left, and a script can kill the process at any command.
-/

namespace EvuProxy

open Fault Fault.Prog

variable {Γ : Ctx}

/-- The operations that take the apply lock. `timer` is what a revert timer runs when it fires. -/
inductive Op (Γ : Ctx) where
  | apply (configHash : String) (timeoutSeconds : Int)
  | reload (configHash : String)
  | boot
  | confirm
  | revert (reason : RevertReason)
  | timer (token : String)
  | recover
  | updateGeo
  | syncPaused (paused : Config → List Nat)
  | save (c : Config) (revisions : Option (List String))
  | discard
  | restorePrevious
  | restoreReverted
  | dismissRevert
  | restoreArchive (members : List (TarMember Γ))

/-- Run a program for what it does. -/
def discardResult {α : Type} (p : App Γ α) : App Γ Unit := do
  let _ ← p

/-- The program of an operation. -/
def Op.prog : Op Γ → App Γ Unit
  | .apply hash timeout => discardResult (reloadWithConfirmIfMatch hash timeout)
  | .reload hash => reloadIfMatch hash
  | .boot => reloadAtBootLocked
  | .confirm => confirmApply
  | .revert reason => revertApply reason ""
  | .timer token => revertApply .timeout token
  | .recover => recoverConfirmSession
  | .updateGeo => discardResult updateGeoLocked
  | .syncPaused paused => syncPausedRoutes paused
  | .save c revs => discardResult (saveConfigYAMLIfMatch c revs)
  | .discard => discardPendingConfigYAML
  | .restorePrevious => restorePreviousAppliedConfigYAML
  | .restoreReverted => restoreRevertedConfig
  | .dismissRevert => dismissLastRevert
  | .restoreArchive members => restoreBackup members

/-- Something that happens to the system. -/
inductive Event (Γ : Ctx) where
  | job (op : Op Γ) (script : List (Choice Γ))
  | reboot (boot : String)

/-- How an operation ends. -/
def Op.run (op : Op Γ) (script : List (Choice Γ)) (w : World Γ) : Outcome Err Unit (World Γ) := (host Γ).run op.prog script w

/-- The process of a timer is gone once it has run. -/
def Op.settle : Op Γ → World Γ → World Γ
  | .timer token, w => { w with timers := w.timers.filter (· ≠ token) }
  | _, w => w

@[simp] theorem Op.settle_files (op : Op Γ) (w : World Γ) : (op.settle w).files = w.files := by cases op <;> rfl
@[simp] theorem Op.settle_nft (op : Op Γ) (w : World Γ) : (op.settle w).nft = w.nft := by cases op <;> rfl
@[simp] theorem Op.settle_wg (op : Op Γ) (w : World Γ) : (op.settle w).wg = w.wg := by cases op <;> rfl
@[simp] theorem Op.settle_issued (op : Op Γ) (w : World Γ) : (op.settle w).issued = w.issued := by cases op <;> rfl
@[simp] theorem Op.settle_begun (op : Op Γ) (w : World Γ) : (op.settle w).begun = w.begun := by cases op <;> rfl
@[simp] theorem Op.settle_boot (op : Op Γ) (w : World Γ) : (op.settle w).boot = w.boot := by cases op <;> rfl

/-- The state after an event. A reboot empties the kernel and takes the timers with it. -/
def Event.after : Event Γ → World Γ → World Γ
  | .job op script, w => op.settle (op.run script w).state
  | .reboot boot, w => { w with nft := [], wg := [], timers := [], boot := boot }

/-- The state after a run. -/
def after (es : List (Event Γ)) (w : World Γ) : World Γ := es.foldl (fun w e => e.after w) w

@[simp] theorem after_nil (w : World Γ) : after [] w = w := rfl

@[simp] theorem after_cons (e : Event Γ) (es : List (Event Γ)) (w : World Γ) : after (e :: es) w = after es (e.after w) := rfl

theorem after_append (es es' : List (Event Γ)) (w : World Γ) : after (es ++ es') w = after es' (after es w) :=
  List.foldl_append ..

/-- Every event of a run satisfies `P` in the state in which it happens. -/
def Legal (P : Event Γ → World Γ → Prop) : List (Event Γ) → World Γ → Prop
  | [], _ => True
  | e :: es, w => P e w ∧ Legal P es (e.after w)

theorem legal_append {P : Event Γ → World Γ → Prop} {es es' : List (Event Γ)} {w : World Γ} :
    Legal P (es ++ es') w ↔ Legal P es w ∧ Legal P es' (after es w) := by
  induction es generalizing w with
  | nil => simp [Legal]
  | cons e es ih => simp [Legal, ih, and_assoc]

theorem Legal.mono {P Q : Event Γ → World Γ → Prop} (hPQ : ∀ e w, P e w → Q e w) :
    ∀ {es : List (Event Γ)} {w : World Γ}, Legal P es w → Legal Q es w
  | [], _, _ => trivial
  | _ :: _, _, h => ⟨hPQ _ _ h.1, Legal.mono hPQ h.2⟩

/-- What every event keeps, every run keeps. -/
theorem Legal.invariant {P : Event Γ → World Γ → Prop} {I : World Γ → Prop} (hstep : ∀ e w, P e w → I w → I (e.after w))
    {es : List (Event Γ)} {w : World Γ} (hP : Legal P es w) (h : I w) : I (after es w) := by
  induction es generalizing w with
  | nil => exact h
  | cons e es ih => exact ih hP.2 (hstep e w hP.1 h)

/-! ## What an operation did -/

/-- What an operation may have done when it stops. -/
def Op.Did (R : Rules (host Γ)) (K : (FileName → Bool) → Prop) : Op Γ → World Γ → World Γ → Prop
  | .apply _ _ => Apply R K
  | .reload _ => OneWay K
  | .boot => Boot R K
  | .confirm => Confirming K
  | .revert reason => Revert K reason ""
  | .timer token => Revert K .timeout token
  | .recover => Recover K
  | .updateGeo => GeoUpdate R
  | .syncPaused _ => pausesE.Within
  | .save _ _ => savesE.Within
  | .discard => savesE.Within
  | .restorePrevious => savesE.Within
  | .restoreReverted => revivesE.Within
  | .dismissRevert => clearsE.Within
  | .restoreArchive members => (extractsE members).Within

variable {R : Rules (host Γ)} {K : (FileName → Bool) → Prop} {w : World Γ}

theorem stops_discardResult {α : Type} {p : App Γ α} {T : World Γ → Prop} {P : α → World Γ → Prop} (hp : Stops R T p P w) :
    Stops R T (discardResult p) (fun _ _ => True) w :=
  .bind hp fun _ _ hT _ => .ret hT trivial

theorem stops_within {α : Type} {E : Effects} {p : App Γ α} (hp : p.Uses (Cmd.within E)) :
    Stops R (E.Within w) p (fun _ _ => True) w :=
  (stops_frame hp).post fun _ _ _ _ => trivial

theorem op_spec (hK : Clears R K) (op : Op Γ) : Stops R (op.Did R K w) op.prog (fun _ _ => True) w := by
  cases op with
  | apply hash timeout => exact stops_discardResult (apply_spec hK hash timeout)
  | reload hash => exact (reloadIfMatch_spec hK hash).post fun _ _ _ _ => trivial
  | boot => exact reloadAtBootLocked_spec hK
  | confirm => exact (confirmApply_spec hK).post fun _ _ _ _ => trivial
  | revert reason => exact (revertApply_spec hK reason "").post fun _ _ _ _ => trivial
  | timer token => exact (revertApply_spec hK .timeout token).post fun _ _ _ _ => trivial
  | recover => exact recoverConfirmSession_spec hK
  | updateGeo => exact stops_discardResult updateGeoLocked_spec
  | syncPaused paused => exact stops_within (uses_syncPausedRoutes paused)
  | save c revs => exact stops_discardResult (stops_within (uses_saveConfigYAMLIfMatch c revs))
  | discard => exact stops_within (uses_bind uses_acquireApplyLock fun _ => uses_discardPending)
  | restorePrevious => exact stops_within (uses_bind uses_acquireApplyLock fun _ => uses_restorePreviousApplied)
  | restoreReverted => exact stops_within uses_restoreRevertedConfig
  | dismissRevert => exact stops_within uses_dismissLastRevert
  | restoreArchive members => exact stops_within (uses_restoreBackup members)

/-- What an operation did, for a script that the rules allow. -/
theorem op_did (hK : Clears R K) {op : Op Γ} {script : List (Choice Γ)} (h : Allowed R op.prog script w) :
    op.Did R K w (op.run script w).state :=
  ((op_spec hK op).sat h).1

/-! ## Rules for scripts -/

/-- The rules that allow the choices that satisfy `P`. -/
def choiceRules (P : Choice Γ → Prop) : Rules (host Γ) := { allows := fun _ ch _ => P ch, crash := fun _ => True }

/-- A run whose choices all satisfy `P` is allowed. -/
theorem allowed_choiceRules {P : Choice Γ → Prop} (hcalm : P {}) {α : Type} {p : App Γ α} :
    ∀ {cs : List (Choice Γ)} {w : World Γ}, (∀ ch ∈ cs, P ch) → Allowed (choiceRules P) p cs w := by
  induction p with
  | ret a => intro cs w _; trivial
  | fail e => intro cs w _; trivial
  | cmd c k ih =>
    intro cs w hcs
    simp only [Allowed]
    have hhead : P (cs.headD {}) := by
      cases cs with
      | nil => exact hcalm
      | cons ch cs => exact hcs ch (by simp)
    refine ⟨hhead, ?_⟩
    cases hostStep c (cs.headD {}) w with
    | done r s' => exact ih r fun ch hch => hcs ch (List.mem_of_mem_tail hch)
    | killed s' => trivial

end EvuProxy

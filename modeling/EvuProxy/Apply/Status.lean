import EvuProxy.Apply.Confirm

/-!
# What a session looks like from outside

`ReadConfirmStatus` of `internal/apply/confirm.go`, which takes no lock. The times of a session, but for what remains of it, and the last
revert are left out: nothing decides by them.
-/

namespace EvuProxy

open Fault Fault.Prog

variable {Γ : Ctx}

def defaultConfirmTimeoutSeconds : Int := 60

/-- `confirmOverdueGrace`, in seconds. -/
def confirmOverdueGrace : Nat := 30

/-- `EffectiveConfirmTimeoutSeconds`. -/
def ApplySettings.effectiveConfirmTimeoutSeconds (a : ApplySettings) : Int :=
  if a.confirmTimeoutSeconds = 0 then defaultConfirmTimeoutSeconds else a.confirmTimeoutSeconds

/-- `ConfirmSessionView`. -/
structure ConfirmSessionView where
  phase : ConfirmPhase
  timeoutSeconds : Int
  remainingSeconds : Nat
  failure : String

/-- `ConfirmStatus`. -/
structure ConfirmStatus where
  confirmEnabled : Bool := false
  confirmTimeoutSeconds : Int := defaultConfirmTimeoutSeconds
  session : Option ConfirmSessionView := none

/-- `view`. -/
def ConfirmSession.view (s : ConfirmSession) (now : Nat) : ConfirmSessionView where
  phase := s.phase
  timeoutSeconds := s.timeoutSeconds
  remainingSeconds := s.deadline - now
  failure := s.failure

/-- Whether a session is well past its deadline with no timer left. -/
def sessionOverdue (s : ConfirmSession) (now : Nat) : App Γ Bool := do
  if s.phase = .active ∧ s.deadline + confirmOverdueGrace < now then
    let state ← sessionTimerState s
    return state == .dead
  else return false

/-- `rollbackInterrupted`. -/
def rollbackInterrupted : App Γ Bool := do
  let ok : Bool ← (Cmd.tryApplyLock (Γ := Γ)).run
  if ¬ok then return false
  else
    match ← (readConfirmSession (Γ := Γ)).attempt with
    | .ok (some s) => return s.phase == .rollingBack
    | _ => return false

/-- Whether the revert of a session was stopped before it finished. -/
def sessionStopped (s : ConfirmSession) : App Γ Bool := if s.phase = .rollingBack then rollbackInterrupted else return false

/-- The session as `ReadConfirmStatus` reports it. -/
def viewSession (s : ConfirmSession) : App Γ ConfirmSessionView := do
  let now : Nat ← (Cmd.now (Γ := Γ)).run
  let overdue ← sessionOverdue (Γ := Γ) s now
  let stopped ← sessionStopped (Γ := Γ) s
  if overdue then return { s.view now with phase := .failed, failure := "the revert timer ended without reverting" }
  else if stopped then return { s.view now with phase := .failed, failure := "the revert was stopped before it finished" }
  else return s.view now

/-- The setting as `ReadConfirmStatus` reports it: the default where config.yaml cannot be loaded. -/
def confirmSetting : App Γ ConfirmStatus := do
  match ← (loadConfig (Γ := Γ) .config).attempt with
  | .ok c => return { confirmEnabled := c.apply.confirm, confirmTimeoutSeconds := c.apply.effectiveConfirmTimeoutSeconds }
  | .error _ => return {}

/-- `ReadConfirmStatus`. -/
def readConfirmStatus : App Γ ConfirmStatus := do
  let st ← confirmSetting (Γ := Γ)
  match ← readConfirmSession (Γ := Γ) with
  | none => return st
  | some s => do
    let view ← viewSession (Γ := Γ) s
    return { st with session := some view }

end EvuProxy

import EvuProxy.Apply.Reload

/-!
# Confirm or revert

`internal/apply/confirm.go`: an Apply that reverts by itself unless someone confirms it. Go errors that are only logged are dropped with
`ignore`.
-/

namespace EvuProxy

open Fault Fault.Prog

variable {Γ : Ctx}

/-- `revertLockAttempts`, less the first. -/
def revertLockRetries : Nat := 2

/-- `rollbackAttempts`, less the first. -/
def rollbackRetries : Nat := 2

/-! ## The session file -/

/-- `readConfirmSession`: nothing when there is no session. -/
def readConfirmSession : App Γ (Option ConfirmSession) := do
  match ← wrapErr "read apply session" (readFile (Γ := Γ) .session) with
  | none => return none
  | some b =>
    match Γ.unmarshalSession b with
    | .ok s => return some s
    | .error msg => fail (.wrap "apply session" (.sys msg))

/-- `writeConfirmSession`. -/
def writeConfirmSession (s : ConfirmSession) : App Γ Unit := writeFile .session (Γ.marshalSession s)

/-- Remove the session directory. -/
def removeSessionDir : App Γ Unit := (Cmd.removeSessionDir (Γ := Γ)).run

/-- `emitConfirmEvent`. -/
def emitConfirmEvent (rec : EventRecord) : App Γ Unit := ignore (Cmd.appendEvent (Γ := Γ) rec).run

/-! ## The timer -/

/-- `currentBootID`: empty when it cannot be read. -/
def currentBootID : App Γ String := do
  match ← (Cmd.bootID (Γ := Γ)).run.attempt with
  | .ok b => return b
  | .error _ => return ""

/-- `armRevertTimer`. -/
def armRevertTimer (token : String) (timeoutSeconds : Int) : App Γ Unit :=
  wrapErr "systemd-run" (Cmd.systemdRun (Γ := Γ) token timeoutSeconds).run

/-- `stopRevertTimer`: best effort. -/
def stopRevertTimer (token : String) : App Γ Unit := ignore (Cmd.systemctlStop (Γ := Γ) token).run

/-- `revertTimerState`. -/
inductive RevertTimerState where
  | live
  | dead
  | unclear
  deriving DecidableEq

/-- What an answer of `systemctl is-active` says. -/
def timerAnswer (answer : String) : RevertTimerState :=
  match Go.trimSpace answer with
  | "active" | "activating" | "reloading" | "deactivating" => .live
  | "inactive" | "failed" | "unknown" => .dead
  | _ => .unclear

/-- `sessionTimerState`. -/
def sessionTimerState (s : ConfirmSession) : App Γ RevertTimerState := do
  let boot ← currentBootID
  if boot ≠ "" ∧ s.bootID ≠ "" ∧ boot ≠ s.bootID then return .dead
  else
    match ← (Cmd.systemctlIsActive (Γ := Γ) s.token).run.attempt with
    | .ok answer => return timerAnswer answer
    | .error _ => return .unclear

/-- Whether a session outlived its timer: it is active no more, or its timer is dead. -/
def sessionOutlived (s : ConfirmSession) : App Γ Bool := do
  if s.phase = .active then
    let state ← sessionTimerState s
    return state == .dead
  else return true

/-! ## The baseline -/

/-- `checkConfirmBaseline`. -/
def checkConfirmBaseline : App Γ Unit := do
  match ← readFile (Γ := Γ) .bak with
  | none => fail (.noConfirmBaseline "")
  | some bak =>
    let applied ← readAppliedHash
    if applied ≠ Γ.sha256 bak then fail (.noConfirmBaseline "")
    else
      match validateConfigYAML Γ bak with
      | .ok () => return ()
      | .error e => fail (.noConfirmBaseline (": " ++ e.msg))

/-- Copy one snapshot into the session directory. -/
def stageSnapshot (n : Fin 6) : App Γ Unit := do
  match ← readFile (Γ := Γ) (.history n) with
  | none => return ()
  | some b => writeFile (.staged n) b

/-- `snapshotConfirmBaseline`. -/
def snapshotConfirmBaseline : App Γ Unit := do
  removeSessionDir
  (Cmd.mkdirAll (Γ := Γ) ".evuproxy-apply-session").run
  forEach configYAMLHistory stageSnapshot

/-- Put one snapshot back. -/
def unstageSnapshot (n : Fin 6) : App Γ Unit := do
  match ← readFile (Γ := Γ) (.staged n) with
  | some b => writeFile (.history n) b
  | none => removeIfExists (.history n)

/-- Keep what config.yaml holds, unless it is the baseline. -/
def keepRejected (baseline : Γ.Bytes) : App Γ Unit := do
  match ← readFile (Γ := Γ) .config with
  | some cur =>
    if cur = baseline then return () else wrapErr "keep rejected config" (writeFile .reverted cur)
  | none => return ()

/-- `restoreConfirmBaseline`. -/
def restoreConfirmBaseline : App Γ Unit := do
  let baseline ← wrapErr "read baseline" (readExisting (Γ := Γ) (.staged 0))
  keepRejected baseline
  writeFile .config baseline
  forEach configYAMLHistory unstageSnapshot

/-! ## Rolling back -/

/-- `writeLastRevert`: best effort. -/
def writeLastRevert (reason : RevertReason) : App Γ Unit := do
  let t ← (Cmd.now (Γ := Γ)).run
  ignore (writeFile .lastRevert (Γ.marshalLastRevert { time := t, reason := reason }))

/-- `clearLastRevert`: best effort. -/
def clearLastRevert : App Γ Unit := do
  ignore (removeIfExists (Γ := Γ) .lastRevert)
  ignore (removeIfExists (Γ := Γ) .reverted)

/-- Reload, and once more after each of so many failures. -/
def reloadWithRetries : Nat → App Γ Unit
  | 0 => reload
  | n + 1 => do
    match ← (reload (Γ := Γ)).attempt with
    | .ok () => return ()
    | .error _ => reloadWithRetries n

/-- Put the files back and apply them: the part of `rollbackLocked` that decides whether it succeeds. -/
def revertToBaseline : App Γ Unit := do
  restoreConfirmBaseline
  reloadWithRetries rollbackRetries

/-- What becomes of the rejected config. A failed Apply is no rejection: its edits go back to being unapplied changes. -/
def settleRejected (reason : RevertReason) (restoreEdits : Bool) : App Γ Unit :=
  if reason = .failedApply ∧ restoreEdits then ignore (renameFile .reverted .config) else writeLastRevert reason

/-- The end of a rollback that succeeded. -/
def finishRollback (reason : RevertReason) (restoreEdits : Bool) : App Γ Unit := do
  settleRejected reason restoreEdits
  ignore removeSessionDir
  emitConfirmEvent { event := "apply_reverted", detail := reason.text }

/-- The end of a rollback that failed. -/
def failRollback (s : ConfirmSession) (e : Err) : App Γ Unit := do
  let failure := truncateForLog e.text 512
  ignore (writeConfirmSession { s with phase := .failed, failure := failure })
  emitConfirmEvent { event := "apply_revert_failed", detail := failure, errorCode := "apply_revert_error" }
  fail (.rollbackFailed e.text)

/-- The session as `rollbackLocked` records it when it starts. -/
def ConfirmSession.rollingBack (s : ConfirmSession) (reason : RevertReason) : ConfirmSession :=
  { s with revertReason := some (s.revertReason.getD reason), phase := .rollingBack, failure := "" }

/-- The start of a rollback. -/
def beginRollback (s : ConfirmSession) (reason : RevertReason) : App Γ Unit := do
  (Cmd.rollbackBegins (Γ := Γ) s.token).run
  stopRevertTimer s.token
  ignore (writeConfirmSession (s.rollingBack reason))

/-- `rollbackLocked`. -/
def rollbackLocked (s : ConfirmSession) (reason : RevertReason) (restoreEdits : Bool) : App Γ Unit := do
  beginRollback s reason
  match ← (revertToBaseline (Γ := Γ)).attempt with
  | .error e => failRollback (s.rollingBack reason) e
  | .ok () => finishRollback (s.revertReason.getD reason) restoreEdits

/-! ## Reloads that nobody confirms -/

/-- `checkOneWayReload`. -/
def checkOneWayReload : App Γ Unit := do
  match ← readConfirmSession (Γ := Γ) with
  | none => return ()
  | some s => if ← sessionOutlived s then rollbackLocked s .interrupted false else fail .confirmSessionActive

/-- `ReloadIfMatch`. -/
def reloadIfMatch (configHash : String) : App Γ Unit := do
  acquireApplyLock
  checkOneWayReload
  checkConfigHash configHash
  recorded reload

/-- `loadConfirmBaseline`. -/
def loadConfirmBaseline : App Γ Config := do
  checkConfirmBaseline
  loadConfig .bak

/-- `lastConfirmedConfig`: nothing with confirm off. -/
def lastConfirmedConfig : App Γ (Option Config) := do
  let c ← loadConfirmBaseline
  if c.apply.confirm then return some c else return none

/-- `reloadAtBoot`. The files it reads only to log that config.yaml has unapplied changes are left out. -/
def reloadAtBoot : App Γ Unit := do
  match ← (lastConfirmedConfig (Γ := Γ)).attempt with
  | .ok (some c) => applyToHost c
  | _ => reload

/-- `ReloadAtBoot`. -/
def reloadAtBootLocked : App Γ Unit := do
  acquireApplyLock
  checkOneWayReload
  recorded reloadAtBoot

/-- `RecoverConfirmSession`, with the lock held. -/
def recoverLocked : App Γ Unit := do
  match ← readConfirmSession (Γ := Γ) with
  | none => return ()
  | some s => if ← sessionOutlived s then rollbackLocked s .interrupted false else return ()

/-- `RecoverConfirmSession`. -/
def recoverConfirmSession : App Γ Unit := do
  match ← readConfirmSession (Γ := Γ) with
  | none => return ()
  | some _ => do
    acquireApplyLock
    recoverLocked

/-! ## Apply, confirm and revert -/

/-- Stop the timer that a new one replaces, if there was one. -/
def stopReplacedTimer (token : String) : App Γ Unit := if token ≠ "" then stopRevertTimer token else return ()

/-- The part of `rearmConfirmSession` that arms the new timer. -/
def armNext (s : ConfirmSession) : App Γ ConfirmSession := do
  let token : String ← (Cmd.randomToken (Γ := Γ)).run
  armRevertTimer token s.timeoutSeconds
  let boot ← currentBootID
  let t : Nat ← (Cmd.now (Γ := Γ)).run
  return { s with token := token, bootID := boot, deadline := t + s.timeoutSeconds.toNat }

/-- `rearmConfirmSession`. -/
def rearmConfirmSession (s : ConfirmSession) : App Γ ConfirmSession := do
  let next ← armNext (Γ := Γ) s
  match ← (writeConfirmSession (Γ := Γ) next).attempt with
  | .error e => do
    stopRevertTimer next.token
    fail e
  | .ok () => do
    stopReplacedTimer s.token
    return next

/-- The start of a session: the baseline is checked and copied. -/
def startSession : App Γ ConfirmSession := do
  checkConfirmBaseline
  wrapErr "snapshot baseline" snapshotConfirmBaseline
  let t : Nat ← (Cmd.now (Γ := Γ)).run
  return { phase := .active, startedAt := t }

/-- The part of `ReloadWithConfirmIfMatch` after the timer is armed and recorded. -/
def applyInSession (s : ConfirmSession) : App Γ ConfirmSession := do
  match ← (reload (Γ := Γ)).attempt with
  | .error e => do
    ignore recordApplyFailure
    match ← (rollbackLocked (Γ := Γ) s .failedApply true).attempt with
    | .error re => fail (.join e re)
    | .ok () => fail e
  | .ok () => do
    ignore recordApplySuccess
    match ← (rearmConfirmSession (Γ := Γ) s).attempt with
    | .ok s' => return s'
    | .error _ => return s

/-- Run a step that belongs to the first Apply of a session. -/
def onFirst (first : Bool) (p : App Γ Unit) : App Γ Unit := if first then p else return ()

/-- The part of `ReloadWithConfirmIfMatch` that reads the session or starts one: the session, and whether it is a new one. -/
def openSession (configHash : String) : App Γ (ConfirmSession × Bool) := do
  match ← readConfirmSession (Γ := Γ) with
  | some s =>
    if s.phase ≠ .active then fail (.rollbackFailed s.failure)
    else do
      checkConfigHash configHash
      return (s, false)
  | none => do
    checkConfigHash configHash
    let s ← startSession
    return (s, true)

/-- The part of `ReloadWithConfirmIfMatch` that arms the timer and records it. -/
def armSession (s : ConfirmSession) (first : Bool) : App Γ ConfirmSession := do
  match ← (rearmConfirmSession (Γ := Γ) s).attempt with
  | .error e => do
    onFirst first (ignore removeSessionDir)
    fail (.confirmUnavailable e.text)
  | .ok s' => return s'

/-- The part of `ReloadWithConfirmIfMatch` before it changes anything but the session. -/
def armApply (configHash : String) (timeoutSeconds : Int) : App Γ (ConfirmSession × Bool) :=
  if timeoutSeconds < minConfirmTimeoutSeconds ∨ maxConfirmTimeoutSeconds < timeoutSeconds then
    fail (.sys ("confirm timeout must be " ++ toString minConfirmTimeoutSeconds ++ " to " ++
      toString maxConfirmTimeoutSeconds ++ " seconds"))
  else do
    acquireApplyLock
    let p ← openSession configHash
    let s ← armSession { p.1 with timeoutSeconds := timeoutSeconds } p.2
    return (s, p.2)

/-- `ReloadWithConfirmIfMatch`. -/
def reloadWithConfirmIfMatch (configHash : String) (timeoutSeconds : Int) : App Γ ConfirmSession := do
  let p ← armApply configHash timeoutSeconds
  onFirst p.2 clearLastRevert
  applyInSession p.1

/-- `ConfirmApply`. -/
def confirmApply : App Γ Unit := do
  acquireApplyLock
  match ← readConfirmSession (Γ := Γ) with
  | none => fail .noConfirmSession
  | some s =>
    if s.phase ≠ .active then fail (.rollbackFailed s.failure)
    else do
      wrapErr "clear apply session" removeSessionDir
      stopRevertTimer s.token
      emitConfirmEvent { event := "apply_confirmed", detail := "confirm" }

/-- Wait for the lock, and once more after each of so many failures. -/
def acquireWithRetries : Nat → App Γ Unit
  | 0 => acquireApplyLock
  | n + 1 => do
    match ← (acquireApplyLock (Γ := Γ)).attempt with
    | .ok () => return ()
    | .error _ => acquireWithRetries n

/-- `RevertApply`. The timer passes its token; an empty one is for the operator. -/
def revertApply (reason : RevertReason) (token : String) : App Γ Unit := do
  acquireWithRetries revertLockRetries
  match ← readConfirmSession (Γ := Γ) with
  | none => fail .noConfirmSession
  | some s => if token ≠ "" ∧ token ≠ s.token then fail .noConfirmSession else rollbackLocked s reason true

/-- `RestoreRevertedConfig`. -/
def restoreRevertedConfig : App Γ Unit := do
  acquireApplyLock
  match ← readConfirmSession (Γ := Γ) with
  | some _ => fail .confirmSessionActive
  | none => do
    match ← readFile (Γ := Γ) .reverted with
    | none => fail .noRevertedConfig
    | some rejected => do
      wrapErr "reverted config invalid" (check (validateConfigYAML Γ rejected))
      let cur ← readExisting .config
      let bak ← readExisting .bak
      if cur ≠ bak then fail .pendingEditsExist
      else do
        writeFile .config rejected
        clearLastRevert

/-- `DismissLastRevert`. -/
def dismissLastRevert : App Γ Unit := do
  acquireApplyLock
  clearLastRevert

end EvuProxy

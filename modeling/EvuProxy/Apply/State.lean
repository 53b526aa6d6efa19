import EvuProxy.Apply.World

/-!
# The state files

`internal/state`: the hash of the config last applied, the snapshots of applied configs, and the counters.
-/

namespace EvuProxy

open Fault Fault.Prog

variable {Γ : Ctx}

/-- Issue one command. -/
abbrev Cmd.run (c : Cmd Γ) : App Γ (c.Ans Γ) := perform (S := sig Γ) c

/-- `os.ReadFile`, where a missing file is an answer. -/
def readFile (f : FileName) : App Γ (Option Γ.Bytes) := (Cmd.readFile f).run

/-- `os.ReadFile`, where a missing file is an error. -/
def readExisting (f : FileName) : App Γ Γ.Bytes := do
  match ← readFile f with
  | some b => return b
  | none => fail .notExist

/-- `atomicio.WriteFile`. -/
def writeFile (f : FileName) (b : Γ.Bytes) : App Γ Unit := (Cmd.writeFile f b).run

/-- `os.Remove`, where a missing file is no error. -/
def removeIfExists (f : FileName) : App Γ Unit := do
  let _ ← (Cmd.remove f).run

/-- `os.Rename`; whether the file existed. -/
def renameFile (f g : FileName) : App Γ Bool := (Cmd.rename f g).run

/-- `os.Rename`, where a missing file is an error. -/
def renameExisting (f g : FileName) : App Γ Unit := do
  if ← renameFile f g then return () else fail .notExist

/-- `_ = f()`. -/
def ignore {α : Type} (p : App Γ α) : App Γ Unit := do
  let _ ← p.attempt

/-- `fmt.Errorf("pre: %w", err)`. -/
def wrapErr {α : Type} (pre : String) (p : App Γ α) : App Γ α := p.mapErr (Err.wrap pre)

/-- The result of a check, as a program. -/
def check {α : Type} (x : Except ValidationError α) : App Γ α := ofExcept (S := sig Γ) (x.mapError Err.invalid)

/-! ## The config -/

/-- `config.Parse`. -/
def parseConfig (Γ : Ctx) (b : Γ.Bytes) : Except ValidationError Config :=
  match Γ.unmarshalConfig b with
  | .error msg => .error { msg := msg }
  | .ok c => c.normalize.validate.map fun _ => c.normalize

/-- `config.Load`. -/
def loadConfig (f : FileName) : App Γ Config := do
  let b ← readExisting f
  check (parseConfig Γ b)

/-- `ValidateConfigYAML`. -/
def validateConfigYAML (Γ : Ctx) (b : Γ.Bytes) : Except ValidationError Unit := (parseConfig Γ b).map fun _ => ()

/-! ## The hash last applied -/

/-- `ConfigFileSHA256`. -/
def configFileSHA256 : App Γ String := do
  let b ← readExisting .config
  return Γ.sha256 b

/-- `ReadAppliedHash`: empty when no state file exists. -/
def readAppliedHash : App Γ String := do
  match ← readFile (Γ := Γ) .applyState with
  | none => return ""
  | some b =>
    match Γ.unmarshalApplyState b with
    | .ok h => return h
    | .error msg => fail (.wrap "apply state" (.sys msg))

/-- `WriteAppliedConfigHash`. -/
def writeAppliedConfigHash (hash : String) : App Γ Unit := writeFile .applyState (Γ.marshalApplyState hash)

/-- `RecordAppliedConfigHash`. -/
def recordAppliedConfigHash : App Γ Unit := do
  let h ← configFileSHA256
  writeAppliedConfigHash h

/-- `EnsureApplyStateFromDisk`. -/
def ensureApplyStateFromDisk : App Γ Unit := do
  match ← (Cmd.stat (Γ := Γ) .applyState).run with
  | some _ => return ()
  | none => recordAppliedConfigHash

/-! ## Snapshots -/

/-- `ConfigYAMLHistoryPaths`: `.bak`, then `.bak.1` to `.bak.5`. -/
def configYAMLHistory : List (Fin 6) := [0, 1, 2, 3, 4, 5]

/-- Move one snapshot of the chain to the next place, if there is one. -/
def rotateSnapshot (n : Fin 6) : App Γ Unit := do
  match ← (Cmd.stat (Γ := Γ) (.history n)).run with
  | none => return ()
  | some _ => wrapErr "rotate" (renameExisting (.history n) (.history (n + 1)))

/-- `RecordAppliedConfigSnapshot`. -/
def recordAppliedConfigSnapshot : App Γ Unit := do
  let cur ← readExisting (Γ := Γ) .config
  match ← readFile .bak with
  | none => writeFile .bak cur
  | some prevBak =>
    if cur = prevBak then return ()
    else do
      ignore (removeIfExists (.history 5))
      forEach [4, 3, 2, 1] rotateSnapshot
      wrapErr "rotate bak -> bak.1" (renameExisting .bak (.history 1))
      writeFile .bak cur

/-- `DiscardPendingConfigYAML` of `internal/state`. -/
def discardPending : App Γ Unit := do
  match ← wrapErr "read backup" (readFile (Γ := Γ) .bak) with
  | none => fail (.sys "no applied snapshot (.bak)")
  | some bak =>
    let cur ← wrapErr "read config" (readExisting .config)
    if cur = bak then fail (.sys "no pending changes to discard")
    else do
      wrapErr "backup invalid" (check (validateConfigYAML Γ bak))
      writeFile .config bak

/-- The first snapshot after `.bak` that differs from it. -/
def firstOtherSnapshot (bak : Γ.Bytes) : List (Fin 6) → App Γ (Option Γ.Bytes)
  | [] => return none
  | n :: ns => do
    match ← wrapErr "read" (readFile (.history n)) with
    | some b => if b = bak then firstOtherSnapshot bak ns else return some b
    | none => firstOtherSnapshot bak ns

/-- `RestorePreviousAppliedConfigYAML` of `internal/state`. -/
def restorePreviousApplied : App Γ Unit := do
  match ← wrapErr "read backup" (readFile (Γ := Γ) .bak) with
  | none => fail (.sys "no applied snapshot (.bak)")
  | some bak =>
    match ← firstOtherSnapshot bak configYAMLHistory.tail with
    | none => fail (.sys "no previous applied config in history")
    | some candidate => do
      wrapErr "history entry invalid" (check (validateConfigYAML Γ candidate))
      writeFile .config candidate

/-! ## Counters -/

/-- `ReadApplyMetrics`: zero when the file is missing or unreadable. -/
def readApplyMetrics : App Γ ApplyMetrics := do
  match ← (readFile (Γ := Γ) .applyMetrics).attempt with
  | .ok (some b) => return (Γ.unmarshalApplyMetrics b).getD {}
  | _ => return {}

/-- `RecordApplySuccess`. -/
def recordApplySuccess : App Γ Unit := do
  let m ← readApplyMetrics
  writeFile .applyMetrics (Γ.marshalApplyMetrics { m with successTotal := (m.successTotal + 1) % 2 ^ 64 })

/-- `RecordApplyFailure`. -/
def recordApplyFailure : App Γ Unit := do
  let m ← readApplyMetrics
  writeFile .applyMetrics (Γ.marshalApplyMetrics { m with failureTotal := (m.failureTotal + 1) % 2 ^ 64 })

/-- `WriteGeoLastSuccess`. -/
def writeGeoLastSuccess (source : String) : App Γ Unit := do
  let t ← (Cmd.now (Γ := Γ)).run
  writeFile .geoLastSuccess (Γ.marshalGeoLastSuccess { utc := t, source := source })

end EvuProxy

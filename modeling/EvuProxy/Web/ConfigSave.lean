import EvuProxy.Api.ConfigHandlers

/-!
# Saving from the browser

`web/static/js/core/config_save.js`, with the part of `api.js` that sends a request. `state.lastConfig` is handed on from call to call.
-/

namespace EvuProxy

open Fault Fault.Prog

variable {Γ : Ctx}

def maxSaveAttempts : Nat := 3

/-- `api`: a request that gets to the server or not, and an answer that comes back or not. -/
def api {α : Type} (handler : Thread Γ α) : Thread Γ α := do
  outside "No answer from the EvuProxy API."
  let r ← handler.attempt
  outside "No answer from the EvuProxy API."
  settled r

/-- `ConfigMergeError`, where the attempts are used up. -/
def keptChanging : Err := .sys "The saved config kept changing elsewhere, so your change was not saved. Try again."

/-- `putConfigAtRevision`. The copy that is saved is kept where the server's own cannot be read back. -/
def putConfigAtRevision (cfg : Config) (revision : String) : Thread Γ Copy := do
  let _ ← api (handleConfigPut cfg (if revision = "" then [] else [revision]))
  match ← (api (handleConfigGet (Γ := Γ))).attempt with
  | .ok copy => return copy
  | .error _ => return { config := cfg, etag := "" }

/-- The loop of `saveConfigEdit`, with the attempts left. It returns the copy that the tab holds afterwards, and how the save ended. -/
def saveAttempts (edit : Edit) : Nat → Copy → Thread Γ (Option Copy × Except Err Unit)
  | 0, base => return (some base, .error keptChanging)
  | n + 1, base =>
    match edit base.config with
    | .error e => return (some base, .error e)
    | .ok none => return (some base, .ok ())
    | .ok (some draft) => do
      match ← (putConfigAtRevision (Γ := Γ) draft base.etag).attempt with
      | .ok copy => do
        note (.saved edit base.config draft)
        return (some copy, .ok ())
      | .error .configRevisionMismatch => do
        match ← (api (handleConfigGet (Γ := Γ))).attempt with
        | .ok fresh => saveAttempts edit n fresh
        | .error e => return (some base, .error e)
      | .error e => return (some base, .error e)

/-- `saveConfigEdit`. A copy without an entity tag is fetched again first. -/
def saveConfigEdit (edit : Edit) (lastConfig : Option Copy) : Thread Γ (Option Copy × Except Err Unit) := do
  note .began
  match lastConfig.filter (·.etag ≠ "") with
  | some base => saveAttempts edit maxSaveAttempts base
  | none => do
    match ← (api (handleConfigGet (Γ := Γ))).attempt with
    | .ok base => saveAttempts edit maxSaveAttempts base
    | .error e => return (lastConfig, .error e)

/-- What is done in a tab: edits are saved and the page is loaded again, by what the tab shows and how the save before ended. -/
inductive Tab where
  | closed
  | edit (e : Edit) (next : Option Copy → Except Err Unit → Tab)
  | refresh (next : Option Copy → Tab)

/-- The program of a tab. -/
def Tab.prog : Tab → Option Copy → Thread Γ Unit
  | .closed, _ => return ()
  | Tab.edit e next, lastConfig => do
    let saved ← saveConfigEdit (Γ := Γ) e lastConfig
    (next saved.1 saved.2).prog saved.1
  | .refresh next, lastConfig => do
    let r ← (api (handleConfigGet (Γ := Γ))).attempt
    let lastConfig := match r with | .ok copy => some copy | .error _ => lastConfig
    (next lastConfig).prog lastConfig

end EvuProxy

import EvuProxy.Web.Lockout

/-!
# The Apply of the UI

`web/static/js/core/apply_bar.js`. The script of the page runs one turn at a time; between two turns of an Apply, which waits for one
request after the other, anything else may run: clicks, answers to other requests, and what other pages of the UI do to the bar. Left out
are the stages of the progress line, the texts of messages, and what is shown beside the result of a check.
-/

namespace EvuProxy.ApplyBar

open Go Review

/-! ## The bar -/

/-- What an Apply waits for. Requests go by numbers. After its check it waits for its own next turn, with the result at hand. -/
inductive Stage where
  | mode (n : Nat)
  | check (mode : ApplyMode) (n : Nat)
  | checked (mode : ApplyMode) (res : Option Json)
  | reload (n : Nat) (keepWarnings : Bool)
  | refresh

/-- An Apply: the click it began with, by its number, and where it stands. -/
structure Flow where
  click : Nat
  stage : Stage

/-- The state of the bar. An Apply that runs makes it `busy`. `checks` are the requests of the checks that run by themselves, and `shown`
is the result in `pending-validate-panel`, where that is not hidden. -/
structure Ui where
  flow : Option Flow := none
  checks : List Nat := []
  shown : Option Json := none
  pendingValidateSig : String := ""
  pendingLockoutAckSig : String := ""
  ackChecked : Bool := false
  showingCleanCheck : Bool := false
  msgIsErr : Bool := false
  knownRevision : String := ""

/-- A request. A reload may have a body. -/
inductive Request where
  | session
  | validate
  | reload (body : Option Json)
  deriving DecidableEq

/-- A request that was sent, and the click of the Apply that sent it. -/
structure Sent where
  click : Option Nat
  request : Request
  deriving DecidableEq

namespace Ui

/-- `setApplyMsg`. -/
def setApplyMsg (ui : Ui) (isErr : Bool) : Ui := { ui with msgIsErr := isErr }

/-- `invalidateCheck`. -/
def invalidateCheck (ui : Ui) : Ui :=
  { ui with
    pendingValidateSig := ""
    pendingLockoutAckSig := ""
    showingCleanCheck := false
    ackChecked := false
    shown := none
    msgIsErr := false }

/-- `dropPassedCheck`. -/
def dropPassedCheck (ui : Ui) : Ui := if ui.flow.isNone && ui.showingCleanCheck && !ui.msgIsErr then ui.invalidateCheck else ui

/-- `noteConfigRevision`. -/
def noteConfigRevision (ui : Ui) (revision : String) : Ui :=
  if revision = "" then ui
  else
    { (if ui.knownRevision ≠ "" ∧ revision ≠ ui.knownRevision ∧ ui.flow.isNone then ui.invalidateCheck else ui) with
      knownRevision := revision }

/-- The box is ticked or cleared. -/
def ackChange (ui : Ui) (checked : Bool) : Ui :=
  { ui with ackChecked := checked, pendingLockoutAckSig := if checked then ui.pendingValidateSig else "" }

section

variable (numText : ℚ → String)

/-- `renderCheckResult`. -/
def renderCheckResult (ui : Ui) (res : Json) : Ui :=
  let sig := lockoutSignature numText (lockoutRisks res)
  { ui with
    shown := some res
    pendingValidateSig := sig
    pendingLockoutAckSig := if ui.pendingLockoutAckSig ≠ sig then "" else ui.pendingLockoutAckSig
    ackChecked := if ui.pendingLockoutAckSig ≠ sig then false else ui.ackChecked
    showingCleanCheck := truthy (field (some res) "ok") && rowsOf (field (some res) "warnings") = [] }

/-- The part of `runCheck` after the answer. -/
def finishCheck (ui : Ui) : Option Json → Ui
  | none => ui.invalidateCheck.setApplyMsg true
  | some res => (ui.renderCheckResult numText res).setApplyMsg !truthy (field (some res) "ok")

end

end Ui

/-! ## Its turns -/

/-- The body of the request of `runReload`. -/
def reloadBody (configHash confirmSeconds : Option Json) : Option Json :=
  match (if truthy configHash then [("config_hash", configHash.getD .null)] else []) ++
      if truthy confirmSeconds then [("confirm_timeout_seconds", confirmSeconds.getD .null)] else [] with
  | [] => none
  | fields => some (.obj fields)

/-- What an Apply makes of its check: it stops, or it sends the reload with such a body, and then keeps the warnings or not. -/
inductive Decision where
  | stop
  | askTick
  | reload (body : Option Json) (keepWarnings : Bool)

/-- The part of `applyWithCheck` after `runCheck`. -/
def decideApply (numText : ℚ → String) (ui : Ui) (mode : ApplyMode) : Option Json → Decision
  | none => .stop
  | some res =>
    let risks := lockoutRisks res
    let configHash := field (some res) "config_hash"
    if truthy (field (some res) "ok") = false then .stop
    else if mode.confirm then .reload (reloadBody configHash mode.timeoutSeconds) (risks ≠ [])
    else if risks ≠ [] ∧ (ui.ackChecked = false ∨ ui.pendingLockoutAckSig ≠ lockoutSignature numText risks) then .askTick
    else .reload (reloadBody configHash (some (.num 0))) false

/-- What happens to the bar. `dismiss` stands for all that calls `invalidateCheck`: the button that closes the result, a session that
settled, and what the other pages save or restore. -/
inductive Input where
  | applyClick
  | checkClick
  | ack (checked : Bool)
  | dismiss
  | navigate
  | revision (revision : String)
  | answer (n : Nat) (r : Option Response)
  | resume
  | refreshed

/-- What a turn comes to: the new state, and the request that it sends. -/
abbrev Turn := Ui × Option Sent

/-- The answer to `readApplyMode`. The check is sent next, as request `next`. -/
def gotMode (next click : Nat) (ui : Ui) : Option ApplyMode → Turn
  | none => ({ ui with flow := none, msgIsErr := true }, none)
  | some mode =>
    if mode.failedRevert then ({ ui with flow := none, msgIsErr := true }, none)
    else ({ ui with flow := some ⟨click, .check mode next⟩, msgIsErr := false }, some ⟨some click, .validate⟩)

/-- The answer to the request of `runReload`. -/
def gotReload (click : Nat) (keepWarnings : Bool) (ui : Ui) : Except ApiError Json → Ui
  | .ok _ => { (if keepWarnings then ui else ui.invalidateCheck) with flow := none }
  | .error e =>
    if e.errorCode = some (.str "config_hash_mismatch") then
      { ui.invalidateCheck with flow := some ⟨click, .refresh⟩, msgIsErr := true }
    else { ui with flow := none, msgIsErr := true }

section

variable (numText : ℚ → String)

/-- An answer, for the check or the Apply that waits for it. -/
def gotAnswer (next n : Nat) (r : Option Response) (ui : Ui) : Turn :=
  if n ∈ ui.checks then
    (({ ui with checks := ui.checks.erase n }.finishCheck numText (fetchValidateResult (api r))), none)
  else
    match ui.flow with
    | some ⟨click, .mode m⟩ => if n = m then gotMode next click ui (readApplyMode (api r)) else (ui, none)
    | some ⟨click, .check mode m⟩ =>
      if n = m then
        let res := fetchValidateResult (api r)
        ({ ui.finishCheck numText res with flow := some ⟨click, .checked mode res⟩ }, none)
      else (ui, none)
    | some ⟨click, .reload m keepWarnings⟩ => if n = m then (gotReload click keepWarnings ui (api r), none) else (ui, none)
    | _ => (ui, none)

/-- The next turn of an Apply that has its check. -/
def resumeApply (next : Nat) (ui : Ui) : Turn :=
  match ui.flow with
  | some ⟨click, .checked mode res⟩ =>
    match decideApply numText ui mode res with
    | .stop => ({ ui with flow := none }, none)
    | .askTick => ({ ui with flow := none, msgIsErr := true }, none)
    | .reload body keepWarnings =>
      ({ ui with flow := some ⟨click, .reload next keepWarnings⟩, msgIsErr := false }, some ⟨some click, .reload body⟩)
  | _ => (ui, none)

/-- A turn. `next` is the number of the next request, and `click` that of the next Apply. -/
def Ui.turn (next click : Nat) (ui : Ui) : Input → Turn
  | .applyClick =>
    if ui.flow.isSome then (ui, none) else ({ ui with flow := some ⟨click, .mode next⟩ }, some ⟨some click, .session⟩)
  | .checkClick =>
    if ui.flow.isSome then (ui, none) else ({ ui with checks := next :: ui.checks, msgIsErr := false }, some ⟨none, .validate⟩)
  | .ack checked => (ui.ackChange checked, none)
  | .dismiss => (ui.invalidateCheck, none)
  | .navigate => (ui.dropPassedCheck, none)
  | .revision revision => (ui.noteConfigRevision revision, none)
  | .answer n r => gotAnswer numText next n r ui
  | .resume => resumeApply numText next ui
  | .refreshed =>
    match ui.flow with
    | some ⟨_, .refresh⟩ => ({ ui with flow := none }, none)
    | _ => (ui, none)

end

end EvuProxy.ApplyBar

import EvuProxy.Api.ApplyHandlers
import EvuProxy.Web.Review

/-!
# The lockout check of the UI

`web/static/js/core/lockout.js`, with what it takes of `api` in `core/api.js` and of `readApplyMode` in `core/apply_session.js`. The texts
of errors are left out.
-/

namespace EvuProxy.ApplyBar

open Go Review

/-! ## Answers -/

/-- An error that `api` throws. A request without an answer leaves no status and no body. -/
structure ApiError where
  status : Option Nat := none
  errorCode : Option Json := none
  body : Option Json := none

/-- `api`, on the answer to a request, if there is one. -/
def api : Option Response → Except ApiError Json
  | none => .error {}
  | some r =>
    if 200 ≤ r.status ∧ r.status < 300 then .ok r.body
    else
      .error {
        status := some r.status
        errorCode := if truthy (field (some r.body) "error_code") then field (some r.body) "error_code" else none
        body := some r.body }

/-- An answer that is no JSON, such as the page of a gateway, as `api` reads it. -/
def page (status : Nat) (text : String) : Response := ⟨status, .obj [("raw", .str text)]⟩

/-! ## The check -/

def lockoutCodePrefix : String := "lockout_risk_"

/-- Whether a value is `null`, `undefined` or passes a test. -/
def nullOr (p : Json → Bool) : Option Json → Bool
  | none | some .null => true
  | some v => p v

/-- `isValidateShape`. An array passes for an object, but has no `ok`. -/
def isValidateShape : Option Json → Bool
  | some (.obj fields) =>
    (match fields.lookup "ok" with | some (.bool _) => true | _ => false) &&
      nullOr (· matches .arr _) (fields.lookup "warnings") && nullOr (· matches .arr _) (fields.lookup "errors") &&
      nullOr (· matches .str _) (fields.lookup "config_hash")
  | _ => false

/-- Whether a warning has to be acknowledged. -/
def isRisk (w : Json) : Bool :=
  match field (some w) "code" with
  | some (.str code) => hasPrefix code lockoutCodePrefix
  | _ => false

/-- `lockoutRisks`. -/
def lockoutRisks (res : Json) : List Json := (rowsOf (field (some res) "warnings")).filter isRisk

section

variable (numText : ℚ → String)

/-- What a risk is known by. -/
def riskText (w : Json) : String := textOf numText (field (some w) "code") ++ ":" ++ textOr numText (field (some w) "message")

/-- `lockoutSignature`. Which order the texts are sorted in does not matter, as long as it is one. -/
def lockoutSignature (risks : List Json) : String := "|".intercalate ((risks.map (riskText numText)).insertionSort (· ≤ ·))

end

/-- `fetchValidateResult`: the result, where there is one. -/
def fetchValidateResult : Except ApiError Json → Option Json
  | .ok body => if isValidateShape (some body) then some body else none
  | .error e => if isValidateShape e.body then e.body else none

/-! ## The mode of an Apply -/

/-- What `readApplyMode` returns. -/
structure ApplyMode where
  confirm : Bool
  timeoutSeconds : Option Json
  failedRevert : Bool

/-- `readApplyMode`; nothing where it throws. -/
def readApplyMode : Except ApiError Json → Option ApplyMode
  | .error e =>
    -- `fetchStatus` answers null for an API without sessions and for a read token
    if e.status = some 404 ∨ e.status = some 403 then some { confirm := false, timeoutSeconds := some (.num 0), failedRevert := false }
    else none
  | .ok next =>
    if truthy (some next) = false then some { confirm := false, timeoutSeconds := some (.num 0), failedRevert := false }
    else
      let session := field (some next) "session"
      some {
        confirm := truthy (field (some next) "confirm_enabled") || truthy session
        timeoutSeconds :=
          if truthy session && truthy (field session "timeout_seconds") then field session "timeout_seconds"
          else field (some next) "confirm_timeout_seconds"
        failedRevert := truthy session && field session "phase" != some (.str "active") }

end EvuProxy.ApplyBar

import EvuProxy.Api.ClientIP
import EvuProxy.Apply.Status
import EvuProxy.Go.Json

/-!
# The handlers of an Apply

`internal/api/validate_handlers.go` and the reload and session handlers of `reload_handlers.go`, with the JSON they answer. A check is of
the saved config here: a draft in the body of the request is left out. Log lines are left out as well.
-/

namespace EvuProxy

open Go Fault Fault.Prog

variable {Γ : Ctx}

/-! ## Answers -/

/-- An answer of the API. -/
structure Response where
  status : Nat
  body : Json
  deriving DecidableEq

/-- `jsonOK`. -/
def jsonOK (v : Json) : Response := ⟨200, v⟩

/-- `jsonErr`. -/
def jsonErr (status : Nat) (msg : String) : Response := ⟨status, .obj [("error", .str msg)]⟩

/-- A field that `omitempty` leaves out when it is empty. -/
def omitEmpty (name s : String) : List (String × Json) := if s = "" then [] else [(name, .str s)]

/-- `jsonAPIError`. -/
def jsonAPIError (status : Nat) (msg code : String) : Response := ⟨status, .obj (("error", .str msg) :: omitEmpty "error_code" code)⟩

/-! ## The check -/

/-- `ValidateIssue`. -/
def issueJson (e : ValidationError) : Json := .obj (omitEmpty "code" e.code ++ [("message", .str e.msg)])

def LockoutWarning.toJson (w : LockoutWarning) : Json := .obj [("code", .str w.code), ("message", .str w.message)]

/-- A list that `omitempty` leaves out when it is empty. -/
def omitEmptyList (name : String) (xs : List Json) : List (String × Json) := if xs = [] then [] else [(name, .arr xs)]

/-- The JSON of a `ValidateResult`, with its `ConfigHash`. -/
def ValidateResult.toJson (res : ValidateResult) (configHash : String) : Json :=
  .obj (("ok", .bool res.ok) :: omitEmptyList "errors" (res.errors.map issueJson) ++
    omitEmptyList "warnings" (res.warnings.map LockoutWarning.toJson) ++ omitEmpty "detected_client_ip" res.detectedClientIP ++
    [("ip_detection_source", .str res.ipDetectionSource)] ++ omitEmpty "ip_detection_note" res.ipDetectionNote ++
    (if res.validatedFromDraft then [("validated_from_draft", .bool true)] else []) ++ omitEmpty "config_hash" configHash)

/-- What a check depends on beside the config files. -/
structure Surroundings where
  host : ConfigHost
  zones : ZoneFiles
  countryISOCodeLower : String → String

/-- What `handleValidate` answers on a config and the config last applied. -/
def validateResponse (env : Surroundings) (client : ClientIPInfo) (c : Config) (applied : Option Config) (hash : String) : Response :=
  let res := validateConfigWithWarnings env.host env.zones env.countryISOCodeLower c applied client false
  if res.ok then jsonOK (res.toJson hash) else ⟨400, res.toJson ""⟩

/-- `handleValidate`, for a request without a draft. -/
def handleValidate (env : Surroundings) (client : ClientIPInfo) : App Γ Response := do
  match ← (readExisting (Γ := Γ) .config).attempt with
  | .error _ => return jsonErr 500 "could not read configuration"
  | .ok b =>
    match parseConfig Γ b with
    | .error _ => return jsonErr 500 "could not read configuration"
    | .ok c => do
      -- `LoadAppliedConfig`
      let applied ← (loadConfig (Γ := Γ) .bak).attempt
      return validateResponse env client c applied.toOption (Γ.sha256 b)

/-! ## The reload -/

/-- `reloadRequest`. -/
structure ReloadRequest where
  confirmTimeoutSeconds : Int := 0
  configHash : String := ""
  force : Bool := false
  deriving DecidableEq

/-- `json.Unmarshal` into a bool. -/
def jsonBool : Json → Option Bool
  | .null => some false
  | .bool b => some b
  | _ => none

/-- `readReloadRequest`. A body that is no JSON object carries no fields. -/
def readReloadRequest : Option Json → Except String ReloadRequest
  | some (.obj fields) =>
    match plainField 0 Json.asInt (jsonField fields "confirm_timeout_seconds"), plainField "" Json.asString (jsonField fields "config_hash"),
        plainField false jsonBool (jsonField fields "force") with
    | some t, some hash, some force =>
      if t ≠ 0 ∧ (t < minConfirmTimeoutSeconds ∨ maxConfirmTimeoutSeconds < t) then
        .error ("confirm_timeout_seconds must be " ++ toString minConfirmTimeoutSeconds ++ " to " ++ toString maxConfirmTimeoutSeconds)
      else if force ∧ hash ≠ "" then .error "send config_hash or force, not both"
      else .ok { confirmTimeoutSeconds := t, configHash := hash, force := force }
    | _, _, _ => .error "json: cannot unmarshal"
  | _ => .ok {}

/-- `errors.Is`, for the errors of this layer that `p` picks out. -/
def Err.isWhere (p : Err → Bool) : Err → Bool
  | .wrap _ e => e.isWhere p
  | .join a b => a.isWhere p || b.isWhere p
  | e => p e

/-- The codes of `confirmErrorCode`, in the order it tries them. -/
def confirmErrorCodes : List ((Err → Bool) × String) :=
  [((· matches .confirmSessionActive), "apply_session_active"),
   ((· matches .noConfirmSession), "no_apply_session"),
   ((· matches .rollbackFailed _), "rollback_failed"),
   ((· matches .noConfirmBaseline _), "no_baseline"),
   ((· matches .confirmUnavailable _), "confirm_unavailable"),
   ((· matches .noRevertedConfig), "no_reverted_config"),
   ((· matches .pendingEditsExist), "pending_edits"),
   ((· matches .configHashMismatch), "config_hash_mismatch")]

/-- `confirmErrorCode`: the code of a refusal, which is answered with the status 409. -/
def confirmErrorCode (e : Err) : Option String := (confirmErrorCodes.find? fun p => e.isWhere p.1).map (·.2)

/-- `emit`: best effort. -/
def emit (event detail errorCode : String) : App Γ Unit :=
  ignore (Cmd.appendEvent (Γ := Γ) { event := event, detail := detail, errorCode := errorCode }).run

def configHashRequiredMsg : String := "send the config_hash from POST /validate, or force to apply without a check"

/-- The detail of the events of a reload. -/
def reloadDetail (req : ReloadRequest) : String :=
  "reload" ++ (if req.force then ", forced" else "") ++
    if 0 < req.confirmTimeoutSeconds then ", confirm within " ++ toString req.confirmTimeoutSeconds ++ "s" else ""

def ConfirmPhase.text : ConfirmPhase → String
  | .active => "active"
  | .rollingBack => "rolling_back"
  | .failed => "failed"

/-- The JSON of a `ConfirmSessionView`. -/
def ConfirmSessionView.toJson (v : ConfirmSessionView) : Json :=
  .obj ([("phase", .str v.phase.text), ("timeout_seconds", .num v.timeoutSeconds), ("remaining_seconds", .num v.remainingSeconds)] ++
    omitEmpty "failure" v.failure)

/-- The answer to a reload that succeeded. -/
def reloadedResponse : Option ConfirmSessionView → Response
  | some v => jsonOK (.obj [("result", .str "reloaded"), ("session", v.toJson)])
  | none => jsonOK (.obj [("result", .str "reloaded")])

/-- The reload that a request asks for. -/
def requestedReload (req : ReloadRequest) : App Γ (Option ConfirmSessionView) :=
  if 0 < req.confirmTimeoutSeconds then do
    let s ← reloadWithConfirmIfMatch (Γ := Γ) req.configHash req.confirmTimeoutSeconds
    let now : Nat ← (Cmd.now (Γ := Γ)).run
    return some (s.view now)
  else do
    reloadIfMatch (Γ := Γ) req.configHash
    return none

/-- The part of `handleReload` that holds the handlers' own lock. -/
def serveReload (req : ReloadRequest) : App Γ Response :=
  if req.configHash = "" ∧ ¬req.force then do
    emit (Γ := Γ) "reload_failed" configHashRequiredMsg "config_hash_required"
    return jsonAPIError 409 configHashRequiredMsg "config_hash_required"
  else do
    emit (Γ := Γ) "reload_started" (reloadDetail req) ""
    match ← (requestedReload (Γ := Γ) req).attempt with
    | .error e =>
      match confirmErrorCode e with
      | some code => do
        emit (Γ := Γ) "reload_failed" (truncateForLog e.text 512) code
        return jsonAPIError 409 e.text code
      | none => do
        emit (Γ := Γ) "reload_failed" (truncateForLog e.text 512) "reload_error"
        return jsonErr 500 "reload failed"
    | .ok session => do
      emit (Γ := Γ) "reload_ok" (reloadDetail req) ""
      return reloadedResponse session

/-- `handleReload`; `free` says whether the lock that the handlers share among themselves is free. -/
def handleReload (free : Bool) (body : Option Json) : App Γ Response :=
  match readReloadRequest body with
  | .error msg => return jsonAPIError 400 ("invalid reload body: " ++ msg) "invalid_reload_body"
  | .ok req =>
    if ¬free then return jsonErr 503 "another configuration or apply operation is in progress" else serveReload req

/-! ## The session -/

/-- The JSON of a `ConfirmStatus`. -/
def ConfirmStatus.toJson (st : ConfirmStatus) : Json :=
  .obj [("confirm_enabled", .bool st.confirmEnabled), ("confirm_timeout_seconds", .num st.confirmTimeoutSeconds),
    ("session", (st.session.map ConfirmSessionView.toJson).getD .null)]

/-- `handleApplySession`. -/
def handleApplySession : App Γ Response := do
  match ← (readConfirmStatus (Γ := Γ)).attempt with
  | .error _ => return jsonErr 500 "could not read apply session"
  | .ok st => return jsonOK st.toJson

end EvuProxy

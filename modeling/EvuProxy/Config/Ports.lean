import Mathlib.Data.List.Sort
import EvuProxy.Config.Types
import EvuProxy.Go.Text

/-!
# Port expressions and port maps

`internal/config/ports_expand.go`, `port_maps.go` and the port checks of `validators.go`.
-/

namespace EvuProxy

open Go

/-- `maxDistinctPortsPerRoute`. -/
def maxDistinctPortsPerRoute : Nat := 65535

/-- `MaxPortMapsPerRoute`. -/
def maxPortMapsPerRoute : Nat := 64

/-- `expandPortToken`: the ports of one token, a port or a range. -/
def expandPortToken (tok : String) : Except ValidationError (List Nat) :=
  let tok := trimSpace tok
  if tok = "" then errorf "empty port token"
  else
    match cut tok '-' with
    | some (lo, hi) =>
      match atoi (trimSpace lo), atoi (trimSpace hi) with
      | some a, some b =>
        if a < 1 ∨ b < 1 ∨ 65535 < a ∨ 65535 < b ∨ b < a then errorf ("invalid port range " ++ quote tok)
        else .ok (List.range' a.toNat (b.toNat + 1 - a.toNat))
      | _, _ => errorf ("invalid port range " ++ quote tok)
    | none =>
      match atoi tok with
      | none => errorf ("invalid port " ++ quote tok)
      | some p => if p < 1 ∨ 65535 < p then errorf ("port out of range: " ++ toString p) else .ok [p.toNat]

/-- Add the ports of one token to those seen so far. `what` names the ports in the error about their number. -/
def addPorts (what : String) : List Nat → List Nat → Except ValidationError (List Nat)
  | [], seen => .ok seen
  | p :: ps, seen =>
    let seen := if p ∈ seen then seen else p :: seen
    if maxDistinctPortsPerRoute < seen.length then
      errorf ("too many distinct " ++ what ++ " (max " ++ toString maxDistinctPortsPerRoute ++ " per route)")
    else addPorts what ps seen

/-- Expand tokens one after another; `wrap` is what an error of `expandPortToken` becomes. -/
def expandTokens (what : String) (wrap : String → ValidationError → ValidationError) :
    List String → List Nat → Except ValidationError (List Nat)
  | [], seen => .ok seen
  | tok :: toks, seen =>
    match expandPortToken tok with
    | .error e => .error (wrap tok e)
    | .ok ps =>
      match addPorts what ps seen with
      | .error e => .error e
      | .ok seen => expandTokens what wrap toks seen

/-- A token in braces is a list of tokens. -/
def isBraceList (raw : String) : Bool := hasPrefix raw "\x7b" && hasSuffix raw "\x7d"

/-- What stands between the braces, without the white space around it. -/
def braceInner (raw : String) : String := trimSpace (String.ofList (raw.toList.tail.dropLast))

/-- The entries of `ports`, cut at commas inside braces, without empty ones. -/
def portTokens (ports : List String) : List String :=
  ports.flatMap fun raw =>
    let raw := trimSpace raw
    if raw = "" then []
    else if isBraceList raw then ((split (braceInner raw) ',').map trimSpace).filter (· ≠ "")
    else [raw]

/-- `ExpandRoutePortNumbers`: the distinct ports of a route's `ports`, in order. -/
def expandRoutePortNumbers (ports : List String) : Except ValidationError (List Nat) :=
  (expandTokens "ports" (fun _ e => e) (portTokens ports) []).map (List.insertionSort (· ≤ ·))

/-- `normalizedPortTokens`, and `normalizedPortTokensFromPorts` of `internal/gen`. -/
def normalizedPortTokens (ports : List String) : List String := (ports.map trimSpace).filter (· ≠ "")

/-- `ExpandRoutePublicPortNumbers`: the ports a route claims on the public side. -/
def expandRoutePublicPortNumbers (r : ForwardRoute) : Except ValidationError (List Nat) :=
  if r.portMaps = [] then expandRoutePortNumbers r.ports
  else
    let mapped := r.portMaps.map fun m => trimSpace m.pub
    let wrapMap := fun (tok : String) (e : ValidationError) =>
      { e with msg := "port_maps public " ++ quote tok ++ ": " ++ e.msg }
    let wrapPort := fun (tok : String) (e : ValidationError) => { e with msg := "ports " ++ quote tok ++ ": " ++ e.msg }
    match expandTokens "public ports" wrapMap (r.portMaps.map (·.pub)) [] with
    | .error e => .error e
    | .ok seen =>
      (expandTokens "public ports" wrapPort ((normalizedPortTokens r.ports).filter (· ∉ mapped)) seen).map
        (List.insertionSort (· ≤ ·))

/-- `parsePort`. -/
def parsePort (s : String) : Except ValidationError Nat :=
  if s = "" ∨ 5 < s.toList.length ∨ ¬s.toList.all isDigit then errorf ("invalid port " ++ quote s)
  else
    let n := digitsVal s.toList
    if n < 1 ∨ 65535 < n then errorf ("port " ++ toString n ++ " out of range (1–65535)") else .ok n

/-- `validatePlainDportToken`. -/
def validatePlainDportToken (tok : String) : Except ValidationError Unit :=
  let tok := trimSpace tok
  if tok = "" then errorf "empty port token"
  else if containsAny tok " {}" ∨ 1 < tok.toList.count '-' then errorf ("invalid dport " ++ quote tok)
  else
    match cut tok '-' with
    | none => do
      let _ ← parsePort tok
    | some (lo, hi) => do
      let lo ← parsePort lo
      let hi ← parsePort hi
      if hi < lo then errorf ("port range low exceeds high in " ++ quote tok)

/-- `validateBraceDport`. -/
def validateBraceDport (d : String) : Except ValidationError Unit :=
  let d := trimSpace d
  if ¬isBraceList d then errorf "brace dport must be a single {...} list"
  else if braceInner d = "" then errorf "empty port list inside braces"
  else
    forIdx (fun _ part =>
      let part := trimSpace part
      if part = "" then errorf "empty entry in brace list"
      else if containsAny part "{}" then errorf "nested braces are not allowed in dport"
      else validatePlainDportToken part) 0 (split (braceInner d) ',')

/-- `ValidateInputAllowDport`. -/
def validateInputAllowDport (d : String) : Except ValidationError Unit :=
  let d := trimSpace d
  if d = "" then errorf "dport is required"
  else if containsAny d "\n\r;\"'`!$&|" then errorf "dport contains forbidden characters"
  else if containsChar d '{' then validateBraceDport d
  else validatePlainDportToken d

/-- `validatePortMapPair`. -/
def validatePortMapPair (pub internal : String) : Except ValidationError Unit :=
  if containsAny pub "\n\r" ∨ containsAny internal "\n\r" then errorf "port expressions cannot contain newlines"
  else if containsChar pub '-' ∧ ¬containsChar pub '{' then
    if ¬containsChar internal '-' ∨ containsChar internal '{' then
      errorf "internal must be a parallel range when public is a range"
    else do
      let pubPorts ← expandPortToken pub
      let intPorts ← expandPortToken internal
      if pubPorts.length ≠ intPorts.length then
        errorf ("public range width " ++ toString pubPorts.length ++ " does not match internal width " ++
          toString intPorts.length)
  else if containsChar internal '-' ∧ ¬containsChar internal '{' then
    errorf "internal range requires public range with the same width"
  else do
    if hasPrefix (trimSpace pub) "\x7b" then validateBraceDport pub else validatePlainDportToken pub
    if hasPrefix (trimSpace internal) "\x7b" then
      errorf "brace internal port mapping is not supported; use discrete ports or ranges"
    else validatePlainDportToken internal

/-- A `ValidationError` with the code of the port map checks. -/
def portMapInvalid (msg : String) : ValidationError := { code := "port_map_invalid", msg := msg }

/-- The rows of `port_maps` from the `j`-th on, after the rows with the public expressions `seen`. -/
def validatePortMapRows (routeIndex : Nat) : Nat → List String → List PortMap → Except ValidationError Unit
  | _, _, [] => .ok ()
  | j, seen, m :: ms =>
    let pub := trimSpace m.pub
    let internal := trimSpace m.internal
    let row := "forwarding.routes[" ++ toString routeIndex ++ "].port_maps[" ++ toString j ++ "]: "
    if pub = "" ∨ internal = "" then .error (portMapInvalid (row ++ "public and internal are required"))
    else
      match validatePortMapPair pub internal with
      | .error e => .error (portMapInvalid (row ++ e.msg))
      | .ok () =>
        if pub ∈ seen then
          .error (portMapInvalid (row ++ "duplicate public " ++ quote pub ++ " (also at [" ++ toString (seen.idxOf pub) ++ "])"))
        else validatePortMapRows routeIndex (j + 1) (seen ++ [pub]) ms

/-- `ValidatePortMaps`. Of several public expressions that are no entry of `ports`, the first is reported; the source reports any. -/
def validatePortMaps (routeIndex : Nat) (ports : List String) (maps : List PortMap) : Except ValidationError Unit :=
  let path := "forwarding.routes[" ++ toString routeIndex ++ "]"
  if maps = [] then .ok ()
  else if maxPortMapsPerRoute < maps.length then
    .error (portMapInvalid (path ++ ": at most " ++ toString maxPortMapsPerRoute ++ " port_maps entries"))
  else do
    validatePortMapRows routeIndex 0 [] maps
    if normalizedPortTokens ports = [] then .error (portMapInvalid (path ++ ": port_maps set but ports is empty"))
    else
      forIdx (fun _ (m : PortMap) =>
        if trimSpace m.pub ∈ normalizedPortTokens ports then .ok ()
        else .error (portMapInvalid (path ++ ".port_maps: public " ++ quote (trimSpace m.pub) ++
          " is not a ports[] entry on this route"))) 0 maps

/-- `RangePortPairs`: the port-by-port pairs of a token that is mapped as a range. -/
def rangePortPairs (publicToken : String) : List PortMap → Except ValidationError (Option (List (Nat × Nat)))
  | [] => .ok none
  | m :: ms =>
    let internal := trimSpace m.internal
    if trimSpace m.pub ≠ trimSpace publicToken ∨ ¬containsChar internal '-' ∨ containsChar internal '{' then
      rangePortPairs publicToken ms
    else do
      let pub ← expandPortToken (trimSpace publicToken)
      let intPorts ← expandPortToken internal
      if pub.length ≠ intPorts.length then
        errorf ("public range " ++ quote (trimSpace publicToken) ++ " and internal range " ++ quote internal ++ " differ in width")
      else .ok (some (pub.zip intPorts))

/-- `InternalPort`: the port expression a public token reaches on the peer. -/
def internalPort (publicToken : String) (maps : List PortMap) : String :=
  match maps.find? fun m => trimSpace m.pub = trimSpace publicToken with
  | some m => trimSpace m.internal
  | none => trimSpace publicToken

/-- `DNATDestination`: the host, and the port when the token is mapped. -/
def dnatDestination (targetIP publicToken : String) (maps : List PortMap) :
    Except ValidationError (String × Option String) :=
  match maps.find? fun m => trimSpace m.pub = trimSpace publicToken with
  | none => .ok (trimSpace targetIP, none)
  | some m =>
    if hasPrefix (trimSpace m.internal) "\x7b" then
      errorf "brace internal port mapping is not supported in DNAT; use discrete ports or ranges"
    else .ok (trimSpace targetIP, some (trimSpace m.internal))

end EvuProxy

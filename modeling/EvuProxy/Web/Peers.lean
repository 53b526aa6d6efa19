import EvuProxy.Api.Requests

/-!
# The switch and the removal of a peer, and their Undo

`web/static/js/pages/peers.js`, with the part of `core/config_save.js` that finds a row again. An edit works on a copy of the config
and is done when that copy is saved. The case mapping of JavaScript is a parameter, since all that is asked of it is what it is asked
twice.
-/

namespace EvuProxy

/-! ## Text -/

/-- What `trim` takes off: the white space and the line ends of JavaScript. -/
def isJsSpace (c : Char) : Bool :=
  let n := c.toNat
  (9 ≤ n && n ≤ 13) || n == 0x20 || n == 0xA0 || n == 0x1680 || (0x2000 ≤ n && n ≤ 0x200A) || n == 0x2028 || n == 0x2029 ||
    n == 0x202F || n == 0x205F || n == 0x3000 || n == 0xFEFF

/-- `String.prototype.trim`. -/
def jsTrim (s : String) : String :=
  String.ofList (((s.toList.dropWhile isJsSpace).reverse.dropWhile isJsSpace).reverse)

/-- `tunnelHostOnly`: the digits and dots that the trimmed text begins with. -/
def tunnelHostOnly (tunnelIP : String) : String :=
  String.ofList ((jsTrim tunnelIP).toList.takeWhile fun c => c.isDigit || c == '.')

/-! ## Finding a row again -/

section rows

variable {α : Type}

/-- The answers -1 and -2 of `resolveListIndex`. -/
inductive NoRow where
  | missing
  | ambiguous
  deriving DecidableEq

/-- `resolveListIndex`. -/
def resolveListIndex (list : List α) (openIndex : Nat) (identity : String) (identityOf : α → String) : Except NoRow Nat :=
  if list[openIndex]?.map identityOf = some identity then .ok openIndex
  else
    match (List.range list.length).filter fun i => list[i]?.map identityOf = some identity with
    | [i] => .ok i
    | [] => .error .missing
    | _ => .error .ambiguous

/-- A `ConfigMergeError`. -/
def configMergeError (msg : String) : Err := .sys msg

/-- `findConfigRow`. -/
def findConfigRow (list : List α) (openIndex : Nat) (identity : String) (identityOf : α → String) (what : String) : Except Err Nat :=
  match resolveListIndex list openIndex identity identityOf with
  | .ok i => .ok i
  | .error .missing => .error (configMergeError ("That " ++ what ++ " was changed or removed elsewhere, so your change was not saved."))
  | .error .ambiguous => .error (configMergeError ("Could not uniquely identify that " ++ what ++ "; refresh and try again."))

end rows

/-- `peerIdentity`. -/
def peerIdentity (p : Peer) : String := p.publicKey

section

variable (toLowerCase : String → String)

/-- `routeIdentity`. -/
def routeIdentity (r : ForwardRoute) : String :=
  toLowerCase r.proto ++ "\x00" ++ ",".intercalate r.ports ++ "\x00" ++ r.targetIP

end

/-! ## The cascade to the routes -/

def ForwardRoute.setDisabled (off : Bool) (r : ForwardRoute) : ForwardRoute := { r with disabled := off }

def Peer.setDisabled (off : Bool) (p : Peer) : Peer := { p with disabled := off }

/-- A config with other routes. -/
def Config.withRoutes (c : Config) (routes : List ForwardRoute) : Config :=
  { c with forwarding := { c.forwarding with routes := routes } }

/-- A config with other peers. -/
def Config.withPeers (c : Config) (peers : List Peer) : Config := { c with peers := peers }

/-- `dependentRoutesForPeer`: the routes with their places. -/
def dependentRoutesForPeer (c : Config) (peer : Peer) : List (ForwardRoute × Nat) :=
  let tip := tunnelHostOnly peer.tunnelIP
  if tip = "" then [] else c.forwarding.routes.zipIdx.filter fun e => !e.1.disabled && jsTrim e.1.targetIP == tip

/-- What Undo is given to find a route again. -/
structure Cascaded where
  index : Nat
  identity : String
  deriving DecidableEq

section

variable (toLowerCase : String → String)

/-- `disableDependentRoutes`. -/
def disableDependentRoutes (c : Config) (peer : Peer) : Config × List Cascaded :=
  let found := dependentRoutesForPeer c peer
  (c.withRoutes (found.foldl (fun routes e => routes.modify e.2 (.setDisabled true)) c.forwarding.routes),
    found.map fun e => { index := e.2, identity := routeIdentity toLowerCase e.1 })

/-- The loop of `reenableRoutes`, with the number of routes that were not found. -/
def reenable : List Cascaded → List ForwardRoute × Nat → List ForwardRoute × Nat
  | [], done => done
  | e :: rest, (routes, missing) =>
    match resolveListIndex routes e.index e.identity (routeIdentity toLowerCase) with
    | .ok i => reenable rest (routes.modify i (.setDisabled false), missing)
    | .error _ => reenable rest (routes, missing + 1)

/-- `reenableRoutes`. -/
def reenableRoutes (c : Config) (disabledRoutes : List Cascaded) : Config × Nat :=
  let done := reenable toLowerCase disabledRoutes (c.forwarding.routes, 0)
  (c.withRoutes done.1, done.2)

/-! ## The actions -/

/-- `setDisabled` of `patchPeerDisabled`, for the row that was open at `index`. -/
def setPeerDisabled (index : Nat) (identity : String) (c : Config) (off : Bool) : Except Err (Config × List Cascaded) := do
  let i ← findConfigRow c.peers index identity peerIdentity "peer"
  let (c, cascaded) := if off then disableDependentRoutes toLowerCase c (c.peers.getD i {}) else (c, [])
  return (c.withPeers (c.peers.modify i (.setDisabled off)), cascaded)

/-- The Undo of `patchPeerDisabled` called with `disabled`. -/
def undoPeerDisabled (index : Nat) (identity : String) (disabled : Bool) (cascaded : List Cascaded) (c : Config) : Except Err Config := do
  let (c, _) ← setPeerDisabled toLowerCase index identity c !disabled
  return (reenableRoutes toLowerCase c cascaded).1

/-- What `removePeer` remembers: the row, where it was, and the routes. -/
structure Removed where
  row : Peer
  index : Nat
  cascaded : List Cascaded
  deriving DecidableEq

/-- The edit of `removePeer`. -/
def removePeer (index : Nat) (identity : String) (c : Config) : Except Err (Config × Removed) := do
  let removedAt ← findConfigRow c.peers index identity peerIdentity "peer"
  let row := c.peers.getD removedAt {}
  let (c, cascaded) := disableDependentRoutes toLowerCase c row
  return (c.withPeers (c.peers.eraseIdx removedAt), { row := row, index := removedAt, cascaded := cascaded })

/-- `removed.name || "peer"`. -/
def Peer.label (p : Peer) : String := if p.name = "" then "peer" else p.name

/-- The Undo of `removePeer`. -/
def undoRemovePeer (identity : String) (removed : Removed) (c : Config) : Except Err Config := do
  if c.peers.any fun p => peerIdentity p = identity then
    throw (configMergeError (removed.row.label ++ " is already back in the config, so nothing was restored."))
  let c := c.withPeers (c.peers.insertIdx (min removed.index c.peers.length) removed.row)
  return (reenableRoutes toLowerCase c removed.cascaded).1

end

end EvuProxy

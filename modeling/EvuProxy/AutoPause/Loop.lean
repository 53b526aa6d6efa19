import Mathlib.Data.List.Sort
import Mathlib.Data.String.Basic
import Mathlib.Logic.Function.Basic
import EvuProxy.AutoPause.Hysteresis
import EvuProxy.Config.Validate

/-!
# The auto-pause loop

`internal/autopause`: the peers watched by each tick, their counters, and the routes published as paused. The call that makes
the firewall match the paused routes and the log lines are left out; neither is read back.
-/

namespace EvuProxy

open Go

/-- `AutoPause.EffectiveFailuresToPause`. -/
def AutoPause.effectiveFailuresToPause (a : AutoPause) : Nat := if 0 < a.failuresToPause then a.failuresToPause.toNat else 3

/-- `AutoPause.EffectiveSuccessesToResume`. -/
def AutoPause.effectiveSuccessesToResume (a : AutoPause) : Nat := if 0 < a.successesToResume then a.successesToResume.toNat else 2

/-- `AutoPause.EffectiveInterval`, in nanoseconds. -/
def AutoPause.effectiveInterval (a : AutoPause) : Int :=
  match parseDuration (trimSpace a.interval) with
  | .ok d => d
  | .error _ => 15000000000

theorem AutoPause.effectiveFailuresToPause_pos (a : AutoPause) : 0 < a.effectiveFailuresToPause := by
  unfold effectiveFailuresToPause
  split <;> omega

theorem AutoPause.effectiveSuccessesToResume_pos (a : AutoPause) : 0 < a.effectiveSuccessesToResume := by
  unfold effectiveSuccessesToResume
  split <;> omega

namespace AutoPause

/-! ## Routes and peers -/

/-- `PausedRoute`: a route paused because its target peer is offline, with its position in `forwarding.routes`. -/
structure PausedRoute where
  name : String := ""
  proto : String := ""
  ports : List String := []
  targetIP : String := ""
  peer : String := ""
  index : Nat := 0
  deriving DecidableEq

/-- `PausedRoute.key`. -/
def PausedRoute.key (r : PausedRoute) : String :=
  toLower r.proto ++ "\x00" ++ join (r.ports.insertionSort (· ≤ ·)) "," ++ "\x00" ++ r.targetIP

/-- `PausedRoute.String`. -/
def PausedRoute.text (r : PausedRoute) : String :=
  let s := r.proto ++ " " ++ join r.ports "," ++ " -> " ++ r.targetIP
  if r.name ≠ "" then r.name ++ ": " ++ s else s

/-- Whether the loop looks at a route: the setting is on and the route is not disabled. -/
def flagged (r : ForwardRoute) : Bool := r.pauseWhenPeerOffline && !r.disabled

/-- `peerForRoute`. -/
def peerForRoute (c : Config) (r : ForwardRoute) : Option Peer :=
  let target := trimSpace r.targetIP
  c.peers.find? fun p => !p.disabled && peerTunnelIPv4 p.tunnelIP = target

/-- The peers of the routes that the loop looks at, in the order of the routes. -/
def targetPeers (c : Config) : List Peer := (c.forwarding.routes.filter flagged).filterMap (peerForRoute c)

/-- `watchedPeers`: the peers of `targetPeers` by public key. Of several with one key the last stays in the map. -/
def watchedPeers (c : Config) : String → Option Peer :=
  (targetPeers c).foldl (fun out p => Function.update out p.publicKey (some p)) fun _ => none

/-! ## A round -/

/-- When the context of a round is cancelled: not while the round lasts, before the answers of the probe are all in, or between
that and the end of the round. -/
inductive Cancel where
  | never
  | probing
  | probed
  deriving DecidableEq

/-- What a round meets: the config it loads, the handshakes of an interface by public key (zero without one), the time, the
answers to its pings by public key and address, and whether it is cancelled. -/
structure Round where
  load : Option Config
  handshakes : String → Option (String → Int) := fun _ => none
  now : Int := 0
  pings : String → String → Bool := fun _ _ => false
  cancel : Cancel := .never

/-- `PeerOnlineMaxHandshakeAgeSec`. -/
def peerOnlineMaxHandshakeAgeSec : Int := 180

/-- `signals`, for one watched peer under its public key. -/
def signals (r : Round) (c : Config) (hs : String → Int) (key : String) (p : Peer) : Bool :=
  let last := hs key
  if 0 < last ∧ r.now - last ≤ peerOnlineMaxHandshakeAgeSec then true
  else c.autoPause.icmpFallback && r.pings key (peerTunnelIPv4 p.tunnelIP)

/-- `Loop`: the counters of the peers being watched, by public key, and the routes paused as of the last tick. -/
structure Loop where
  peers : String → Option Hysteresis := fun _ => none
  paused : List PausedRoute := []

/-- `probe`. -/
def probe (l : Loop) (r : Round) (c : Config) : Loop :=
  match r.handshakes c.wireGuard.interface with
  | none => l
  | some hs =>
    if r.cancel = .probing then l
    else
      { l with peers := fun key =>
          match watchedPeers c key with
          | none => l.peers key
          | some p =>
            let h := (l.peers key).getD {}
            some (h.observe (signals r c hs key p) c.autoPause.effectiveFailuresToPause
              c.autoPause.effectiveSuccessesToResume) }

/-- What `derivePaused` says of a route of a peer. -/
def pausedRoute (i : Nat) (r : ForwardRoute) (p : Peer) : PausedRoute where
  name := r.name
  proto := r.proto
  ports := r.ports
  targetIP := trimSpace r.targetIP
  peer := p.name
  index := i

/-- `derivePaused`. -/
def derivePaused (l : Loop) (c : Config) : List PausedRoute :=
  c.forwarding.routes.zipIdx.filterMap fun (r, i) =>
    if !flagged r then none
    else
      match peerForRoute c r with
      | none => none
      | some p => if ((l.peers p.publicKey).getD {}).paused then some (pausedRoute i r p) else none

/-! ## Publishing -/

/-- An event that `publish` emits about a route. -/
inductive PauseEvent where
  | paused (r : PausedRoute)
  | resumed (r : PausedRoute)
  deriving DecidableEq

/-- The route of an event. -/
def PauseEvent.route : PauseEvent → PausedRoute
  | .paused r => r
  | .resumed r => r

/-- The record of an event in the events file: its name and its text. -/
def PauseEvent.record : PauseEvent → String × String
  | .paused r => ("route_auto_paused", r.text ++ " (peer " ++ r.peer ++ " offline)")
  | .resumed r => ("route_auto_resumed", r.text ++ " (peer " ++ r.peer ++ ")")

/-- What a tick leaves and does: the loop after it, the events it emits in order, the routes it calls `OnChange` with, if it does,
and the interval it returns, zero when there is none. -/
structure Ticked where
  loop : Loop
  events : List PauseEvent := []
  onChange : Option (List PausedRoute) := none
  next : Int := 0

/-- `publish`. -/
def publish (l : Loop) (next : List PausedRoute) : Ticked :=
  let paused := next.filter fun r => r.key ∉ l.paused.map PausedRoute.key
  let resumed := l.paused.filter fun r => r.key ∉ next.map PausedRoute.key
  let events := paused.map .paused ++ resumed.map .resumed
  { loop := { l with paused := next }, events, onChange := if events = [] then none else some next }

/-- `Tick`. -/
def tick (l : Loop) (r : Round) : Ticked :=
  match r.load with
  | none => { loop := l }
  | some c =>
    let kept := { l with peers := fun key => if (watchedPeers c key).isSome then l.peers key else none }
    let probed := if targetPeers c = [] then kept else probe kept r c
    if r.cancel ≠ .never then { loop := probed }
    else { publish probed (derivePaused probed c) with next := c.autoPause.effectiveInterval }

/-- The loop after a run of rounds. -/
def run (rounds : List Round) : Loop := rounds.foldl (fun l r => (tick l r).loop) {}

@[simp] theorem run_nil : run [] = {} := rfl

@[simp] theorem run_snoc (rounds : List Round) (r : Round) : run (rounds ++ [r]) = (tick (run rounds) r).loop := by
  simp [run]

/-- A round that completes: it loads the config and is not cancelled. -/
def Round.Completes (r : Round) (c : Config) : Prop := r.load = some c ∧ r.cancel = .never

end AutoPause

end EvuProxy

import Mathlib.Data.List.Basic

/-!
# The config file

The types of `internal/config`, under the names of their fields in the source. What no function of this model reads is left out.
-/

namespace EvuProxy

/-- `config.ApplySettings`. -/
structure ApplySettings where
  confirm : Bool := false
  confirmTimeoutSeconds : Int := 0
  deriving DecidableEq

/-- `config.WireGuard`. -/
structure WireGuard where
  interface : String := ""
  listenPort : Int := 0
  privateKeyFile : String := ""
  address : String := ""
  deriving DecidableEq

/-- `config.Network`. An omitted list of admin ports and an empty one are the same here: the source tells them apart in one
place, where both mean no ports. -/
structure Network where
  publicInterface : String := ""
  adminTCPPorts : List Int := []
  forwardAllowDockerBridges : Bool := false
  forwardExtraLocalCIDRs : List String := []
  deriving DecidableEq

/-- `config.RateLimit`. -/
structure RateLimit where
  tcpSynPerSecond : Nat := 0
  maxConnPerIP : Nat := 0
  udpPerSecond : Nat := 0
  deriving DecidableEq

/-- `config.PortMap`. -/
structure PortMap where
  pub : String := ""
  internal : String := ""
  deriving DecidableEq

/-- `config.ForwardRoute`. -/
structure ForwardRoute where
  name : String := ""
  proto : String := ""
  ports : List String := []
  targetIP : String := ""
  disabled : Bool := false
  sourceAllowCIDRs : List String := []
  sourceDenyCIDRs : List String := []
  portMaps : List PortMap := []
  geoMode : String := ""
  geoCountries : List String := []
  rateLimit : RateLimit := {}
  pauseWhenPeerOffline : Bool := false
  deriving DecidableEq

/-- `config.Forwarding`. -/
structure Forwarding where
  routes : List ForwardRoute := []
  sourceDenyCIDRs : List String := []
  maintenanceMode : Bool := false
  rateLimit : RateLimit := {}
  deriving DecidableEq

/-- `config.Geo`. -/
structure Geo where
  enabled : Bool := false
  mode : String := ""
  setName : String := ""
  countries : List String := []
  zoneDir : String := ""
  applyToInputAllows : Bool := false
  breakGlassCIDRs : List String := []
  deriving DecidableEq

/-- `config.AllowRule`. -/
structure AllowRule where
  proto : String := ""
  dport : String := ""
  disabled : Bool := false
  deriving DecidableEq

/-- `config.Peer`. -/
structure Peer where
  name : String := ""
  publicKey : String := ""
  tunnelIP : String := ""
  disabled : Bool := false
  deriving DecidableEq

/-- `config.AutoPause`. -/
structure AutoPause where
  failuresToPause : Int := 0
  successesToResume : Int := 0
  interval : String := ""
  icmpFallback : Bool := false
  deriving DecidableEq

/-- `config.Config`. -/
structure Config where
  wireGuard : WireGuard := {}
  network : Network := {}
  forwarding : Forwarding := {}
  autoPause : AutoPause := {}
  geo : Geo := {}
  crowdSecEnabled : Bool := false
  dropCounters : Bool := false
  inputAllows : List AllowRule := []
  peers : List Peer := []
  apply : ApplySettings := {}
  deriving DecidableEq

/-- An error of a check: the stable code of a `config.ValidationError`, empty for a plain error, and the text. -/
structure ValidationError where
  code : String := ""
  msg : String
  deriving DecidableEq

/-- `fmt.Errorf` with a text alone. -/
def errorf {α : Type} (msg : String) : Except ValidationError α := .error { msg := msg }

/-- `fmt.Errorf("...: %w", err)`, for an error whose code does not matter to a caller. -/
def wrapf {α : Type} (pre : String) : Except ValidationError α → Except ValidationError α
  | .ok a => .ok a
  | .error e => .error { e with msg := pre ++ ": " ++ e.msg }

/-- Check every element of a list against its index, counted from `i`; the first error ends the loop. -/
def forIdx {ε α : Type} (f : Nat → α → Except ε Unit) : Nat → List α → Except ε Unit
  | _, [] => .ok ()
  | i, a :: as => do
    f i a
    forIdx f (i + 1) as

theorem forIdx_ok {ε α : Type} {f : Nat → α → Except ε Unit} :
    ∀ {i : Nat} {as : List α}, forIdx f i as = .ok () ↔ ∀ j (h : j < as.length), f (i + j) as[j] = .ok ()
  | i, [] => by simp [forIdx]
  | i, a :: as => by
    have ih := @forIdx_ok _ _ f (i + 1) as
    have hcons : forIdx f i (a :: as) = .ok () ↔ f i a = .ok () ∧ forIdx f (i + 1) as = .ok () := by
      cases hfa : f i a <;> simp [forIdx, hfa, bind, Except.bind]
    rw [hcons, ih]
    constructor
    · rintro ⟨h0, h⟩ j hj
      cases j with
      | zero => exact h0
      | succ j =>
        have := h j (by simpa using hj)
        rwa [Nat.add_right_comm] at this
    · intro h
      refine ⟨h 0 (by simp), fun j hj => ?_⟩
      have := h (j + 1) (by simpa using hj)
      rwa [Nat.add_right_comm]

end EvuProxy

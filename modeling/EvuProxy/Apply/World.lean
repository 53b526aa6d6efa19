import EvuProxy.Fault.Machine
import EvuProxy.Gen.Ruleset

/-!
# The host as the program sees it

The files of the config directory and the few files beside it, the firewall and the tunnel, the systemd timers, and the commands
that read and change them. A config directory is a map from file names to optional contents; `atomicio.WriteFile` replaces a file
in one step, so a command either leaves a file as it was or replaces it. The one command that takes several steps on disk is the
removal of the session directory, which a failure or a kill can leave half done.

What is not under `src/` is in the context `Γ`: the bytes of a file, SHA-256, and the libraries that encode and decode them.
-/

namespace EvuProxy

open Go

/-- `config.yaml` and what stands beside it. `history 0` is `config.yaml.bak`, `history n` is `config.yaml.bak.n`, and `staged n` is
its copy in the session directory. -/
inductive FileName where
  | config
  | history (n : Fin 6)
  | reverted
  | lastRevert
  | applyState
  | session
  | staged (n : Fin 6)
  | nftables
  | geoLoader
  | applyNft
  | pausedRoutes
  | applyMetrics
  | geoLastSuccess
  | wgConf (iface : String)
  | wgSync
  | privateKey (path : String)
  | zone (dir cc : String)
  | other (rel : String)
  deriving DecidableEq

instance neZeroHistory : NeZero 6 := ⟨by decide⟩

/-- `config.yaml.bak`. -/
abbrev FileName.bak : FileName := .history 0

/-- The phases of a session. -/
inductive ConfirmPhase where
  | active
  | rollingBack
  | failed
  deriving DecidableEq

/-- Why an Apply was reverted. -/
inductive RevertReason where
  | timeout
  | manual
  | interrupted
  | failedApply
  deriving DecidableEq

def RevertReason.text : RevertReason → String
  | .timeout => "timeout"
  | .manual => "manual"
  | .interrupted => "interrupted"
  | .failedApply => "failed_apply"

/-- `ConfirmSession`. No revert has started while `revertReason` is `none`. -/
structure ConfirmSession where
  phase : ConfirmPhase
  token : String := ""
  startedAt : Nat := 0
  deadline : Nat := 0
  timeoutSeconds : Int := 0
  bootID : String := ""
  revertReason : Option RevertReason := none
  failure : String := ""
  deriving DecidableEq

/-- `LastRevert`, as it is stored. -/
structure LastRevert where
  time : Nat
  reason : RevertReason
  deriving DecidableEq

/-- `ApplyMetrics`. -/
structure ApplyMetrics where
  successTotal : Nat := 0
  failureTotal : Nat := 0
  deriving DecidableEq

/-- `GeoLastSuccess`. -/
structure GeoLastSuccess where
  utc : Nat
  source : String
  deriving DecidableEq

/-- `crowdsecElem`. -/
structure CrowdsecElem where
  val : String
  timeout : Int
  deriving DecidableEq

/-- A record of the event log. -/
structure EventRecord where
  event : String
  detail : String
  errorCode : String := ""
  deriving DecidableEq

/-- What the program takes from outside: the contents of files, and the libraries that read and write them. -/
structure Ctx where
  Bytes : Type
  [bytesEq : DecidableEq Bytes]
  /-- `[]byte(s)` and `string(b)`. -/
  text : String → Bytes
  str : Bytes → String
  str_text : ∀ s, str (text s) = s
  /-- Whether a file is empty. -/
  isEmpty : Bytes → Bool
  /-- The SHA-256 of a file, in hexadecimal. -/
  sha256 : Bytes → String
  /-- `yaml.Unmarshal` and `yaml.Marshal` of a config. -/
  unmarshalConfig : Bytes → Except String Config
  marshalConfig : Config → Except String Bytes
  /-- `json.Marshal` and `json.Unmarshal` of a session, of the last applied hash and of the counters. -/
  marshalSession : ConfirmSession → Bytes
  unmarshalSession : Bytes → Except String ConfirmSession
  session_roundTrip : ∀ s, unmarshalSession (marshalSession s) = .ok s
  marshalApplyState : String → Bytes
  unmarshalApplyState : Bytes → Except String String
  applyState_roundTrip : ∀ h, unmarshalApplyState (marshalApplyState h) = .ok h
  marshalLastRevert : LastRevert → Bytes
  marshalApplyMetrics : ApplyMetrics → Bytes
  unmarshalApplyMetrics : Bytes → Option ApplyMetrics
  marshalGeoLastSuccess : GeoLastSuccess → Bytes
  /-- What `wg-quick strip` writes for a WireGuard config. -/
  wgStrip : Bytes → Bytes

attribute [instance] Ctx.bytesEq

/-- The errors of the program. -/
inductive Err where
  | sys (msg : String)
  | notExist
  | invalid (e : ValidationError)
  | confirmSessionActive
  | noConfirmSession
  | rollbackFailed (detail : String)
  | noConfirmBaseline (detail : String)
  | confirmUnavailable (detail : String)
  | noRevertedConfig
  | pendingEditsExist
  | configHashMismatch
  | configRevisionMismatch
  | wrap (pre : String) (e : Err)
  | join (a b : Err)
  deriving DecidableEq

/-- What `Error` writes. -/
def Err.text : Err → String
  | .sys msg => msg
  | .notExist => "no such file or directory"
  | .invalid e => e.msg
  | .confirmSessionActive =>
    "an Apply is waiting for confirmation: run `evuproxy reload-confirm` or `evuproxy reload-revert` first"
  | .noConfirmSession => "no Apply is waiting for confirmation"
  | .rollbackFailed d => "reverting the last Apply failed: " ++ d
  | .noConfirmBaseline d => "no known-good config to revert to: run `evuproxy reload` once first" ++ d
  | .confirmUnavailable d => "could not arm the revert timer (needs systemd and root); nothing was changed: " ++ d
  | .noRevertedConfig => "no reverted config is being kept"
  | .pendingEditsExist => "config.yaml has unapplied changes: apply or discard them first"
  | .configHashMismatch => "config.yaml changed after it was checked, so nothing was applied: check it again"
  | .configRevisionMismatch => "config revision mismatch"
  | .wrap pre e => pre ++ ": " ++ e.text
  | .join a b => a.text ++ "\n" ++ b.text

/-- `TruncateForLog`. -/
def truncateForLog (s : String) (max : Nat) : String :=
  if max = 0 ∨ byteLen s ≤ max then s else String.ofList (takeBytes max s.toList) ++ "…(truncated)"

/-! ## Commands -/

/-- What the program asks of the operating system and of the tools it runs. -/
inductive Cmd (Γ : Ctx) where
  | acquireApplyLock
  | tryApplyLock
  | readFile (f : FileName)
  | stat (f : FileName)
  | writeFile (f : FileName) (b : Γ.Bytes)
  | remove (f : FileName)
  | rename (f g : FileName)
  | mkdirAll (dir : String)
  | removeSessionDir
  | now
  | bootID
  | randomToken
  | mapOrder
  | systemdRun (token : String) (timeoutSeconds : Int)
  | systemctlStop (token : String)
  | systemctlIsActive (token : String)
  | nftCheck (f : FileName)
  | nftLoad (f : FileName)
  | nftListPrerouting
  | nftListCrowdsec
  | nftAddCrowdsec (parts : List String)
  | wgInterfaceExists (iface : String)
  | wgQuickStrip (f : FileName)
  | wgSyncconf (iface : String) (f : FileName)
  | ipAddrReplace (addr iface : String)
  | wgQuickUp (iface : String) (f : FileName)
  | httpGetZone (cc : String)
  | appendEvent (rec : EventRecord)
  /-- Not a command of the program: it marks that a rollback of the session with this token begins. -/
  | rollbackBegins (token : String)

/-- What each command answers. A file that does not exist is an answer of its own. -/
def Cmd.Ans (Γ : Ctx) : Cmd Γ → Type
  | .tryApplyLock => Bool
  | .readFile _ => Option Γ.Bytes
  | .stat _ => Option Γ.Bytes
  | .remove _ => Bool
  | .rename _ _ => Bool
  | .now => Nat
  | .bootID => String
  | .randomToken => String
  | .mapOrder => MapOrder
  | .systemctlIsActive _ => String
  | .nftListPrerouting => String
  | .nftListCrowdsec => List CrowdsecElem
  | .wgInterfaceExists _ => Bool
  | .wgQuickStrip _ => Γ.Bytes
  | .httpGetZone _ => Γ.Bytes
  | _ => Unit

/-- The commands of the program. -/
abbrev sig (Γ : Ctx) : Fault.Sig where
  Cmd := Cmd Γ
  Ans := Cmd.Ans Γ
  Err := Err

/-- A program of the apply layer. -/
abbrev App (Γ : Ctx) (α : Type) : Type := Fault.Prog (sig Γ) α

/-! ## The state and what a command does to it -/

/-- A config given to WireGuard. -/
inductive WGLoad (Γ : Ctx) where
  | conf (iface : String) (b : Γ.Bytes)
  | addr (addr iface : String)

/-- The host. `nft` and `wg` are what was loaded into the kernel since boot, the newest first. `timers` are the tokens of the revert
timers that are armed, or that have fired and whose process waits for the lock. `issued` and `begun` are no state of the host: the
tokens handed out so far, and those of the sessions whose rollback has begun. -/
structure World (Γ : Ctx) where
  files : FileName → Option Γ.Bytes
  nft : List Γ.Bytes := []
  wg : List (WGLoad Γ) := []
  timers : List String := []
  boot : String := ""
  issued : List String := []
  begun : List String := []

/-- Whether a command succeeds, fails, or is not reached because the process is killed. -/
inductive Fate where
  | ok
  | fail
  | kill
  deriving DecidableEq

/-- What the operating system decides at one command. `took` makes a tool that fails take effect all the same, and a timer that is
stopped have fired before. `kept` is what an unfinished removal leaves. The rest are answers. -/
structure Choice (Γ : Ctx) where
  fate : Fate := .ok
  took : Bool := false
  msg : String := ""
  kept : FileName → Bool := fun _ => true
  flag : Bool := true
  answer : String := ""
  bytes : Option Γ.Bytes := none
  time : Nat := 0
  order : MapOrder := {}
  elems : List CrowdsecElem := []

/-- A file of the session directory. -/
def FileName.inSession : FileName → Bool
  | .session => true
  | .staged _ => true
  | _ => false

namespace World

variable {Γ : Ctx}

/-- Replace a file. -/
def set (w : World Γ) (f : FileName) (b : Option Γ.Bytes) : World Γ :=
  { w with files := fun g => if g = f then b else w.files g }

/-- Remove the files of the session directory, except those to keep. -/
def clearSession (w : World Γ) (kept : FileName → Bool) : World Γ :=
  { w with files := fun g => if g.inSession ∧ ¬kept g then none else w.files g }

end World

/-- The answer of a command that succeeds. -/
def respond {Γ : Ctx} (w : World Γ) (ch : Choice Γ) : (c : Cmd Γ) → Except Err (c.Ans Γ)
  | .tryApplyLock => .ok ch.flag
  | .readFile f => .ok (w.files f)
  | .stat f => .ok (w.files f)
  | .remove f => .ok (w.files f).isSome
  | .rename f _ => .ok (w.files f).isSome
  | .now => .ok ch.time
  | .bootID => .ok w.boot
  | .randomToken => .ok ch.answer
  | .mapOrder => .ok ch.order
  | .systemctlIsActive _ => .ok ch.answer
  | .nftListPrerouting => .ok ch.answer
  | .nftListCrowdsec => .ok ch.elems
  | .wgInterfaceExists _ => .ok ch.flag
  | .wgQuickStrip f => match w.files f with | some b => .ok (Γ.wgStrip b) | none => .error .notExist
  | .httpGetZone _ => .ok (ch.bytes.getD (Γ.text ""))
  | .nftCheck f => if (w.files f).isSome then .ok () else .error .notExist
  | .nftLoad f => if (w.files f).isSome then .ok () else .error .notExist
  | .wgSyncconf _ f => if (w.files f).isSome then .ok () else .error .notExist
  | .wgQuickUp _ f => if (w.files f).isSome then .ok () else .error .notExist
  | .acquireApplyLock => .ok ()
  | .writeFile _ _ => .ok ()
  | .mkdirAll _ => .ok ()
  | .removeSessionDir => .ok ()
  | .systemdRun _ _ => .ok ()
  | .systemctlStop _ => .ok ()
  | .nftAddCrowdsec _ => .ok ()
  | .ipAddrReplace _ _ => .ok ()
  | .appendEvent _ => .ok ()
  | .rollbackBegins _ => .ok ()

/-- What a command changes when it takes effect. `wg syncconf` is given what `wg-quick strip` wrote, and `wg-quick up` strips the config
itself. -/
def effect {Γ : Ctx} (w : World Γ) (ch : Choice Γ) : Cmd Γ → World Γ
  | .writeFile f b => w.set f (some b)
  | .remove f => w.set f none
  | .rename f g => match w.files f with | some b => (w.set g (some b)).set f none | none => w
  | .removeSessionDir => w.clearSession fun _ => false
  | .randomToken => { w with issued := ch.answer :: w.issued }
  | .systemdRun t _ => { w with timers := t :: w.timers }
  | .systemctlStop t => if ch.took then w else { w with timers := w.timers.filter (· ≠ t) }
  | .nftLoad f => match w.files f with | some b => { w with nft := b :: w.nft } | none => w
  | .wgSyncconf i f => match w.files f with | some b => { w with wg := .conf i b :: w.wg } | none => w
  | .ipAddrReplace a i => { w with wg := .addr a i :: w.wg }
  | .wgQuickUp i f => match w.files f with | some b => { w with wg := .conf i (Γ.wgStrip b) :: w.wg } | none => w
  | .rollbackBegins t => { w with begun := t :: w.begun }
  | _ => w

/-- The commands that cannot fail. -/
def Cmd.infallible {Γ : Ctx} : Cmd Γ → Bool
  | .now => true
  | .mapOrder => true
  | .rollbackBegins _ => true
  | .tryApplyLock => true
  | .wgInterfaceExists _ => true
  | _ => false

/-- The tools that may take effect although they report a failure. -/
def Cmd.mayTake {Γ : Ctx} : Cmd Γ → Bool
  | .systemdRun _ _ => true
  | .systemctlStop _ => true
  | .nftLoad _ => true
  | .wgSyncconf _ _ => true
  | .ipAddrReplace _ _ => true
  | .wgQuickUp _ _ => true
  | _ => false

/-- What a command that fails, or that is killed while it runs, leaves behind. -/
def broken {Γ : Ctx} (w : World Γ) (ch : Choice Γ) : Cmd Γ → World Γ
  | .removeSessionDir => w.clearSession ch.kept
  | _ => w

/-- One command on the host. -/
def hostStep {Γ : Ctx} (c : Cmd Γ) (ch : Choice Γ) (w : World Γ) : Fault.Outcome Err (c.Ans Γ) (World Γ) :=
  match ch.fate with
  | .kill => .killed (broken w ch c)
  | .ok => .done (respond w ch c) (effect w ch c)
  | .fail =>
    if c.infallible then .done (respond w ch c) (effect w ch c)
    else .done (.error (.sys ch.msg)) (if ch.took ∧ c.mayTake then effect w { ch with took := false } c else broken w ch c)

/-- The host as a machine. -/
abbrev host (Γ : Ctx) : Fault.Machine (sig Γ) where
  State := World Γ
  Choice := Choice Γ
  calm := {}
  step := hostStep

end EvuProxy

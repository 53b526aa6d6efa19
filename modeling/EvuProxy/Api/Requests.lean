import EvuProxy.Fault.Requests
import EvuProxy.Apply.Reload

/-!
# Requests on one host

The API serves each request in a thread of its own, and each CLI command is a process of its own. They share the files, and the apply lock
keeps those apart that take it. A thread's trail says what it read last from config.yaml in the request at hand, and what became of its
saves.
-/

namespace EvuProxy

open Fault Fault.Prog

variable {Γ : Ctx}

/-- An edit of a config: it fails where it does not apply, and says nothing where there is nothing to save. -/
abbrev Edit := Config → Except Err (Option Config)

/-- What a thread notes: that a request is served from here on, that a save begins, and that a save was reported to be successful, with
the edit, the config that the edit was computed from, and what it made of that. -/
inductive Note where
  | opens
  | began
  | saved (edit : Edit) (base draft : Config)

/-- What became of a save. `wrote` stands for a write of config.yaml, by what it replaced. -/
inductive Entry (Γ : Ctx) where
  | began
  | wrote (old : Option Γ.Bytes) (new : Γ.Bytes)
  | saved (edit : Edit) (base draft : Config)

/-- The trail of a thread. `seen` is what the request at hand has last read from config.yaml, or written to it. -/
structure Trail (Γ : Ctx) where
  seen : Option (Option Γ.Bytes) := none
  log : List (Entry Γ) := []

/-- The command that takes the apply lock. -/
def Cmd.isLock : Cmd Γ → Bool
  | .acquireApplyLock => true
  | _ => false

/-- What a command leaves on the trail. -/
def Trail.saw (c : Cmd Γ) (r : Except Err (c.Ans Γ)) (w : World Γ) (t : Trail Γ) : Trail Γ :=
  match c with
  | .readFile f => if f = .config ∧ r.isOk then { t with seen := some (w.files .config) } else t
  | .writeFile f b =>
    if f = .config ∧ r.isOk then { seen := some (some b), log := t.log ++ [.wrote (w.files .config) b] } else t
  | _ => t

/-- What a note leaves on the trail. -/
def Trail.noted (n : Note) (t : Trail Γ) : Trail Γ :=
  match n with
  | .opens => { t with seen := none }
  | .began => { t with log := t.log ++ [.began] }
  | .saved edit base draft => { t with log := t.log ++ [.saved edit base draft] }

/-- The threads of the host. -/
abbrev watch (Γ : Ctx) : Watch (host Γ) Note where
  Trail := Trail Γ
  isLock := Cmd.isLock
  saw := Trail.saw
  noted := Trail.noted

/-- A program of a thread. -/
abbrev Thread (Γ : Ctx) (α : Type) : Type := Prog (threadSig (sig Γ) Note) α

/-- Note something. -/
def note (n : Note) : Thread Γ Unit := perform (S := threadSig (sig Γ) Note) (.note n)

/-- Something outside the model, which may fail. -/
def outside (msg : String) : Thread Γ Unit :=
  mapErr (S := threadSig (sig Γ) Note) (fun _ => Err.sys msg) (perform (S := threadSig (sig Γ) Note) .outside)

/-- Answer another error than the one a handler's call failed with. -/
def onError {α : Type} (f : Err → Err) (p : Thread Γ α) : Thread Γ α := mapErr (S := threadSig (sig Γ) Note) f p

/-- A step of a thread that cannot fail for another reason than its value. -/
def settled {α : Type} (x : Except Err α) : Thread Γ α := ofExcept (S := threadSig (sig Γ) Note) x

end EvuProxy

import EvuProxy.Apply.System

/-!
# A small host

A context whose files are values of their types, and a host with three configs, on which runs can be computed.
-/

namespace EvuProxy.Sample

open Fault

/-- The contents of a file. -/
inductive Bytes where
  | text (s : String)
  | yaml (c : Config)
  | session (s : ConfirmSession)
  | applyState (hash : String)
  | lastRevert (r : LastRevert)
  | metrics (m : ApplyMetrics)
  | geoLastSuccess (g : GeoLastSuccess)
  deriving DecidableEq

/-- The context of the small host. Its configs have different listen ports, which stand for their hashes. -/
def ctx : Ctx where
  Bytes := Bytes
  text := .text
  str := fun
    | .text s => s
    | _ => ""
  str_text _ := rfl
  isEmpty b := b == .text ""
  sha256 := fun
    | .yaml c => toString c.wireGuard.listenPort
    | _ => "another file"
  unmarshalConfig := fun
    | .yaml c => .ok c
    | _ => .error "no config"
  marshalConfig c := .ok (.yaml c)
  marshalSession := .session
  unmarshalSession := fun
    | .session s => .ok s
    | _ => .error "no session"
  session_roundTrip _ := rfl
  marshalApplyState := .applyState
  unmarshalApplyState := fun
    | .applyState h => .ok h
    | _ => .error "no hash"
  applyState_roundTrip _ := rfl
  marshalLastRevert := .lastRevert
  marshalApplyMetrics := .metrics
  unmarshalApplyMetrics := fun
    | .metrics m => some m
    | _ => none
  marshalGeoLastSuccess := .geoLastSuccess
  wgStrip b := b

/-- A config, by its listen port. -/
def config (port : Int) (confirm : Bool) : Config where
  wireGuard := { interface := "wg0", listenPort := port, privateKeyFile := "key", address := "10.0.0.1/24" }
  network := { publicInterface := "eth0" }
  apply := { confirm := confirm }
  peers := [{ name := "peer", publicKey := "AAAAAAAAAAAAAAAAAAAAAAAAAAAAAAAAAAAAAAAAAAA=", tunnelIP := "10.0.0.2/32" }]

/-- The file of a config. -/
def yaml (port : Int) : ctx.Bytes := Bytes.yaml (config port true)

/-- A host on which the config with port 1 runs, and the one with port 2 waits to be applied. `kept` is a reverted config of before. -/
def host (edit : Int) (kept : Option Int) : World ctx where
  files := fun
    | .config => some (yaml edit)
    | .history 0 => some (yaml 1)
    | .history 1 => some (yaml 3)
    | .applyState => some (.applyState "1")
    | .reverted => kept.map yaml
    | .privateKey "key" => some (.text "secret")
    | _ => none

/-- The script of `n` choices in which the commands at the places given fail. -/
def faults (n : Nat) (fails : List Nat) : List (Choice ctx) :=
  (List.range n).map fun i => if i ∈ fails then { fate := .fail } else {}

/-- The token of the session in a file. -/
def tokenOf : Bytes → String
  | .session s => s.token
  | _ => ""

/-- The script of `n` choices without faults, each with an answer of its own. -/
def answers (name : String) (n : Nat) : List (Choice ctx) := (List.range n).map fun i => { answer := name ++ toString i }

theorem kept_of_mem_faults {n : Nat} {fails : List Nat} {ch : Choice ctx} (h : ch ∈ faults n fails) (f : FileName) :
    ch.kept f = true := by
  simp only [faults, List.mem_map] at h
  obtain ⟨i, -, rfl⟩ := h
  split <;> rfl

end EvuProxy.Sample

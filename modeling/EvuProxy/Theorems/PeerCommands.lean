import EvuProxy.Api.Sample

/-!
# Peer commands

A peer command loads config.yaml, changes what it loaded, and saves the result without a revision. So the save goes through whatever has
been saved in between. Where a peer command finds, when it writes, the file that it loaded, its report is as good as that of a conditional
save.
-/

namespace EvuProxy

open Fault

/-- A peer command that replaces config.yaml finds what it loaded. -/
def SteadyWrite {Γ : Ctx} {ι : Type} (actors : ι → Actor) (i : ι) (c : ThreadCmd (Cmd Γ) Note) (s : LockState (watch Γ) ι) : Prop :=
  (actors i).IsPeer → SameWrite i c s

instance {Γ : Ctx} {ι : Type} [DecidableEq ι] [DecidableEq Γ.Bytes] (actors : ι → Actor) (i : ι) (c : ThreadCmd (Cmd Γ) Note)
    (s : LockState (watch Γ) ι) : Decidable (SteadyWrite actors i c s) :=
  inferInstanceAs (Decidable (_ → _))

namespace Sample

instance : DecidableEq ctx.Bytes := inferInstanceAs (DecidableEq Bytes)

/-- Two commands that add a peer each. -/
def addsPeer : Bool → Actor
  | false => .peer (.add { name := "laptop", publicKey := "BBBBBBBBBBBBBBBBBBBBBBBBBBBBBBBBBBBBBBBBBBA=", tunnelIP := "10.0.0.3/32" })
  | true => .peer (.add { name := "phone", publicKey := "CCCCCCCCCCCCCCCCCCCCCCCCCCCCCCCCCCCCCCCCCCA=", tunnelIP := "10.0.0.4/32" })

/-- One command after the other. -/
def peersInTurn : List (Bool × LockChoice (EvuProxy.host ctx)) := turns false 40 ++ turns true 40

/-- The first command loads the config, and saves after the other one has come and gone. -/
def peersAcross : List (Bool × LockChoice (EvuProxy.host ctx)) := turns false 3 ++ turns true 40 ++ turns false 40

end Sample

end EvuProxy

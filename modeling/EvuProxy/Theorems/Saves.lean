import EvuProxy.Api.Sample

/-!
# Conditional saves

Tabs save what they edited under the revision they read. `handleConfigGet` reads config.yaml twice, once for the revision and once for the
content, without the lock. Where both reads find the same file, every save that a tab reports replaced exactly what its edit was computed
from. Where they do not, a later discard can bring back the file of the revision, and the save goes through on content it has not seen.
-/

namespace EvuProxy

open Fault

/-- The second of the two reads of a request of a tab finds what the first one found. -/
def SteadyRead {Γ : Ctx} {ι : Type} (actors : ι → Actor) (i : ι) (c : ThreadCmd (Cmd Γ) Note) (s : LockState (watch Γ) ι) : Prop :=
  (actors i).IsTab → SameRead i c s

instance {Γ : Ctx} {ι : Type} [DecidableEq ι] [DecidableEq Γ.Bytes] (actors : ι → Actor) (i : ι) (c : ThreadCmd (Cmd Γ) Note)
    (s : LockState (watch Γ) ι) : Decidable (SteadyRead actors i c s) :=
  inferInstanceAs (Decidable (_ → _))

/-- In every run in which no request of a tab reads config.yaml twice and finds it changed in between, every save that a tab reports
replaced what its edit was computed from, with the edit applied once. A save is unconditional only without a header or with a star in it. -/
theorem saves_kept {Γ : Ctx} {ι : Type} [DecidableEq ι] (hsha : Revisions Γ) (actors : ι → Actor) (w : World Γ)
    (sched : List (ι × LockChoice (host Γ)))
    (hlegal : (clients actors w).Legal (savingPact (SteadyRead actors) fun i => (actors i).IsTab) sched) :
    (∀ i, (actors i).IsTab → Kept (((clients actors w).after sched).state.trail i).log) ∧
      ∀ values, parseIfMatch values = none ↔ values = [] ∨ ∃ v ∈ values, ∃ tag ∈ Go.split v ',', Go.trimSpace tag = "*" := by
  have hkeeping : (clients actors w).Keeping (savingPact (SteadyRead actors) fun i => (actors i).IsTab) := by
    refine fun i => ⟨fun _ => kept_nil, fun q hq => ⟨fun _ _ => True, ?_⟩⟩
    obtain rfl := Option.some.inj hq
    refine keeps_actor (fun _ _ => ⟨fun _ => hsha, fun htab _ _ h => h htab⟩) (fun p hp htab => ?_) nofun
    rw [hp] at htab
    exact absurd htab Bool.false_ne_true
  exact ⟨hkeeping.inv hlegal, fun _ => parseIfMatch_eq_none⟩

/-- Two tabs, the second of which saves after the first. -/
def Sample.patientTabs : Bool → Actor
  | false => .tab (Tab.edit (setPort (· + 10)) fun _ _ => .closed)
  | true => .tab (.refresh fun _ => Tab.edit (setPort (· + 10)) fun _ _ => .closed)

/-- Their turns. -/
def Sample.patientRun : List (Bool × LockChoice (EvuProxy.host strict)) :=
  turns false 40 ++ turns true 40

theorem patient_saves_kept : (((clients Sample.patientTabs Sample.settledHost).after Sample.patientRun).state.trail true).log.length = 3 ∧
    Kept (((clients Sample.patientTabs Sample.settledHost).after Sample.patientRun).state.trail true).log :=
  ⟨by decide +kernel,
    (saves_kept Sample.revisions_strict Sample.patientTabs Sample.settledHost Sample.patientRun (by decide +kernel)).1 true rfl⟩

/-! ## A revision that comes back -/

namespace Sample

/-- A tab that loads the page and then adds 10 to the listen port, a tab that sets the port to 2, and a discard. -/
def staleActors : Nat → Actor
  | 0 => .tab (.refresh fun _ => Tab.edit (setPort (· + 10)) fun _ _ => .closed)
  | 1 => .tab (Tab.edit (setPort fun _ => 2) fun _ _ => .closed)
  | _ => .discard

/-- The first tab reads the revision of the config with port 1 and the content of the one with port 2, which is then discarded. -/
def staleRun : List (Nat × LockChoice (EvuProxy.host strict)) := turns 0 3 ++ turns 1 40 ++ turns 0 2 ++ turns 2 20 ++ turns 0 40

end Sample

/-- The first tab reports that it saved its edit of the config with port 2, and has replaced the one with port 1. -/
theorem saved_over_discard : Revisions Sample.strict ∧ (Sample.staleActors 0).IsTab ∧
    ¬Kept (((clients Sample.staleActors Sample.settledHost).after Sample.staleRun).state.trail 0).log := by
  refine ⟨Sample.revisions_strict, rfl, fun hkept => ?_⟩
  have hports : (Sample.firstReport (((clients Sample.staleActors Sample.settledHost).after Sample.staleRun).state.trail 0).log).map
      (fun p => (p.1.wireGuard.listenPort, p.2.toOption.map (·.wireGuard.listenPort))) = some (2, some 1) := by decide +kernel
  obtain ⟨⟨base, r⟩, hreport, hp⟩ := Option.map_eq_some_iff.mp hports
  rw [Sample.firstReport_of_kept hkept hreport] at hp
  obtain ⟨hbase, hold⟩ := Prod.mk.inj hp
  rw [show (Except.ok base : Except ValidationError Config).toOption = some base from rfl, Option.map_some, hbase] at hold
  exact absurd hold (by decide)

end EvuProxy

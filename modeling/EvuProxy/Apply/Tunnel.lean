import EvuProxy.Apply.Reload
import EvuProxy.Wg.Interface

/-!
# The tunnel on a host

The host once more, as far as `reloadWireGuard` sees it, with the interfaces that its tools set up: what each command makes of an
interface, where `World` keeps what the tools were given.
-/

namespace EvuProxy

open Fault Wg

variable {Γ : Ctx}

/-- The files of a host, and its interfaces by name. -/
structure TunnelHost (Γ : Ctx) where
  files : FileName → Option Γ.Bytes
  ifaces : String → Option Iface

/-- What a tool that sets up an interface ends with. -/
def TunnelHost.sets (s : TunnelHost Γ) (iface : String) : Option Iface → Outcome Err Unit (TunnelHost Γ)
  | some i => .done (.ok ()) { s with ifaces := Function.update s.ifaces iface (some i) }
  | none => .done (.error (.sys iface)) s

/-- A command on the host, without faults. The commands that `reloadWireGuard` does not give are not there. -/
def tunnelStep (c : Cmd Γ) (s : TunnelHost Γ) : Outcome Err (c.Ans Γ) (TunnelHost Γ) :=
  match c with
  | .writeFile f b => .done (.ok ()) { s with files := Function.update s.files f (some b) }
  | .remove f => .done (.ok (s.files f).isSome) { s with files := Function.update s.files f none }
  | .wgInterfaceExists iface => .done (.ok (s.ifaces iface).isSome) s
  | .wgQuickStrip f =>
    match s.files f with
    | some b => .done (.ok (Γ.wgStrip b)) s
    | none => .done (.error .notExist) s
  | .wgSyncconf iface f => s.sets iface ((s.files f).bind fun b => (s.ifaces iface).bind (syncconf (Γ.str b)))
  | .ipAddrReplace addr iface => s.sets iface ((s.ifaces iface).bind (addrReplace addr))
  | .wgQuickUp iface f => s.sets iface (if (s.ifaces iface).isSome then none else (s.files f).bind fun b => bringUp (Γ.str b))
  | _ => .done (.error (.sys "")) s

/-- The host as a machine that makes no choices. -/
abbrev tunnelHost (Γ : Ctx) : Machine (sig Γ) where
  State := TunnelHost Γ
  Choice := Unit
  calm := ()
  step c _ := tunnelStep c

/-! ## A reload -/

variable {s s' : TunnelHost Γ} {iface addr : String} {b : Γ.Bytes} {i i' : Iface}

theorem sets_none : s.sets iface none = .done (.error (.sys iface)) s := rfl

theorem sets_some : s.sets iface (some i) = .done (.ok ()) { s with ifaces := Function.update s.ifaces iface (some i) } := rfl

/-- On an interface that exists, a reload is the part for it. -/
theorem runsTo_reloadWireGuard {r : Except Err Unit} (hi : s.ifaces iface = some i)
    (h : RunsTo (tunnelHost Γ) (syncWireGuard iface addr) s r s') : RunsTo (tunnelHost Γ) (reloadWireGuard iface addr) s r s' := by
  refine runsTo_bind (a := (s.ifaces iface).isSome) (runsTo_perform rfl) ?_
  rw [hi]
  exact h

theorem runsTo_wrapErr_ok {α : Type} (pre : String) {p : App Γ α} {a : α} (h : RunsTo (tunnelHost Γ) p s (.ok a) s') :
    RunsTo (tunnelHost Γ) (wrapErr pre p) s (.ok a) s' := runsTo_mapErr h

theorem runsTo_wrapErr_error {α : Type} (pre : String) {p : App Γ α} {e : Err} (h : RunsTo (tunnelHost Γ) p s (.error e) s') :
    RunsTo (tunnelHost Γ) (wrapErr pre p) s (.error (e.wrap pre)) s' := runsTo_mapErr h

theorem runsTo_wgQuickStrip (hf : s.files (.wgConf iface) = some b) :
    RunsTo (tunnelHost Γ) (Cmd.wgQuickStrip (Γ := Γ) (.wgConf iface)).run s (.ok (Γ.wgStrip b)) s := by
  refine runsTo_perform ?_
  unfold tunnelHost tunnelStep
  simp only [hf]

theorem runsTo_removeSync : RunsTo (tunnelHost Γ) (ignore (removeIfExists .wgSync)) s (.ok ())
    { s with files := Function.update s.files .wgSync none } :=
  runsTo_bind (runsTo_attempt (runsTo_bind (runsTo_perform rfl) runsTo_ret)) runsTo_ret

/-- The file that `wg syncconf` reads goes when it has been read, whatever came of it. -/
theorem runsTo_syncWireGuard {r : Except Err Unit} (hf : s.files (.wgConf iface) = some b)
    (h : RunsTo (tunnelHost Γ) (do
      writeFile .wgSync (Γ.wgStrip b)
      wrapErr "wg syncconf" (Cmd.wgSyncconf iface .wgSync).run
      if addr ≠ "" then wrapErr "ip addr replace" (Cmd.ipAddrReplace addr iface).run else return ()) s r s') :
    RunsTo (tunnelHost Γ) (syncWireGuard iface addr) s r { s' with files := Function.update s'.files .wgSync none } := by
  have hstrip := runsTo_wrapErr_ok "wg-quick strip" (runsTo_wgQuickStrip hf)
  unfold syncWireGuard
  exact runsTo_bind hstrip (runsTo_bind (runsTo_attempt h) (runsTo_bind runsTo_removeSync runsTo_ofExcept))

/-- `wg syncconf`, on an interface that exists. -/
theorem runsTo_wgSyncconf (hf : s.files .wgSync = some b) (hi : s.ifaces iface = some i) {r : Except Err Unit}
    (h : s.sets iface (syncconf (Γ.str b) i) = .done r s') : RunsTo (tunnelHost Γ) (Cmd.wgSyncconf (Γ := Γ) iface .wgSync).run s r s' := by
  refine runsTo_perform ?_
  unfold tunnelHost tunnelStep
  simp only [hf, hi, Option.bind_some]
  exact h

/-- `ip addr replace`, on an interface that exists. -/
theorem runsTo_ipAddrReplace (hi : s.ifaces iface = some i) {r : Except Err Unit}
    (h : s.sets iface (addrReplace addr i) = .done r s') : RunsTo (tunnelHost Γ) (Cmd.ipAddrReplace (Γ := Γ) addr iface).run s r s' := by
  refine runsTo_perform ?_
  unfold tunnelHost tunnelStep
  simp only [hi, Option.bind_some]
  exact h

/-- What `ip addr replace` makes of an interface that `wg syncconf` has set. -/
theorem runsTo_tail {t : TunnelHost Γ} {r : Except Err Unit} (hf : t.files .wgSync = some b) (hi : t.ifaces iface = some i) {i₁ : Iface}
    (hsync : syncconf (Γ.str b) i = some i₁) (haddr : addr ≠ "")
    (h : ({ t with ifaces := Function.update t.ifaces iface (some i₁) } : TunnelHost Γ).sets iface (addrReplace addr i₁) = .done r s') :
    RunsTo (tunnelHost Γ) (do
      wrapErr "wg syncconf" (Cmd.wgSyncconf iface .wgSync).run
      if addr ≠ "" then wrapErr "ip addr replace" (Cmd.ipAddrReplace addr iface).run else return ()) t
      (r.mapError (Err.wrap "ip addr replace")) s' := by
  have hsynced := runsTo_wrapErr_ok "wg syncconf" (runsTo_wgSyncconf hf hi (by rw [hsync]; exact sets_some))
  exact runsTo_bind hsynced (runsTo_if haddr (runsTo_mapErr (runsTo_ipAddrReplace (Function.update_self ..) h)))

/-- A reload for an address succeeds where `wg syncconf` and `ip addr replace` do, and leaves the interface as they leave it. -/
theorem reloads_iff (hf : s.files (.wgConf iface) = some b) (hi : s.ifaces iface = some i) (haddr : addr ≠ "") :
    (∃ s', RunsTo (tunnelHost Γ) (reloadWireGuard iface addr) s (.ok ()) s' ∧ s'.ifaces iface = some i') ↔
      ∃ i₁, syncconf (Γ.str (Γ.wgStrip b)) i = some i₁ ∧ addrReplace addr i₁ = some i' := by
  obtain ⟨t, hwrite, hfile, hifaces⟩ : ∃ t : TunnelHost Γ, RunsTo (tunnelHost Γ) (writeFile .wgSync (Γ.wgStrip b)) s (.ok ()) t ∧
      t.files .wgSync = some (Γ.wgStrip b) ∧ t.ifaces = s.ifaces :=
    ⟨{ s with files := Function.update s.files .wgSync (some (Γ.wgStrip b)) }, runsTo_perform rfl, by simp, rfl⟩
  have hit : t.ifaces iface = some i := by rw [hifaces, hi]
  cases hsync : syncconf (Γ.str (Γ.wgStrip b)) i with
  | none =>
    have hfails := runsTo_wrapErr_error "wg syncconf" (runsTo_wgSyncconf hfile hit (by rw [hsync]; exact sets_none))
    have hends := runsTo_reloadWireGuard hi (@runsTo_syncWireGuard Γ s t iface addr _ _ hf (runsTo_bind hwrite (runsTo_bind_error hfails)))
    constructor
    · rintro ⟨s', hok, -⟩
      cases (hends.unique hok).1
    · rintro ⟨i₁, hi₁, -⟩
      cases hi₁
  | some i₁ =>
    cases hreplace : addrReplace addr i₁ with
    | none =>
      have hfails := runsTo_tail hfile hit hsync haddr (by rw [hreplace]; exact sets_none)
      have hends := runsTo_reloadWireGuard hi (runsTo_syncWireGuard hf (runsTo_bind hwrite hfails))
      constructor
      · rintro ⟨s', hok, -⟩
        cases (hends.unique hok).1
      · rintro ⟨i₂, hi₂, hreplaced⟩
        rw [← Option.some.inj hi₂, hreplace] at hreplaced
        cases hreplaced
    | some i₂ =>
      have hdone := runsTo_tail hfile hit hsync haddr (by rw [hreplace]; exact sets_some)
      have hends := runsTo_reloadWireGuard hi (runsTo_syncWireGuard hf (runsTo_bind hwrite hdone))
      have hleft : ∀ i₃, Function.update (Function.update t.ifaces iface (some i₁)) iface (some i₂) iface = some i₃ ↔ i₂ = i₃ := by
        simp
      constructor
      · rintro ⟨s', hok, his⟩
        obtain ⟨-, rfl⟩ := hends.unique hok
        obtain rfl := (hleft i').mp his
        exact ⟨i₁, rfl, hreplace⟩
      · rintro ⟨i₃, hi₃, hreplaced⟩
        rw [← Option.some.inj hi₃, hreplace] at hreplaced
        exact ⟨_, hends, (hleft i').mpr (Option.some.inj hreplaced)⟩

end EvuProxy

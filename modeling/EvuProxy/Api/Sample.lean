import EvuProxy.Apply.Sample
import EvuProxy.Api.Saving
import EvuProxy.Go.Numeral

/-!
# A small host for the API

The small host again, with files that are read only in the form in which they are written, and hashes in which no two of them agree.
-/

namespace EvuProxy.Sample

open Go Fault

/-- The hash of a config, by its listen port. -/
def hexOf (port : Int) : String := (if port < 0 then "b" else "a") ++ toString port.natAbs

/-- The context of the small host. A config is read only if it is as `config` makes it. -/
def strict : Ctx where
  __ := ctx
  sha256
    | Bytes.yaml c => if c = config c.wireGuard.listenPort true then hexOf c.wireGuard.listenPort else "bad"
    | _ => "bad"
  unmarshalConfig
    | Bytes.yaml c => if c = config c.wireGuard.listenPort true then .ok c else .error "no config"
    | _ => .error "no config"

instance : DecidableEq strict.Bytes := inferInstanceAs (DecidableEq Bytes)

theorem hexOf_toList (port : Int) : (hexOf port).toList = (if port < 0 then 'b' else 'a') :: (toString port.natAbs).toList := by
  unfold hexOf
  rw [String.toList_append]
  split <;> rfl

theorem hexOf_inj {p q : Int} (h : hexOf p = hexOf q) : p = q := by
  have hlist := congrArg String.toList h
  rw [hexOf_toList, hexOf_toList] at hlist
  obtain ⟨hsign, habs⟩ := List.cons.inj hlist
  have hnat : p.natAbs = q.natAbs := toString_inj.mp (String.toList_inj.mp habs)
  by_cases hp : p < 0 <;> by_cases hq : q < 0
  · omega
  · rw [if_pos hp, if_neg hq] at hsign
    exact absurd hsign (by decide)
  · rw [if_neg hp, if_pos hq] at hsign
    exact absurd hsign (by decide)
  · omega

theorem hexOf_ne_bad (p : Int) : hexOf p ≠ "bad" := by
  intro h
  have hlist := congrArg String.toList h
  have hbad : "bad".toList = ['b', 'a', 'd'] := by decide
  rw [hexOf_toList, hbad] at hlist
  have hdigit := isDigit_toString p.natAbs 'a' (by rw [(List.cons.inj hlist).2]; exact List.mem_cons_self)
  exact absurd hdigit (by decide)

theorem isHex_hexOf (p : Int) : IsHex (hexOf p) where
  ne := by
    rw [hexOf_toList]
    exact List.cons_ne_nil _ _
  digits := by
    intro c hc
    rw [hexOf_toList, List.mem_cons] at hc
    rcases hc with rfl | hc
    · right
      split <;> decide
    · exact .inl (isDigit_toString _ c hc)

/-- The hashes of the small host are those of a hash function without collisions. -/
theorem revisions_strict : Revisions strict where
  inj a b c hparse hsha := by
    cases a with
    | yaml c₁ =>
      have hcanon : c₁ = config c₁.wireGuard.listenPort true := by
        by_contra hne
        unfold parseConfig strict at hparse
        dsimp only at hparse
        rw [if_neg hne] at hparse
        cases hparse
      unfold strict at hsha
      dsimp only at hsha
      rw [if_pos hcanon] at hsha
      cases b with
      | yaml c₂ =>
        dsimp only at hsha
        by_cases hcanon₂ : c₂ = config c₂.wireGuard.listenPort true
        · rw [if_pos hcanon₂] at hsha
          rw [hcanon, hcanon₂, hexOf_inj hsha]
        · rw [if_neg hcanon₂] at hsha
          exact absurd hsha (hexOf_ne_bad _)
      | _ => exact absurd hsha (hexOf_ne_bad _)
    | _ => cases hparse
  hex b := by
    have hbad : IsHex "bad" := by
      have hlist : "bad".toList = ['b', 'a', 'd'] := by decide
      refine ⟨by rw [hlist]; exact List.cons_ne_nil _ _, fun c hc => ?_⟩
      rw [hlist] at hc
      simp only [List.mem_cons, List.not_mem_nil, or_false] at hc
      obtain rfl | rfl | rfl := hc <;> exact .inr (by decide)
    cases b with
    | yaml c =>
      unfold strict
      dsimp only
      split
      · exact isHex_hexOf _
      · exact hbad
    | _ => exact hbad

/-- The file of a config. -/
def strictYaml (port : Int) : strict.Bytes := Bytes.yaml (config port true)

/-- A host on which the config with port 1 runs, with nothing to be applied. -/
def settledHost : World strict where
  files := fun
    | .config => some (strictYaml 1)
    | .history 0 => some (strictYaml 1)
    | .applyState => some (Bytes.applyState (hexOf 1))
    | _ => none

/-- An edit of the listen port. -/
def setPort (f : Int → Int) : Edit := fun c =>
  .ok (some { c with wireGuard := { c.wireGuard with listenPort := f c.wireGuard.listenPort } })

/-- The turns of a thread, without faults. -/
def turns {Γ : Ctx} {ι : Type} (i : ι) (n : Nat) : List (ι × LockChoice (EvuProxy.host Γ)) := List.replicate n (i, { base := {} })

/-- What a report of a save, the first on a trail, says it replaced, and what it did replace. -/
def firstReport {Γ : Ctx} : List (Entry Γ) → Option (Config × Except ValidationError Config)
  | [.began, .wrote (some old) _, .saved _ base _] => some (base, parseConfig Γ old)
  | _ => none

theorem firstReport_of_kept {Γ : Ctx} {log : List (Entry Γ)} {base : Config} {r : Except ValidationError Config} (h : Kept log)
    (hlog : firstReport log = some (base, r)) : r = .ok base := by
  unfold firstReport at hlog
  split at hlog
  · rename_i old new edit base' draft
    obtain ⟨rfl, rfl⟩ := Prod.mk.inj (Option.some.inj hlog)
    obtain ⟨pre, old', new', hpre, -, hold, -⟩ := h [.began, .wrote (some old) new] edit base' draft [] rfl
    have hsplit : pre ++ [.began, .wrote (some old') new'] = [] ++ [.began, .wrote (some old) new] := hpre.symm
    obtain ⟨-, hwrote⟩ := List.append_inj' hsplit rfl
    simp only [List.cons.injEq, Entry.wrote.injEq, Option.some.injEq, and_true, true_and] at hwrote
    rw [← hwrote.1, hold]
  · cases hlog

end EvuProxy.Sample

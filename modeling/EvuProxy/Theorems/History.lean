import EvuProxy.Apply.Sample

/-!
# The history of applied configs

What `RecordAppliedConfigSnapshot` makes of the snapshots, when it is interrupted and repeated. A rotation that stops between its first rename
and its last is not taken up again where it stopped: the next one removes `.bak.5` once more, and moves the rest on.
-/

namespace EvuProxy

open Fault Fault.Prog

variable {Γ : Ctx} {α β : Type} {w w' : World Γ}

/-! ## Runs that are killed after so many commands -/

/-- The states in which a run without faults issues its commands. -/
def visited : App Γ α → World Γ → List (World Γ)
  | .ret _, _ => []
  | .fail _, _ => []
  | .cmd c k, w => w :: match hostStep c {} w with
    | .done r w' => visited (k r) w'
    | .killed _ => []

/-- The script of a run that is killed after `n` commands. -/
def killedAfter (n : Nat) : List (Choice Γ) := List.replicate n ({} : Choice Γ) ++ [{ fate := .kill }]

/-- A command that leaves nothing half done when it is killed. -/
def Cmd.Whole (c : Cmd Γ) : Prop := ∀ ch w, broken w ch c = w

/-- A run that is killed stops in one of the states that the run without faults visits. -/
theorem run_killedAfter {p : App Γ α} (hp : p.Uses Cmd.Whole) (n : Nat) (w : World Γ) :
    ((host Γ).run p (killedAfter n) w).state = ((visited p w)[n]?).getD ((host Γ).run p [] w).state := by
  induction p generalizing n w with
  | ret a => rfl
  | fail e => rfl
  | cmd c k ih =>
    obtain ⟨hc, hk⟩ := uses_cmd.1 hp
    cases n with
    | zero =>
      simp only [Machine.run, visited, killedAfter, List.replicate_zero, List.nil_append, List.headD_cons, hostStep]
      exact hc _ w
    | succ n =>
      have hscript : (killedAfter (n + 1) : List (Choice Γ)) = {} :: killedAfter n := by simp [killedAfter, List.replicate_succ]
      rw [hscript]
      simp only [Machine.run, visited, List.headD_cons, List.tail_cons, List.headD_nil, List.tail_nil, List.getElem?_cons_succ]
      cases hm : hostStep c {} w with
      | done r v => exact ih r (hk r) n v
      | killed v => rfl

/-- A run without faults visits `l`, and returns `a` in `w'`. -/
structure Goes (p : App Γ α) (w : World Γ) (l : List (World Γ)) (a : α) (w' : World Γ) : Prop where
  run : (host Γ).run p [] w = .done (.ok a) w'
  visited : visited p w = l

namespace Goes

variable {l t : List (World Γ)} {a : α} {b : β} {v : World Γ}

theorem ret (a : α) (w : World Γ) : Goes (.ret a) w [] a w := ⟨rfl, rfl⟩

theorem bind {p : App Γ α} {f : α → App Γ β} (hp : Goes p w l a v) (hf : Goes (f a) v t b w') :
    Goes (p.bind f) w (l ++ t) b w' := by
  obtain ⟨hrun, hvis⟩ := hp
  induction p generalizing w l with
  | ret a' =>
    cases hrun
    rw [← hvis]
    exact hf
  | fail e => cases hrun
  | cmd c k ih =>
    simp only [Machine.run, EvuProxy.visited, List.headD_nil, List.tail_nil] at hrun hvis
    cases hm : hostStep c {} w with
    | killed u =>
      rw [hm] at hrun
      cases hrun
    | done r u =>
      rw [hm] at hrun hvis
      obtain ⟨hrun', hvis'⟩ := ih r hrun rfl
      refine ⟨?_, ?_⟩
      · simp only [Machine.run, Prog.bind, List.headD_nil, List.tail_nil]
        rw [hm]
        exact hrun'
      · simp only [EvuProxy.visited, Prog.bind]
        rw [hm, ← hvis]
        exact congrArg (w :: ·) hvis'

theorem attempt {p : App Γ α} (hp : Goes p w l a v) : Goes p.attempt w l (.ok a) v := by
  obtain ⟨hrun, hvis⟩ := hp
  induction p generalizing w l with
  | ret a' =>
    cases hrun
    exact ⟨rfl, hvis⟩
  | fail e => cases hrun
  | cmd c k ih =>
    simp only [Machine.run, EvuProxy.visited, List.headD_nil, List.tail_nil] at hrun hvis
    cases hm : hostStep c {} w with
    | killed u =>
      rw [hm] at hrun
      cases hrun
    | done r u =>
      rw [hm] at hrun hvis
      obtain ⟨hrun', hvis'⟩ := ih r hrun rfl
      refine ⟨?_, ?_⟩
      · simp only [Machine.run, Prog.attempt, List.headD_nil, List.tail_nil]
        rw [hm]
        exact hrun'
      · simp only [EvuProxy.visited, Prog.attempt]
        rw [hm, ← hvis]
        exact congrArg (w :: ·) hvis'

theorem mapErr {p : App Γ α} {g : Err → Err} (hp : Goes p w l a v) : Goes (p.mapErr g) w l a v := by
  obtain ⟨hrun, hvis⟩ := hp
  induction p generalizing w l with
  | ret a' => exact ⟨hrun, hvis⟩
  | fail e => cases hrun
  | cmd c k ih =>
    simp only [Machine.run, EvuProxy.visited, List.headD_nil, List.tail_nil] at hrun hvis
    cases hm : hostStep c {} w with
    | killed u =>
      rw [hm] at hrun
      cases hrun
    | done r u =>
      rw [hm] at hrun hvis
      obtain ⟨hrun', hvis'⟩ := ih r hrun rfl
      refine ⟨?_, ?_⟩
      · simp only [Machine.run, Prog.mapErr, List.headD_nil, List.tail_nil]
        rw [hm]
        exact hrun'
      · simp only [EvuProxy.visited, Prog.mapErr]
        rw [hm, ← hvis]
        exact congrArg (w :: ·) hvis'

theorem ite {c : Prop} [Decidable c] {p q : App Γ α} (hp : c → Goes p w l a v) (hq : ¬c → Goes q w l a v) :
    Goes (if c then p else q) w l a v := by
  split
  · next h => exact hp h
  · next h => exact hq h

theorem command {c : Cmd Γ} {a : c.Ans Γ} (h : respond w {} c = .ok a) : Goes c.run w [w] a (effect w {} c) := by
  refine ⟨?_, ?_⟩
  · simp only [Cmd.run, perform, Machine.run, List.headD_nil, List.tail_nil, hostStep]
    rw [h]
    rfl
  · simp only [Cmd.run, perform, EvuProxy.visited, hostStep]
    rw [h]
    rfl

theorem readFile (f : FileName) (w : World Γ) : Goes (readFile f) w [w] (w.files f) w := command rfl

theorem readExisting {f : FileName} {b : Γ.Bytes} (h : w.files f = some b) : Goes (readExisting f) w [w] b w := by
  refine bind (t := []) (readFile f w) ?_
  rw [h]
  exact ret b w

theorem writeFile (f : FileName) (b : Γ.Bytes) (w : World Γ) : Goes (writeFile f b) w [w] () (w.set f (some b)) := command rfl

theorem removeIfExists (f : FileName) (w : World Γ) : Goes (removeIfExists f) w [w] () (w.set f none) :=
  bind (t := []) (command rfl) (ret () _)

theorem ignore {p : App Γ α} (hp : Goes p w l a v) : Goes (ignore p) w l () v := by
  have h := bind (f := fun _ => .ret ()) hp.attempt (ret () v)
  rwa [List.append_nil] at h

theorem renameExisting {f g : FileName} {b : Γ.Bytes} (h : w.files f = some b) :
    Goes (renameExisting f g) w [w] () ((w.set g (some b)).set f none) := by
  have hcmd : Goes (renameFile f g) w [w] true ((w.set g (some b)).set f none) := by
    have hgo : Goes (Cmd.rename f g).run w [w] true (effect w {} (.rename f g)) := command (by simp [respond, h])
    rwa [show effect w {} (.rename f g) = (w.set g (some b)).set f none by simp [effect, h]] at hgo
  exact bind (t := []) hcmd (ret () _)

end Goes

/-! ## One recording -/

/-- Move one snapshot to the next place, if there is one. -/
def rotated (n : Fin 6) (w : World Γ) : World Γ :=
  match w.files (.history n) with
  | none => w
  | some b => (w.set (.history (n + 1)) (some b)).set (.history n) none

theorem goes_rotateSnapshot (n : Fin 6) (w : World Γ) :
    Goes (rotateSnapshot n) w (if (w.files (.history n)).isSome then [w, w] else [w]) () (rotated n w) := by
  have hstat : Goes (Cmd.stat (.history n)).run w [w] (w.files (.history n)) w := .command rfl
  unfold rotated
  cases h : w.files (.history n) with
  | none =>
    rw [h] at hstat
    exact .bind (t := []) hstat (.ret () w)
  | some b =>
    rw [h] at hstat
    exact .bind (t := [w]) hstat (.mapErr (.renameExisting h))

theorem next_ne (n : Fin 6) : ¬n + 1 = n := by revert n; decide

theorem rotated_files (n : Fin 6) (w : World Γ) (f : FileName) :
    (rotated n w).files f =
      if f = .history n then none
      else if f = .history (n + 1) then (w.files (.history n)).or (w.files (.history (n + 1)))
      else w.files f := by
  unfold rotated
  cases h : w.files (.history n) with
  | none =>
    by_cases hf : f = .history n
    · simp [hf, h]
    · by_cases hf' : f = .history (n + 1)
      · simp [hf', next_ne n]
      · simp [hf, hf']
  | some b =>
    by_cases hf : f = .history n
    · simp [hf]
    · by_cases hf' : f = .history (n + 1)
      · simp [hf']
      · simp [hf, hf']

/-- The snapshots `ns` moved on, in this order. -/
def rotatedAll (ns : List (Fin 6)) (w : World Γ) : World Γ := ns.foldl (fun w n => rotated n w) w

/-- The states that the rotation of `ns` visits. -/
def rotating : List (Fin 6) → World Γ → List (World Γ)
  | [], _ => []
  | n :: ns, w => (if (w.files (.history n)).isSome then [w, w] else [w]) ++ rotating ns (rotated n w)

theorem goes_rotate : ∀ (ns : List (Fin 6)) (w : World Γ), Goes (forEach ns rotateSnapshot) w (rotating ns w) () (rotatedAll ns w)
  | [], w => .ret () w
  | n :: ns, w => .bind (goes_rotateSnapshot n w) (goes_rotate ns (rotated n w))

/-- How many commands the rotation of `ns` issues before its first rename. -/
def beforeRename (w : World Γ) : List (Fin 6) → Nat
  | [] => 0
  | n :: ns => if (w.files (.history n)).isSome then 1 else 1 + beforeRename w ns

theorem rotating_before {ns : List (Fin 6)} (rest : List (World Γ)) :
    ∀ {i : Nat}, i ≤ beforeRename w ns → (rotating ns w ++ rotatedAll ns w :: rest)[i]? = some w := by
  induction ns with
  | nil =>
    intro i hi
    obtain rfl : i = 0 := Nat.le_zero.mp hi
    rfl
  | cons n ns ih =>
    intro i hi
    unfold beforeRename at hi
    cases h : w.files (.history n) with
    | none =>
      have hsame : rotated n w = w := by simp [rotated, h]
      have hall : rotatedAll (n :: ns) w = rotatedAll ns w := by simp [rotatedAll, hsame]
      simp only [h, Option.isSome_none, Bool.false_eq_true, if_false] at hi
      rw [hall]
      simp only [rotating, h, hsame, Option.isSome_none, Bool.false_eq_true, if_false, List.cons_append, List.nil_append]
      cases i with
      | zero => rfl
      | succ i => exact ih (by omega)
    | some b =>
      simp only [h, Option.isSome_some, if_true] at hi
      simp only [rotating, h, Option.isSome_some, if_true, List.cons_append, List.nil_append]
      match i, hi with
      | 0, _ => rfl
      | 1, _ => rfl

/-- The snapshots that a rotation moves on, the last first. -/
def rotatedSnapshots : List (Fin 6) := [4, 3, 2, 1]

theorem length_rotating : ∀ {ns : List (Fin 6)} {w : World Γ}, ns.Pairwise (fun n m => m ≠ n ∧ m ≠ n + 1) →
    (rotating ns w).length = ns.length + ns.countP fun n => (w.files (.history n)).isSome
  | [], _, _ => rfl
  | n :: ns, w, h => by
    obtain ⟨hn, hns⟩ := List.pairwise_cons.mp h
    have hcount : (ns.countP fun m => ((rotated n w).files (.history m)).isSome) = ns.countP fun m => (w.files (.history m)).isSome := by
      refine List.countP_congr fun m hm => ?_
      obtain ⟨h1, h2⟩ := hn m hm
      rw [rotated_files]
      simp [h1, h2]
    have ih := length_rotating (w := rotated n w) hns
    rw [hcount] at ih
    simp only [rotating, List.length_append, List.length_cons, List.countP_cons, ih]
    split <;> simp <;> omega

/-- The number of the command with which a rotation renames for the first time. -/
def firstRename (w : World Γ) : Nat := 3 + beforeRename w rotatedSnapshots

/-- The number of the command with which it renames for the last time. -/
def lastRename (w : World Γ) : Nat := 7 + rotatedSnapshots.countP fun n => (w.files (.history n)).isSome

/-- The snapshots from `k` on are moved to the next place. -/
def ShiftedFrom (k : Fin 6) (w w' : World Γ) : Prop :=
  ∀ m, w'.files (.history m) = if m = k then none else if k < m then w.files (.history (m - 1)) else w.files (.history m)

theorem ShiftedFrom.rotated {n : Fin 6} (hn : n ≠ 5) (h : ShiftedFrom (n + 1) w w') : ShiftedFrom n w (rotated n w') := by
  intro m
  have hself := h n
  have hnext := h (n + 1)
  have hm := h m
  have hlt : n < n + 1 := (by decide : ∀ n : Fin 6, n ≠ 5 → n < n + 1) n hn
  have hpre : n + 1 - 1 = n := (by decide : ∀ n : Fin 6, n + 1 - 1 = n) n
  rw [rotated_files]
  simp only [FileName.history.injEq]
  by_cases h1 : m = n
  · simp [h1]
  rw [if_neg h1, if_neg h1]
  by_cases h2 : m = n + 1
  · subst h2
    rw [if_pos rfl] at hnext
    rw [if_neg (next_ne n ∘ Eq.symm), if_neg (not_lt.mpr hlt.le)] at hself
    rw [if_pos rfl, hnext, hself, Option.or_none, if_pos hlt, hpre]
  · have hiff : n + 1 < m ↔ n < m :=
      (by decide : ∀ n m : Fin 6, n ≠ 5 → m ≠ n → m ≠ n + 1 → (n + 1 < m ↔ n < m)) n m hn h1 h2
    rw [if_neg h2, hm, if_neg h2]
    simp only [hiff]

theorem shiftedFrom_rotatedAll (w : World Γ) : ShiftedFrom 1 w (rotatedAll rotatedSnapshots (w.set (.history 5) none)) := by
  have h5 : ShiftedFrom 5 w (w.set (.history 5) none) := by
    intro m
    have hle : ¬5 < m := (by decide : ∀ m : Fin 6, ¬5 < m) m
    by_cases hm : m = 5
    · simp [hm]
    · simp [hm, hle]
  have h4 : ShiftedFrom 4 w _ := ShiftedFrom.rotated (by decide) h5
  have h3 : ShiftedFrom 3 w _ := ShiftedFrom.rotated (by decide) h4
  have h2 : ShiftedFrom 2 w _ := ShiftedFrom.rotated (by decide) h3
  exact ShiftedFrom.rotated (by decide) h2

/-- The snapshots after the last rename, when `.bak` held `a`. -/
def movedOn (a : Γ.Bytes) (w : World Γ) : World Γ :=
  ((rotatedAll rotatedSnapshots (w.set (.history 5) none)).set (.history 1) (some a)).set .bak none

theorem rotatedAll_other {ns : List (Fin 6)} {f : FileName} (hf : ∀ n, f ≠ .history n) : (rotatedAll ns w).files f = w.files f := by
  induction ns generalizing w with
  | nil => rfl
  | cons n ns ih =>
    have h : (rotated n w).files f = w.files f := by
      rw [rotated_files, if_neg (hf n), if_neg (hf (n + 1))]
    exact (ih (w := rotated n w)).trans h

theorem movedOn_bak (a : Γ.Bytes) (w : World Γ) : (movedOn a w).files .bak = none := by simp [movedOn]

theorem movedOn_next {a : Γ.Bytes} (h : w.files .bak = some a) {n : Fin 6} (hn : n ≠ 5) :
    (movedOn a w).files (.history (n + 1)) = w.files (.history n) := by
  have hshift := shiftedFrom_rotatedAll w (n + 1)
  have h0 : n + 1 ≠ 0 := (by decide : ∀ n : Fin 6, n ≠ 5 → n + 1 ≠ 0) n hn
  by_cases h1 : n = 0
  · subst h1
    simp [movedOn, h]
  · have hne : n + 1 ≠ 1 := fun he => h1 ((by decide : ∀ n : Fin 6, n + 1 = 1 → n = 0) n he)
    have hlt : 1 < n + 1 := (by decide : ∀ n : Fin 6, n ≠ 5 → n ≠ 0 → 1 < n + 1) n hn h1
    have hpre : n + 1 - 1 = n := (by decide : ∀ n : Fin 6, n + 1 - 1 = n) n
    rw [if_neg hne, if_pos hlt, hpre] at hshift
    simp [movedOn, h0, hne, hshift]

theorem movedOn_config (a : Γ.Bytes) (w : World Γ) : (movedOn a w).files .config = w.files .config := by
  simp [movedOn, rotatedAll_other]

/-- A recording that moves the snapshots on. -/
theorem goes_record {a b : Γ.Bytes} (hcfg : w.files .config = some b) (hbak : w.files .bak = some a) (hne : b ≠ a) :
    Goes recordAppliedConfigSnapshot w
      ([w, w, w] ++ (rotating rotatedSnapshots (w.set (.history 5) none) ++
        [rotatedAll rotatedSnapshots (w.set (.history 5) none), movedOn a w])) () ((movedOn a w).set .bak (some b)) := by
  have hr : (rotatedAll rotatedSnapshots (w.set (.history 5) none)).files .bak = some a := by
    have h := shiftedFrom_rotatedAll w 0
    rw [if_neg (by decide), if_neg (by decide)] at h
    exact h.trans hbak
  have hrename : Goes (wrapErr "rotate bak -> bak.1" (renameExisting .bak (.history 1)))
      (rotatedAll rotatedSnapshots (w.set (.history 5) none)) _ () (movedOn a w) := .mapErr (.renameExisting hr)
  have hrest : Goes ((ignore (removeIfExists (.history 5))).bind fun _ => (forEach [4, 3, 2, 1] rotateSnapshot).bind fun _ =>
      (wrapErr "rotate bak -> bak.1" (renameExisting .bak (.history 1))).bind fun _ => EvuProxy.writeFile .bak b) w _ ()
      ((movedOn a w).set .bak (some b)) :=
    (Goes.ignore (.removeIfExists _ w)).bind ((goes_rotate rotatedSnapshots _).bind (hrename.bind (.writeFile _ _ _)))
  have hread : Goes (EvuProxy.readFile .bak) w [w] (some a) w := by
    rw [← hbak]
    exact .readFile _ w
  have hall : Goes recordAppliedConfigSnapshot w ([w] ++ ([w] ++ _)) () ((movedOn a w).set .bak (some b)) :=
    .bind (.readExisting hcfg) (.bind hread (.ite (fun he => absurd he hne) fun _ => hrest))
  exact hall

theorem goes_record_same {b : Γ.Bytes} (hcfg : w.files .config = some b) (hbak : w.files .bak = some b) :
    Goes recordAppliedConfigSnapshot w [w, w] () w := by
  have hread : Goes (EvuProxy.readFile .bak) w [w] (some b) w := by
    rw [← hbak]
    exact .readFile _ w
  exact .bind (t := [w]) (.readExisting hcfg) (.bind (t := []) hread (.ite (fun _ => .ret () w) fun hne => absurd rfl hne))

theorem goes_record_first {b : Γ.Bytes} (hcfg : w.files .config = some b) (hbak : w.files .bak = none) :
    Goes recordAppliedConfigSnapshot w [w, w, w] () (w.set .bak (some b)) := by
  have hread : Goes (EvuProxy.readFile .bak) w [w] none w := by
    rw [← hbak]
    exact .readFile _ w
  exact .bind (t := [w, w]) (.readExisting hcfg) (.bind (t := [w]) hread (.writeFile _ _ w))

/-! ## Recordings that are interrupted and repeated -/

/-- A recording that is killed after `n` commands. -/
def interrupted (n : Nat) (w : World Γ) : World Γ := ((host Γ).run recordAppliedConfigSnapshot (killedAfter n) w).state

/-- A recording that is not interrupted. -/
def completed (w : World Γ) : World Γ := ((host Γ).run recordAppliedConfigSnapshot [] w).state

theorem whole_record : (recordAppliedConfigSnapshot : App Γ Unit).Uses Cmd.Whole := by
  have hread : ∀ f, (EvuProxy.readFile f : App Γ _).Uses Cmd.Whole := fun f => uses_perform fun _ _ => rfl
  have hwrite : ∀ f (b : Γ.Bytes), (EvuProxy.writeFile f b).Uses Cmd.Whole := fun f b => uses_perform fun _ _ => rfl
  have hrename : ∀ f g, (EvuProxy.renameExisting f g : App Γ Unit).Uses Cmd.Whole := fun f g =>
    uses_bind (uses_perform fun _ _ => rfl) fun ok => by cases ok <;> simp
  have hrotate : ∀ n, (rotateSnapshot n : App Γ Unit).Uses Cmd.Whole := fun n =>
    uses_bind (uses_perform fun _ _ => rfl) fun b => by
      cases b with
      | none => simp
      | some _ => exact uses_mapErr _ (hrename _ _)
  have hexisting : (EvuProxy.readExisting .config : App Γ _).Uses Cmd.Whole := uses_bind (hread _) fun b => by cases b <;> simp
  refine uses_bind hexisting fun cur => uses_bind (hread _) fun b => ?_
  cases b with
  | none => exact hwrite _ _
  | some prev =>
    refine uses_ite (uses_ret _) (uses_bind ?_ fun _ => uses_bind (uses_forEach fun n _ => hrotate n) fun _ =>
      uses_bind (uses_mapErr _ (hrename _ _)) fun _ => hwrite _ _)
    exact uses_bind (uses_attempt (uses_bind (uses_perform fun _ _ => rfl) fun _ => uses_ret _)) fun _ => uses_ret _

theorem interrupted_eq {l : List (World Γ)} (n : Nat) (h : Goes recordAppliedConfigSnapshot w l () w') :
    interrupted n w = (l[n]?).getD w' := by
  unfold interrupted
  rw [run_killedAfter whole_record, h.visited, h.run]
  rfl

theorem completed_eq {l : List (World Γ)} (h : Goes recordAppliedConfigSnapshot w l () w') : completed w = w' := by
  unfold completed
  rw [h.run]
  rfl

/-- An interruption after `n` commands leaves no rotation half done: there is none, or its first rename is still to come, or its last is
done. -/
def Harmless (b : Γ.Bytes) (w : World Γ) (n : Nat) : Prop :=
  w.files .bak = none ∨ w.files .bak = some b ∨ n ≤ firstRename w ∨ lastRename w < n

/-- The configs that were applied, the newest first, with repeats collapsed. -/
def pushApplied {B : Type} [DecidableEq B] (l : List B) (b : B) : List B := if l.head? = some b then l else b :: l

/-- The snapshots hold the newest configs of `l`. -/
def HoldsHistory (l : List Γ.Bytes) (w : World Γ) : Prop := ∀ n : Fin 6, w.files (.history n) = l[(n : Nat)]?

/-- The recording of `b` over the history `l` is to do, or its renames are done, or it is done. -/
structure RecordingOver (b : Γ.Bytes) (l : List Γ.Bytes) (w : World Γ) : Prop where
  config : w.files .config = some b
  phase : (l.head? ≠ some b ∧ l ≠ [] ∧ ∀ n : Fin 6, n ≠ 5 → w.files (.history n) = l[(n : Nat)]?) ∨
    (l.head? ≠ some b ∧ w.files .bak = none ∧ ∀ n : Fin 6, n ≠ 5 → w.files (.history (n + 1)) = l[(n : Nat)]?) ∨
    HoldsHistory (pushApplied l b) w

/-- A recording that is not interrupted completes whatever was left to do. -/
theorem RecordingOver.completed {b : Γ.Bytes} {l : List Γ.Bytes} (h : RecordingOver b l w) :
    (completed w).files .config = some b ∧ HoldsHistory (pushApplied l b) (completed w) := by
  have hcfg := h.config
  -- What stands after the last rename, with `b` written to `.bak`, is the history with `b` pushed.
  have hwrite : ∀ {v : World Γ}, l.head? ≠ some b → (∀ n : Fin 6, n ≠ 5 → v.files (.history (n + 1)) = l[(n : Nat)]?) →
      HoldsHistory (pushApplied l b) (v.set .bak (some b)) := by
    intro v hne hv n
    rw [pushApplied, if_neg hne]
    by_cases h0 : n = 0
    · subst h0
      simp
    · obtain ⟨m, hm, rfl⟩ : ∃ m : Fin 6, m ≠ 5 ∧ n = m + 1 := (by decide : ∀ n : Fin 6, n ≠ 0 → ∃ m : Fin 6, m ≠ 5 ∧ n = m + 1) n h0
      have hval : ((m + 1 : Fin 6) : Nat) = (m : Nat) + 1 := (by decide : ∀ m : Fin 6, m ≠ 5 → ((m + 1 : Fin 6) : Nat) = (m : Nat) + 1) m hm
      rw [hval, List.getElem?_cons_succ, ← hv m hm]
      simp [h0]
  rcases h.phase with ⟨hne, hnil, hh⟩ | ⟨hne, hbak, hh⟩ | hdone
  · obtain ⟨a, l, rfl⟩ := List.exists_cons_of_ne_nil hnil
    have hbak : w.files .bak = some a := hh 0 (by decide)
    have hba : b ≠ a := fun he => hne (by rw [he]; rfl)
    rw [completed_eq (goes_record hcfg hbak hba)]
    refine ⟨?_, hwrite hne fun n hn => (movedOn_next hbak hn).trans (hh n hn)⟩
    simpa [movedOn_config] using hcfg
  · rw [completed_eq (goes_record_first hcfg hbak)]
    exact ⟨by simpa using hcfg, hwrite hne hh⟩
  · have hbak : w.files .bak = some b := by
      rw [hdone 0]
      unfold pushApplied
      split
      · next he => rwa [List.head?_eq_getElem?] at he
      · rfl
    rw [completed_eq (goes_record_same hcfg hbak)]
    exact ⟨hcfg, hdone⟩

theorem firstRename_set (w : World Γ) : firstRename (w.set (.history 5) none) = firstRename w := by
  simp [firstRename, rotatedSnapshots, beforeRename]

theorem lastRename_set (w : World Γ) : lastRename (w.set (.history 5) none) = lastRename w := by
  simp [lastRename, rotatedSnapshots, List.countP_cons]

/-- Where a rotation is killed that is not left half done. -/
theorem interrupted_rotation {a b : Γ.Bytes} {n : Nat} (hcfg : w.files .config = some b) (hbak : w.files .bak = some a) (hne : b ≠ a)
    (hn : n ≤ firstRename w ∨ lastRename w < n) :
    interrupted n w = w ∨ interrupted n w = w.set (.history 5) none ∨ interrupted n w = movedOn a w ∨
      interrupted n w = (movedOn a w).set .bak (some b) := by
  rw [interrupted_eq n (goes_record hcfg hbak hne)]
  rcases hn with hn | hn
  · by_cases h3 : n < 3
    · refine Or.inl ?_
      rw [List.getElem?_append_left (by simpa using h3)]
      match n, h3 with
      | 0, _ => rfl
      | 1, _ => rfl
      | 2, _ => rfl
    · refine Or.inr (Or.inl ?_)
      have hi : n - 3 ≤ beforeRename (w.set (.history 5) none) rotatedSnapshots := by
        have h := firstRename_set w
        unfold firstRename at h hn
        omega
      rw [List.getElem?_append_right (by simpa using h3)]
      have hbefore := rotating_before [movedOn a w] hi
      simp only [List.length_cons, List.length_nil]
      rw [hbefore]
      rfl
  · have hlen := @length_rotating _ rotatedSnapshots (w.set (.history 5) none) (by decide)
    have hlast := lastRename_set w
    unfold lastRename at hlast hn
    have h4 : rotatedSnapshots.length = 4 := rfl
    rw [List.getElem?_append_right (by simp; omega), List.getElem?_append_right (by simp; omega)]
    obtain ⟨k, hk⟩ : ∃ k, n - [w, w, w].length - (rotating rotatedSnapshots (w.set (.history 5) none)).length = k + 1 := by
      refine ⟨n - 3 - (rotating rotatedSnapshots (w.set (.history 5) none)).length - 1, ?_⟩
      simp only [List.length_cons, List.length_nil]
      omega
    rw [hk]
    cases k with
    | zero => exact Or.inr (Or.inr (Or.inl rfl))
    | succ k => exact Or.inr (Or.inr (Or.inr rfl))

/-- An interruption that leaves no rotation half done can be made good. -/
theorem RecordingOver.interrupted {b : Γ.Bytes} {l : List Γ.Bytes} {n : Nat} (h : RecordingOver b l w) (hn : Harmless b w n) :
    RecordingOver b l (interrupted n w) := by
  have hcfg := h.config
  have hdone := h.completed
  have hfinal : ∀ {v l'}, Goes recordAppliedConfigSnapshot w l' () v → RecordingOver b l v := fun hgo => by
    rw [completed_eq hgo] at hdone
    exact ⟨hdone.1, Or.inr (Or.inr hdone.2)⟩
  rcases h.phase with ⟨hne, hnil, hh⟩ | ⟨hne, hbak, hh⟩ | hhold
  · obtain ⟨a, l, rfl⟩ := List.exists_cons_of_ne_nil hnil
    have hbak : w.files .bak = some a := hh 0 (by decide)
    have hba : b ≠ a := fun he => hne (by rw [he]; rfl)
    have hn' : n ≤ firstRename w ∨ lastRename w < n := by
      rcases hn with hn | hn | hn
      · exact nomatch hn.symm.trans hbak
      · exact absurd (Option.some.inj (hn.symm.trans hbak)) hba
      · exact hn
    rcases interrupted_rotation hcfg hbak hba hn' with he | he | he | he
    · rwa [he]
    · rw [he]
      refine ⟨by simpa using hcfg, Or.inl ⟨hne, hnil, fun m hm => ?_⟩⟩
      simpa [hm] using hh m hm
    · rw [he]
      refine ⟨(movedOn_config a w).trans hcfg, Or.inr (Or.inl ⟨hne, movedOn_bak a w, fun m hm => ?_⟩)⟩
      exact (movedOn_next hbak hm).trans (hh m hm)
    · rw [he]
      exact hfinal (goes_record hcfg hbak hba)
  · have hgo := goes_record_first hcfg hbak
    rw [interrupted_eq n hgo]
    match n with
    | 0 | 1 | 2 => exact h
    | n + 3 => exact hfinal hgo
  · have hbak : w.files .bak = some b := by
      rw [hhold 0]
      unfold pushApplied
      split
      · next he => rwa [List.head?_eq_getElem?] at he
      · rfl
    rw [interrupted_eq n (goes_record_same hcfg hbak)]
    match n with
    | 0 | 1 | n + 2 => exact h

/-! ## Sequences of recordings -/

/-- The recording of a config: it is interrupted after so many commands, once for each entry of `cuts`, and then repeated to its end. -/
structure Recorded (Γ : Ctx) where
  config : Γ.Bytes
  cuts : List Nat

/-- The state after a recording. -/
def Recorded.after (r : Recorded Γ) (w : World Γ) : World Γ :=
  completed (r.cuts.foldl (fun w n => EvuProxy.interrupted n w) (w.set .config (some r.config)))

/-- The state after a sequence of recordings. -/
def recordAll (rs : List (Recorded Γ)) (w : World Γ) : World Γ := rs.foldl (fun w r => r.after w) w

/-- No interruption of a recording leaves a rotation half done. -/
def HarmlessCuts (b : Γ.Bytes) : List Nat → World Γ → Prop
  | [], _ => True
  | n :: ns, w => Harmless b w n ∧ HarmlessCuts b ns (EvuProxy.interrupted n w)

/-- No interruption of a sequence of recordings leaves a rotation half done. -/
def HarmlessRun : List (Recorded Γ) → World Γ → Prop
  | [], _ => True
  | r :: rs, w => HarmlessCuts r.config r.cuts (w.set .config (some r.config)) ∧ HarmlessRun rs (r.after w)

/-- The configs of a sequence on top of an earlier history, the newest first, with repeats collapsed. -/
def appliedHistory (l : List Γ.Bytes) (rs : List (Recorded Γ)) : List Γ.Bytes := rs.foldl (fun l r => pushApplied l r.config) l

theorem RecordingOver.cuts {b : Γ.Bytes} {l : List Γ.Bytes} : ∀ {ns : List Nat} {w : World Γ}, RecordingOver b l w → HarmlessCuts b ns w →
    RecordingOver b l (ns.foldl (fun w n => EvuProxy.interrupted n w) w)
  | [], _, h, _ => h
  | _ :: _, _, h, hn => (h.interrupted hn.1).cuts hn.2

/-- A recording starts from a history that is complete. -/
theorem HoldsHistory.recordingOver {l : List Γ.Bytes} (h : HoldsHistory l w) (b : Γ.Bytes) :
    RecordingOver b l (w.set .config (some b)) := by
  have hh : ∀ n : Fin 6, (w.set .config (some b)).files (.history n) = l[(n : Nat)]? := fun n => by simpa using h n
  refine ⟨by simp, ?_⟩
  by_cases hhead : l.head? = some b
  · refine Or.inr (Or.inr ?_)
    rw [pushApplied, if_pos hhead]
    exact hh
  · by_cases hnil : l = []
    · subst hnil
      refine Or.inr (Or.inl ⟨hhead, hh 0, fun n _ => ?_⟩)
      rw [hh]
      simp
    · exact Or.inl ⟨hhead, hnil, fun n _ => hh n⟩

/-- In every sequence of recordings, each interrupted and repeated any number of times, of which no interruption falls between the first rename
of a rotation and its last, the snapshots are the newest six configs that were applied, the newest first, with repeats collapsed. -/
theorem history_exact {l : List Γ.Bytes} {rs : List (Recorded Γ)} {w : World Γ} (h : HoldsHistory l w) (hrs : HarmlessRun rs w) :
    HoldsHistory (appliedHistory l rs) (recordAll rs w) := by
  induction rs generalizing l w with
  | nil => exact h
  | cons r rs ih =>
    have hrec := (h.recordingOver r.config).cuts hrs.1
    exact ih hrec.completed.2 hrs.2

/-- A recording over two snapshots is killed before its first rename and after its last, and the history is complete. -/
theorem history_exact_sample :
    HoldsHistory [Sample.yaml 2, Sample.yaml 1, Sample.yaml 3] (recordAll [⟨Sample.yaml 2, [7, 9]⟩] (Sample.host 2 none)) := by
  have hstart : HoldsHistory [Sample.yaml 1, Sample.yaml 3] (Sample.host 2 none) := by
    unfold HoldsHistory
    decide +kernel
  have hrun : HarmlessRun [⟨Sample.yaml 2, [7, 9]⟩] (Sample.host 2 none) := by
    refine ⟨⟨Or.inr (Or.inr (Or.inl ?_)), Or.inr (Or.inr (Or.inr ?_)), trivial⟩, trivial⟩
    · decide +kernel
    · decide +kernel
  exact history_exact hstart hrun

/-- The seventh config of a sequence is recorded, and the recording is killed after `.bak.4` is renamed to `.bak.5`. It is repeated, and the
second config is in no snapshot, although it is one of the newest six. -/
theorem interrupted_rotation_loses_config :
    HoldsHistory [] ({ files := fun _ => none } : World Sample.ctx) ∧
      appliedHistory [] [⟨Sample.yaml 1, []⟩, ⟨Sample.yaml 2, []⟩, ⟨Sample.yaml 3, []⟩, ⟨Sample.yaml 4, []⟩, ⟨Sample.yaml 5, []⟩,
        ⟨Sample.yaml 6, []⟩, (⟨Sample.yaml 7, [5]⟩ : Recorded Sample.ctx)] =
        [Sample.yaml 7, Sample.yaml 6, Sample.yaml 5, Sample.yaml 4, Sample.yaml 3, Sample.yaml 2, Sample.yaml 1] ∧
      ∀ n, (recordAll [⟨Sample.yaml 1, []⟩, ⟨Sample.yaml 2, []⟩, ⟨Sample.yaml 3, []⟩, ⟨Sample.yaml 4, []⟩, ⟨Sample.yaml 5, []⟩,
        ⟨Sample.yaml 6, []⟩, (⟨Sample.yaml 7, [5]⟩ : Recorded Sample.ctx)] { files := fun _ => none }).files (.history n) ≠
          some (Sample.yaml 2) := by
  refine ⟨?_, by decide +kernel, by decide +kernel⟩
  intro n
  rfl

end EvuProxy

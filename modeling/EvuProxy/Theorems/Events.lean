import EvuProxy.EventLog.Append

/-!
# Audit events

Each logger has a mutex of its own, and nothing keeps the appends of two loggers apart. Whatever the order of their commands, an event
whose append succeeded was written; and unless its write was disturbed by the compaction of another append, its line is in the file, or
every line kept is newer.
-/

namespace EvuProxy.EventLog

open Fault

variable {L ι ε : Type} {size : ε → Nat}

/-! ## Compaction -/

theorem keepNewest_suffix {target : Nat} (lns : List (Line ι ε)) : ∀ (total : Nat) (kept : List (Line ι ε)),
    keepNewest size target lns total kept <:+ lns.reverse ++ kept := by
  induction lns with
  | nil => exact fun _ _ => List.suffix_rfl
  | cons ln lns ih =>
    intro total kept
    unfold keepNewest
    split
    · exact List.suffix_append _ _
    · rw [List.reverse_cons, List.append_assoc]
      exact ih _ _

theorem dropOldest_suffix {maxBytes : Nat} : ∀ {lns : List (Line ι ε)}, dropOldest size maxBytes lns <:+ lns
  | [] => List.suffix_rfl
  | [_] => List.suffix_rfl
  | ln :: ln' :: lns => by
    unfold dropOldest
    split
    · exact dropOldest_suffix.trans (List.suffix_cons _ _)
    · exact List.suffix_rfl

/-- A compaction keeps the newest lines. -/
theorem compacted_suffix (maxBytes : Nat) (lines : List (Line ι ε)) : compacted size maxBytes lines <:+ lines := by
  unfold compacted
  dsimp only
  split
  · exact List.nil_suffix
  · refine dropOldest_suffix.trans ?_
    have h := @keepNewest_suffix ι ε size (max (maxBytes * 80 / 100) 1024) lines.reverse 0 []
    rwa [List.reverse_reverse, List.append_nil] at h

/-! ## What the file may hold -/

/-- The line is there, or every line that is there is newer. -/
def Line.KeptIn (ln : Line ι ε) (lines : List (Line ι ε)) : Prop := ln ∈ lines ∨ ∀ y ∈ lines, ln.number < y.number

instance [DecidableEq ι] [DecidableEq ε] (ln : Line ι ε) (lines : List (Line ι ε)) : Decidable (ln.KeptIn lines) :=
  inferInstanceAs (Decidable (_ ∨ _))

/-- Lines that may be the file: in the order they were written, with no loss but of disturbed lines and of those older than the rest. -/
structure LogState.MayHold (s : LogState L ι ε) (lines : List (Line ι ε)) : Prop where
  sorted : lines.Pairwise fun x y => x.number < y.number
  bounded : ∀ y ∈ lines, y.number < s.written.length
  kept : ∀ ln ∈ s.written, ln.undisturbed = true → ln.KeptIn lines

/-- The newest of the lines may be the file as well. -/
theorem LogState.MayHold.suffix {s : LogState L ι ε} {lines newest : List (Line ι ε)} (h : s.MayHold lines) (hsuffix : newest <:+ lines) :
    s.MayHold newest := by
  obtain ⟨older, rfl⟩ := hsuffix
  refine ⟨(List.pairwise_append.1 h.sorted).2.1, fun y hy => h.bounded y (List.mem_append_right _ hy), fun ln hln hun => ?_⟩
  rcases h.kept ln hln hun with hmem | holder
  · rcases List.mem_append.1 hmem with hmem | hmem
    · exact .inr fun y hy => (List.pairwise_append.1 h.sorted).2.2 ln hmem y hy
    · exact .inl hmem
  · exact .inr fun y hy => holder y (List.mem_append_right _ hy)

/-- Lines that may be the file still may be when only disturbed lines were written since. -/
theorem LogState.MayHold.later {s s' : LogState L ι ε} {lines : List (Line ι ε)} (h : s.MayHold lines) (hgrows : s.written <+: s'.written)
    (hstill : ∀ ln ∈ s'.written, ln.undisturbed = true → ln ∈ s.written) : s'.MayHold lines where
  sorted := h.sorted
  bounded y hy := Nat.lt_of_lt_of_le (h.bounded y hy) hgrows.length_le
  kept ln hln hun := h.kept ln (hstill ln hln hun) hun

/-- Lines that may be the file, with one more that is newer than all written before. -/
theorem LogState.MayHold.snoc {s s' : LogState L ι ε} {lines : List (Line ι ε)} {ln : Line ι ε} (h : s.MayHold lines)
    (hold : ∀ y ∈ s.written, y.number < s.written.length) (hnumber : ln.number = s.written.length)
    (hwritten : s'.written = s.written ++ [ln]) : s'.MayHold (lines ++ [ln]) := by
  have hlength : s'.written.length = s.written.length + 1 := by rw [hwritten, List.length_append, List.length_singleton]
  refine ⟨?_, fun y hy => ?_, fun x hx hun => ?_⟩
  · refine List.pairwise_append.2 ⟨h.sorted, List.pairwise_singleton _ _, fun x hx y hy => ?_⟩
    obtain rfl := List.mem_singleton.1 hy
    exact hnumber ▸ h.bounded x hx
  · rcases List.mem_append.1 hy with hy | hy
    · have := h.bounded y hy
      omega
    · obtain rfl := List.mem_singleton.1 hy
      omega
  · rw [hwritten] at hx
    rcases List.mem_append.1 hx with hx' | hx'
    · rcases h.kept x hx' hun with hmem | holder
      · exact .inl (List.mem_append_left _ hmem)
      · refine .inr fun y hy => ?_
        rcases List.mem_append.1 hy with hy | hy
        · exact holder y hy
        · obtain rfl := List.mem_singleton.1 hy
          exact hnumber ▸ hold x hx'
    · exact .inl (List.mem_append_right _ hx')

/-- The file is one it may be, and the lines written are numbered below their count. -/
structure LogState.Sound (s : LogState L ι ε) : Prop where
  content : s.MayHold s.content
  numbered : ∀ y ∈ s.written, y.number < s.written.length

theorem LogState.Sound.of_eq {s s' : LogState L ι ε} (h : s.Sound) (hcontent : s'.content = s.content) (hwritten : s'.written = s.written) :
    s'.Sound := by
  have hgrows : s.written <+: s'.written := hwritten ▸ List.prefix_rfl
  refine ⟨hcontent ▸ h.content.later hgrows fun ln hln _ => hwritten ▸ hln, fun y hy => ?_⟩
  rw [hwritten] at hy ⊢
  exact h.numbered y hy

/-- Before the first append the file holds all that was written, in order, and nobody was told anything. -/
structure Begins (s : LogState L ι ε) : Prop where
  content : s.content = s.written
  numbered : s.written.map (·.number) = List.range s.written.length
  told : ∀ i, s.told i = false

theorem Begins.sound (hs : Begins s) : s.Sound := by
  have hbounded : ∀ y ∈ s.written, y.number < s.written.length := by
    intro y hy
    have hnumber : y.number ∈ s.written.map (·.number) := List.mem_map_of_mem hy
    rwa [hs.numbered, List.mem_range] at hnumber
  refine ⟨?_, hbounded⟩
  rw [hs.content]
  refine ⟨?_, hbounded, fun ln hln _ => .inl hln⟩
  have hrange := List.pairwise_lt_range (n := s.written.length)
  rwa [← hs.numbered, List.pairwise_map] at hrange

/-! ## The pact -/

/-- The event of the append `i` was written. -/
def Wrote (i : ι) (e : ε) (s : LogState L ι ε) : Prop := ∃ ln ∈ s.written, ln.writer = some i ∧ ln.event = e

theorem Wrote.later {i : ι} {e : ε} {s s' : LogState L ι ε} (h : Wrote i e s) (hgrows : s.written <+: s'.written) : Wrote i e s' := by
  obtain ⟨ln, hln, hof⟩ := h
  exact ⟨ln, hgrows.subset hln, hof⟩

/-- What an append relies on: lines are only added, while it compacts only disturbed ones, and the file stays one it may be. -/
structure Relies (i : ι) (s s' : LogState L ι ε) : Prop where
  grows : s.written <+: s'.written
  still : i ∈ s.compacting → ∀ ln ∈ s'.written, ln.undisturbed = true → ln ∈ s.written
  compacting : i ∈ s'.compacting ↔ i ∈ s.compacting
  told : s'.told i = s.told i
  sound : s.Sound → s'.Sound

theorem Relies.refl (i : ι) (s : LogState L ι ε) : Relies i s s := ⟨List.prefix_rfl, fun _ _ h _ => h, .rfl, rfl, id⟩

theorem Relies.trans {i : ι} {s s' s'' : LogState L ι ε} (h : Relies i s s') (h' : Relies i s' s'') : Relies i s s'' where
  grows := h.grows.trans h'.grows
  still hi ln hln hun := h.still hi ln (h'.still (h.compacting.2 hi) ln hln hun) hun
  compacting := h'.compacting.trans h.compacting
  told := h'.told.trans h.told
  sound hs := h'.sound (h.sound hs)

variable [DecidableEq ι]

theorem mem_compacted {i j : ι} {s : LogState L ι ε} (hj : j ≠ i) : j ∈ (s.compacted i).compacting ↔ j ∈ s.compacting := by
  simp [LogState.compacted, hj]

/-- A write leaves the file one it may be: the line goes to its end, or to a file that has been replaced and is then disturbed. -/
theorem sound_write {i : ι} {fd : Nat} {e : ε} {s : LogState L ι ε} (h : s.Sound) : LogState.Sound { s with
    files := Function.update s.files fd (s.files fd ++ [s.line i fd e]), written := s.written ++ [s.line i fd e] } := by
  refine ⟨?_, fun y hy => ?_⟩
  · by_cases hpath : s.path = some fd
    · have hcontent : s.content = s.files fd := by rw [LogState.content, hpath]
      simp only [LogState.content, hpath, Function.update_self]
      exact (hcontent ▸ h.content).snoc h.numbered rfl rfl
    · have hcontent : LogState.content { s with
          files := Function.update s.files fd (s.files fd ++ [s.line i fd e]), written := s.written ++ [s.line i fd e] } = s.content := by
        unfold LogState.content
        cases hp : s.path with
        | none => rfl
        | some n => exact Function.update_of_ne (fun h => hpath (hp.trans (congrArg some h))) _ _
      rw [hcontent]
      refine h.content.later (List.prefix_append _ _) fun ln hln hun => ?_
      rcases List.mem_append.1 hln with hln | hln
      · exact hln
      · obtain rfl := List.mem_singleton.1 hln
        exact absurd (of_decide_eq_true hun).1 hpath
  · rw [List.length_append, List.length_singleton]
    rcases List.mem_append.1 hy with hy | hy
    · have := h.numbered y hy
      omega
    · obtain rfl := List.mem_singleton.1 hy
      exact Nat.lt_succ_self _

variable [DecidableEq L]

/-- The pact of the appends to one file: any command may fail, and any process may be killed at any time. -/
def logPact (size : ε → Nat) (ev : ι → ε) : Pact (logHost (L := L) (ι := ι) size) where
  allows _ _ _ _ := True
  rely := Relies
  inv i s := s.Sound ∧ (s.told i = true → Wrote i (ev i) s)
  refl := Relies.refl
  trans := Relies.trans
  stable h hinv := ⟨h.sound hinv.1, fun ht => (hinv.2 (h.told.symm.trans ht)).later h.grows⟩

/-! ## The commands of an append -/

variable {ev : ι → ε} {i : ι} {s s' : LogState L ι ε} {l : L} {e : ε}

/-- A turn that writes nothing. -/
theorem gives_of (hwritten : s'.written = s.written) (hcompacting : ∀ j, j ≠ i → (j ∈ s'.compacting ↔ j ∈ s.compacting))
    (htold : ∀ j, j ≠ i → s'.told j = s.told j) (hsound : s'.Sound) (hown : s'.told i = true → Wrote i (ev i) s') :
    (logPact size ev).Gives i s s' := by
  refine ⟨fun j hj => ⟨hwritten ▸ List.prefix_rfl, fun _ ln hln _ => ?_, hcompacting j hj, htold j hj, fun _ => hsound⟩, hsound, hown⟩
  rwa [hwritten] at hln

theorem gives_killed {c : LogCmd L ι ε} {ch : LogChoice} {o : Outcome String ((logSig L ι ε).Ans c) (LogState L ι ε)}
    (hk : ch.killed = true) (ho : logStep size i c ch s = some o) (hinv : (logPact size ev).inv i s) :
    (logPact size ev).Gives i s o.state ∧ ∀ r s'', o ≠ .done r s'' := by
  unfold logStep at ho
  rw [if_pos hk] at ho
  obtain rfl := Option.some.inj ho
  exact ⟨gives_of rfl (fun j hj => mem_compacted hj) (fun _ _ => rfl) (hinv.1.of_eq rfl rfl) hinv.2, fun _ _ h => (by cases h)⟩

/-- One command of a process that goes on. -/
theorem keeps_command {c : LogCmd L ι ε} {Q : Except String ((logSig L ι ε).Ans c) → LogState L ι ε → Prop}
    (h : ∀ s' : LogState L ι ε, Relies i s s' → (logPact size ev).inv i s' → ∀ ch : LogChoice, ¬ch.killed = true →
      ∀ o, logStep size i c ch s' = some o → (logPact size ev).Gives i s' o.state ∧
        ∀ r s'', o = .done r s'' → ∀ s₁, Relies i s'' s₁ → Q r s₁) :
    Keeps (logPact size ev) i (Prog.perform c) Q s := by
  refine keeps_perform fun s' hs hinv ch _ o ho => ?_
  by_cases hk : ch.killed = true
  · obtain ⟨hgives, hno⟩ := gives_killed hk ho hinv
    exact ⟨hgives, fun r s'' he => absurd he (hno r s'')⟩
  · exact h s' hs hinv ch hk o ho

/-- A command that touches neither the file nor what is known of it. -/
def Quiet (size : ε → Nat) (i : ι) (c : LogCmd L ι ε) : Prop := ∀ ch s o, ¬ch.killed = true → logStep size i c ch s = some o →
  o.state.content = s.content ∧ o.state.written = s.written ∧ o.state.told = s.told ∧ o.state.compacting = s.compacting

theorem quiet_lock : Quiet size i (.lock l : LogCmd L ι ε) := by
  intro ch s o hk ho
  unfold logStep at ho
  rw [if_neg hk] at ho
  dsimp only at ho
  split at ho
  · cases ho
  · obtain rfl := Option.some.inj ho
    exact ⟨rfl, rfl, rfl, rfl⟩

theorem quiet_unlock : Quiet size i (.unlock l : LogCmd L ι ε) := by
  intro ch s o hk ho
  unfold logStep at ho
  rw [if_neg hk] at ho
  obtain rfl := Option.some.inj ho
  exact ⟨rfl, rfl, rfl, rfl⟩

theorem quiet_stat : Quiet size i (.stat : LogCmd L ι ε) := by
  intro ch s o hk ho
  unfold logStep at ho
  rw [if_neg hk] at ho
  obtain rfl := Option.some.inj ho
  exact ⟨rfl, rfl, rfl, rfl⟩

theorem keeps_quiet {c : LogCmd L ι ε} (hc : Quiet size i c) {Q : Except String ((logSig L ι ε).Ans c) → LogState L ι ε → Prop}
    (hQ : ∀ r s', s.written <+: s'.written → Q r s') : Keeps (logPact size ev) i (Prog.perform c) Q s := by
  refine keeps_command fun s' hs hinv ch hk o ho => ?_
  obtain ⟨hcontent, hwritten, htold, hcompacting⟩ := hc ch s' o hk ho
  refine ⟨gives_of hwritten (fun j _ => by rw [hcompacting]) (fun j _ => congrFun htold j) (hinv.1.of_eq hcontent hwritten)
    fun ht => (hinv.2 (congrFun htold i ▸ ht)).later (hwritten ▸ List.prefix_rfl), ?_⟩
  rintro r s'' rfl s₁ hs₁
  exact hQ r s₁ (hs.grows.trans ((hwritten : s''.written = s'.written) ▸ hs₁.grows))

/-- Opening the file may create it. -/
theorem keeps_openAppend : Keeps (logPact size ev) i (Prog.perform (S := logSig L ι ε) .openAppend) (fun _ _ => True) s := by
  refine keeps_command fun s' hs hinv ch hk o ho => ⟨?_, fun _ _ _ _ _ => trivial⟩
  unfold logStep at ho
  rw [if_neg hk] at ho
  dsimp only at ho
  split at ho
  · obtain rfl := Option.some.inj ho
    exact gives_of rfl (fun _ _ => .rfl) (fun _ _ => rfl) hinv.1 hinv.2
  · obtain rfl := Option.some.inj ho
    exact gives_of rfl (fun _ _ => .rfl) (fun _ _ => rfl) hinv.1 hinv.2
  · rename_i hpath
    obtain rfl := Option.some.inj ho
    refine gives_of rfl (fun _ _ => .rfl) (fun _ _ => rfl) (hinv.1.of_eq ?_ rfl) hinv.2
    simp only [Outcome.state, LogState.content, hpath, Function.update_self]

/-- A write adds the line to the file at the path, or to a file that nobody will read. -/
theorem keeps_write {fd : Nat} : Keeps (logPact size ev) i (Prog.perform (S := logSig L ι ε) (.write fd (ev i)))
    (fun r s' => r = .ok () → Wrote i (ev i) s') s := by
  refine keeps_command fun s' hs hinv ch hk o ho => ?_
  unfold logStep at ho
  rw [if_neg hk] at ho
  dsimp only at ho
  split at ho
  · obtain rfl := Option.some.inj ho
    refine ⟨gives_of rfl (fun _ _ => .rfl) (fun _ _ => rfl) hinv.1 hinv.2, ?_⟩
    rintro r s'' he s₁ - rfl
    cases he
  · obtain rfl := Option.some.inj ho
    have hgrows : s'.written <+: s'.written ++ [s'.line i fd (ev i)] := List.prefix_append _ _
    refine ⟨⟨fun j hj => ⟨hgrows, fun hcomp ln hln hun => ?_, .rfl, rfl, fun _ => sound_write hinv.1⟩, sound_write hinv.1,
      fun ht => (hinv.2 ht).later hgrows⟩, ?_⟩
    · rcases List.mem_append.1 hln with hln | hln
      · exact hln
      · -- A line written while `j` compacts is disturbed.
        obtain rfl := List.mem_singleton.1 hln
        exact absurd ((of_decide_eq_true hun).2 j hcomp) hj
    · rintro r s'' he s₁ hs₁ -
      obtain ⟨-, rfl⟩ := Outcome.done.inj he
      exact ⟨_, hs₁.grows.subset (List.mem_append_right _ (List.mem_singleton_self _)), rfl, rfl⟩

/-- What is read for a compaction may be the file until the file is replaced. -/
theorem keeps_readFile : Keeps (logPact size ev) i (Prog.perform (S := logSig L ι ε) .readFile)
    (fun r s' => ∀ b, r = .ok b → s'.MayHold b ∧ i ∈ s'.compacting) s := by
  refine keeps_command fun s' hs hinv ch hk o ho => ?_
  unfold logStep at ho
  rw [if_neg hk] at ho
  dsimp only at ho
  split at ho
  · rename_i n _ hpath
    obtain rfl := Option.some.inj ho
    have hsound : LogState.Sound { s' with compacting := i :: s'.compacting } := hinv.1.of_eq rfl rfl
    refine ⟨gives_of rfl (fun j hj => ⟨fun h => (List.mem_cons.1 h).resolve_left hj, List.mem_cons_of_mem _⟩) (fun _ _ => rfl) hsound hinv.2, ?_⟩
    rintro r s'' he s₁ hs₁ b rfl
    obtain ⟨hb, rfl⟩ := Outcome.done.inj he
    obtain rfl := Except.ok.inj hb
    have hcontent : s'.content = s'.files n := by rw [LogState.content, hpath]
    refine ⟨?_, hs₁.compacting.2 List.mem_cons_self⟩
    rw [← hcontent]
    exact hsound.content.later hs₁.grows (hs₁.still List.mem_cons_self)
  · obtain rfl := Option.some.inj ho
    refine ⟨gives_of rfl (fun _ _ => .rfl) (fun _ _ => rfl) hinv.1 hinv.2, ?_⟩
    rintro r s'' he s₁ - b rfl
    cases he

/-- The file is replaced by lines that may be the file. -/
theorem keeps_replace {lines : List (Line ι ε)} (hlines : s.MayHold lines) (hi : i ∈ s.compacting) :
    Keeps (logPact size ev) i (Prog.perform (S := logSig L ι ε) (.replace lines)) (fun _ _ => True) s := by
  refine keeps_command fun s' hs hinv ch hk o ho => ⟨?_, fun _ _ _ _ _ => trivial⟩
  unfold logStep at ho
  rw [if_neg hk] at ho
  dsimp only at ho
  split at ho
  · obtain rfl := Option.some.inj ho
    exact gives_of rfl (fun j hj => mem_compacted hj) (fun _ _ => rfl) (hinv.1.of_eq rfl rfl) hinv.2
  · obtain rfl := Option.some.inj ho
    refine gives_of rfl (fun j hj => mem_compacted hj) (fun _ _ => rfl) ⟨?_, hinv.1.numbered⟩ hinv.2
    simp only [Outcome.state, LogState.content, Function.update_self]
    exact (hlines.later hs.grows (hs.still hi)).later List.prefix_rfl fun _ h _ => h

theorem keeps_compactLocked {maxBytes : Nat} :
    Keeps (logPact size ev) i (compactLocked size maxBytes : Prog (logSig L ι ε) Unit) (fun _ _ => True) s :=
  keeps_bind keeps_readFile (fun b _ hb => keeps_replace ((hb b rfl).1.suffix (compacted_suffix maxBytes b)) (hb b rfl).2)
    fun _ _ _ _ _ => trivial

theorem keeps_appendLine : Keeps (logPact size ev) i (appendLine (ev i) : Prog (logSig L ι ε) Unit)
    (fun r s' => r = .ok () → Wrote i (ev i) s') s :=
  keeps_bind keeps_openAppend (fun _ _ _ => keeps_write) fun _ _ _ _ _ h => (by cases h)

theorem keeps_appendAfterCompact {maxBytes : Nat} (tries : Nat) : ∀ s : LogState L ι ε,
    Keeps (logPact size ev) i (appendAfterCompact size maxBytes (ev i) tries : Prog (logSig L ι ε) Unit)
      (fun r s' => r = .ok () → Wrote i (ev i) s') s := by
  induction tries with
  | zero => exact fun s => keeps_fail fun _ _ h => (by cases h)
  | succ tries ih =>
    intro s
    refine keeps_bind (P := fun _ _ => True) (keeps_quiet (s := s) quiet_stat fun _ _ _ => trivial) (fun st s₁ _ => ?_)
      fun _ _ _ _ _ h => (by cases h)
    dsimp only
    split
    · exact keeps_appendLine
    · split
      · exact keeps_appendLine
      · refine keeps_bind (P := fun _ _ => True) (keeps_mapErr (keeps_compactLocked.post fun _ _ _ => trivial)) (fun _ s₂ _ => ih s₂)
          fun _ _ _ _ _ h => (by cases h)

theorem keeps_appendLocked {maxBytes : Nat} : Keeps (logPact size ev) i
    (appendLocked size maxBytes (ev i) : Prog (logSig L ι ε) Unit) (fun r s' => r = .ok () → Wrote i (ev i) s') s := by
  refine keeps_bind (keeps_appendAfterCompact 3 s) (fun _ s₁ hev => ?_) fun _ _ _ _ _ h => (by cases h)
  refine keeps_bind (P := fun _ (s' : LogState L ι ε) => Wrote i (ev i) s') (keeps_quiet quiet_stat fun _ _ h => (hev rfl).later h)
    (fun st s₂ hev => ?_) fun _ _ _ _ _ h => (by cases h)
  cases st with
  | none => exact keeps_fail fun _ _ h => (by cases h)
  | some n =>
    dsimp only
    split
    · exact keeps_fail fun _ _ h => (by cases h)
    · exact keeps_ret fun s₃ hs _ => hev.later hs.grows

/-- Success is told when the event was written. -/
theorem keeps_succeeded (hev : Wrote i (ev i) s) :
    Keeps (logPact size ev) i (Prog.perform (S := logSig L ι ε) .succeeded) (fun _ _ => True) s := by
  refine keeps_command fun s' hs hinv ch hk o ho => ⟨?_, fun _ _ _ _ _ => trivial⟩
  unfold logStep at ho
  rw [if_neg hk] at ho
  obtain rfl := Option.some.inj ho
  exact gives_of rfl (fun _ _ => .rfl) (fun j hj => Function.update_of_ne hj _ _) (hinv.1.of_eq rfl rfl) fun _ => hev.later hs.grows

theorem keeps_append {maxBytes : Nat} : Keeps (logPact size ev) i (append size l maxBytes (ev i)) (fun _ _ => True) s := by
  unfold append
  split
  · exact keeps_fail fun _ _ => trivial
  · refine keeps_bind (P := fun _ _ => True) (keeps_quiet quiet_lock fun _ _ _ => trivial) (fun _ s₁ _ => ?_) fun _ _ _ _ _ => trivial
    refine keeps_bind (P := fun r (s' : LogState L ι ε) => r = .ok (.ok ()) → Wrote i (ev i) s') (keeps_attempt ?_) (fun r s₂ hr => ?_)
      fun _ _ _ _ _ => trivial
    · exact keeps_appendLocked.post fun r s' h he => h (Except.ok.inj he)
    · refine keeps_bind (P := fun _ (s' : LogState L ι ε) => r = .ok () → Wrote i (ev i) s')
        (keeps_quiet quiet_unlock fun _ _ h he => (hr (congrArg Except.ok he)).later h) (fun _ s₃ hev => ?_) fun _ _ _ _ _ => trivial
      refine keeps_bind (P := fun x (s' : LogState L ι ε) => x = .ok () → Wrote i (ev i) s')
        (keeps_ofExcept fun s' hs he => (hev he).later hs.grows) (fun _ s₄ hev => ?_) fun _ _ _ _ _ => trivial
      exact keeps_succeeded (hev rfl)

/-! ## Runs -/

/-- Appends that are all about to begin, each by a logger with its mutex and cap. -/
def appends (size : ε → Nat) (logger : ι → L) (maxBytes : L → Nat) (ev : ι → ε) (s : LogState L ι ε) :
    Pool (logHost (L := L) (ι := ι) size) Unit where
  state := s
  rest i := some (append size (logger i) (maxBytes (logger i)) (ev i))

/-- In every run of any appends, by any loggers, an event whose append succeeded was written, and it is in the file, or all that is in
the file was written later, or its write was disturbed. -/
theorem no_event_lost (size : ε → Nat) (logger : ι → L) (maxBytes : L → Nat) (ev : ι → ε) (s : LogState L ι ε) (hs : Begins s)
    (sched : List (ι × LogChoice)) (i : ι) (htold : ((appends size logger maxBytes ev s).after sched).state.told i = true) :
    ∃ ln ∈ ((appends size logger maxBytes ev s).after sched).state.written, ln.writer = some i ∧ ln.event = ev i ∧
      (ln.undisturbed = true → ln.KeptIn ((appends size logger maxBytes ev s).after sched).state.content) := by
  have hkeeping : (appends size logger maxBytes ev s).Keeping (logPact size ev) := by
    refine fun j => ⟨⟨hs.sound, fun ht => ?_⟩, fun q hq => ⟨fun _ _ => True, ?_⟩⟩
    · rw [show (appends size logger maxBytes ev s).state.told j = false from hs.told j] at ht
      cases ht
    · obtain rfl := Option.some.inj hq
      exact keeps_append
  obtain ⟨hsound, hwrote⟩ := hkeeping.inv (Pool.legal_of_all (fun _ _ _ _ => trivial) sched _) i
  obtain ⟨ln, hln, hwriter, hevent⟩ := hwrote htold
  exact ⟨ln, hln, hwriter, hevent, hsound.content.kept ln hln⟩

/-! ## Two loggers -/

/-- An events file that is nearly full: two lines of 130000 bytes each. -/
def nearlyFull : LogState Bool Bool Nat where
  files _ := [{ event := 0, number := 0 }, { event := 1, number := 1 }]
  path := some 0
  fresh := 1
  written := [{ event := 0, number := 0 }, { event := 1, number := 1 }]

/-- Two appends of short lines, by loggers of their own with the smallest cap; the line of the first no longer fits. -/
def twoLoggers : Pool (logHost (L := Bool) (ι := Bool) fun e : Nat => if e < 2 then 130000 else if e = 2 then 3000 else 500) Unit :=
  appends _ id (fun _ => 262144) (fun i => if i then 3 else 2) nearlyFull

/-- The turns of a thread, without faults. -/
def logTurns (i : Bool) (n : Nat) : List (Bool × LogChoice) := List.replicate n (i, {})

theorem nearlyFull_begins : Begins nearlyFull := ⟨rfl, rfl, fun _ => rfl⟩

theorem no_event_lost_sample :
    ∃ ln ∈ (twoLoggers.after (logTurns true 7 ++ logTurns false 10)).state.written, ln.writer = some true ∧ ln.event = 3 ∧
      (ln.undisturbed = true → ln.KeptIn (twoLoggers.after (logTurns true 7 ++ logTurns false 10)).state.content) :=
  no_event_lost _ id (fun _ => 262144) (fun i => if i then 3 else 2) nearlyFull nearlyFull_begins _ true (by decide +kernel)

/-- The second append writes while the first one compacts what it read before. -/
def compactionRace : List (Bool × LogChoice) := logTurns false 3 ++ logTurns true 7 ++ logTurns false 7

/-- The event of the second append, which succeeded, is gone, and an older one is kept. -/
theorem event_lost : Begins nearlyFull ∧ (twoLoggers.after compactionRace).state.told true = true ∧
    ((twoLoggers.after compactionRace).state.written.map (·.event)) = [0, 1, 3, 2] ∧
    ((twoLoggers.after compactionRace).state.content.map (·.event)) = [1, 2] ∧
    ¬∃ ln ∈ (twoLoggers.after compactionRace).state.written, ln.writer = some true ∧ ln.event = 3 ∧
      ln.KeptIn (twoLoggers.after compactionRace).state.content :=
  ⟨nearlyFull_begins, by decide +kernel, by decide +kernel, by decide +kernel, by decide +kernel⟩

end EvuProxy.EventLog

import EvuProxy.EventLog.File
import EvuProxy.Theorems.Events
import Mathlib.Data.List.Induction

/-!
# The events file of one logger

The file of a logger that nobody disturbs holds the newest of the records that it has appended, each on a line, within the cap. A record
is refused where it does not fit beside the newest lines that a compaction keeps.
-/

namespace EvuProxy.EventLog

open Fault

/-! ## What a compaction keeps -/

section newest

variable {α : Type} (size : α → Nat)

/-- The newest elements that together take at most `target`, and the newest one in any case. -/
def newestWithin (target : Nat) : List α → List α
  | [] => []
  | [x] => [x]
  | x :: y :: xs => if ((x :: y :: xs).map size).sum ≤ target then x :: y :: xs else newestWithin target (y :: xs)

variable {size} {target : Nat}

theorem newestWithin_suffix : ∀ xs : List α, newestWithin size target xs <:+ xs
  | [] => List.suffix_rfl
  | [_] => List.suffix_rfl
  | x :: y :: xs => by
    rw [newestWithin]
    split
    · exact List.suffix_rfl
    · exact (newestWithin_suffix (y :: xs)).trans (List.suffix_cons x _)

theorem newestWithin_ne_nil {xs : List α} (h : xs ≠ []) : newestWithin size target xs ≠ [] := by
  induction xs with
  | nil => exact h
  | cons x xs ih =>
    cases xs with
    | nil => simp [newestWithin]
    | cons y xs =>
      rw [newestWithin]
      split
      · simp
      · exact ih (by simp)

/-- The newest elements take no more than the target, if the newest one alone does not. -/
theorem newestWithin_le {cap : Nat} (htarget : target ≤ cap) {xs : List α} (h : ∀ x ∈ xs, size x ≤ cap) :
    ((newestWithin size target xs).map size).sum ≤ cap := by
  induction xs with
  | nil => exact Nat.zero_le cap
  | cons x xs ih =>
    cases xs with
    | nil => simpa [newestWithin] using h x List.mem_cons_self
    | cons y xs =>
      rw [newestWithin]
      split
      · exact Nat.le_trans (by assumption) htarget
      · exact ih fun z hz => h z (List.mem_cons_of_mem x hz)

/-- Elements that fit are all kept. -/
theorem newestWithin_fits {xs : List α} (h : (xs.map size).sum ≤ target ∨ xs.length ≤ 1) : newestWithin size target xs = xs := by
  match xs, h with
  | [], _ => rfl
  | [_], _ => rfl
  | x :: y :: xs, h =>
    have hle : ((x :: y :: xs).map size).sum ≤ target := h.resolve_right (by simp)
    rw [newestWithin, if_pos hle]

theorem newestWithin_within : ∀ xs : List α,
    ((newestWithin size target xs).map size).sum ≤ target ∨ (newestWithin size target xs).length ≤ 1
  | [] => .inr (Nat.zero_le 1)
  | [_] => .inr (Nat.le_refl 1)
  | x :: y :: xs => by
    rw [newestWithin]
    split
    · exact .inl (by assumption)
    · exact newestWithin_within (y :: xs)

/-- What stands before elements that do not fit is not kept, and neither is the first of them. -/
theorem newestWithin_over {p ys : List α} {x : α} (hys : ys ≠ []) (h : target < ((x :: ys).map size).sum) :
    newestWithin size target (p ++ x :: ys) = newestWithin size target ys := by
  obtain ⟨y, ys, rfl⟩ := List.exists_cons_of_ne_nil hys
  induction p with
  | nil => rw [List.nil_append, newestWithin, if_neg (Nat.not_le_of_lt h)]
  | cons z p ih =>
    have hover : ¬((z :: (p ++ x :: y :: ys)).map size).sum ≤ target := by
      simp only [List.map_cons, List.map_append, List.sum_cons, List.sum_append] at h ⊢
      omega
    obtain ⟨w, ws, hw⟩ := List.exists_cons_of_ne_nil (show p ++ x :: y :: ys ≠ [] by simp)
    rw [hw] at hover
    rw [List.cons_append, hw, newestWithin, if_neg hover, ← hw, ih]

theorem newestWithin_map {β : Type} (f : β → α) : ∀ xs : List β,
    newestWithin size target (xs.map f) = (newestWithin (size ∘ f) target xs).map f
  | [] => rfl
  | [_] => rfl
  | x :: y :: xs => by
    have hsum : ((f x :: f y :: xs.map f).map size).sum = ((x :: y :: xs).map (size ∘ f)).sum := by simp [Function.comp_def]
    rw [List.map_cons, List.map_cons, newestWithin, newestWithin, hsum]
    split
    · rfl
    · exact newestWithin_map f (y :: xs)

end newest

section compaction

variable {ι ε : Type} {size : ε → Nat}

/-- The loop of a compaction, over the lines before those that are kept so far. -/
theorem keepNewest_eq {target : Nat} (older : List (Line ι ε)) : ∀ kept : List (Line ι ε), kept ≠ [] →
    (fileSize size kept ≤ target ∨ kept.length ≤ 1) →
    keepNewest size target older.reverse (fileSize size kept) kept = newestWithin (fun ln => size ln.event) target (older ++ kept) := by
  induction older using List.reverseRecOn with
  | nil =>
    intro kept _ hfits
    exact (newestWithin_fits hfits).symm
  | append_singleton older ln ih =>
    intro kept hkept hfits
    rw [List.reverse_append, List.reverse_singleton, List.singleton_append, List.append_assoc, List.singleton_append, keepNewest]
    by_cases hover : target < fileSize size kept + size ln.event
    · rw [if_pos ⟨hover, hkept⟩, newestWithin_over hkept, newestWithin_fits hfits]
      simpa [fileSize, Nat.add_comm] using hover
    · have hsize : fileSize size (ln :: kept) = fileSize size kept + size ln.event := by simp [fileSize, Nat.add_comm]
      rw [if_neg (fun h => hover h.1), ← hsize, ih (ln :: kept) (by simp) (Or.inl (by omega))]

theorem dropOldest_eq {maxBytes : Nat} {lines : List (Line ι ε)} (h : fileSize size lines ≤ maxBytes) :
    dropOldest size maxBytes lines = lines := by
  match lines, h with
  | [], _ => rfl
  | [_], _ => rfl
  | ln :: ln' :: lns, h => rw [dropOldest, if_neg (Nat.not_lt_of_le h)]

/-- The part of the cap that a compaction fills. -/
def compactionTarget (maxBytes : Nat) : Nat := max (maxBytes * 80 / 100) 1024

/-- A compaction keeps the newest lines within the target. -/
theorem compacted_eq {maxBytes : Nat} (htarget : compactionTarget maxBytes ≤ maxBytes) {lines : List (Line ι ε)}
    (hfit : ∀ ln ∈ lines, size ln.event ≤ maxBytes) :
    compacted size maxBytes lines = newestWithin (fun ln => size ln.event) (compactionTarget maxBytes) lines := by
  have hkeep : keepNewest size (compactionTarget maxBytes) lines.reverse 0 [] =
      newestWithin (fun ln => size ln.event) (compactionTarget maxBytes) lines := by
    induction lines using List.reverseRecOn with
    | nil => rfl
    | append_singleton older ln _ =>
      rw [List.reverse_append, List.reverse_singleton, List.singleton_append, keepNewest, if_neg (by simp)]
      have h := @keepNewest_eq ι ε size (compactionTarget maxBytes) older [ln] (by simp) (Or.inr (by simp))
      simpa [fileSize] using h
  have hle : fileSize size (newestWithin (fun ln => size ln.event) (compactionTarget maxBytes) lines) ≤ maxBytes :=
    newestWithin_le htarget hfit
  unfold compacted
  rw [show max (maxBytes * 80 / 100) 1024 = compactionTarget maxBytes from rfl, hkeep, dropOldest_eq hle]
  exact if_neg (Nat.not_lt_of_le hle)

end compaction

/-! ## Lines in bytes -/

/-- The lines of a file of whole lines, and the empty piece after the last newline. -/
theorem splitOn_lines (bodies : List LineBody) :
    (bodies.flatMap LineBody.line).splitOn newline = bodies.map LineBody.bytes ++ [[]] := by
  induction bodies with
  | nil => rfl
  | cons b bodies ih =>
    rw [List.flatMap_cons, LineBody.line, List.append_assoc, List.singleton_append, List.splitOn_eq_splitOnP,
      List.splitOnP_append_cons_of_forall_mem (fun x hx => by simpa using fun h : x = newline => b.oneLine (h ▸ hx)) newline (by simp),
      ← List.splitOn_eq_splitOnP, ih]
    rfl

/-- The lines of a file of whole lines are found again. -/
theorem splitLines_lines (bodies : List LineBody) : splitLines (bodies.flatMap LineBody.line) = bodies.map LineBody.line := by
  rw [splitLines, splitOn_lines, List.filter_append, List.filter_eq_self.2]
  · simp [trimLine, LineBody.line, Function.comp_def]
  · intro ln hln
    obtain ⟨b, -, rfl⟩ := List.mem_map.1 hln
    simpa [b.trimmed] using b.notBlank

section file

variable {ρ : Type} (codec : Codec ρ)

/-- The line of a record. -/
def recordLine (r : ρ) : List UInt8 := (codec.lineBytes r).line

/-- The length of the line of a record. -/
def recordSize (r : ρ) : Nat := (recordLine codec r).length

/-- The bytes of a file that holds records, each on a line. -/
def fileOf (kept : List ρ) : List UInt8 := kept.flatMap (recordLine codec)

variable {codec}

theorem fileOf_eq (kept : List ρ) : fileOf codec kept = (kept.map codec.lineBytes).flatMap LineBody.line := by
  rw [fileOf, List.flatMap_map]
  rfl

theorem splitLines_fileOf (kept : List ρ) : splitLines (fileOf codec kept) = kept.map (recordLine codec) := by
  rw [fileOf_eq, splitLines_lines, List.map_map]
  rfl

theorem length_fileOf (kept : List ρ) : (fileOf codec kept).length = (kept.map (recordSize codec)).sum := by
  rw [fileOf, List.length_flatMap]
  rfl

theorem fileOf_snoc (kept : List ρ) (r : ρ) : fileOf codec (kept ++ [r]) = fileOf codec kept ++ recordLine codec r := by
  simp [fileOf]

/-- What a compaction makes of a file of records. -/
theorem compacted_fileOf {maxBytes : Nat} (htarget : compactionTarget maxBytes ≤ maxBytes) {kept : List ρ}
    (hfit : ∀ r ∈ kept, recordSize codec r ≤ maxBytes) :
    (compacted (ι := Unit) List.length maxBytes ((splitLines (fileOf codec kept)).map fun ln => { event := ln, number := 0 })).flatMap
        (fun ln => ln.event) =
      fileOf codec (newestWithin (recordSize codec) (compactionTarget maxBytes) kept) := by
  rw [splitLines_fileOf, List.map_map, compacted_eq htarget, newestWithin_map, List.flatMap_map]
  · rfl
  · intro ln hln
    obtain ⟨r, hr, rfl⟩ := List.mem_map.1 hln
    exact hfit r hr

/-! ## One append -/

variable {maxBytes : Nat} {file : Option (List UInt8)} {line : List UInt8}

/-- A command on the disk. -/
theorem runsTo_disk (c : LogCmd Unit Unit (List UInt8)) :
    RunsTo logDisk (Prog.perform (S := logSig Unit Unit (List UInt8)) c) file (diskStep c file).1 (diskStep c file).2 :=
  runsTo_perform rfl

theorem runsTo_appendLine : RunsTo logDisk (appendLine line) file (.ok ()) (some (file.getD [] ++ line)) :=
  runsTo_bind (runsTo_disk .openAppend) (runsTo_disk (.write 0 line))

theorem stat_length : (file.map List.length).getD 0 = (file.getD []).length := by
  cases file <;> rfl

theorem runsTo_appendAfterCompact_fits (tries : Nat) (h : (file.getD []).length + line.length ≤ maxBytes) :
    RunsTo logDisk (appendAfterCompact List.length maxBytes line (tries + 1)) file (.ok ()) (some (file.getD [] ++ line)) := by
  refine runsTo_bind (runsTo_disk .stat) ?_
  rw [← stat_length] at h
  exact runsTo_if h runsTo_appendLine

/-- A file that is too full is compacted, and the append is tried again. -/
theorem runsTo_appendAfterCompact_full {tries : Nat} {b : List UInt8} {r : Except String Unit} {file' : Option (List UInt8)}
    (h : maxBytes < b.length + line.length) (hb : b ≠ [])
    (hrest : RunsTo logDisk (appendAfterCompact List.length maxBytes line tries)
      (some ((compacted (ι := Unit) List.length maxBytes ((splitLines b).map fun ln => { event := ln, number := 0 })).flatMap
        fun ln => ln.event)) r file') :
    RunsTo logDisk (appendAfterCompact List.length maxBytes line (tries + 1)) (some b) r file' := by
  refine runsTo_bind (runsTo_disk .stat) ?_
  have hfull : ¬((some b).map List.length).getD 0 + line.length ≤ maxBytes := Nat.not_le_of_lt h
  have hnonempty : ¬((some b).map List.length).getD 0 = 0 := fun h => hb (List.length_eq_zero_iff.1 h)
  simp only [diskStep, if_neg hfull, if_neg hnonempty]
  have hcompact : RunsTo logDisk (compactLocked (L := Unit) (ι := Unit) List.length maxBytes) (some b) (.ok ()) _ :=
    runsTo_bind (runsTo_disk .readFile) (runsTo_disk (.replace _))
  exact runsTo_bind (runsTo_mapErr hcompact) hrest

/-- An append that has its file within the cap succeeds, and leaves it so. -/
theorem runsTo_append_ok {b : List UInt8} (hline : line.length ≤ maxBytes)
    (hafter : RunsTo logDisk (appendAfterCompact List.length maxBytes line 3) file (.ok ()) (some b)) (hb : b.length ≤ maxBytes) :
    RunsTo logDisk (appendBytes maxBytes line) file (.ok ()) (some b) := by
  rw [appendBytes, append, if_neg (Nat.not_lt_of_le hline)]
  have hlocked : RunsTo logDisk (appendLocked (L := Unit) (ι := Unit) List.length maxBytes line) file (.ok ()) (some b) := by
    refine runsTo_bind hafter (runsTo_bind (runsTo_disk .stat) ?_)
    simp only [Option.map_some, if_neg (Nat.not_lt_of_le hb)]
    exact runsTo_ret
  refine runsTo_bind (runsTo_disk (.lock ())) (runsTo_bind (runsTo_attempt hlocked) (runsTo_bind (runsTo_disk (.unlock ())) ?_))
  exact runsTo_bind runsTo_ofExcept (runsTo_disk .succeeded)

theorem runsTo_append_error {e : String} {file' : Option (List UInt8)} (hline : line.length ≤ maxBytes)
    (hafter : RunsTo logDisk (appendAfterCompact List.length maxBytes line 3) file (.error e) file') :
    RunsTo logDisk (appendBytes maxBytes line) file (.error e) file' := by
  rw [appendBytes, append, if_neg (Nat.not_lt_of_le hline)]
  have hlocked : RunsTo logDisk (appendLocked (L := Unit) (ι := Unit) List.length maxBytes line) file (.error e) file' :=
    runsTo_bind_error hafter
  refine runsTo_bind (runsTo_disk (.lock ())) (runsTo_bind (runsTo_attempt hlocked) (runsTo_bind (runsTo_disk (.unlock ())) ?_))
  exact runsTo_bind_error runsTo_ofExcept

/-! ## Runs -/

/-- The file of a logger, with the records that it has appended, in order. -/
inductive Reached (codec : Codec ρ) (maxBytes : Nat) : List ρ → Option (List UInt8) → Prop where
  | start : Reached codec maxBytes [] none
  | appended {rs : List ρ} {file file' : Option (List UInt8)} (r : ρ) : Reached codec maxBytes rs file →
      RunsTo logDisk (appendBytes maxBytes (recordLine codec r)) file (.ok ()) file' → Reached codec maxBytes (rs ++ [r]) file'
  | refused {rs : List ρ} {file file' : Option (List UInt8)} {e : String} (r : ρ) : Reached codec maxBytes rs file →
      RunsTo logDisk (appendBytes maxBytes (recordLine codec r)) file (.error e) file' → Reached codec maxBytes rs file'

/-- The file holds the newest of some records, each on a line, within the cap. -/
structure HoldsNewest (codec : Codec ρ) (maxBytes : Nat) (rs kept : List ρ) (file : Option (List UInt8)) : Prop where
  suffix : kept <:+ rs
  bytes : file.getD [] = fileOf codec kept
  bounded : (fileOf codec kept).length ≤ maxBytes

theorem HoldsNewest.size_le {rs kept : List ρ} (h : HoldsNewest codec maxBytes rs kept file) : ∀ r ∈ kept, recordSize codec r ≤ maxBytes := by
  intro r hr
  have hpart : (recordLine codec r).Sublist (fileOf codec kept) := List.sublist_flatten_of_mem (List.mem_map_of_mem hr)
  exact Nat.le_trans hpart.length_le h.bounded

/-- There is room for a record beside the newest records of the file that a compaction keeps. -/
def Room (codec : Codec ρ) (maxBytes : Nat) (kept : List ρ) (r : ρ) : Prop :=
  ((newestWithin (recordSize codec) (compactionTarget maxBytes) kept).map (recordSize codec)).sum + recordSize codec r ≤ maxBytes

theorem newestWithin_sum_le (codec : Codec ρ) (maxBytes : Nat) (kept : List ρ) :
    ((newestWithin (recordSize codec) (compactionTarget maxBytes) kept).map (recordSize codec)).sum ≤ (kept.map (recordSize codec)).sum := by
  obtain ⟨p, hp⟩ := @newestWithin_suffix ρ (recordSize codec) (compactionTarget maxBytes) kept
  conv_rhs => rw [← hp]
  rw [List.map_append, List.sum_append]
  omega

/-- A file that has no room for a record on top of what it holds is there, and a compaction leaves its newest records. -/
theorem HoldsNewest.compacts (htarget : compactionTarget maxBytes ≤ maxBytes) {rs kept : List ρ}
    (h : HoldsNewest codec maxBytes rs kept file) {r : ρ} (hr : recordSize codec r ≤ maxBytes)
    (hfull : maxBytes < (fileOf codec kept).length + recordSize codec r) {tries : Nat} {x : Except String Unit}
    {file' : Option (List UInt8)}
    (hrest : RunsTo logDisk (appendAfterCompact List.length maxBytes (recordLine codec r) tries)
      (some (fileOf codec (newestWithin (recordSize codec) (compactionTarget maxBytes) kept))) x file') :
    RunsTo logDisk (appendAfterCompact List.length maxBytes (recordLine codec r) (tries + 1)) file x file' := by
  have hnonempty : fileOf codec kept ≠ [] := by
    intro hnil
    rw [hnil, List.length_nil] at hfull
    omega
  obtain rfl : file = some (fileOf codec kept) := by
    have hbytes := h.bytes
    cases file with
    | none => exact absurd hbytes.symm hnonempty
    | some b => exact congrArg some hbytes
  refine runsTo_appendAfterCompact_full hfull hnonempty ?_
  rw [compacted_fileOf htarget h.size_le]
  exact hrest

theorem HoldsNewest.newest (htarget : compactionTarget maxBytes ≤ maxBytes) {rs kept : List ρ} (h : HoldsNewest codec maxBytes rs kept file) :
    HoldsNewest codec maxBytes rs (newestWithin (recordSize codec) (compactionTarget maxBytes) kept)
      (some (fileOf codec (newestWithin (recordSize codec) (compactionTarget maxBytes) kept))) where
  suffix := (newestWithin_suffix kept).trans h.suffix
  bytes := rfl
  bounded := by
    rw [length_fileOf]
    exact newestWithin_le htarget h.size_le

theorem HoldsNewest.snoc {rs kept : List ρ} (h : HoldsNewest codec maxBytes rs kept file) {r : ρ}
    (hfits : (fileOf codec kept).length + recordSize codec r ≤ maxBytes) :
    HoldsNewest codec maxBytes (rs ++ [r]) (kept ++ [r]) (some (file.getD [] ++ recordLine codec r)) where
  suffix := by
    obtain ⟨p, rfl⟩ := h.suffix
    exact ⟨p, (List.append_assoc _ _ _).symm⟩
  bytes := by
    rw [Option.getD_some, h.bytes, fileOf_snoc]
  bounded := by
    rw [fileOf_snoc, List.length_append]
    exact hfits

/-- A record that fits on top of what the file holds is appended. -/
theorem HoldsNewest.runsTo_fits {rs kept : List ρ} (h : HoldsNewest codec maxBytes rs kept file) {r : ρ} (hr : recordSize codec r ≤ maxBytes)
    (hfits : (fileOf codec kept).length + recordSize codec r ≤ maxBytes) :
    RunsTo logDisk (appendBytes maxBytes (recordLine codec r)) file (.ok ()) (some (file.getD [] ++ recordLine codec r)) := by
  have hnext := h.snoc hfits
  have hafter := runsTo_appendAfterCompact_fits 2 (show (file.getD []).length + (recordLine codec r).length ≤ maxBytes by
    rw [h.bytes]
    exact hfits)
  have hbounded := hnext.bounded
  rw [← hnext.bytes] at hbounded
  exact runsTo_append_ok hr hafter hbounded

/-- A record that there is room for is appended. -/
theorem HoldsNewest.appends (htarget : compactionTarget maxBytes ≤ maxBytes) {rs kept : List ρ}
    (h : HoldsNewest codec maxBytes rs kept file) {r : ρ} (hr : recordSize codec r ≤ maxBytes) (hroom : Room codec maxBytes kept r) :
    ∃ kept' file', RunsTo logDisk (appendBytes maxBytes (recordLine codec r)) file (.ok ()) file' ∧
      HoldsNewest codec maxBytes (rs ++ [r]) (kept' ++ [r]) file' := by
  by_cases hfits : (fileOf codec kept).length + recordSize codec r ≤ maxBytes
  · exact ⟨kept, _, h.runsTo_fits hr hfits, h.snoc hfits⟩
  · have hnewest := h.newest htarget
    have hroom' : (fileOf codec (newestWithin (recordSize codec) (compactionTarget maxBytes) kept)).length + recordSize codec r ≤ maxBytes := by
      rw [length_fileOf]
      exact hroom
    have hnext := hnewest.snoc hroom'
    have hafter := h.compacts htarget hr (Nat.lt_of_not_le hfits) (runsTo_appendAfterCompact_fits 1 hroom')
    have hbounded := hnext.bounded
    rw [← hnext.bytes] at hbounded
    exact ⟨_, _, runsTo_append_ok hr hafter hbounded, hnext⟩

/-- A record that there is no room for is refused, and a compaction is left. -/
theorem HoldsNewest.refuses (htarget : compactionTarget maxBytes ≤ maxBytes) {rs kept : List ρ}
    (h : HoldsNewest codec maxBytes rs kept file) {r : ρ} (hr : recordSize codec r ≤ maxBytes) (hroom : ¬Room codec maxBytes kept r) :
    ∃ kept' e file', RunsTo logDisk (appendBytes maxBytes (recordLine codec r)) file (.error e) file' ∧
      HoldsNewest codec maxBytes rs kept' file' := by
  have hnewest := h.newest htarget
  -- A compaction of what a compaction left changes nothing, so none of the three tries makes room.
  have hagain : newestWithin (recordSize codec) (compactionTarget maxBytes)
      (newestWithin (recordSize codec) (compactionTarget maxBytes) kept) =
      newestWithin (recordSize codec) (compactionTarget maxBytes) kept := newestWithin_fits (newestWithin_within kept)
  have hfull : maxBytes < (fileOf codec (newestWithin (recordSize codec) (compactionTarget maxBytes) kept)).length + recordSize codec r := by
    rw [length_fileOf]
    exact Nat.lt_of_not_le hroom
  have hfirst : maxBytes < (fileOf codec kept).length + recordSize codec r := by
    have hle := newestWithin_sum_le codec maxBytes kept
    rw [length_fileOf] at hfull ⊢
    omega
  refine ⟨_, "events compaction failed after retries", _, runsTo_append_error hr ?_, hnewest⟩
  refine h.compacts htarget hr hfirst ?_
  refine hnewest.compacts htarget hr hfull ?_
  rw [hagain]
  refine hnewest.compacts htarget hr hfull ?_
  rw [hagain]
  rfl

/-- What an append of a record ends with, and what it leaves. -/
theorem HoldsNewest.step (htarget : compactionTarget maxBytes ≤ maxBytes) {rs kept : List ρ} (h : HoldsNewest codec maxBytes rs kept file)
    {r : ρ} {x : Except String Unit} {file' : Option (List UInt8)}
    (hrun : RunsTo logDisk (appendBytes maxBytes (recordLine codec r)) file x file') :
    (x = .ok () ∧ recordSize codec r ≤ maxBytes ∧ Room codec maxBytes kept r ∧
        ∃ kept', HoldsNewest codec maxBytes (rs ++ [r]) (kept' ++ [r]) file') ∨
      ((∃ e, x = .error e) ∧ (recordSize codec r ≤ maxBytes → ¬Room codec maxBytes kept r) ∧
        ∃ kept', HoldsNewest codec maxBytes rs kept' file') := by
  by_cases hr : recordSize codec r ≤ maxBytes
  · by_cases hroom : Room codec maxBytes kept r
    · obtain ⟨kept', file'', hok, hnext⟩ := h.appends htarget hr hroom
      obtain ⟨rfl, rfl⟩ := hrun.unique hok
      exact .inl ⟨rfl, hr, hroom, kept', hnext⟩
    · obtain ⟨kept', e, file'', herror, hnext⟩ := h.refuses htarget hr hroom
      obtain ⟨rfl, rfl⟩ := hrun.unique herror
      exact .inr ⟨⟨e, rfl⟩, fun _ => hroom, kept', hnext⟩
  · have hlong : RunsTo logDisk (appendBytes maxBytes (recordLine codec r)) file (.error "event line exceeds max bytes") file := by
      have hlt : maxBytes < (recordLine codec r).length := Nat.lt_of_not_le hr
      rw [appendBytes, append, if_pos hlt]
      rfl
    obtain ⟨rfl, rfl⟩ := hrun.unique hlong
    exact .inr ⟨⟨_, rfl⟩, fun h => absurd h hr, kept, h⟩

/-- Whatever was appended, the file holds the newest records. -/
theorem Reached.holds (htarget : compactionTarget maxBytes ≤ maxBytes) {rs : List ρ} (h : Reached codec maxBytes rs file) :
    ∃ kept, HoldsNewest codec maxBytes rs kept file := by
  induction h with
  | start => exact ⟨[], List.nil_suffix, rfl, Nat.zero_le maxBytes⟩
  | appended r _ hrun ih =>
    obtain ⟨kept, hkept⟩ := ih
    rcases hkept.step htarget hrun with ⟨-, -, -, kept', hnext⟩ | ⟨⟨e, he⟩, -⟩
    · exact ⟨kept' ++ [r], hnext⟩
    · cases he
  | refused r _ hrun ih =>
    obtain ⟨kept, hkept⟩ := ih
    rcases hkept.step htarget hrun with ⟨he, -⟩ | ⟨-, -, hnext⟩
    · cases he
    · exact hnext

theorem target_le_cap (requested : Nat) : compactionTarget (loggerCap requested) ≤ loggerCap requested := by
  have hmin : 1024 ≤ loggerCap requested := by
    unfold loggerCap minMaxBytes maxMaxBytes
    omega
  unfold compactionTarget
  omega

/-- There is room for a line beside the newest lines of the file: those that together take at most 80 % of the cap, and the newest one in
any case. -/
def HasRoom (maxBytes : Nat) (file : Option (List UInt8)) (line : List UInt8) : Prop :=
  ((newestWithin List.length (compactionTarget maxBytes) (splitLines (file.getD []))).map List.length).sum + line.length ≤ maxBytes

theorem HoldsNewest.room_iff {rs kept : List ρ} (h : HoldsNewest codec maxBytes rs kept file) (r : ρ) :
    Room codec maxBytes kept r ↔ HasRoom maxBytes file (recordLine codec r) := by
  rw [Room, HasRoom, h.bytes, splitLines_fileOf, newestWithin_map, List.map_map]
  rfl

/-- What an append of a record does as it should: it leaves whole lines within the cap, the newest of those appended and its own the last of
them; and it succeeds if the line alone is within the cap. -/
structure AppendsWell (codec : Codec ρ) (maxBytes : Nat) (rs : List ρ) (file : Option (List UInt8)) (r : ρ) : Prop where
  leaves : ∀ file', RunsTo logDisk (appendBytes maxBytes (recordLine codec r)) file (.ok ()) file' →
    ∃ kept, kept ++ [r] <:+ rs ++ [r] ∧ file' = some (fileOf codec (kept ++ [r])) ∧ (fileOf codec (kept ++ [r])).length ≤ maxBytes
  succeeds : (recordLine codec r).length ≤ maxBytes →
    ∃ file', RunsTo logDisk (appendBytes maxBytes (recordLine codec r)) file (.ok ()) file'

theorem HoldsNewest.file_eq {rs kept : List ρ} {r : ρ} (h : HoldsNewest codec maxBytes rs (kept ++ [r]) file) :
    file = some (fileOf codec (kept ++ [r])) := by
  have hbytes := h.bytes
  cases file with
  | some b => exact congrArg some hbytes
  | none =>
    rw [fileOf_snoc, recordLine, LineBody.line] at hbytes
    simp at hbytes

end file

/-! ## Two long records -/

namespace Sample

/-- How the line of an event of the first second of 2026 begins. -/
def head : List UInt8 := "\x7b\"ts\":\"2026-01-01T00:00:00Z\",\"event\":\"login\",\"detail\":\"".toList.flatMap String.utf8EncodeChar

/-- The line, with so many letters of detail. -/
def body (n : Nat) : LineBody where
  bytes := head ++ (List.replicate n 0x61 ++ [0x22, 0x7D])
  oneLine := by
    have hhead : newline ∉ head := by decide
    have hletters : newline ∉ List.replicate n 0x61 := fun h => absurd (List.eq_of_mem_replicate h) (by decide)
    simp only [List.mem_append, not_or]
    exact ⟨hhead, hletters, by decide⟩
  notBlank := by simp
  trimmed := by
    have hhead : head = 0x7B :: head.tail := by decide
    have hfirst : isLineSpace 0x7B = false := by decide
    have hlast : isLineSpace 0x7D = false := by decide
    rw [hhead]
    simp [trimLine, hfirst, hlast]

/-- Events that differ in the length of their details. -/
def codec : Codec Nat where
  lineBytes := body
  unmarshal ln := some (ln.length - (body 0).bytes.length)
  ts _ := 1767225600
  unmarshal_lineBytes n := by
    simp only [body, List.length_append, List.length_replicate]
    congr 1
    omega

theorem recordLine_length (n : Nat) : (recordLine codec n).length = n + 58 := by
  have hhead : head.length = 55 := by decide
  simp only [recordLine, LineBody.line, codec, body, List.length_append, List.length_replicate, hhead, List.length_cons, List.length_nil]
  omega

theorem cap_eq : loggerCap 0 = 262144 := by decide

end Sample

/-- A long record is appended to an empty log, and another one that does not fit beside it is refused. -/
theorem refused_beside {n m : Nat} (hn : n + 58 ≤ loggerCap 0) (hm : m + 58 ≤ loggerCap 0) (hboth : loggerCap 0 < n + m) :
    ∃ file, Reached Sample.codec (loggerCap 0) [n] file ∧ (recordLine Sample.codec m).length ≤ loggerCap 0 ∧
      ¬AppendsWell Sample.codec (loggerCap 0) [n] file m := by
  have htarget := target_le_cap 0
  have hstart : HoldsNewest Sample.codec (loggerCap 0) [] [] none := ⟨List.nil_suffix, rfl, Nat.zero_le _⟩
  have hlong : recordSize Sample.codec n ≤ loggerCap 0 := by
    rw [recordSize, Sample.recordLine_length]
    exact hn
  have hshort : (recordLine Sample.codec m).length ≤ loggerCap 0 := by
    rw [Sample.recordLine_length]
    exact hm
  obtain ⟨kept', file, hrun, hkept⟩ := hstart.appends htarget hlong (by simpa [Room, newestWithin] using hlong)
  refine ⟨file, Reached.appended n .start hrun, hshort, fun hwell => ?_⟩
  -- The log holds the first record alone, and no compaction takes it away.
  obtain rfl : kept' = [] := by
    have hle := hkept.suffix.length_le
    simp only [List.nil_append, List.length_append, List.length_singleton] at hle
    exact List.length_eq_zero_iff.1 (by omega)
  obtain ⟨file', hok⟩ := hwell.succeeds hshort
  rcases hkept.step htarget hok with ⟨-, -, hroom, -⟩ | ⟨⟨e, he⟩, -⟩
  · simp only [Room, List.nil_append, newestWithin, List.map_cons, List.map_nil, List.sum_cons, List.sum_nil, recordSize,
      Sample.recordLine_length] at hroom
    omega
  · cases he

end EvuProxy.EventLog

import EvuProxy.Apply.Archive
import EvuProxy.Go.Pieces

/-!
# Where a restore writes

A member of an archive is tested under the path that its name gives and extracted to the path that this path gives once more. The two
agree on the file that is meant, unless the name still starts with a slash after the reader has taken one away.
-/

namespace EvuProxy

open Go Fault Fault.Prog

/-- The config directory, by the components of its absolute path. -/
structure ConfigDir where
  path : List String
  proper : ∀ c ∈ path, Proper c

variable {root : ConfigDir} {m : TarHeader}

/-! ## What a member comes to -/

/-- The components of the name of a member. -/
def TarHeader.parts (m : TarHeader) : List String := components (entryName m.name)

/-- The name of a member goes up. -/
def TarHeader.GoesUp (m : TarHeader) : Prop := ¬NoDotDot (entryName m.name)

instance (m : TarHeader) : Decidable m.GoesUp := inferInstanceAs (Decidable (¬_))

/-- The name of a member still starts with a slash, after one has been taken away. -/
def TarHeader.Doubled (m : TarHeader) : Prop := isRooted (entryName m.name) = true

instance (m : TarHeader) : Decidable m.Doubled := inferInstanceAs (Decidable (_ = true))

/-- The path that a member names is the config directory itself or starts with session state. -/
def TarHeader.Excluded (m : TarHeader) : Prop := ∀ c, m.parts.head? = some c → IsStateName c

instance (m : TarHeader) : Decidable m.Excluded :=
  decidable_of_iff (∀ c ∈ m.parts.head?, IsStateName c) (by simp [TarHeader.Excluded])

/-- A member that `Restore` passes over. -/
def TarHeader.Skipped (m : TarHeader) : Prop := ¬m.GoesUp ∧ ¬m.Doubled ∧ m.Excluded

instance (m : TarHeader) : Decidable m.Skipped := inferInstanceAs (Decidable (_ ∧ _))

/-- The size in the header is not one that `writeExtractedFile` takes. -/
def TarHeader.BadSize (m : TarHeader) : Prop := maxFile < m.size ∨ m.size < 0

instance (m : TarHeader) : Decidable m.BadSize := inferInstanceAs (Decidable (_ ∨ _))

theorem parts_proper (h : ¬m.GoesUp) : ∀ c ∈ m.parts, Proper c := fun _ hc => proper_of_mem_components (not_not.mp h) hc

theorem target_proper (root : ConfigDir) (h : ¬m.GoesUp) : ∀ c ∈ root.path ++ m.parts, Proper c := by
  intro c hc
  rcases List.mem_append.mp hc with hc | hc
  · exact root.proper c hc
  · exact parts_proper h c hc

/-- The test on a path that does not go up. -/
theorem skips_iff (h : ¬m.GoesUp) :
    (cleanPath (entryName m.name) = "." ∨ isConfirmStateEntry (cleanPath (entryName m.name)) = true) ↔ ¬m.Doubled ∧ m.Excluded := by
  have hclean : NoDotDot (entryName m.name) := not_not.mp h
  have hproper := parts_proper h
  unfold TarHeader.parts at hproper
  unfold TarHeader.Doubled TarHeader.Excluded TarHeader.parts
  cases hr : isRooted (entryName m.name) with
  | true =>
    rw [cleanPath_rooted hr hclean, not_isConfirmStateEntry_absPath]
    have hne : absPath (components (entryName m.name)) ≠ "." := by
      intro he
      have hroot := isRooted_absPath (components (entryName m.name))
      rw [he] at hroot
      exact absurd hroot (by decide)
    simp [hne]
  | false =>
    rw [cleanPath_unrooted hr hclean]
    cases hcs : components (entryName m.name) with
    | nil => simp
    | cons c cs =>
      rw [hcs] at hproper
      have hne : join (c :: cs) "/" ≠ "." := by
        intro he
        have hcomp := components_join hproper
        rw [he] at hcomp
        exact absurd hcomp.symm (by simp [show components "." = [] by decide])
      rw [if_neg (List.cons_ne_nil _ _), isConfirmStateEntry_join (hproper c List.mem_cons_self)]
      simp [hne]

/-- The path that a member is extracted to. -/
theorem restoreTarget_eq (root : ConfigDir) (h : ¬m.GoesUp) : restoreTarget (absPath root.path) (cleanPath (entryName m.name)) =
    if root.path = [] ∧ m.parts ≠ [] then .error "restore: path escapes config directory" else .ok (absPath (root.path ++ m.parts)) := by
  have hclean : NoDotDot (entryName m.name) := not_not.mp h
  have hproper : ∀ c ∈ m.parts, Proper c := parts_proper h
  have hall := target_proper root h
  have hsafe : cleanPath ("/" ++ cleanPath (entryName m.name)) = absPath m.parts := by
    have hrooted : isRooted ("/" ++ cleanPath (entryName m.name)) = true := by
      unfold isRooted hasPrefix
      rw [String.toList_append]
      exact List.isPrefixOf_iff_prefix.mpr (List.prefix_append _ _)
    rw [cleanPath_rooted hrooted (noDotDot_root.mpr (noDotDot_cleanPath hclean)), components_root, components_cleanPath hclean]
    rfl
  unfold restoreTarget
  dsimp only
  rw [hsafe, trimSlash_absPath, joinPath_absPath root.proper hproper, cleanPath_absPath hall]
  by_cases hparts : m.parts = []
  · rw [hparts, List.append_nil, if_neg fun hne => hne.1 rfl, if_neg fun hne => hne.2 rfl]
  · by_cases hroot : root.path = []
    · have hne : absPath m.parts ≠ absPath [] := fun he => hparts (absPath_inj hproper nofun he)
      have hstart : hasPrefix (absPath m.parts) (absPath [] ++ "/") = false := by
        obtain ⟨c, cs, hcs⟩ := List.exists_cons_of_ne_nil hparts
        have hc := hproper c (hcs ▸ List.mem_cons_self)
        by_contra hpre
        obtain ⟨ds, hds⟩ := List.isPrefixOf_iff_prefix.mp (Bool.not_eq_false _ ▸ hpre)
        have hslash : (absPath [] ++ "/").toList = ['/', '/'] := by decide
        have hjoin : (absPath m.parts).toList = '/' :: (join m.parts "/").toList := by
          rw [absPath, String.toList_append]
          rfl
        rw [hslash, hjoin] at hds
        have hfirst : '/' :: ds = (join m.parts "/").toList := (List.cons.inj hds).2
        have hrooted : isRooted (join m.parts "/") = true := by
          unfold isRooted hasPrefix
          rw [← hfirst]
          exact List.isPrefixOf_iff_prefix.mpr ⟨ds, rfl⟩
        rw [hcs, isRooted_join hc] at hrooted
        cases hrooted
      rw [hroot, List.nil_append, if_pos ⟨hne, by simp [hstart]⟩, if_pos ⟨rfl, hparts⟩]
    · have hstart : hasPrefix (absPath (root.path ++ m.parts)) (absPath root.path ++ "/") = true := by
        unfold absPath
        rw [join_slash_append hroot hparts]
        refine List.isPrefixOf_iff_prefix.mpr ⟨(join m.parts "/").toList, ?_⟩
        rw [← String.toList_append]
        simp only [String.append_assoc]
      rw [if_neg fun hne => hne.2 hstart, if_neg fun hboth => hroot hboth.1]

/-! ## One member -/

/-- A member whose name goes up is refused. -/
theorem restoreEntry_goesUp {absRoot : String} (h : m.GoesUp) : ∃ e, restoreEntry absRoot m = .fail e := by
  obtain ⟨e, he⟩ := tarEntryRelPath_error h
  refine ⟨e, ?_⟩
  unfold restoreEntry
  rw [he]
  rfl

theorem restoreEntry_eq {absRoot : String} (h : ¬m.GoesUp) : restoreEntry absRoot m =
    if ¬m.Doubled ∧ m.Excluded then .ret ()
    else (ofExcept (S := fsSig) (restoreTarget absRoot (cleanPath (entryName m.name)))).bind fun target => extractTo target m := by
  have hrel : restoreEntry absRoot m =
      (ofExcept (S := fsSig) (tarEntryRelPath m.name)).bind fun rel => restoreRel absRoot rel m := rfl
  rw [hrel, tarEntryRelPath_ok (not_not.mp h), ofExcept_ok_bind]
  unfold restoreRel
  by_cases hskip : ¬m.Doubled ∧ m.Excluded
  · rw [if_pos hskip, if_pos ((skips_iff h).mpr hskip), pure_eq]
  · rw [if_neg hskip, if_neg fun hs => hskip ((skips_iff h).mp hs), bind_eq]

theorem restoreEntry_skipped {absRoot : String} (h : m.Skipped) : restoreEntry absRoot m = .ret () := by
  rw [restoreEntry_eq h.1, if_pos h.2]

/-- Everything is outside the root directory for the test on the target. -/
theorem restoreEntry_root (hup : ¬m.GoesUp) (hskip : ¬m.Skipped) (hroot : root.path = []) (hparts : m.parts ≠ []) :
    ∃ e, restoreEntry (absPath root.path) m = .fail e := by
  refine ⟨"restore: path escapes config directory", ?_⟩
  rw [restoreEntry_eq hup, if_neg fun hs => hskip ⟨hup, hs⟩, restoreTarget_eq root hup, if_pos ⟨hroot, hparts⟩]
  rfl

theorem restoreEntry_extracts (hup : ¬m.GoesUp) (hskip : ¬m.Skipped) (hroot : root.path = [] → m.parts = []) :
    restoreEntry (absPath root.path) m = extractTo (absPath (root.path ++ m.parts)) m := by
  rw [restoreEntry_eq hup, if_neg fun hs => hskip ⟨hup, hs⟩, restoreTarget_eq root hup, if_neg fun hboth => hboth.2 (hroot hboth.1)]
  rfl

/-! ## Commands -/

/-- A path in the config directory. -/
def Inside (root : ConfigDir) (p : String) : Prop := ∃ cs, (∀ c ∈ cs, Proper c) ∧ p = absPath (root.path ++ cs)

/-- A directory that the config directory is in: it exists, so `MkdirAll` leaves it as it is. -/
def Above (root : ConfigDir) (p : String) : Prop := ∃ cs, cs <+: root.path ∧ p = absPath cs

/-- A path of the confirm session's state: the session directory and what is in it, or the last-revert record. -/
def InState (root : ConfigDir) (p : String) : Prop :=
  ∃ s cs, IsStateName s ∧ (∀ c ∈ s :: cs, Proper c) ∧ p = absPath (root.path ++ s :: cs)

/-- The command writes inside the config directory, if it writes at all. -/
def Confined (root : ConfigDir) : FSCmd → Prop
  | .mkdirAll p => Inside root p ∨ Above root p
  | .createTemp d => Inside root d
  | .rename p => Inside root p
  | _ => True

/-- The command neither creates nor changes session state. -/
def Spares (root : ConfigDir) : FSCmd → Prop
  | .mkdirAll p => ¬InState root p
  | .createTemp d => ¬InState root d
  | .rename p => ¬InState root p
  | _ => True

/-- The commands that write a file, for a predicate that holds of the commands on the temporary file. -/
theorem uses_writeExtractedFile {A : FSCmd → Prop} {path : String} (hcopy : A .copyBody) (hchmod : A .chmod) (hclose : A .close)
    (hremove : A .removeTemp) : (writeExtractedFile path m).Uses A ↔ m.BadSize ∨ (A (.createTemp (dirPath path)) ∧ A (.rename path)) := by
  unfold writeExtractedFile TarHeader.BadSize
  by_cases hbig : maxFile < m.size
  · rw [if_pos hbig]
    exact ⟨fun _ => .inl (.inl hbig), fun _ => uses_fail _⟩
  · rw [if_neg hbig]
    by_cases hneg : m.size < 0
    · rw [if_pos hneg]
      exact ⟨fun _ => .inl (.inr hneg), fun _ => uses_fail _⟩
    · rw [if_neg hneg]
      have hok : ¬(maxFile < m.size ∨ m.size < 0) := not_or.mpr ⟨hbig, hneg⟩
      constructor
      · intro h
        obtain ⟨htemp, hrest⟩ := uses_bind_iff.1 h
        obtain ⟨hbody, _⟩ := uses_bind_iff.1 (hrest () (FSCmd.canReturn_run _))
        have hbody := uses_attempt_iff.1 hbody
        have h₁ := (uses_bind_iff.1 hbody).2 () (FSCmd.canReturn_run _)
        have h₂ := (uses_bind_iff.1 h₁).2 () (FSCmd.canReturn_run _)
        have h₃ := (uses_bind_iff.1 h₂).2 () (FSCmd.canReturn_run _)
        exact .inr ⟨uses_perform_iff.1 htemp, uses_perform_iff.1 h₃⟩
      · rintro (hbad | ⟨htemp, hrename⟩)
        · exact absurd hbad hok
        · refine uses_bind (uses_perform htemp) fun _ => uses_bind (uses_attempt ?_) fun r => ?_
          · exact uses_bind (uses_perform hcopy) fun _ => uses_bind (uses_perform hchmod) fun _ =>
              uses_bind (uses_perform hclose) fun _ => uses_perform hrename
          · cases r with
            | ok _ => exact uses_ret _
            | error e => exact uses_bind (uses_attempt (uses_perform hremove)) fun _ => uses_fail _

/-- The commands that extract a member, by its type. -/
theorem uses_extractTo {A : FSCmd → Prop} {target : String} (hcopy : A .copyBody) (hchmod : A .chmod) (hclose : A .close)
    (hremove : A .removeTemp) : (extractTo target m).Uses A ↔
      (m.type = .dir → A (.mkdirAll target)) ∧
      (m.type = .reg → A (.mkdirAll (dirPath target)) ∧ (m.BadSize ∨ (A (.createTemp (dirPath target)) ∧ A (.rename target)))) := by
  unfold extractTo
  cases m.type with
  | dir =>
    refine ⟨fun h => ⟨fun _ => uses_perform_iff.1 h, nofun⟩, fun h => uses_perform (h.1 rfl)⟩
  | reg =>
    constructor
    · intro h
      obtain ⟨hdir, hfile⟩ := uses_bind_iff.1 h
      exact ⟨nofun, fun _ => ⟨uses_perform_iff.1 hdir,
        (uses_writeExtractedFile hcopy hchmod hclose hremove).mp (hfile () (FSCmd.canReturn_run _))⟩⟩
    · rintro ⟨_, h⟩
      obtain ⟨hdir, hfile⟩ := h rfl
      exact uses_bind (uses_perform hdir) fun _ => (uses_writeExtractedFile hcopy hchmod hclose hremove).mpr hfile
  | other flag => exact ⟨fun _ => ⟨nofun, nofun⟩, fun _ => uses_fail _⟩

/-! ## Paths below the config directory -/

theorem inside_target (root : ConfigDir) (h : ¬m.GoesUp) : Inside root (absPath (root.path ++ m.parts)) :=
  ⟨m.parts, parts_proper h, rfl⟩

/-- The directory of a target. -/
theorem dirPath_target (root : ConfigDir) (h : ¬m.GoesUp) (hne : m.parts ≠ []) :
    dirPath (absPath (root.path ++ m.parts)) = absPath (root.path ++ m.parts.dropLast) := by
  have hproper := parts_proper h
  have hsplit := List.dropLast_append_getLast hne
  have hlast : Proper (m.parts.getLast hne) := hproper _ (List.getLast_mem hne)
  have hinit : ∀ c ∈ root.path ++ m.parts.dropLast, Proper c := by
    intro c hc
    rcases List.mem_append.mp hc with hc | hc
    · exact root.proper c hc
    · exact hproper c (List.dropLast_subset _ hc)
  calc dirPath (absPath (root.path ++ m.parts))
      = dirPath (absPath (root.path ++ m.parts.dropLast ++ [m.parts.getLast hne])) := by rw [List.append_assoc, hsplit]
    _ = absPath (root.path ++ m.parts.dropLast) := dirPath_absPath hinit hlast

/-- A path below the config directory is session state exactly when its first component is. -/
theorem inState_iff {cs : List String} (hcs : ∀ c ∈ cs, Proper c) :
    InState root (absPath (root.path ++ cs)) ↔ ∃ s ds, cs = s :: ds ∧ IsStateName s := by
  have hall : ∀ ds : List String, (∀ d ∈ ds, Proper d) → ∀ c ∈ root.path ++ ds, Proper c := fun ds hds c hc =>
    (List.mem_append.mp hc).elim (root.proper c) (hds c)
  constructor
  · rintro ⟨s, ds, hs, hds, heq⟩
    exact ⟨s, ds, List.append_cancel_left (absPath_inj (hall cs hcs) (hall _ hds) heq), hs⟩
  · rintro ⟨s, ds, rfl, hs⟩
    exact ⟨s, ds, hs, hcs, rfl⟩

/-- The directory that the config directory is in holds none of its session state. -/
theorem not_inState_above (root : ConfigDir) : ¬InState root (dirPath (absPath (root.path ++ []))) := by
  rw [List.append_nil]
  rintro ⟨s, ds, _, hds, heq⟩
  have hall : ∀ c ∈ root.path ++ s :: ds, Proper c := fun c hc => (List.mem_append.mp hc).elim (root.proper c) (hds c)
  cases hroot : root.path using List.reverseRecOn with
  | nil =>
    have hdir : dirPath (absPath root.path) = absPath [] := by
      rw [hroot]
      decide
    have hlen := congrArg List.length (absPath_inj (fun c hc => absurd hc List.not_mem_nil) hall (hdir.symm.trans heq))
    simp only [List.length_append, List.length_cons, List.length_nil] at hlen
    omega
  | append_singleton rs r =>
    have hproper : ∀ c ∈ rs ++ [r], Proper c := hroot ▸ root.proper
    have hrs : ∀ c ∈ rs, Proper c := fun c hc => hproper c (List.mem_append_left _ hc)
    have hdir : dirPath (absPath root.path) = absPath rs := by
      rw [hroot]
      exact dirPath_absPath hrs (hproper r (by simp))
    have hlen := congrArg List.length (absPath_inj hrs hall (hdir.symm.trans heq))
    rw [hroot] at hlen
    simp only [List.length_append, List.length_cons, List.length_nil] at hlen
    omega

/-- A member that is neither a regular file nor a directory. -/
def TarHeader.Unsupported (m : TarHeader) : Prop := m.type ≠ .dir ∧ m.type ≠ .reg

instance (m : TarHeader) : Decidable m.Unsupported := inferInstanceAs (Decidable (_ ∧ _))

/-- The path of a member starts with session state. -/
def TarHeader.NamesState (m : TarHeader) : Prop := ∃ s ds, m.parts = s :: ds ∧ IsStateName s

/-- The commands that extract a member stay in the config directory, but for a file in place of the directory itself. -/
theorem confined_extractTo (hup : ¬m.GoesUp) : (extractTo (absPath (root.path ++ m.parts)) m).Uses (Confined root) ↔
    (m.type = .reg → root.path ≠ [] → m.parts ≠ [] ∨ m.BadSize) := by
  have htarget := inside_target root hup
  rw [uses_extractTo (A := Confined root) trivial trivial trivial trivial]
  by_cases hne : m.parts = []
  · cases hroot : root.path using List.reverseRecOn with
    | nil =>
      have hdir : Inside root (dirPath (absPath (root.path ++ m.parts))) := by
        rw [hroot, hne]
        exact ⟨[], nofun, by rw [hroot]; decide⟩
      rw [hroot] at htarget hdir
      exact ⟨fun _ _ hno => absurd rfl hno, fun _ => ⟨fun _ => .inl htarget, fun _ => ⟨.inl hdir, .inr ⟨hdir, htarget⟩⟩⟩⟩
    | append_singleton rs r =>
      have hproper : ∀ c ∈ rs ++ [r], Proper c := hroot ▸ root.proper
      have hdir : dirPath (absPath (rs ++ [r] ++ m.parts)) = absPath rs := by
        rw [hne, List.append_nil]
        exact dirPath_absPath (fun c hc => hproper c (List.mem_append_left _ hc)) (hproper r (by simp))
      have hout : ¬Inside root (absPath rs) := by
        rintro ⟨cs, hcs, heq⟩
        rw [hroot] at heq
        have hall : ∀ c ∈ rs ++ [r] ++ cs, Proper c := fun c hc => (List.mem_append.mp hc).elim (hproper c) (hcs c)
        have hlen := congrArg List.length (absPath_inj (fun c hc => hproper c (List.mem_append_left _ hc)) hall heq)
        simp only [List.length_append, List.length_cons, List.length_nil] at hlen
        omega
      have habove : Above root (absPath rs) := ⟨rs, hroot ▸ List.prefix_append _ _, rfl⟩
      rw [hroot] at htarget
      rw [hdir]
      constructor
      · rintro ⟨_, h⟩ hreg _
        rcases (h hreg).2 with hbad | ⟨htemp, _⟩
        · exact .inr hbad
        · exact absurd htemp hout
      · intro h
        refine ⟨fun _ => .inl htarget, fun hreg => ⟨.inr habove, .inl ?_⟩⟩
        exact (h hreg (by simp)).resolve_left fun hno => hno hne
  · have hdir : Inside root (dirPath (absPath (root.path ++ m.parts))) := by
      rw [dirPath_target root hup hne]
      exact ⟨m.parts.dropLast, fun c hc => parts_proper hup c (List.dropLast_subset _ hc), rfl⟩
    exact ⟨fun _ _ _ => .inl hne, fun _ => ⟨fun _ => .inl htarget, fun _ => ⟨.inl hdir, .inr ⟨hdir, htarget⟩⟩⟩⟩

/-- The commands that extract a member spare session state, unless its path starts with it. -/
theorem spares_extractTo (hup : ¬m.GoesUp) : (extractTo (absPath (root.path ++ m.parts)) m).Uses (Spares root) ↔
    (m.type = .dir → ¬m.NamesState) ∧ (m.type = .reg → ∀ s ds, m.parts = s :: ds → IsStateName s → ds = [] ∧ m.BadSize) := by
  have hproper := parts_proper hup
  have htarget : InState root (absPath (root.path ++ m.parts)) ↔ m.NamesState := inState_iff hproper
  rw [uses_extractTo (A := Spares root) trivial trivial trivial trivial]
  refine and_congr (imp_congr_right fun _ => not_congr htarget) (imp_congr_right fun _ => ?_)
  show (¬InState root (dirPath (absPath (root.path ++ m.parts))) ∧
    (m.BadSize ∨ ¬InState root (dirPath (absPath (root.path ++ m.parts))) ∧ ¬InState root (absPath (root.path ++ m.parts)))) ↔ _
  rw [htarget]
  cases hparts : m.parts with
  | nil =>
    have hno : ¬m.NamesState := by
      rintro ⟨s, ds, heq, _⟩
      rw [hparts] at heq
      cases heq
    have hdir : ¬InState root (dirPath (absPath (root.path ++ []))) := not_inState_above root
    exact ⟨fun _ _ _ heq => (nomatch heq), fun _ => ⟨hdir, .inr ⟨hdir, hno⟩⟩⟩
  | cons c cs =>
    have hne : m.parts ≠ [] := hparts ▸ List.cons_ne_nil c cs
    have hinit : ∀ d ∈ m.parts.dropLast, Proper d := fun d hd => hproper d (List.dropLast_subset _ hd)
    have hdir : InState root (dirPath (absPath (root.path ++ m.parts))) ↔ cs ≠ [] ∧ IsStateName c := by
      rw [dirPath_target root hup hne, inState_iff hinit, hparts]
      cases cs with
      | nil => simp
      | cons d ds => simp [List.dropLast_cons_cons]
    have hstate : m.NamesState ↔ IsStateName c := by
      constructor
      · rintro ⟨s, ds, heq, hs⟩
        rw [hparts] at heq
        obtain ⟨rfl, rfl⟩ := List.cons.inj heq
        exact hs
      · exact fun hs => ⟨c, cs, hparts, hs⟩
    rw [← hparts, hdir, hstate, hparts]
    constructor
    · rintro ⟨hout, hfile⟩ s ds heq hs
      obtain ⟨rfl, rfl⟩ := List.cons.inj heq
      have hcs : cs = [] := by
        by_contra hcs
        exact hout ⟨hcs, hs⟩
      exact ⟨hcs, hfile.resolve_right fun h => h.2 hs⟩
    · intro h
      by_cases hs : IsStateName c
      · obtain ⟨hcs, hbad⟩ := h c cs rfl hs
        exact ⟨fun hboth => hboth.1 hcs, .inl hbad⟩
      · exact ⟨fun hboth => hs hboth.2, .inr ⟨fun hboth => hs hboth.2, hs⟩⟩

/-! ## The archive -/

/-- The restore ends with a failure at a member, whatever the commands answer. -/
def Ends (root : ConfigDir) (m : TarHeader) : Prop :=
  m.GoesUp ∨ (¬m.Skipped ∧ (m.Unsupported ∨ (m.type = .reg ∧ m.BadSize) ∨ (root.path = [] ∧ m.parts ≠ [])))

instance (root : ConfigDir) (m : TarHeader) : Decidable (Ends root m) := inferInstanceAs (Decidable (_ ∨ _))

theorem canReturn_extractTo {target : String} : (extractTo target m).CanReturn () ↔ ¬m.Unsupported ∧ ¬(m.type = .reg ∧ m.BadSize) := by
  unfold extractTo TarHeader.Unsupported
  cases hm : m.type with
  | dir => exact ⟨fun _ => ⟨fun h => h.1 rfl, nofun⟩, fun _ => FSCmd.canReturn_run _⟩
  | other flag => exact ⟨fun h => absurd h canReturn_fail, fun h => absurd ⟨nofun, nofun⟩ h.1⟩
  | reg =>
    have hfile : (writeExtractedFile target m).CanReturn () ↔ ¬m.BadSize := by
      unfold writeExtractedFile TarHeader.BadSize
      by_cases hbig : maxFile < m.size
      · rw [if_pos hbig]
        exact ⟨fun h => absurd h canReturn_fail, fun h => absurd (.inl hbig) h⟩
      · rw [if_neg hbig]
        by_cases hneg : m.size < 0
        · rw [if_pos hneg]
          exact ⟨fun h => absurd h canReturn_fail, fun h => absurd (.inr hneg) h⟩
        · rw [if_neg hneg]
          refine ⟨fun _ => not_or.mpr ⟨hbig, hneg⟩, fun _ => ?_⟩
          refine canReturn_bind.2 ⟨(), FSCmd.canReturn_run _, canReturn_bind.2 ⟨.ok (), canReturn_attempt_ok.2 ?_, canReturn_ret.2 rfl⟩⟩
          exact canReturn_bind.2 ⟨(), FSCmd.canReturn_run _, canReturn_bind.2 ⟨(), FSCmd.canReturn_run _,
            canReturn_bind.2 ⟨(), FSCmd.canReturn_run _, FSCmd.canReturn_run _⟩⟩⟩
    constructor
    · intro h
      obtain ⟨_, _, h⟩ := canReturn_bind.1 h
      exact ⟨fun hno => hno.2 rfl, fun hboth => hfile.mp h hboth.2⟩
    · intro h
      exact canReturn_bind.2 ⟨(), FSCmd.canReturn_run _, hfile.mpr fun hbad => h.2 ⟨rfl, hbad⟩⟩

theorem canReturn_restoreEntry : (restoreEntry (absPath root.path) m).CanReturn () ↔ ¬Ends root m := by
  unfold Ends
  by_cases hup : m.GoesUp
  · obtain ⟨e, he⟩ : ∃ e, restoreEntry (absPath root.path) m = .fail e := restoreEntry_goesUp hup
    rw [he]
    exact ⟨fun h => absurd h canReturn_fail, fun h => absurd (.inl hup) h⟩
  · by_cases hskip : m.Skipped
    · rw [restoreEntry_skipped hskip]
      exact ⟨fun _ => not_or.mpr ⟨hup, fun h => h.1 hskip⟩, fun _ => canReturn_ret.2 rfl⟩
    · by_cases hroot : root.path = [] ∧ m.parts ≠ []
      · obtain ⟨e, he⟩ := restoreEntry_root hup hskip hroot.1 hroot.2
        rw [he]
        exact ⟨fun h => absurd h canReturn_fail, fun h => absurd (.inr ⟨hskip, .inr (.inr hroot)⟩) h⟩
      · rw [restoreEntry_extracts hup hskip fun hr => by_contra fun hp => hroot ⟨hr, hp⟩, canReturn_extractTo]
        constructor
        · rintro ⟨htype, hsize⟩ (h | ⟨_, h | h | h⟩)
          · exact hup h
          · exact htype h
          · exact hsize h
          · exact hroot h
        · intro h
          exact ⟨fun ht => h (.inr ⟨hskip, .inl ht⟩), fun hs => h (.inr ⟨hskip, .inr (.inl hs)⟩)⟩

theorem canReturn_restoreEntries : ∀ {ms : List TarHeader},
    (restoreEntries (absPath root.path) ms).CanReturn () ↔ ∀ m ∈ ms, ¬Ends root m
  | [] => ⟨fun _ _ h => (nomatch h), fun _ => canReturn_ret.2 rfl⟩
  | m :: ms => by
    have ih : (restoreEntries (absPath root.path) ms).CanReturn () ↔ ∀ m ∈ ms, ¬Ends root m := canReturn_restoreEntries
    rw [List.forall_mem_cons, ← canReturn_restoreEntry, ← ih]
    constructor
    · intro h
      obtain ⟨_, _, h⟩ := canReturn_bind.1 h
      obtain ⟨_, hentry, hrest⟩ := canReturn_bind.1 h
      exact ⟨hentry, hrest⟩
    · rintro ⟨hentry, hrest⟩
      exact canReturn_bind.2 ⟨(), FSCmd.canReturn_run _, canReturn_bind.2 ⟨(), hentry, hrest⟩⟩

/-- The commands of a restore are those of the members that it comes to. -/
theorem uses_restoreEntries {A : FSCmd → Prop} (hnext : A .next) : ∀ {ms : List TarHeader},
    (restoreEntries (absPath root.path) ms).Uses A ↔
      ∀ pre m post, ms = pre ++ m :: post → (∀ m' ∈ pre, ¬Ends root m') → (restoreEntry (absPath root.path) m).Uses A
  | [] => ⟨fun _ pre m post h => absurd h (by simp), fun _ => uses_ret _⟩
  | m :: ms => by
    have ih : (restoreEntries (absPath root.path) ms).Uses A ↔ ∀ pre m post, ms = pre ++ m :: post → (∀ m' ∈ pre, ¬Ends root m') →
        (restoreEntry (absPath root.path) m).Uses A := uses_restoreEntries hnext
    constructor
    · intro h pre m' post hsplit hpre
      obtain ⟨_, h⟩ := uses_bind_iff.1 h
      obtain ⟨hentry, hrest⟩ := uses_bind_iff.1 (h () (FSCmd.canReturn_run _))
      cases pre with
      | nil =>
        obtain ⟨rfl, rfl⟩ := List.cons.inj hsplit
        exact hentry
      | cons p pre =>
        obtain ⟨rfl, rfl⟩ := List.cons.inj hsplit
        have hfirst := canReturn_restoreEntry.mpr (hpre m List.mem_cons_self)
        exact ih.mp (hrest () hfirst) pre m' post rfl fun q hq => hpre q (List.mem_cons_of_mem _ hq)
    · intro h
      refine uses_bind (uses_perform hnext) fun _ => uses_bind_iff.2 ⟨h [] m ms rfl nofun, fun _ hfirst => ih.mpr ?_⟩
      intro pre m' post hsplit hpre
      refine h (m :: pre) m' post (by rw [hsplit, List.cons_append]) fun q hq => ?_
      rcases List.mem_cons.mp hq with rfl | hq
      · exact canReturn_restoreEntry.mp hfirst
      · exact hpre q hq

/-! ## Names that go up -/

/-- A component `..` stands in the name of a member, with or without the white space around the name. -/
def TarHeader.HasDotDot (m : TarHeader) : Prop := ¬NoDotDot m.name ∨ ¬NoDotDot (trimSpace m.name)

/-- White space in front of a text belongs to its first component. -/
theorem dotdot_dropWhile : ∀ {cs : List Char}, ['.', '.'] ∈ splitList (· == '/') cs → ['.', '.'] ∈ splitList (· == '/') (cs.dropWhile isSpace)
  | [], h => h
  | c :: cs, h => by
    cases hc : isSpace c with
    | false => rwa [List.dropWhile_cons_of_neg (by simp [hc])]
    | true =>
      rw [List.dropWhile_cons_of_pos hc]
      refine dotdot_dropWhile ?_
      have hsep : (c == '/') = false := beq_eq_false_iff_ne.mpr fun he => absurd hc (by rw [he]; decide)
      have hdot : c ≠ '.' := fun he => absurd hc (by rw [he]; decide)
      rw [splitList.eq_2, hsep] at h
      cases hs : splitList (· == '/') cs with
      | nil =>
        rw [hs] at h
        exact absurd (List.mem_singleton.mp h) (by simp)
      | cons q qs =>
        rw [hs] at h
        rcases List.mem_cons.mp h with hq | hq
        · exact absurd (List.cons.inj hq).1.symm hdot
        · exact List.mem_cons_of_mem _ hq

theorem splitList_reverse (cs : List Char) :
    splitList (· == '/') cs.reverse = ((splitList (· == '/') cs).map List.reverse).reverse := by
  induction cs with
  | nil => rfl
  | cons c cs ih =>
    rw [List.reverse_cons]
    cases hc : (c == '/') with
    | true =>
      have happ := splitList_append (p := (· == '/')) hc cs.reverse []
      rw [happ, ih, splitList.eq_2, hc]
      show _ = (([] :: splitList (· == '/') cs).map List.reverse).reverse
      rw [List.map_cons, List.reverse_cons]
      rfl
    | false =>
      rw [splitList.eq_2, hc]
      cases hs : splitList (· == '/') cs with
      | nil => exact absurd hs (splitList_ne_nil _ _)
      | cons q qs =>
        rw [hs, List.map_cons, List.reverse_cons] at ih
        rw [splitList_snoc (p := (· == '/')) hc ih]
        show _ = (((c :: q) :: qs).map List.reverse).reverse
        rw [List.map_cons, List.reverse_cons, List.reverse_cons]

/-- Trimming keeps a component `..`. -/
theorem noDotDot_trimSpace {s : String} (h : NoDotDot (trimSpace s)) : NoDotDot s := by
  have hmem : ∀ cs : List Char, ".." ∈ split (String.ofList cs) '/' ↔ ['.', '.'] ∈ splitList (· == '/') cs := by
    intro cs
    have hdots : ".." = String.ofList ['.', '.'] := by decide
    unfold split
    rw [String.toList_ofList, hdots, List.mem_map]
    exact ⟨fun ⟨q, hq, heq⟩ => String.ofList_injective heq ▸ hq, fun hq => ⟨_, hq, rfl⟩⟩
  intro hs
  rw [← String.ofList_toList (s := s), hmem] at hs
  refine h ((hmem _).mpr ?_)
  unfold trimList
  rw [splitList_reverse, List.mem_reverse]
  have hback : ['.', '.'] ∈ splitList (· == '/') ((s.toList.dropWhile isSpace).reverse.dropWhile isSpace) := by
    refine dotdot_dropWhile ?_
    rw [splitList_reverse, List.mem_reverse]
    exact List.mem_map.mpr ⟨['.', '.'], dotdot_dropWhile hs, rfl⟩
  exact List.mem_map.mpr ⟨['.', '.'], hback, rfl⟩

theorem dotdot_stripDotSlash : ∀ {cs : List Char}, ['.', '.'] ∈ splitList (· == '/') cs → ['.', '.'] ∈ splitList (· == '/') (stripDotSlash cs) := by
  intro cs
  induction cs using stripDotSlash.induct with
  | case1 cs ih =>
    intro h
    have hsplit := splitList_append (p := (· == '/')) (c := '/') rfl ['.'] cs
    rw [List.singleton_append] at hsplit
    rw [hsplit] at h
    rw [stripDotSlash]
    rcases List.mem_append.mp h with h | h
    · exact absurd h (by decide)
    · exact ih h
  | case2 cs hno =>
    intro h
    rwa [stripDotSlash]
    exact hno

theorem dotdot_trimSlash {cs : List Char} (h : ['.', '.'] ∈ splitList (· == '/') cs) :
    ['.', '.'] ∈ splitList (· == '/') (trimSlash (String.ofList cs)).toList := by
  unfold trimSlash
  rw [String.toList_ofList]
  split
  · rename_i rest
    rw [splitList.eq_2] at h
    rw [String.toList_ofList]
    rcases List.mem_cons.mp h with h | h
    · exact absurd h (by decide)
    · exact h
  · rwa [String.toList_ofList]

/-- A name with a component `..` goes up. -/
theorem goesUp_of_hasDotDot (h : m.HasDotDot) : m.GoesUp := by
  have hmem : ∀ s : String, ".." ∈ split s '/' ↔ ['.', '.'] ∈ splitList (· == '/') s.toList := by
    intro s
    have hdots : ".." = String.ofList ['.', '.'] := by decide
    unfold split
    rw [hdots, List.mem_map]
    exact ⟨fun ⟨q, hq, heq⟩ => String.ofList_injective heq ▸ hq, fun hq => ⟨_, hq, rfl⟩⟩
  have htrim : ¬NoDotDot (trimSpace m.name) := h.elim (fun hno hclean => hno (noDotDot_trimSpace hclean)) id
  intro hclean
  refine hclean ((hmem _).mpr (dotdot_trimSlash (dotdot_stripDotSlash ?_)))
  exact (hmem _).mp (not_not.mp htrim)

/-! ## The whole restore -/

theorem confined_restoreEntry : (restoreEntry (absPath root.path) m).Uses (Confined root) ↔
    (root.path ≠ [] → ¬m.GoesUp → m.Doubled → m.type = .reg → m.parts ≠ [] ∨ m.BadSize) := by
  by_cases hup : m.GoesUp
  · obtain ⟨e, he⟩ : ∃ e, restoreEntry (absPath root.path) m = .fail e := restoreEntry_goesUp hup
    rw [he]
    exact ⟨fun _ _ hno => absurd hup hno, fun _ => uses_fail _⟩
  by_cases hskip : m.Skipped
  · rw [restoreEntry_skipped hskip]
    exact ⟨fun _ _ _ hdouble => absurd hdouble hskip.2.1, fun _ => uses_ret _⟩
  by_cases hroot : root.path = [] ∧ m.parts ≠ []
  · obtain ⟨e, he⟩ := restoreEntry_root hup hskip hroot.1 hroot.2
    rw [he]
    exact ⟨fun _ hno => absurd hroot.1 hno, fun _ => uses_fail _⟩
  rw [restoreEntry_extracts hup hskip fun hr => by_contra fun hp => hroot ⟨hr, hp⟩, confined_extractTo hup]
  constructor
  · exact fun h hne _ _ hreg => h hreg hne
  · intro h hreg hne
    by_cases hdouble : m.Doubled
    · exact h hne hup hdouble hreg
    · refine .inl fun hnil => hskip ⟨hup, hdouble, fun c hc => ?_⟩
      rw [hnil] at hc
      cases hc

theorem spares_restoreEntry : (restoreEntry (absPath root.path) m).Uses (Spares root) ↔
    (root.path ≠ [] → ¬m.GoesUp → m.Doubled → (m.type = .dir → ¬m.NamesState) ∧
      (m.type = .reg → ∀ s ds, m.parts = s :: ds → IsStateName s → ds = [] ∧ m.BadSize)) := by
  by_cases hup : m.GoesUp
  · obtain ⟨e, he⟩ : ∃ e, restoreEntry (absPath root.path) m = .fail e := restoreEntry_goesUp hup
    rw [he]
    exact ⟨fun _ _ hno => absurd hup hno, fun _ => uses_fail _⟩
  by_cases hskip : m.Skipped
  · rw [restoreEntry_skipped hskip]
    exact ⟨fun _ _ _ hdouble => absurd hdouble hskip.2.1, fun _ => uses_ret _⟩
  by_cases hroot : root.path = [] ∧ m.parts ≠ []
  · obtain ⟨e, he⟩ := restoreEntry_root hup hskip hroot.1 hroot.2
    rw [he]
    exact ⟨fun _ hno => absurd hroot.1 hno, fun _ => uses_fail _⟩
  rw [restoreEntry_extracts hup hskip fun hr => by_contra fun hp => hroot ⟨hr, hp⟩, spares_extractTo hup]
  refine ⟨fun h _ _ _ => h, fun h => ?_⟩
  by_cases hplain : root.path = [] ∨ ¬m.Doubled
  · -- Such a path is empty, or its first component is not session state.
    have hstate : ∀ s ds, m.parts = s :: ds → ¬IsStateName s := by
      intro s ds hparts hs
      rcases hplain with hr | hdouble
      · exact hroot ⟨hr, hparts ▸ List.cons_ne_nil s ds⟩
      · refine hskip ⟨hup, hdouble, fun c hc => ?_⟩
        rw [hparts] at hc
        exact Option.some.inj hc ▸ hs
    exact ⟨fun _ ⟨s, ds, hparts, hs⟩ => hstate s ds hparts hs, fun _ s ds hparts hs => absurd hs (hstate s ds hparts)⟩
  · rw [not_or, not_not] at hplain
    exact h hplain.1 hup hplain.2

theorem restoreEntry_unsupported (h : m.Unsupported) : (∃ e, restoreEntry (absPath root.path) m = .fail e) ↔ ¬m.Skipped := by
  constructor
  · rintro ⟨e, he⟩ hskip
    rw [restoreEntry_skipped hskip] at he
    cases he
  · intro hskip
    by_cases hup : m.GoesUp
    · exact restoreEntry_goesUp hup
    by_cases hroot : root.path = [] ∧ m.parts ≠ []
    · exact restoreEntry_root hup hskip hroot.1 hroot.2
    rw [restoreEntry_extracts hup hskip fun hr => by_contra fun hp => hroot ⟨hr, hp⟩]
    unfold extractTo
    cases htype : m.type with
    | dir => exact absurd htype h.1
    | reg => exact absurd htype h.2
    | other flag => exact ⟨_, rfl⟩

/-- What `Restore` is to keep, for the members of an archive: it writes in the config directory only, it spares session state, and a
member that goes up or is of another type ends it before anything is written for that member. -/
structure RestoreKept (root : ConfigDir) (ms : List TarHeader) : Prop where
  confined : (restoreEntries (absPath root.path) ms).Uses (Confined root)
  spares : (restoreEntries (absPath root.path) ms).Uses (Spares root)
  refuses : ∀ pre m post, ms = pre ++ m :: post → (restoreEntries (absPath root.path) pre).CanReturn () →
    m.HasDotDot ∨ m.Unsupported → ∃ e, restoreEntry (absPath root.path) m = .fail e

/-- A member whose name, type and size keep `Restore` where it belongs: the reader passes over none of an unsupported type, and none
whose name starts with two slashes is a file in place of the config directory or names session state. -/
structure PlainMember (root : ConfigDir) (m : TarHeader) : Prop where
  supported : m.Unsupported → ¬m.Skipped
  file : root.path ≠ [] → ¬m.GoesUp → m.Doubled → m.type = .reg → m.parts ≠ [] ∨ m.BadSize
  state : root.path ≠ [] → ¬m.GoesUp → m.Doubled → (m.type = .dir → ¬m.NamesState) ∧
    (m.type = .reg → ∀ s ds, m.parts = s :: ds → IsStateName s → ds = [] ∧ m.BadSize)

/-- Every member that the restore comes to is plain. -/
def PlainArchive (root : ConfigDir) (ms : List TarHeader) : Prop :=
  ∀ pre m post, ms = pre ++ m :: post → (∀ m' ∈ pre, ¬Ends root m') → PlainMember root m

theorem restoreKept_iff (root : ConfigDir) (ms : List TarHeader) : RestoreKept root ms ↔ PlainArchive root ms := by
  constructor
  · intro h pre m post hsplit hpre
    have hconfined := (uses_restoreEntries trivial).mp h.confined pre m post hsplit hpre
    have hspares := (uses_restoreEntries trivial).mp h.spares pre m post hsplit hpre
    refine ⟨fun hother => ?_, confined_restoreEntry.mp hconfined, spares_restoreEntry.mp hspares⟩
    exact (restoreEntry_unsupported hother).mp (h.refuses pre m post hsplit (canReturn_restoreEntries.mpr hpre) (.inr hother))
  · intro h
    refine ⟨?_, ?_, ?_⟩
    · exact (uses_restoreEntries trivial).mpr fun pre m post hsplit hpre => confined_restoreEntry.mpr (h pre m post hsplit hpre).file
    · exact (uses_restoreEntries trivial).mpr fun pre m post hsplit hpre => spares_restoreEntry.mpr (h pre m post hsplit hpre).state
    · rintro pre m post hsplit hpre (hdots | hother)
      · exact restoreEntry_goesUp (goesUp_of_hasDotDot hdots)
      · exact (restoreEntry_unsupported hother).mpr ((h pre m post hsplit (canReturn_restoreEntries.mp hpre)).supported hother)

/-! ## A name with two slashes -/

/-- The config directory of a plain installation. -/
def Sample.etcEvuproxy : ConfigDir where
  path := ["etc", "evuproxy"]
  proper := by
    intro c hc
    simp only [List.mem_cons, List.not_mem_nil, or_false] at hc
    rcases hc with rfl | rfl
    · exact ⟨by decide, by decide, by decide, by decide⟩
    · exact ⟨by decide, by decide, by decide, by decide⟩

/-- A session that an archive brings along, under a name with two slashes before it. -/
def Sample.smuggledSession : TarHeader := { name := "//.evuproxy-apply-session/session.json", type := .reg, size := 64 }

/-- The archive with that one member makes `Restore` write a session. -/
theorem session_from_archive : ¬RestoreKept Sample.etcEvuproxy [Sample.smuggledSession] := by
  intro h
  have hspares := (uses_restoreEntries trivial).mp h.spares [] Sample.smuggledSession [] rfl nofun
  have hup : ¬Sample.smuggledSession.GoesUp := by decide +kernel
  have hdouble : Sample.smuggledSession.Doubled := by decide +kernel
  have hparts : Sample.smuggledSession.parts = [".evuproxy-apply-session", "session.json"] := by decide +kernel
  have hfile := (spares_restoreEntry.mp hspares (List.cons_ne_nil _ _) hup hdouble).2 rfl _ _ hparts (by decide)
  exact absurd hfile.1 (List.cons_ne_nil _ _)

end EvuProxy

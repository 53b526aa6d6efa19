import EvuProxy.Fault.Prog
import EvuProxy.Go.Path
import Mathlib.Algebra.Ring.Int.Defs

/-!
# Restoring an archive

`Restore` of `internal/apply/backup.go` from the first member on: what becomes of the name of a member, and the commands on the file
system that follow from it. The members come from outside, so a name is any text.
-/

namespace EvuProxy

open Go Fault Fault.Prog

/-! ## Members and commands -/

/-- The type of a member, as far as `Restore` tells types apart. -/
inductive TarType where
  | dir
  | reg
  | other (flag : Nat)
  deriving DecidableEq

/-- `tar.Header`. -/
structure TarHeader where
  name : String
  type : TarType
  size : Int := 0
  deriving DecidableEq

/-- The commands of `Restore` on the archive and the file system. The commands between `createTemp` and `rename` work on the temporary
file. -/
inductive FSCmd where
  | next
  | mkdirAll (path : String)
  | createTemp (dir : String)
  | copyBody
  | chmod
  | close
  | rename (path : String)
  | removeTemp
  deriving DecidableEq

/-- Each command succeeds or fails with an error. -/
abbrev fsSig : Sig where
  Cmd := FSCmd
  Ans _ := Unit
  Err := String

def FSCmd.run (c : FSCmd) : Prog fsSig Unit := perform (S := fsSig) c

theorem FSCmd.canReturn_run (c : FSCmd) : c.run.CanReturn () := canReturn_perform (S := fsSig) (c := c) ()

/-! ## Names -/

def confirmSessionDirName : String := ".evuproxy-apply-session"
def lastRevertName : String := ".evuproxy-apply-last-revert.json"

/-- The loop of `tarEntryRelPath` that takes `./` away. -/
def stripDotSlash : List Char → List Char
  | '.' :: '/' :: cs => stripDotSlash cs
  | cs => cs

/-- A name without the white space around it, the `./` before it, and one slash after these. -/
def entryName (name : String) : String := trimSlash (String.ofList (stripDotSlash (trimSpace name).toList))

/-- `tarEntryRelPath`. -/
def tarEntryRelPath (name : String) : Except String String :=
  let name := entryName name
  if name = "" ∨ name = "." then .ok "."
  else if ".." ∈ split name '/' then .error ("invalid path " ++ quote name ++ " in archive")
  else
    let clean := cleanPath name
    if clean = ".." ∨ hasPrefix clean "../" then .error ("invalid path " ++ quote name ++ " in archive") else .ok clean

/-- `isConfirmStateEntry`. -/
def isConfirmStateEntry (rel : String) : Bool :=
  let first := match cut rel '/' with | some (first, _) => first | none => rel
  first == confirmSessionDirName || first == lastRevertName

/-- The path that a member is extracted to. -/
def restoreTarget (absRoot rel : String) : Except String String :=
  let safeRel := trimSlash (cleanPath ("/" ++ rel))
  let cleanTarget := cleanPath (joinPath absRoot safeRel)
  if cleanTarget ≠ absRoot ∧ ¬hasPrefix cleanTarget (absRoot ++ "/") then .error "restore: path escapes config directory"
  else .ok cleanTarget

/-! ## Extracting -/

def maxFile : Int := 256 * 2 ^ 20

/-- `writeExtractedFile`. -/
def writeExtractedFile (path : String) (hdr : TarHeader) : Prog fsSig Unit :=
  if maxFile < hdr.size then .fail ("restore: file " ++ quote hdr.name ++ " too large")
  else if hdr.size < 0 then .fail ("restore: invalid size for " ++ quote hdr.name)
  else do
    (FSCmd.createTemp (dirPath path)).run
    let written ← (do
      FSCmd.copyBody.run
      FSCmd.chmod.run
      FSCmd.close.run
      (FSCmd.rename path).run).attempt
    match written with
    | .ok () => return ()
    | .error e => do
      let _ ← FSCmd.removeTemp.run.attempt
      .fail e

/-- What `Restore` does with a member that is to be extracted to a path. -/
def extractTo (target : String) (hdr : TarHeader) : Prog fsSig Unit :=
  match hdr.type with
  | .dir => (FSCmd.mkdirAll target).run
  | .reg => do
    (FSCmd.mkdirAll (dirPath target)).run
    writeExtractedFile target hdr
  | .other flag => .fail ("restore: unsupported tar entry type " ++ toString flag ++ " for " ++ quote hdr.name)

/-- What `Restore` does with a member, by the path that its name gives. -/
def restoreRel (absRoot rel : String) (hdr : TarHeader) : Prog fsSig Unit :=
  if rel = "." ∨ isConfirmStateEntry rel then return ()
  else do
    let target ← ofExcept (S := fsSig) (restoreTarget absRoot rel)
    extractTo target hdr

/-- One round of the loop of `Restore`. -/
def restoreEntry (absRoot : String) (hdr : TarHeader) : Prog fsSig Unit := do
  let rel ← ofExcept (S := fsSig) (tarEntryRelPath hdr.name)
  restoreRel absRoot rel hdr

/-- The loop of `Restore`, until the archive ends or a step fails. -/
def restoreEntries (absRoot : String) : List TarHeader → Prog fsSig Unit
  | [] => return ()
  | hdr :: hdrs => do
    FSCmd.next.run
    restoreEntry absRoot hdr
    restoreEntries absRoot hdrs

/-! ## What becomes of a name -/

variable {name : String}

theorem cleanPath_noEscape {p : String} (h : NoDotDot p) : ¬(cleanPath p = ".." ∨ hasPrefix (cleanPath p) "../") := by
  have hclean : NoDotDot (cleanPath p) := noDotDot_cleanPath h
  rintro (he | hpre)
  · rw [he] at hclean
    exact hclean (by decide)
  · obtain ⟨cs, hcs⟩ := List.isPrefixOf_iff_prefix.mp hpre
    have hsplit : cleanPath p = ".." ++ "/" ++ String.ofList cs := by
      have hup : "../".toList = "..".toList ++ "/".toList := by decide
      have hend : (String.ofList cs).toList = cs := String.toList_ofList
      rw [← String.toList_inj, String.toList_append, String.toList_append, hend, ← hcs, hup]
    rw [hsplit, noDotDot_slash] at hclean
    exact hclean.1 (by decide)

/-- A name without `..` is cleaned. -/
theorem tarEntryRelPath_ok (h : NoDotDot (entryName name)) : tarEntryRelPath name = .ok (cleanPath (entryName name)) := by
  unfold tarEntryRelPath
  dsimp only
  by_cases hdot : entryName name = "" ∨ entryName name = "."
  · rw [if_pos hdot]
    rcases hdot with he | he
    · rw [he]
      decide
    · rw [he]
      decide
  · rw [if_neg hdot, if_neg h, if_neg (cleanPath_noEscape h)]

/-- A name with `..` is refused. -/
theorem tarEntryRelPath_error (h : ¬NoDotDot (entryName name)) : ∃ e, tarEntryRelPath name = .error e := by
  have hdot : ¬(entryName name = "" ∨ entryName name = ".") := by
    rintro (he | he)
    · exact h (by rw [he]; decide)
    · exact h (by rw [he]; decide)
  unfold tarEntryRelPath
  dsimp only
  rw [if_neg hdot, if_pos (not_not.mp h)]
  exact ⟨_, rfl⟩

/-- The session directory or the last-revert record. -/
def IsStateName (s : String) : Prop := s = confirmSessionDirName ∨ s = lastRevertName

instance (s : String) : Decidable (IsStateName s) := inferInstanceAs (Decidable (_ ∨ _))

theorem isConfirmStateEntry_of_cut {rel first rest : String} (h : cut rel '/' = some (first, rest)) :
    isConfirmStateEntry rel = true ↔ IsStateName first := by
  unfold isConfirmStateEntry IsStateName
  rw [h]
  simp

theorem isConfirmStateEntry_of_noSlash {rel : String} (h : '/' ∉ rel.toList) : isConfirmStateEntry rel = true ↔ IsStateName rel := by
  unfold isConfirmStateEntry IsStateName
  rw [cut_none h]
  simp

/-- The first component decides, unless the path starts with a slash. -/
theorem isConfirmStateEntry_join {c : String} {cs : List String} (hc : Proper c) :
    isConfirmStateEntry (join (c :: cs) "/") = true ↔ IsStateName c := by
  cases cs with
  | nil => exact isConfirmStateEntry_of_noSlash hc.noSlash
  | cons d ds => exact isConfirmStateEntry_of_cut (cut_slash hc.noSlash (join (d :: ds) "/"))

theorem not_isConfirmStateEntry_absPath (cs : List String) : isConfirmStateEntry (absPath cs) = false := by
  have hcut : cut (absPath cs) '/' = some ("", join cs "/") := by
    have h := cut_slash (a := "") (by decide) (join cs "/")
    rwa [String.empty_append] at h
  have hiff := isConfirmStateEntry_of_cut hcut
  by_contra hno
  exact absurd (hiff.mp (Bool.not_eq_false _ ▸ hno)) (by decide)

end EvuProxy

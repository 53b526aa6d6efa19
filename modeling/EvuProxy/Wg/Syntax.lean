import EvuProxy.Go.Pieces

/-!
# WireGuard config files

The file format of `wg-quick`: sections of directives, a comment from `#` to the end of its line, and white space of ASCII that does not
matter around a key and a value. A file is read from its last line on.
-/

namespace Wg

open Go

/-- White space, in the C locale. -/
def isBlank (c : Char) : Bool := (9 ≤ c.toNat && c.toNat ≤ 13) || c.toNat == 0x20

/-- Drop white space from both ends. -/
def trim (cs : List Char) : List Char := trimBy isBlank cs

/-- What a line of a file is. -/
inductive Line where
  | blank
  | header (name : String)
  | directive (key value : String)
  | malformed
  deriving DecidableEq

/-- A line without its comment: a header stands in brackets, a directive has an equals sign. -/
def readLine (line : List Char) : Line :=
  let stripped := line.takeWhile (· ≠ '#')
  let key := trim (stripped.takeWhile (· ≠ '='))
  if trim stripped = [] then .blank
  else if key.head? = some '[' then .header (String.ofList key)
  else
    match stripped.dropWhile (· ≠ '=') with
    | [] => .malformed
    | _ :: value => .directive (String.ofList key) (String.ofList (trim value))

/-- A section: its header, and its directives in order. -/
structure Section where
  name : String
  entries : List (String × String)
  deriving DecidableEq

/-- The directives before the first section, and the sections. -/
def readLines : List (List Char) → Option (List (String × String) × List Section)
  | [] => some ([], [])
  | line :: lines =>
    match readLines lines, readLine line with
    | none, _ => none
    | some _, .malformed => none
    | some r, .blank => some r
    | some (entries, ss), .header name => some ([], ⟨name, entries⟩ :: ss)
    | some (entries, ss), .directive key value => some ((key, value) :: entries, ss)

/-- The sections of a file. A directive outside of every section is an error. -/
def parse (text : String) : Option (List Section) :=
  match readLines (splitList (· == '\n') text.toList) with
  | some ([], ss) => some ss
  | _ => none

/-- The entries of a value that is a list. -/
def listOf (value : String) : List String := (splitList (· == ',') value.toList).map fun cs => String.ofList (trim cs)

/-- A line that holds a directive. -/
def directive (key value : String) : String := key ++ " = " ++ value

/-- What the text of a value is read as: up to a comment, without the white space around it. -/
def readValue (value : String) : String := String.ofList (trim (value.toList.takeWhile (· ≠ '#')))

/-! ## Lines -/

theorem isBlank_space : isBlank ' ' = true := by decide

theorem trim_eq_nil {cs : List Char} (h : trim cs = []) : ∀ c ∈ cs, isBlank c = true := by
  obtain ⟨ws, vs, hws, hvs, hcs⟩ := trimBy_between isBlank cs
  intro c hc
  rw [hcs, show trimBy isBlank cs = [] from h, List.append_nil] at hc
  exact (List.mem_append.mp hc).elim (hws c) (hvs c)

theorem mem_trim {cs : List Char} {c : Char} (h : c ∈ trim cs) : c ∈ cs := by
  obtain ⟨ws, vs, -, -, hcs⟩ := trimBy_between isBlank cs
  rw [hcs]
  exact List.mem_append_left _ (List.mem_append_right _ h)

theorem trim_of_not_blank {cs : List Char} (h : ∀ c ∈ cs, isBlank c = false) : trim cs = cs := by
  obtain ⟨ws, vs, hws, hvs, hcs⟩ := trimBy_between isBlank cs
  have hnil : ∀ ds : List Char, (∀ c ∈ ds, isBlank c = true) → (∀ c ∈ ds, c ∈ cs) → ds = [] := by
    intro ds hds hmem
    refine List.eq_nil_iff_forall_not_mem.mpr fun c hc => ?_
    have hblank := hds c hc
    rw [h c (hmem c hc)] at hblank
    cases hblank
  have hw : ws = [] := hnil ws hws fun c hc => hcs ▸ List.mem_append_left _ (List.mem_append_left _ hc)
  have hv : vs = [] := hnil vs hvs fun c hc => hcs ▸ List.mem_append_right _ hc
  rw [hw, hv, List.append_nil, List.nil_append] at hcs
  exact hcs.symm

/-- A character of a key. -/
def isKeyChar (c : Char) : Bool := !isBlank c && c != '#' && c != '=' && c != '['

/-- A key of letters. -/
def IsKey (key : String) : Prop := key.toList.all isKeyChar = true

instance (key : String) : Decidable (IsKey key) := inferInstanceAs (Decidable (_ = true))

theorem IsKey.chars {key : String} (h : IsKey key) {c : Char} (hc : c ∈ key.toList) :
    isBlank c = false ∧ c ≠ '#' ∧ c ≠ '=' ∧ c ≠ '[' := by
  have hchar := List.all_eq_true.mp h c hc
  simpa [isKeyChar, and_assoc] using hchar

/-- A directive is read as its key and the value up to a comment. -/
theorem readLine_directive {key value : String} (hkey : IsKey key) :
    readLine (directive key value).toList = .directive key (readValue value) := by
  have hlist : (directive key value).toList = key.toList ++ (' ' :: '=' :: ' ' :: value.toList) := by
    simp [directive]
  have hhash : ∀ c ∈ key.toList, decide (c ≠ '#') = true := fun c hc => decide_eq_true (hkey.chars hc).2.1
  have heq : ∀ c ∈ key.toList, decide (c ≠ '=') = true := fun c hc => decide_eq_true (hkey.chars hc).2.2.1
  have hstripped : (directive key value).toList.takeWhile (· ≠ '#') =
      key.toList ++ (' ' :: '=' :: ' ' :: value.toList.takeWhile (· ≠ '#')) := by
    rw [hlist, List.takeWhile_append_of_pos hhash]
    rfl
  have hbefore : trim (key.toList ++ [' ']) = key.toList := by
    rw [trim, trimBy_snoc isBlank_space]
    exact trim_of_not_blank fun c hc => (hkey.chars hc).1
  have hne : trim (key.toList ++ (' ' :: '=' :: ' ' :: value.toList.takeWhile (· ≠ '#'))) ≠ [] := by
    intro hnil
    have hblank := trim_eq_nil hnil '=' (by simp)
    exact absurd hblank (by decide)
  have hhead : key.toList.head? ≠ some '[' := fun h => (hkey.chars (List.mem_of_head? h)).2.2.2 rfl
  unfold readLine
  simp only [hstripped, List.takeWhile_append_of_pos heq, List.dropWhile_append_of_pos heq]
  rw [show List.takeWhile (fun c => decide (c ≠ '=')) (' ' :: '=' :: ' ' :: value.toList.takeWhile (· ≠ '#')) = [' '] from rfl,
    show List.dropWhile (fun c => decide (c ≠ '=')) (' ' :: '=' :: ' ' :: value.toList.takeWhile (· ≠ '#')) =
      '=' :: ' ' :: value.toList.takeWhile (· ≠ '#') from rfl, hbefore, if_neg hne, if_neg hhead]
  simp only [String.ofList_toList, readValue, trim, trimBy_cons isBlank_space]

/-- A line that starts with `#` is a comment. -/
theorem readLine_comment {line : List Char} (h : line.head? = some '#') : readLine line = .blank := by
  cases line with
  | nil => cases h
  | cons c cs =>
    obtain rfl := Option.some.inj h
    rfl

section lines

variable {line : List Char} {lines : List (List Char)} {entries : List (String × String)} {ss : List Section}

theorem readLines_blank (hline : readLine line = .blank) (h : readLines lines = some (entries, ss)) :
    readLines (line :: lines) = some (entries, ss) := by
  rw [readLines, h, hline]

theorem readLines_header {name : String} (hline : readLine line = .header name) (h : readLines lines = some (entries, ss)) :
    readLines (line :: lines) = some ([], ⟨name, entries⟩ :: ss) := by
  rw [readLines, h, hline]

theorem readLines_directive {key : String} (value : String) (hkey : IsKey key) (h : readLines lines = some (entries, ss)) :
    readLines ((directive key value).toList :: lines) = some ((key, readValue value) :: entries, ss) := by
  rw [readLines, h, readLine_directive hkey]

end lines

/-- The lines of a text that ends each of them with a newline; the last is empty. -/
theorem splitList_lines {lines : List String} (h : ∀ line ∈ lines, '\n' ∉ line.toList) :
    splitList (· == '\n') (lines.flatMap fun line => line.toList ++ ['\n']) = lines.map String.toList ++ [[]] := by
  induction lines with
  | nil => rfl
  | cons line lines ih =>
    have hline : ∀ c ∈ line.toList, (c == '\n') = false := fun c hc =>
      beq_eq_false_iff_ne.mpr fun he => h line List.mem_cons_self (he ▸ hc)
    rw [List.flatMap_cons, List.append_assoc, List.singleton_append, splitList_append (by decide), splitList_noSep hline,
      ih fun l hl => h l (List.mem_cons_of_mem _ hl)]
    rfl

/-- A file of lines is read line by line. -/
theorem parse_lines {text : String} {lines : List String} {ss : List Section}
    (htext : text.toList = lines.flatMap fun line => line.toList ++ ['\n']) (hlines : ∀ line ∈ lines, '\n' ∉ line.toList)
    (h : readLines (lines.map String.toList ++ [[]]) = some ([], ss)) : parse text = some ss := by
  rw [parse, htext, splitList_lines hlines, h]

/-! ## Values -/

theorem takeWhile_noHash {cs : List Char} (h : '#' ∉ cs) : cs.takeWhile (· ≠ '#') = cs :=
  List.takeWhile_eq_self_iff.mpr fun _ hc => decide_eq_true fun he => h (he ▸ hc)

theorem readValue_noHash {value : String} (h : '#' ∉ value.toList) : readValue value = String.ofList (trim value.toList) := by
  rw [readValue, takeWhile_noHash h]

/-- A value without white space and comments is read as it stands. -/
theorem readValue_self {value : String} (h : ∀ c ∈ value.toList, isBlank c = false ∧ c ≠ '#') : readValue value = value := by
  rw [readValue_noHash fun hc => (h _ hc).2 rfl, trim_of_not_blank fun c hc => (h c hc).1, String.ofList_toList]

/-- A value is read with all its characters only where no comment starts. -/
theorem readValue_eq_self_iff {value : String} (h : trim value.toList = value.toList) : readValue value = value ↔ '#' ∉ value.toList := by
  constructor
  · intro heq hmem
    have hlist : trim (value.toList.takeWhile (· ≠ '#')) = value.toList := by
      have := congrArg String.toList heq
      rwa [readValue, String.toList_ofList] at this
    have hin := List.mem_takeWhile_imp (mem_trim (hlist ▸ hmem))
    exact absurd rfl (of_decide_eq_true hin)
  · intro hno
    rw [readValue_noHash hno, h, String.ofList_toList]

/-- A text all of whose white space is ASCII. -/
def AsciiSpaced (s : String) : Prop := ∀ c ∈ s.toList, isSpace c = true → isBlank c = true

theorem isSpace_of_isBlank {c : Char} (h : isBlank c = true) : isSpace c = true := by
  simp only [isBlank, isSpace, Bool.or_eq_true, Bool.and_eq_true, decide_eq_true_eq, beq_iff_eq] at h ⊢
  omega

/-- What Go has trimmed is trimmed. -/
theorem trim_of_trimList {cs : List Char} (h : trimList cs = cs) : trim cs = cs := by
  have hhead := @trimList_head cs
  have hlast := @trimList_last cs
  rw [h] at hhead hlast
  rw [trim, trimBy, List.dropWhile_eq_self_iff.mpr fun hpos hb => hhead hpos (isSpace_of_isBlank hb),
    List.rdropWhile_eq_self_iff.mpr fun hne hb => hlast hne (isSpace_of_isBlank hb)]

/-- Where a text without white space inside is trimmed to the same by Go and by `wg-quick`. -/
theorem trim_eq_trimList_iff {cs : List Char} (h : ∀ c ∈ trimList cs, isSpace c = false) :
    trim cs = trimList cs ↔ ∀ c ∈ cs, isSpace c = true → isBlank c = true := by
  constructor
  · intro heq c hc hspace
    obtain ⟨ws, vs, hws, hvs, hcs⟩ := trimBy_between isBlank cs
    rw [show trimBy isBlank cs = trimList cs from heq] at hcs
    rw [hcs] at hc
    rcases List.mem_append.mp hc with hc | hc
    · rcases List.mem_append.mp hc with hc | hc
      · exact hws c hc
      · rw [h c hc] at hspace
        cases hspace
    · exact hvs c hc
  · intro hblank
    refine trimBy_congr fun c hc => ?_
    cases hs : isSpace c with
    | true => exact hblank c hc hs
    | false =>
      refine Bool.eq_false_iff.mpr fun hb => ?_
      rw [isSpace_of_isBlank hb] at hs
      cases hs

end Wg

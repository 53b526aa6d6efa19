import EvuProxy.Go.Lexical

/-!
# Slash-separated paths

`path.Clean`, `filepath.Join`, `filepath.Dir` and `strings.TrimPrefix` for a slash, as on Linux, where `filepath` is `path`. A path
without a component `..` is cleaned by leaving out its empty components and its dots.
-/

namespace Go

/-! ## Cleaning -/

/-- One component of a path, on the components before it, the last one first. -/
def cleanStep (rooted : Bool) (stack : List String) (s : String) : List String :=
  if s = "" ∨ s = "." then stack
  else if s = ".." then
    match stack with
    | [] => if rooted then [] else [".."]
    | t :: rest => if t = ".." then ".." :: stack else rest
  else s :: stack

/-- The components that `path.Clean` leaves. -/
def cleanComponents (rooted : Bool) (p : String) : List String := ((split p '/').foldl (cleanStep rooted) []).reverse

/-- A path that starts with a slash. -/
def isRooted (p : String) : Bool := hasPrefix p "/"

/-- `path.Clean`. -/
def cleanPath (p : String) : String :=
  if isRooted p then "/" ++ join (cleanComponents true p) "/"
  else if cleanComponents false p = [] then "." else join (cleanComponents false p) "/"

/-- `filepath.Join`, for two elements of which the first is not empty. -/
def joinPath (a b : String) : String := if b = "" then cleanPath a else cleanPath (a ++ "/" ++ b)

/-- `filepath.Dir`. -/
def dirPath (p : String) : String := cleanPath (String.ofList (p.toList.reverse.dropWhile (· ≠ '/')).reverse)

/-- `strings.TrimPrefix`, for a slash. -/
def trimSlash (p : String) : String :=
  match p.toList with
  | '/' :: cs => String.ofList cs
  | _ => p

/-! ## Components -/

/-- The components of a path, without empty ones and dots. -/
def components (p : String) : List String := (split p '/').filter fun s => s ≠ "" ∧ s ≠ "."

/-- A component that names a file. -/
structure Proper (s : String) : Prop where
  ne_empty : s ≠ ""
  ne_dot : s ≠ "."
  ne_dotdot : s ≠ ".."
  noSlash : '/' ∉ s.toList

/-- The absolute path with the components given. -/
def absPath (cs : List String) : String := "/" ++ join cs "/"

theorem splitList_append {p : Char → Bool} {c : Char} (hc : p c = true) :
    ∀ xs ys : List Char, splitList p (xs ++ c :: ys) = splitList p xs ++ splitList p ys
  | [], ys => by
    show splitList p (c :: ys) = [[]] ++ splitList p ys
    rw [splitList.eq_2, hc]
    rfl
  | x :: xs, ys => by
    have ih := splitList_append hc xs ys
    rw [List.cons_append]
    cases hx : p x with
    | true =>
      rw [splitList.eq_2, splitList.eq_2, hx, ih]
      rfl
    | false =>
      rw [splitList.eq_2, splitList.eq_2, hx, ih]
      cases hs : splitList p xs with
      | nil =>
        cases xs with
        | nil => cases hs
        | cons y zs =>
          unfold splitList at hs
          split at hs <;> cases hs
      | cons q qs => rfl

theorem splitList_noSep {p : Char → Bool} : ∀ {xs : List Char}, (∀ x ∈ xs, p x = false) → splitList p xs = [xs]
  | [], _ => rfl
  | x :: xs, h => by
    have ih := @splitList_noSep p xs fun y hy => h y (List.mem_cons_of_mem _ hy)
    rw [splitList.eq_2, h x List.mem_cons_self, ih]

/-- No piece holds a separator. -/
theorem noSep_of_mem_splitList {q : Char → Bool} : ∀ {xs cs : List Char}, cs ∈ splitList q xs → ∀ c ∈ cs, q c = false
  | [], cs, h, c, hc => by
    rw [List.mem_singleton.mp h] at hc
    cases hc
  | x :: xs, cs, h, c, hc => by
    rw [splitList.eq_2] at h
    cases hx : q x with
    | true =>
      rw [hx] at h
      rcases List.mem_cons.mp h with rfl | h
      · cases hc
      · exact noSep_of_mem_splitList h c hc
    | false =>
      rw [hx] at h
      cases hs : splitList q xs with
      | nil =>
        rw [hs] at h
        rw [List.mem_singleton.mp h, List.mem_singleton] at hc
        rw [hc, hx]
      | cons d ds =>
        rw [hs] at h
        rcases List.mem_cons.mp h with rfl | h
        · rcases List.mem_cons.mp hc with rfl | hc
          · exact hx
          · exact noSep_of_mem_splitList (hs ▸ List.mem_cons_self) c hc
        · exact noSep_of_mem_splitList (hs ▸ List.mem_cons_of_mem _ h) c hc

theorem split_slash (a b : String) : split (a ++ "/" ++ b) '/' = split a '/' ++ split b '/' := by
  have hslash : "/".toList = ['/'] := by decide
  unfold split
  rw [String.toList_append, String.toList_append, hslash, List.append_assoc, List.singleton_append,
    splitList_append (by decide), List.map_append]

theorem split_empty : split "" '/' = [""] := by decide

theorem split_noSlash {s : String} (h : '/' ∉ s.toList) : split s '/' = [s] := by
  unfold split
  rw [splitList_noSep fun x hx => by simpa using fun he : x = '/' => h (he ▸ hx)]
  simp

theorem components_slash (a b : String) : components (a ++ "/" ++ b) = components a ++ components b := by
  unfold components
  rw [split_slash, List.filter_append]

theorem components_root (s : String) : components ("/" ++ s) = components s := by
  have h := components_slash "" s
  rw [String.empty_append] at h
  rw [h]
  rfl

theorem components_proper {s : String} (h : Proper s) : components s = [s] := by
  unfold components
  rw [split_noSlash h.noSlash]
  simp [h.ne_empty, h.ne_dot]

theorem components_join : ∀ {cs : List String}, (∀ c ∈ cs, Proper c) → components (join cs "/") = cs
  | [], _ => by decide
  | [c], h => components_proper (h c List.mem_cons_self)
  | c :: d :: cs, h => by
    have ih := @components_join (d :: cs) fun e he => h e (List.mem_cons_of_mem _ he)
    have hjoin : join (c :: d :: cs) "/" = c ++ "/" ++ join (d :: cs) "/" := rfl
    rw [hjoin, components_slash, ih, components_proper (h c List.mem_cons_self), List.singleton_append]

theorem components_absPath {cs : List String} (h : ∀ c ∈ cs, Proper c) : components (absPath cs) = cs := by
  rw [absPath, components_root, components_join h]

theorem absPath_inj {cs ds : List String} (hc : ∀ c ∈ cs, Proper c) (hd : ∀ d ∈ ds, Proper d) (h : absPath cs = absPath ds) : cs = ds := by
  rw [← components_absPath hc, h, components_absPath hd]

/-! ## Paths without `..` -/

/-- No component of the path goes up. -/
def NoDotDot (p : String) : Prop := ".." ∉ split p '/'

instance (p : String) : Decidable (NoDotDot p) := inferInstanceAs (Decidable (¬_))

theorem noDotDot_slash {a b : String} : NoDotDot (a ++ "/" ++ b) ↔ NoDotDot a ∧ NoDotDot b := by
  unfold NoDotDot
  rw [split_slash, List.mem_append, not_or]

theorem noDotDot_root {s : String} : NoDotDot ("/" ++ s) ↔ NoDotDot s := by
  have h := @noDotDot_slash "" s
  rw [String.empty_append] at h
  rw [h]
  exact and_iff_right (by decide)

theorem noDotDot_proper {s : String} (h : Proper s) : NoDotDot s := by
  unfold NoDotDot
  rw [split_noSlash h.noSlash, List.mem_singleton]
  exact fun he => h.ne_dotdot he.symm

theorem noDotDot_join : ∀ {cs : List String}, (∀ c ∈ cs, Proper c) → NoDotDot (join cs "/")
  | [], _ => by decide
  | [c], h => noDotDot_proper (h c List.mem_cons_self)
  | c :: d :: cs, h => by
    have hjoin : join (c :: d :: cs) "/" = c ++ "/" ++ join (d :: cs) "/" := rfl
    rw [hjoin, noDotDot_slash]
    exact ⟨noDotDot_proper (h c List.mem_cons_self), noDotDot_join fun e he => h e (List.mem_cons_of_mem _ he)⟩

theorem foldl_cleanStep {rooted : Bool} : ∀ {ss stack : List String}, ".." ∉ ss →
    ss.foldl (cleanStep rooted) stack = (ss.filter fun s => s ≠ "" ∧ s ≠ ".").reverse ++ stack
  | [], _, _ => rfl
  | s :: ss, stack, h => by
    have hs : s ≠ ".." := fun he => h (he ▸ List.mem_cons_self)
    have ih := fun st => @foldl_cleanStep rooted ss st fun hm => h (List.mem_cons_of_mem s hm)
    rw [List.foldl_cons, ih, List.filter_cons]
    by_cases hskip : s = "" ∨ s = "."
    · have hno : ¬(s ≠ "" ∧ s ≠ ".") := fun hboth => hskip.elim hboth.1 hboth.2
      unfold cleanStep
      rw [if_pos hskip, if_neg (by simpa using hno)]
    · rw [not_or] at hskip
      unfold cleanStep
      rw [if_neg (not_or.mpr hskip), if_neg hs, if_pos (by simpa using hskip), List.reverse_cons, List.append_assoc,
        List.singleton_append]

theorem cleanComponents_eq {rooted : Bool} {p : String} (h : NoDotDot p) : cleanComponents rooted p = components p := by
  unfold cleanComponents
  rw [foldl_cleanStep h, List.append_nil, List.reverse_reverse]
  rfl

/-- Every component of a path without `..` names a file. -/
theorem proper_of_mem_components {p s : String} (h : NoDotDot p) (hs : s ∈ components p) : Proper s := by
  obtain ⟨hsplit, hne⟩ := List.mem_filter.mp hs
  simp only [decide_eq_true_eq] at hne
  refine ⟨hne.1, hne.2, fun he => h (he ▸ hsplit), ?_⟩
  unfold split at hsplit
  obtain ⟨cs, hcs, rfl⟩ := List.mem_map.mp hsplit
  rw [String.toList_ofList]
  exact fun hmem => absurd (noSep_of_mem_splitList hcs '/' hmem) (by decide)

theorem cleanPath_rooted {p : String} (hr : isRooted p = true) (h : NoDotDot p) : cleanPath p = absPath (components p) := by
  rw [cleanPath, if_pos hr, cleanComponents_eq h, absPath]

theorem cleanPath_unrooted {p : String} (hr : isRooted p = false) (h : NoDotDot p) :
    cleanPath p = if components p = [] then "." else join (components p) "/" := by
  rw [cleanPath, hr, if_neg Bool.false_ne_true, cleanComponents_eq h]

theorem isRooted_absPath (cs : List String) : isRooted (absPath cs) = true := by
  unfold isRooted hasPrefix absPath
  rw [String.toList_append]
  exact List.isPrefixOf_iff_prefix.mpr (List.prefix_append _ _)

theorem noDotDot_absPath {cs : List String} (h : ∀ c ∈ cs, Proper c) : NoDotDot (absPath cs) := noDotDot_root.mpr (noDotDot_join h)

theorem cleanPath_absPath {cs : List String} (h : ∀ c ∈ cs, Proper c) : cleanPath (absPath cs) = absPath cs := by
  rw [cleanPath_rooted (isRooted_absPath cs) (noDotDot_absPath h), components_absPath h]

theorem noDotDot_cleanPath {p : String} (h : NoDotDot p) : NoDotDot (cleanPath p) := by
  have hproper : ∀ c ∈ components p, Proper c := fun c hc => proper_of_mem_components h hc
  cases hr : isRooted p with
  | true =>
    rw [cleanPath_rooted hr h]
    exact noDotDot_absPath hproper
  | false =>
    rw [cleanPath_unrooted hr h]
    split
    · decide
    · exact noDotDot_join hproper

theorem components_cleanPath {p : String} (h : NoDotDot p) : components (cleanPath p) = components p := by
  have hproper : ∀ c ∈ components p, Proper c := fun c hc => proper_of_mem_components h hc
  cases hr : isRooted p with
  | true => rw [cleanPath_rooted hr h, components_absPath hproper]
  | false =>
    rw [cleanPath_unrooted hr h]
    split
    · rename_i hnil
      rw [hnil]
      decide
    · exact components_join hproper

theorem trimSlash_absPath (cs : List String) : trimSlash (absPath cs) = join cs "/" := by
  have hlist : (absPath cs).toList = '/' :: (join cs "/").toList := by
    rw [absPath, String.toList_append]
    rfl
  unfold trimSlash
  rw [hlist]
  exact String.ofList_toList

theorem join_ne_empty {cs : List String} (h : ∀ c ∈ cs, Proper c) (hne : cs ≠ []) : join cs "/" ≠ "" := by
  intro he
  have hc := components_join h
  rw [he] at hc
  exact hne (hc.symm.trans (by decide))

/-- A path that starts with a component is not rooted. -/
theorem isRooted_join {c : String} {cs : List String} (hc : Proper c) : isRooted (join (c :: cs) "/") = false := by
  have hstart : ∃ rest, join (c :: cs) "/" = c ++ rest := by
    cases cs with
    | nil => exact ⟨"", String.append_empty.symm⟩
    | cons d ds => exact ⟨"/" ++ join (d :: ds) "/", String.append_assoc.symm ▸ rfl⟩
  obtain ⟨rest, hrest⟩ := hstart
  by_contra hpre
  obtain ⟨ds, hds⟩ := List.isPrefixOf_iff_prefix.mp (Bool.not_eq_false _ ▸ hpre)
  have hslash : "/".toList = ['/'] := by decide
  rw [hrest, String.toList_append, hslash] at hds
  cases hlist : c.toList with
  | nil => exact hc.ne_empty (String.toList_inj.mp hlist)
  | cons x xs =>
    rw [hlist, List.singleton_append, List.cons_append] at hds
    have hx : '/' = x := (List.cons.inj hds).1
    exact hc.noSlash (by rw [hlist, ← hx]; exact List.mem_cons_self)

/-- A path below an absolute one. -/
theorem joinPath_absPath {cs ds : List String} (hc : ∀ c ∈ cs, Proper c) (hd : ∀ d ∈ ds, Proper d) :
    joinPath (absPath cs) (join ds "/") = absPath (cs ++ ds) := by
  unfold joinPath
  by_cases hnil : ds = []
  · rw [hnil, show join [] "/" = "" from rfl, if_pos rfl, List.append_nil, cleanPath_absPath hc]
  · have hrooted : isRooted (absPath cs ++ "/" ++ join ds "/") = true := by
      unfold isRooted hasPrefix absPath
      rw [String.append_assoc, String.append_assoc, String.toList_append]
      exact List.isPrefixOf_iff_prefix.mpr (List.prefix_append _ _)
    rw [if_neg (join_ne_empty hd hnil), cleanPath_rooted hrooted (noDotDot_slash.mpr ⟨noDotDot_absPath hc, noDotDot_join hd⟩),
      components_slash, components_absPath hc, components_join hd]

theorem join_slash_append {cs ds : List String} (hc : cs ≠ []) (hd : ds ≠ []) : join (cs ++ ds) "/" = join cs "/" ++ "/" ++ join ds "/" := by
  induction cs with
  | nil => exact absurd rfl hc
  | cons c cs ih =>
    cases cs with
    | nil =>
      cases ds with
      | nil => exact absurd rfl hd
      | cons d ds => rfl
    | cons c' cs =>
      have hstep : ∀ es : List String, join (c :: c' :: es) "/" = c ++ "/" ++ join (c' :: es) "/" := fun _ => rfl
      have ih := ih (List.cons_ne_nil _ _)
      rw [List.cons_append, List.cons_append, hstep, hstep]
      rw [List.cons_append] at ih
      rw [ih]
      simp only [String.append_assoc]

/-- The directory of a file is the path without its last component. -/
theorem dirPath_absPath {cs : List String} {c : String} (hcs : ∀ d ∈ cs, Proper d) (hc : Proper c) :
    dirPath (absPath (cs ++ [c])) = absPath cs := by
  have hdrop : ∀ (xs : List Char), ((xs ++ '/' :: c.toList).reverse.dropWhile (· ≠ '/')).reverse = xs ++ ['/'] := by
    intro xs
    rw [List.reverse_append, List.reverse_cons, List.append_assoc, List.dropWhile_append_of_pos, List.singleton_append,
      List.dropWhile_cons_of_neg (by simp), List.reverse_cons, List.reverse_reverse]
    intro x hx
    have hne : x ≠ '/' := fun he => hc.noSlash (he ▸ List.mem_reverse.mp hx)
    simpa using hne
  have hslash : "/".toList = ['/'] := by decide
  unfold dirPath
  by_cases hnil : cs = []
  · have hlist : (absPath ([] ++ [c])).toList = [] ++ '/' :: c.toList := by
      show ("/" ++ c).toList = _
      rw [String.toList_append, hslash]
      rfl
    rw [hnil, hlist, hdrop]
    decide
  · have hlist : (absPath (cs ++ [c])).toList = (absPath cs).toList ++ '/' :: c.toList := by
      unfold absPath
      rw [join_slash_append hnil (List.cons_ne_nil _ _)]
      show ("/" ++ (join cs "/" ++ "/" ++ c)).toList = _
      simp only [String.toList_append, hslash, List.append_assoc, List.nil_append, List.cons_append]
    have hof : String.ofList ((absPath cs).toList ++ ['/']) = absPath cs ++ "/" ++ join [] "/" := by
      rw [← String.toList_inj, String.toList_ofList]
      simp [join, hslash]
    have hproper : NoDotDot (absPath cs ++ "/" ++ join [] "/") := noDotDot_slash.mpr ⟨noDotDot_absPath hcs, by decide⟩
    have hrooted : isRooted (absPath cs ++ "/" ++ join [] "/") = true := by
      unfold isRooted hasPrefix absPath
      rw [String.append_assoc, String.append_assoc, String.toList_append]
      exact List.isPrefixOf_iff_prefix.mpr (List.prefix_append _ _)
    rw [hlist, hdrop, hof, cleanPath_rooted hrooted hproper, components_slash, components_absPath hcs, components_join (by simp),
      List.append_nil]

/-! ## Cutting at the first slash -/

theorem cut_slash {a : String} (h : '/' ∉ a.toList) (b : String) : cut (a ++ "/" ++ b) '/' = some (a, b) := by
  have hslash : "/".toList = ['/'] := by decide
  have hpos : ∀ x ∈ a.toList, decide (x ≠ '/') = true := fun x hx => decide_eq_true fun he => h (he ▸ hx)
  unfold cut
  rw [String.toList_append, String.toList_append, hslash, List.append_assoc, List.singleton_append, List.span_eq_takeWhile_dropWhile,
    List.takeWhile_append_of_pos hpos, List.dropWhile_append_of_pos hpos, List.takeWhile_cons_of_neg (by simp),
    List.dropWhile_cons_of_neg (by simp), List.append_nil]
  simp

end Go

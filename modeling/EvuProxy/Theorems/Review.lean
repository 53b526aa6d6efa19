import EvuProxy.Theorems.RowChanges

/-!
# The review hides nothing

The changes of a saved config name every path and every row at which it differs from the applied one, with two exceptions: a setting
whose name is the path of the routes, and a list of single values whose differing elements are all empty.
-/

namespace EvuProxy.Review

open Go

/-! ## Configs -/

/-- The paths of the row lists. -/
def rowListPaths : List (List String) := [["peers"], ["forwarding", "routes"], ["input_allows"]]

/-- A config as `GET /config` returns it: its row lists are lists of objects, or not there. Other settings may be anything. -/
structure Shaped (c : Json) : Prop where
  keyed : Keyed c
  rows : ∀ path ∈ rowListPaths, isEmptyValue (getPath (some c) path) = true ∨
    ∃ xs, getPath (some c) path = some (.arr xs) ∧ ∀ x ∈ xs, isPlainObject (some x) = true

/-- A step takes the value at a path, or around it, as a whole. -/
def Covered (steps : List Step) (path : List String) : Prop := ∃ q b a, Step.value q b a ∈ steps ∧ q <+: path

/-- A step is about a path, something below it or the value around it. -/
def Named (steps : List Step) (path : List String) : Prop := (∃ s ∈ steps, path <+: s.path) ∨ Covered steps path

/-- The changes of two configs are none exactly if the configs are the same, and name every path at which they differ and the rows at
which their lists do. -/
structure HidesNothing (applied saved : Json) (changes : List Change) : Prop where
  empty : changes = [] ↔ same (some applied) (some saved) = true
  paths : ∀ path, same (getPath (some applied) path) (getPath (some saved) path) = false → Named (stepsOf changes) path
  rows : ∀ path ∈ rowListPaths, RowsNamed (stepsOf changes) path (listAt (some applied) path) (listAt (some saved) path)
  lists : ∀ path, isScalarList (getPath (some applied) path) = true → isScalarList (getPath (some saved) path) = true →
    Covered (stepsOf changes) path ∨ RowsNamed (stepsOf changes) path (listAt (some applied) path) (listAt (some saved) path)

/-- No two lists of single values differ only in which empty values they have. -/
def ListsShow (applied saved : Option Json) : Prop :=
  ∀ path xs ys, getPath applied path = some (.arr xs) → getPath saved path = some (.arr ys) → xs.all isScalar = true →
    ys.all isScalar = true → SameRows xs ys → same (some (.arr xs)) (some (.arr ys)) = true

/-- What the walk over the settings can tell apart: lists, and a setting whose name is the path of the routes. -/
structure InView (applied saved : Json) : Prop where
  dotted : same (field (some applied) "forwarding.routes") (field (some saved) "forwarding.routes") = true
  empties : ListsShow (some applied) (some saved)

/-! ## The walk over the settings -/

section walk

variable {path : List String} {before after : Option Json}

theorem describeSettings_skip (h : ".".intercalate path ∈ rowPaths ∨ same before after = true) : describeSettings path before after = [] := by
  rw [describeSettings, if_pos h]

theorem describeSettings_group (h : ¬(".".intercalate path ∈ rowPaths ∨ same before after = true))
    (hgroup : (isGroup before && isGroup after && (isPlainObject before || isPlainObject after)) = true) (s : Step) :
    s ∈ stepsOf (describeSettings path before after) ↔
      ∃ k ∈ eitherKeys before after, s ∈ stepsOf (describeSettings (path ++ [k]) (field before k) (field after k)) := by
  rw [describeSettings, if_neg h, if_pos hgroup]
  simp only [mem_stepsOf, List.mem_flatMap, List.mem_attach, true_and, Subtype.exists]
  constructor
  · rintro ⟨c, ⟨k, hk, hc⟩, hs⟩
    exact ⟨k, hk, c, hc, hs⟩
  · rintro ⟨k, hk, c, hc, hs⟩
    exact ⟨c, ⟨k, hk, hc⟩, hs⟩

theorem describeSettings_scalars (h : ¬(".".intercalate path ∈ rowPaths ∨ same before after = true))
    (hgroup : ¬(isGroup before && isGroup after && (isPlainObject before || isPlainObject after)) = true)
    (hscalar : (isScalarList before && isScalarList after) = true) :
    describeSettings path before after = describeScalarList path before after := by
  rw [describeSettings, if_neg h, if_neg hgroup, if_pos hscalar]

theorem describeSettings_value (h : ¬(".".intercalate path ∈ rowPaths ∨ same before after = true))
    (hgroup : ¬(isGroup before && isGroup after && (isPlainObject before || isPlainObject after)) = true)
    (hscalar : ¬(isScalarList before && isScalarList after) = true) : describeSettings path before after = [describeValue path before after] := by
  rw [describeSettings, if_neg h, if_neg hgroup, if_neg hscalar]

end walk

/-! ## Values without fields, and rows -/

theorem shown_empty {v : Option Json} (h : isEmptyValue v = true) : shown v = none := by
  match v, h with
  | none, _ => rfl
  | some .null, _ => rfl
  | some (.bool false), _ => rfl
  | some (.num q), h =>
    rw [beq_iff_eq.mp h]
    rfl
  | some (.str s), h =>
    rw [beq_iff_eq.mp h]
    rfl
  | some (.arr []), _ => rfl
  | some (.obj []), _ => rfl

theorem same_empty {b a : Option Json} (hb : isEmptyValue b = true) (ha : isEmptyValue a = true) : same b a = true := by
  rw [same_iff_shown, shown_empty hb, shown_empty ha]

/-- A value that is no object, or an empty one, has no fields. -/
theorem getPath_below {v : Option Json} (h : fieldsOf v = []) (k : String) (p : List String) : getPath v (k :: p) = none := by
  have hfield : field v k = none := by rw [field_eq_lookup, h, List.lookup_nil]
  have hnone : ∀ p, getPath none p = none := by
    intro p
    induction p with
    | nil => rfl
    | cons l p ih => exact ih
  rw [← List.singleton_append, getPath_append]
  change getPath (field v k) p = none
  rw [hfield, hnone]

/-- A field that is on neither side's list of names is on neither side. -/
theorem field_of_not_mem {b a : Option Json} {k : String} (hk : k ∉ eitherKeys b a) : field b k = none ∧ field a k = none := by
  rw [field_eq_lookup, field_eq_lookup]
  refine ⟨Option.not_isSome_iff_eq_none.mp fun h => hk ?_, Option.not_isSome_iff_eq_none.mp fun h => hk ?_⟩
  · exact List.mem_append_left _ (keysOf_eq b ▸ lookup_isSome.mp h)
  · by_cases hb : k ∈ keysOf b
    · exact List.mem_append_left _ hb
    · exact List.mem_append_right _ (List.mem_filter.mpr ⟨keysOf_eq a ▸ lookup_isSome.mp h, by simpa using hb⟩)

theorem fieldsOf_empty {v : Option Json} (h : isEmptyValue v = true) : fieldsOf v = [] := by
  match v, h with
  | some (.obj []), _ => rfl
  | none, _ | some .null, _ | some (.bool _), _ | some (.num _), _ | some (.str _), _ | some (.arr _), _ => rfl

theorem fieldsOf_scalarList {v : Option Json} (h : isScalarList v = true) : fieldsOf v = [] := by
  match v, h with
  | some (.arr _), _ => rfl
  | none, h | some .null, h | some (.bool _), h | some (.num _), h | some (.str _), h | some (.obj _), h => exact fieldsOf_empty h

theorem rowsOf_group {v : Option Json} (h : isGroup v = true) : rowsOf v = [] := by
  match v, h with
  | some (.arr []), _ => rfl
  | none, _ | some .null, _ | some (.bool _), _ | some (.num _), _ | some (.str _), _ | some (.obj _), _ => rfl

theorem rowsOf_empty {v : Option Json} (h : isEmptyValue v = true) : rowsOf v = [] := by
  match v, h with
  | some (.arr []), _ => rfl
  | none, _ | some .null, _ | some (.bool _), _ | some (.num _), _ | some (.str _), _ | some (.obj _), _ => rfl

theorem stripRows_eq_map (xs : List Json) : stripRows xs = xs.map stripEmpty := by
  induction xs with
  | nil => rfl
  | cons x xs ih => rw [stripRows, ih, List.map_cons]

theorem shown_rows (xs : List Json) : shown (some (.arr xs)) = if xs = [] then none else some (.arr (xs.map stripEmpty)) := by
  cases xs with
  | nil => rfl
  | cons x xs =>
    rw [shown, Option.map_some, stripEmpty, stripRows_eq_map, if_neg (List.cons_ne_nil x xs)]
    rfl

/-- Only a list that is not empty shows a list. -/
theorem rowsOf_of_shown {v : Option Json} {zs : List Json} (h : shown v = some (.arr zs)) : (rowsOf v).map stripEmpty = zs := by
  obtain ⟨j, rfl, hj⟩ := Option.map_eq_some_iff.mp (Option.filter_eq_some_iff.mp h).1
  cases j with
  | arr xs =>
    rw [stripEmpty, stripRows_eq_map] at hj
    exact Json.arr.inj hj
  | null | bool _ | num _ | str _ | obj _ => cases hj

/-- Values that are the same have the same rows. -/
theorem sameRows_of_same {b a : Option Json} (h : same b a = true) : SameRows (rowsOf b) (rowsOf a) := by
  have hrows : ∀ {b a : Option Json}, same b a = true → rowsOf b ≠ [] → (rowsOf a).map stripEmpty = (rowsOf b).map stripEmpty := by
    intro b a h hne
    rw [same_iff_shown] at h
    match b, hne with
    | some (.arr xs), hne =>
      rw [shown_rows, if_neg (show xs ≠ [] from hne)] at h
      exact rowsOf_of_shown h.symm
  have hcanonical : ∀ {xs ys : List Json}, xs.map stripEmpty = ys.map stripEmpty → SameRows xs ys := by
    intro xs ys hxy
    have hmap : ∀ zs : List Json, zs.map (fun z => canonical (some z)) =
        (zs.map stripEmpty).map fun z => if isEmptyJson z then .null else z := fun zs => by
      rw [List.map_map]
      rfl
    rw [SameRows, hmap, hmap, hxy]
  by_cases hb : rowsOf b = []
  · by_cases ha : rowsOf a = []
    · rw [ha, hb]
      rfl
    · exact hcanonical (hrows (same_comm b a ▸ h) ha)
  · exact hcanonical (hrows h hb).symm

/-- An object that shows nothing is an object without fields once it is stripped. -/
theorem stripEmpty_of_canonical {x y : Json} (hx : isPlainObject (some x) = true) (hy : isPlainObject (some y) = true)
    (h : canonical (some x) = canonical (some y)) : stripEmpty x = stripEmpty y := by
  have hstrip : ∀ {x : Json}, isPlainObject (some x) = true → ∃ fields, stripEmpty x = .obj fields := by
    intro x hx
    match x, hx with
    | .obj fields, _ => exact ⟨_, by rw [stripEmpty]⟩
  obtain ⟨fs, hfs⟩ := hstrip hx
  obtain ⟨gs, hgs⟩ := hstrip hy
  rw [canonical, canonical, hfs, hgs] at h
  rw [hfs, hgs]
  cases fs <;> cases gs <;> simp_all [isEmptyJson]

/-- Lists of objects with the same rows are the same. -/
theorem same_of_sameRows {xs ys : List Json} (hxs : ∀ x ∈ xs, isPlainObject (some x) = true) (hys : ∀ y ∈ ys, isPlainObject (some y) = true)
    (h : SameRows xs ys) : same (some (.arr xs)) (some (.arr ys)) = true := by
  have hstrip : xs.map stripEmpty = ys.map stripEmpty := by
    induction xs generalizing ys with
    | nil =>
      cases ys with
      | nil => rfl
      | cons y ys => cases h
    | cons x xs ih =>
      cases ys with
      | nil => cases h
      | cons y ys =>
        rw [SameRows, List.map_cons, List.map_cons] at h
        have hhead := stripEmpty_of_canonical (hxs x List.mem_cons_self) (hys y List.mem_cons_self) (List.cons.inj h).1
        have htail := ih (fun z hz => hxs z (List.mem_cons_of_mem x hz)) (fun z hz => hys z (List.mem_cons_of_mem y hz)) (List.cons.inj h).2
        rw [List.map_cons, List.map_cons, hhead, htail]
  have hnil : xs = [] ↔ ys = [] := by
    rw [← List.map_eq_nil_iff (f := stripEmpty), hstrip, List.map_eq_nil_iff]
  rw [same_iff_shown, shown_rows, shown_rows, hstrip]
  simp only [hnil]

/-! ## What the walk names -/

/-- Whatever a path is a part of. -/
theorem Named.mono {steps steps' : List Step} {path : List String} (h : Named steps path) (hsub : ∀ s ∈ steps, s ∈ steps') :
    Named steps' path := by
  rcases h with ⟨s, hs, hp⟩ | ⟨q, b, a, hs, hq⟩
  · exact .inl ⟨s, hsub s hs, hp⟩
  · exact .inr ⟨q, b, a, hsub _ hs, hq⟩

theorem Covered.mono {steps steps' : List Step} {path : List String} (h : Covered steps path) (hsub : ∀ s ∈ steps, s ∈ steps') :
    Covered steps' path := by
  obtain ⟨q, b, a, hs, hq⟩ := h
  exact ⟨q, b, a, hsub _ hs, hq⟩

/-- What is named below a path is named at the path. -/
theorem Named.up {steps : List Step} {path : List String} {k : String} (h : Named steps (path ++ [k])) : Named steps path := by
  rcases h with ⟨s, hs, hp⟩ | ⟨q, b, a, hs, hq⟩
  · exact .inl ⟨s, hs, (List.prefix_append path [k]).trans hp⟩
  · rcases List.prefix_concat_iff.mp hq with rfl | hq
    · exact .inl ⟨_, hs, List.prefix_append path [k]⟩
    · exact .inr ⟨q, b, a, hs, hq⟩

/-- A path at which the two sides differ, on the way to `path` or below it, that the walk leaves to the row lists. -/
def LeftOut (applied saved : Option Json) (path : List String) : Prop :=
  ∃ q, ".".intercalate q ∈ rowPaths ∧ (q <+: path ∨ path <+: q) ∧ same (getPath applied q) (getPath saved q) = false

section named

variable {applied saved : Option Json}

/-- A list of single values that differs from another has steps. -/
theorem steps_describeScalarList {path q : List String} (hview : ListsShow applied saved)
    (hb : isScalarList (getPath applied path) = true) (ha : isScalarList (getPath saved path) = true)
    (hdiffers : same (getPath applied path) (getPath saved path) = false) :
    ∃ s, s ∈ stepsOf (describeScalarList q (getPath applied path) (getPath saved path)) := by
  refine List.exists_mem_of_ne_nil _ fun hnone => ?_
  have hnamed := @rowsNamed_describeScalarList q (getPath applied path) (getPath saved path)
  rw [hnone] at hnamed
  have hrows := sameRows_of_unnamed hnamed
  have hlist : ∀ {v : Option Json}, isScalarList v = true → isEmptyValue v = true ∨ ∃ xs, v = some (.arr xs) ∧ xs.all isScalar = true := by
    intro v hv
    match v, hv with
    | some (.arr xs), hv => exact .inr ⟨xs, rfl, hv⟩
    | none, hv | some .null, hv | some (.bool _), hv | some (.num _), hv | some (.str _), hv | some (.obj _), hv => exact .inl hv
  have hempty : ∀ {v : Option Json}, isScalarList v = true → rowsOf v = [] → isEmptyValue v = true := by
    intro v hv hrows
    rcases hlist hv with h | ⟨xs, rfl, -⟩
    · exact h
    · rw [show xs = [] from hrows]
      rfl
  have hlength := congrArg List.length hrows
  rw [List.length_map, List.length_map] at hlength
  have hsame : same (getPath applied path) (getPath saved path) = true := by
    rcases hlist hb with hbe | ⟨xs, hxs, hxsall⟩
    · rw [rowsOf_empty hbe] at hlength
      exact same_empty hbe (hempty ha (List.length_eq_zero_iff.mp hlength.symm))
    · rcases hlist ha with hae | ⟨ys, hys, hysall⟩
      · rw [rowsOf_empty hae] at hlength
        exact same_empty (hempty hb (List.length_eq_zero_iff.mp hlength)) hae
      · rw [hxs, hys] at hrows ⊢
        exact hview path xs ys hxs hys hxsall hysall hrows
  rw [hsame] at hdiffers
  cases hdiffers

/-- The walk below a path names every path at which the two sides differ, but for those of the row lists. -/
theorem named_describeSettings (hb : KeyedAt applied) (ha : KeyedAt saved) (hview : ListsShow applied saved)
    (path : List String) (before after : Option Json) (hbefore : getPath applied path = before) (hafter : getPath saved path = after)
    (p : List String) (hdiffers : same (getPath before p) (getPath after p) = false) :
    LeftOut applied saved (path ++ p) ∨ Named (stepsOf (describeSettings path before after)) (path ++ p) := by
  have hbk : KeyedAt before := hbefore ▸ hb.getPath path
  have hak : KeyedAt after := hafter ▸ ha.getPath path
  have hnot : same before after = false := by
    by_contra h
    rw [same_getPath hbk hak (Bool.not_eq_false _ ▸ h) p] at hdiffers
    cases hdiffers
  induction path, before, after using describeSettings.induct generalizing p with
  | case1 path before after hskip =>
    rcases hskip with hrow | hsame
    · refine .inl ⟨path, hrow, .inl (List.prefix_append path p), ?_⟩
      rw [hbefore, hafter, hnot]
    · rw [hsame] at hnot
      cases hnot
  | case2 path before after hskip hgroup ih =>
    have hgb : isGroup before = true := by
      rw [Bool.and_eq_true, Bool.and_eq_true] at hgroup
      exact hgroup.1.1
    have hga : isGroup after = true := by
      rw [Bool.and_eq_true, Bool.and_eq_true] at hgroup
      exact hgroup.1.2
    -- a field at which the two sides differ is there on one of them
    have hkey : ∀ k p, same (getPath (field before k) p) (getPath (field after k) p) = false → k ∈ eitherKeys before after := by
      intro k p hdiffers
      by_contra hk
      rw [(field_of_not_mem hk).1, (field_of_not_mem hk).2, same_refl] at hdiffers
      cases hdiffers
    have hfield : ∀ k p, same (getPath (field before k) p) (getPath (field after k) p) = false →
        LeftOut applied saved (path ++ [k] ++ p) ∨ Named (stepsOf (describeSettings path before after)) (path ++ [k] ++ p) := by
      intro k p hdiffers
      have hk := hkey k p hdiffers
      have hnot : same (field before k) (field after k) = false := by
        by_contra h
        rw [same_getPath (hbk.field k) (hak.field k) (Bool.not_eq_false _ ▸ h) p] at hdiffers
        cases hdiffers
      have := ih k hk (by rw [getPath_snoc, hbefore]) (by rw [getPath_snoc, hafter]) p hdiffers (hbk.field k) (hak.field k) hnot
      refine this.imp_right fun h => h.mono fun s hs => (describeSettings_group hskip hgroup s).mpr ⟨k, hk, hs⟩
    cases p with
    | nil =>
      have hsome : ∃ k, same (field before k) (field after k) = false := by
        by_contra hall
        have := (same_group hbk hak hgb hga).mpr fun k => by
          by_contra h
          exact hall ⟨k, Bool.eq_false_iff.mpr h⟩
        rw [this] at hnot
        cases hnot
      obtain ⟨k, hk⟩ := hsome
      have := hfield k [] hk
      rw [List.append_nil] at this ⊢
      rcases this with ⟨q, hq, hcmp, hdiff⟩ | hnamed
      · refine .inl ⟨q, hq, ?_, hdiff⟩
        rcases hcmp with hcmp | hcmp
        · rcases List.prefix_concat_iff.mp hcmp with rfl | hcmp
          · exact .inr (List.prefix_append path [k])
          · exact .inl hcmp
        · exact .inr ((List.prefix_append path [k]).trans hcmp)
      · exact .inr hnamed.up
    | cons k p =>
      have := hfield k p hdiffers
      rwa [List.append_assoc, List.singleton_append] at this
  | case3 path before after hskip hgroup hscalar =>
    rw [Bool.and_eq_true] at hscalar
    cases p with
    | nil =>
      subst hbefore hafter
      obtain ⟨s, hs⟩ := @steps_describeScalarList applied saved path path hview hscalar.1 hscalar.2 hnot
      refine .inr (.inl ⟨s, ?_, ?_⟩)
      · rw [describeSettings_scalars hskip hgroup (by rw [hscalar.1, hscalar.2]; rfl)]
        exact hs
      · rw [List.append_nil]
        exact (aboutRows_describeScalarList hs).1 ▸ List.prefix_refl _
    | cons k p =>
      rw [getPath_below (fieldsOf_scalarList hscalar.1), getPath_below (fieldsOf_scalarList hscalar.2), same_refl] at hdiffers
      cases hdiffers
  | case4 path before after hskip hgroup hscalar =>
    refine .inr (.inr ⟨path, before, after, ?_, List.prefix_append path p⟩)
    rw [describeSettings_value hskip hgroup hscalar]
    exact mem_stepsOf.mpr ⟨_, List.mem_singleton_self _, List.mem_singleton_self _⟩

/-- The walk below a path names the rows at which lists of single values differ, but for those of the row lists. -/
theorem rowsNamed_describeSettings (hb : KeyedAt applied) (ha : KeyedAt saved) (path : List String) (before after : Option Json)
    (hbefore : getPath applied path = before) (hafter : getPath saved path = after) (p : List String)
    (hpb : isScalarList (getPath before p) = true) (hpa : isScalarList (getPath after p) = true) :
    (∃ q, ".".intercalate q ∈ rowPaths ∧ q <+: path ++ p) ∨ Covered (stepsOf (describeSettings path before after)) (path ++ p) ∨
      RowsNamed (stepsOf (describeSettings path before after)) (path ++ p) (rowsOf (getPath before p)) (rowsOf (getPath after p)) := by
  have hbk : KeyedAt before := hbefore ▸ hb.getPath path
  have hak : KeyedAt after := hafter ▸ ha.getPath path
  induction path, before, after using describeSettings.induct generalizing p with
  | case1 path before after hskip =>
    rcases hskip with hrow | hsame
    · exact .inl ⟨path, hrow, List.prefix_append path p⟩
    · exact .inr (.inr (rowsNamed_same (sameRows_of_same (same_getPath hbk hak hsame p))))
  | case2 path before after hskip hgroup ih =>
    rw [Bool.and_eq_true, Bool.and_eq_true] at hgroup
    cases p with
    | nil =>
      refine .inr (.inr (rowsNamed_same ?_))
      change SameRows (rowsOf before) (rowsOf after)
      rw [rowsOf_group hgroup.1.1, rowsOf_group hgroup.1.2]
      rfl
    | cons k p =>
      by_cases hk : k ∈ eitherKeys before after
      · have := ih k hk (by rw [getPath_snoc, hbefore]) (by rw [getPath_snoc, hafter]) p hpb hpa (hbk.field k) (hak.field k)
        rw [List.append_assoc, List.singleton_append] at this
        have hsub : ∀ s ∈ stepsOf (describeSettings (path ++ [k]) (field before k) (field after k)),
            s ∈ stepsOf (describeSettings path before after) := fun s hs =>
          (describeSettings_group hskip (by rw [hgroup.1.1, hgroup.1.2, hgroup.2]; rfl) s).mpr ⟨k, hk, hs⟩
        exact this.imp_right (Or.imp (·.mono hsub) (·.mono hsub))
      · have hnone : field before k = none ∧ field after k = none := field_of_not_mem hk
        refine .inr (.inr (rowsNamed_same ?_))
        change SameRows (rowsOf (getPath (field before k) p)) (rowsOf (getPath (field after k) p))
        rw [hnone.1, hnone.2]
        rfl
  | case3 path before after hskip hgroup hscalar =>
    have hlist := hscalar
    rw [Bool.and_eq_true] at hlist
    cases p with
    | nil =>
      rw [List.append_nil, describeSettings_scalars hskip hgroup hscalar]
      exact .inr (.inr (rowsNamed_describeScalarList before after))
    | cons k p =>
      refine .inr (.inr (rowsNamed_same ?_))
      rw [getPath_below (fieldsOf_scalarList hlist.1), getPath_below (fieldsOf_scalarList hlist.2)]
      rfl
  | case4 path before after hskip hgroup hscalar =>
    refine .inr (.inl ⟨path, before, after, ?_, List.prefix_append path p⟩)
    rw [describeSettings_value hskip hgroup hscalar]
    exact mem_stepsOf.mpr ⟨_, List.mem_singleton_self _, List.mem_singleton_self _⟩

end named

/-! ## The paths of the row lists -/

theorem toList_joined (x y : String) (l : List String) :
    (".".intercalate (x :: y :: l)).toList = x.toList ++ '.' :: (".".intercalate (y :: l)).toList := by
  rw [String.intercalate_cons_cons, @String.toList_append (x ++ ".") (".".intercalate (y :: l)), @String.toList_append x "."]
  rw [show ".".toList = ['.'] from rfl, List.append_assoc, List.singleton_append]

/-- The one dot in the path of the routes. -/
theorem split_forwarding {x rest : List Char} (h : x ++ '.' :: rest = "forwarding.routes".toList) :
    x = "forwarding".toList ∧ rest = "routes".toList := by
  have hdot : "forwarding.routes".toList[x.length]? = some '.' := by
    rw [← h, List.getElem?_append_right (Nat.le_refl _), Nat.sub_self]
    rfl
  have hlen : x.length < 17 := by
    have := congrArg List.length h
    rw [List.length_append, List.length_cons, show "forwarding.routes".toList.length = 17 from rfl] at this
    omega
  have hat : ∀ n < 17, "forwarding.routes".toList[n]? = some '.' → n = 10 := by decide
  have hparts : x ++ '.' :: rest = "forwarding".toList ++ '.' :: "routes".toList := h
  have := List.append_inj hparts (hat _ hlen hdot)
  exact ⟨this.1, (List.cons.inj this.2).2⟩

/-- The walk leaves out the paths of the row lists, and the setting whose name is the path of the routes. -/
theorem path_of_rowPath {q : List String} (h : ".".intercalate q ∈ rowPaths) : q ∈ rowListPaths ∨ q = ["forwarding.routes"] := by
  match q, h with
  | [], h =>
    rw [String.intercalate_nil] at h
    exact absurd h (by decide)
  | [x], h =>
    rw [String.intercalate_singleton] at h
    simp only [rowPaths, List.mem_cons, List.not_mem_nil, or_false] at h
    rcases h with rfl | rfl | rfl
    · exact .inl (by decide)
    · exact .inr rfl
    · exact .inl (by decide)
  | x :: y :: l, h =>
    have hjoined := toList_joined x y l
    have hdot : '.' ∈ (".".intercalate (x :: y :: l)).toList := by
      rw [hjoined]
      exact List.mem_append_right _ List.mem_cons_self
    simp only [rowPaths, List.mem_cons, List.not_mem_nil, or_false] at h
    rcases h with h | h | h
    · rw [h] at hdot
      exact absurd hdot (by decide)
    · rw [h] at hjoined
      obtain ⟨hx, hrest⟩ := split_forwarding hjoined.symm
      cases l with
      | nil =>
        rw [String.intercalate_singleton] at hrest
        rw [String.toList_inj.mp hx, String.toList_inj.mp hrest]
        exact .inl (by decide)
      | cons z l =>
        have : '.' ∈ "routes".toList := by
          rw [← hrest, toList_joined]
          exact List.mem_append_right _ List.mem_cons_self
        exact absurd this (by decide)
    · rw [h] at hdot
      exact absurd hdot (by decide)

/-! ## The review -/

section review

variable {applied saved : Json}

/-- Values of a row list: no fields, and the same as soon as their rows are. -/
theorem Shaped.fieldsOf_rows {c : Json} (h : Shaped c) {path : List String} (hpath : path ∈ rowListPaths) : fieldsOf (getPath (some c) path) = [] := by
  rcases h.rows path hpath with hempty | ⟨xs, hxs, -⟩
  · exact fieldsOf_empty hempty
  · rw [hxs]
    rfl

theorem Shaped.same_rows (ha : Shaped applied) (hs : Shaped saved) {path : List String} (hpath : path ∈ rowListPaths)
    (h : SameRows (listAt (some applied) path) (listAt (some saved) path)) :
    same (getPath (some applied) path) (getPath (some saved) path) = true := by
  have hlength := congrArg List.length h
  rw [List.length_map, List.length_map, listAt, listAt] at hlength
  rcases ha.rows path hpath with hae | ⟨xs, hxs, hxsall⟩
  · rw [rowsOf_empty hae] at hlength
    rcases hs.rows path hpath with hse | ⟨ys, hys, -⟩
    · exact same_empty hae hse
    · rw [hys] at hlength ⊢
      rw [List.length_eq_zero_iff.mp (show ys.length = 0 from hlength.symm)]
      exact same_empty hae rfl
  · rcases hs.rows path hpath with hse | ⟨ys, hys, hysall⟩
    · rw [rowsOf_empty hse, hxs] at hlength
      rw [hxs, List.length_eq_zero_iff.mp (show xs.length = 0 from hlength)]
      exact same_empty rfl hse
    · rw [listAt, listAt, hxs, hys] at h
      rw [hxs, hys]
      exact same_of_sameRows hxsall hysall h

variable (numText : ℚ → String) (toLowerCase toUpperCase : String → String)

/-- The row lists as the review goes through them. -/
theorem mem_steps_describeConfigChanges (s : Step) :
    s ∈ stepsOf (describeConfigChanges numText toLowerCase toUpperCase applied saved) ↔
      s ∈ stepsOf (describeRowList (peerRows numText) applied saved) ∨
      s ∈ stepsOf (describeRowList (routeRows numText toLowerCase) applied saved) ∨
      s ∈ stepsOf (describeRowList (inboundRows numText toLowerCase toUpperCase) applied saved) ∨
      s ∈ stepsOf (describeSettings [] (some applied) (some saved)) := by
  rw [describeConfigChanges, stepsOf_append, stepsOf_append, List.mem_append, List.mem_append, foldCascades_steps, stepsOf_append, List.mem_append, or_assoc, or_assoc]

/-- The changes name what differs in each row list. -/
theorem rowsNamed_describeConfigChanges {path : List String} (hpath : path ∈ rowListPaths) :
    RowsNamed (stepsOf (describeConfigChanges numText toLowerCase toUpperCase applied saved)) path
      (listAt (some applied) path) (listAt (some saved) path) := by
  simp only [rowListPaths, List.mem_cons, List.not_mem_nil, or_false] at hpath
  rcases hpath with rfl | rfl | rfl
  · exact (rowsNamed_describeRowList (peerRows numText) applied saved).mono fun s hs =>
      (mem_steps_describeConfigChanges numText toLowerCase toUpperCase s).mpr (.inl hs)
  · exact (rowsNamed_describeRowList (routeRows numText toLowerCase) applied saved).mono fun s hs =>
      (mem_steps_describeConfigChanges numText toLowerCase toUpperCase s).mpr (.inr (.inl hs))
  · exact (rowsNamed_describeRowList (inboundRows numText toLowerCase toUpperCase) applied saved).mono fun s hs =>
      (mem_steps_describeConfigChanges numText toLowerCase toUpperCase s).mpr (.inr (.inr (.inl hs)))

/-- A row list that differs has a step. -/
theorem step_of_rows (ha : Shaped applied) (hs : Shaped saved) {path : List String} (hpath : path ∈ rowListPaths)
    (hdiffers : same (getPath (some applied) path) (getPath (some saved) path) = false) :
    ∃ s ∈ stepsOf (describeConfigChanges numText toLowerCase toUpperCase applied saved), s.path = path := by
  have hlist : ∀ list : RowList, list.path = path → ∃ s ∈ stepsOf (describeRowList list applied saved), s.path = path := by
    intro list heq
    subst heq
    have hsome : ∃ s, s ∈ stepsOf (describeRowList list applied saved) := by
      refine List.exists_mem_of_ne_nil _ fun hnone => ?_
      have hnamed := rowsNamed_describeRowList list applied saved
      rw [hnone] at hnamed
      rw [ha.same_rows hs hpath (sameRows_of_unnamed hnamed)] at hdiffers
      cases hdiffers
    obtain ⟨s, hs⟩ := hsome
    exact ⟨s, hs, (aboutRows_describeRowList hs).1⟩
  simp only [rowListPaths, List.mem_cons, List.not_mem_nil, or_false] at hpath
  rcases hpath with rfl | rfl | rfl
  · obtain ⟨s, hs, hp⟩ := hlist (peerRows numText) rfl
    exact ⟨s, (mem_steps_describeConfigChanges _ _ _ s).mpr (.inl hs), hp⟩
  · obtain ⟨s, hs, hp⟩ := hlist (routeRows numText toLowerCase) rfl
    exact ⟨s, (mem_steps_describeConfigChanges _ _ _ s).mpr (.inr (.inl hs)), hp⟩
  · obtain ⟨s, hs, hp⟩ := hlist (inboundRows numText toLowerCase toUpperCase) rfl
    exact ⟨s, (mem_steps_describeConfigChanges _ _ _ s).mpr (.inr (.inr (.inl hs))), hp⟩

/-- Every path at which the configs differ is named. -/
theorem named_describeConfigChanges (ha : Shaped applied) (hs : Shaped saved) (hview : InView applied saved) {path : List String}
    (hdiffers : same (getPath (some applied) path) (getPath (some saved) path) = false) :
    Named (stepsOf (describeConfigChanges numText toLowerCase toUpperCase applied saved)) path := by
  rcases named_describeSettings (.some ha.keyed) (.some hs.keyed) hview.empties [] _ _ rfl rfl path hdiffers with ⟨q, hq, hcmp, hdiff⟩ | hnamed
  · rcases path_of_rowPath hq with hrow | rfl
    · obtain ⟨s, hs', hp⟩ := step_of_rows numText toLowerCase toUpperCase ha hs hrow hdiff
      rcases hcmp with ⟨r, hr⟩ | hcmp
      · cases r with
        | nil =>
          rw [List.append_nil, List.nil_append] at hr
          exact .inl ⟨s, hs', hp ▸ hr ▸ List.prefix_refl q⟩
        | cons k r =>
          -- nothing is below the rows of a list
          rw [List.nil_append] at hr
          rw [← hr, getPath_append, getPath_append, getPath_below (ha.fieldsOf_rows hrow), getPath_below (hs.fieldsOf_rows hrow), same_refl] at hdiffers
          cases hdiffers
      · exact .inl ⟨s, hs', hp ▸ hcmp⟩
    · have hsame : same (getPath (some applied) ["forwarding.routes"]) (getPath (some saved) ["forwarding.routes"]) = true := hview.dotted
      rw [hsame] at hdiff
      cases hdiff
  · exact hnamed.mono fun s hs => (mem_steps_describeConfigChanges _ _ _ s).mpr (.inr (.inr (.inr hs)))

/-- The rows at which lists of single values differ are named. -/
theorem listsNamed_describeConfigChanges (ha : Shaped applied) (hs : Shaped saved) (hview : InView applied saved) {path : List String}
    (hpa : isScalarList (getPath (some applied) path) = true) (hps : isScalarList (getPath (some saved) path) = true) :
    Covered (stepsOf (describeConfigChanges numText toLowerCase toUpperCase applied saved)) path ∨
      RowsNamed (stepsOf (describeConfigChanges numText toLowerCase toUpperCase applied saved)) path
        (listAt (some applied) path) (listAt (some saved) path) := by
  have hsub : ∀ s ∈ stepsOf (describeSettings [] (some applied) (some saved)),
      s ∈ stepsOf (describeConfigChanges numText toLowerCase toUpperCase applied saved) := fun s hs =>
    (mem_steps_describeConfigChanges _ _ _ s).mpr (.inr (.inr (.inr hs)))
  rcases rowsNamed_describeSettings (.some ha.keyed) (.some hs.keyed) [] (some applied) (some saved) rfl rfl path hpa hps with
    ⟨q, hq, r, hr⟩ | hcovered | hnamed
  · rw [List.nil_append] at hr
    rcases path_of_rowPath hq with hrow | rfl
    · cases r with
      | nil =>
        rw [List.append_nil] at hr
        exact .inr (rowsNamed_describeConfigChanges _ _ _ (hr ▸ hrow))
      | cons k r =>
        refine .inr (rowsNamed_same ?_)
        rw [← hr, listAt, listAt, getPath_append, getPath_append, getPath_below (ha.fieldsOf_rows hrow), getPath_below (hs.fieldsOf_rows hrow)]
        rfl
    · have hsame : same (getPath (some applied) ["forwarding.routes"]) (getPath (some saved) ["forwarding.routes"]) = true := hview.dotted
      refine .inr (rowsNamed_same (sameRows_of_same ?_))
      rw [← hr, getPath_append, getPath_append]
      exact same_getPath (KeyedAt.getPath (.some ha.keyed) _) (KeyedAt.getPath (.some hs.keyed) _) hsame r
  · exact .inl (hcovered.mono hsub)
  · exact .inr (hnamed.mono hsub)

/-- Configs that are the same have no changes. -/
theorem describeConfigChanges_same (ha : Shaped applied) (hs : Shaped saved) (h : same (some applied) (some saved) = true) :
    describeConfigChanges numText toLowerCase toUpperCase applied saved = [] := by
  have hlist : ∀ list : RowList, describeRowList list applied saved = [] := fun list =>
    describeRowList_same (sameRows_of_same (same_getPath (.some ha.keyed) (.some hs.keyed) h list.path))
  rw [describeConfigChanges, hlist, hlist, hlist, describeSettings_skip (.inr h)]
  rfl

/-- The changes of a saved config are none exactly if it is the same as the applied one, and otherwise name every path and every row at
which the two differ, and every change of the order of the other rows. -/
theorem hidesNothing (ha : Shaped applied) (hs : Shaped saved) (hview : InView applied saved) :
    HidesNothing applied saved (describeConfigChanges numText toLowerCase toUpperCase applied saved) where
  empty := by
    refine ⟨fun h => ?_, describeConfigChanges_same numText toLowerCase toUpperCase ha hs⟩
    by_contra hdiffers
    have hnamed := @named_describeConfigChanges _ _ numText toLowerCase toUpperCase ha hs hview [] (Bool.eq_false_iff.mpr hdiffers)
    rw [h] at hnamed
    rcases hnamed with ⟨s, hs, -⟩ | ⟨q, b, a, hs, -⟩ <;> exact List.not_mem_nil hs
  paths _ := named_describeConfigChanges numText toLowerCase toUpperCase ha hs hview
  rows _ := rowsNamed_describeConfigChanges numText toLowerCase toUpperCase
  lists _ := listsNamed_describeConfigChanges numText toLowerCase toUpperCase ha hs hview

end review

/-! ## Configs without empty elements -/

mutual

/-- No list of single values has an element that is empty. -/
def fullLists : Json → Bool
  | .arr xs => (!xs.all isScalar || xs.all fun x => !isEmptyJson x) && fullRows xs
  | .obj fields => fullFields fields
  | _ => true

def fullRows : List Json → Bool
  | [] => true
  | x :: xs => fullLists x && fullRows xs

def fullFields : List (String × Json) → Bool
  | [] => true
  | (_, v) :: fields => fullLists v && fullFields fields

end

theorem fullLists_field {j v : Json} {k : String} (h : fullLists j = true) (hv : field (some j) k = some v) : fullLists v = true := by
  have hfields : ∀ fields : List (String × Json), fullFields fields = true → (k, v) ∈ fields → fullLists v = true := by
    intro fields
    induction fields with
    | nil => exact fun _ hmem => absurd hmem List.not_mem_nil
    | cons f fields ih =>
      obtain ⟨l, w⟩ := f
      intro hfull hmem
      rw [fullFields, Bool.and_eq_true] at hfull
      rcases List.mem_cons.mp hmem with heq | hmem
      · cases heq
        exact hfull.1
      · exact ih hfull.2 hmem
  match j, h, hv with
  | .obj fields, h, hv =>
    rw [fullLists] at h
    exact hfields fields h (mem_of_lookup hv)

theorem fullLists_getPath {j v : Json} (path : List String) (h : fullLists j = true) (hv : getPath (some j) path = some v) :
    fullLists v = true := by
  induction path generalizing j with
  | nil =>
    cases hv
    exact h
  | cons k path ih =>
    have hv : getPath (field (some j) k) path = some v := hv
    cases hk : field (some j) k with
    | none =>
      rw [hk] at hv
      cases path with
      | nil => cases hv
      | cons l path => rw [getPath_below rfl] at hv; cases hv
    | some w =>
      rw [hk] at hv
      exact ih (fullLists_field h hk) hv

/-- Lists of single values that are not empty show all there is to them. -/
theorem listsShow_of_full {applied saved : Json} (ha : fullLists applied = true) (hs : fullLists saved = true) :
    ListsShow (some applied) (some saved) := by
  intro path xs ys hxs hys hxsall hysall hrows
  have hfull : ∀ {j : Json} {zs : List Json}, fullLists j = true → getPath (some j) path = some (.arr zs) → zs.all isScalar = true →
      zs.map (fun z => canonical (some z)) = zs := by
    intro j zs hj hzs hall
    have hlist := fullLists_getPath path hj hzs
    rw [fullLists, hall, Bool.not_true, Bool.false_or, Bool.and_eq_true] at hlist
    refine (List.map_congr_left fun z hz => ?_).trans (List.map_id zs)
    have hscalar := List.all_eq_true.mp hall z hz
    have hfull := List.all_eq_true.mp hlist.1 z hz
    have hstrip : stripEmpty z = z := by
      match z, hscalar with
      | .null, _ | .bool _, _ | .num _, _ | .str _, _ => rw [stripEmpty] <;> rintro _ ⟨⟩
    rw [canonical, hstrip, if_neg (by simpa using hfull), id]
  rw [SameRows, hfull ha hxs hxsall, hfull hs hys hysall] at hrows
  rw [hrows, same_refl]

section sample

/-- A config with one peer and one route to it. -/
def sampleReviewed (disabled : Bool) (countries : List Json) : Json :=
  .obj [("peers", .arr [.obj [("name", .str "a"), ("tunnel_ip", .str "10.0.0.2/32"), ("disabled", .bool disabled)]]),
    ("forwarding", .obj [("routes", .arr [.obj [("ports", .arr [.str "80"]), ("target_ip", .str "10.0.0.2"), ("disabled", .bool disabled)]])]),
    ("geo", .obj [("countries", .arr countries)])]

theorem sampleReviewed_shaped (disabled : Bool) {countries : List Json} (hkeyed : ∀ x ∈ countries, Keyed x) :
    Shaped (sampleReviewed disabled countries) where
  keyed := by
    refine .obj (by simp) ?_
    simp only [List.forall_mem_cons, List.not_mem_nil, false_implies, implies_true, and_true]
    refine ⟨.arr ?_, .obj (by simp) ?_, .obj (by simp) ?_⟩
    · simp only [List.forall_mem_singleton]
      refine .obj (by simp) ?_
      simp only [List.forall_mem_cons, List.not_mem_nil, false_implies, implies_true, and_true]
      exact ⟨.str _, .str _, .bool _⟩
    · simp only [List.forall_mem_singleton]
      refine .arr ?_
      simp only [List.forall_mem_singleton]
      refine .obj (by simp) ?_
      simp only [List.forall_mem_cons, List.not_mem_nil, false_implies, implies_true, and_true]
      refine ⟨.arr ?_, .str _, .bool _⟩
      simp only [List.forall_mem_singleton]
      exact .str _
    · simp only [List.forall_mem_singleton]
      exact .arr hkeyed
  rows := by
    simp only [rowListPaths, List.forall_mem_cons, List.not_mem_nil, false_implies, implies_true, and_true]
    exact ⟨.inr ⟨_, rfl, by simp [isPlainObject]⟩, .inr ⟨_, rfl, by simp [isPlainObject]⟩, .inl rfl⟩

/-- Turning a peer off takes its route along, and the review shows that next to a new country. -/
theorem hidesNothing_sample :
    HidesNothing (sampleReviewed false [.str "DE"]) (sampleReviewed true [.str "DE", .str "FR"])
      (describeConfigChanges (fun q => toString q.num) id id (sampleReviewed false [.str "DE"]) (sampleReviewed true [.str "DE", .str "FR"])) :=
  hidesNothing _ _ _ (sampleReviewed_shaped false (by simp only [List.forall_mem_singleton]; exact .str _))
    (sampleReviewed_shaped true (by simp only [List.forall_mem_cons, List.not_mem_nil, false_implies, implies_true, and_true]; exact ⟨.str _, .str _⟩))
    ⟨by decide, listsShow_of_full (by decide) (by decide)⟩

end sample

end EvuProxy.Review

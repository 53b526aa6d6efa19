import EvuProxy.Web.Review

/-!
# Canonical values

What `canonical` forgets of a value, and what follows for its fields: two settings of settings are the same when each of their fields
is, and values that are the same have the same fields all the way down.
-/

namespace EvuProxy.Review

open Go

/-- No object has two fields of one name. -/
inductive Keyed : Json → Prop where
  | null : Keyed .null
  | bool (b : Bool) : Keyed (.bool b)
  | num (q : ℚ) : Keyed (.num q)
  | str (s : String) : Keyed (.str s)
  | arr {xs : List Json} : (∀ x ∈ xs, Keyed x) → Keyed (.arr xs)
  | obj {fields : List (String × Json)} : (fields.map Prod.fst).Nodup → (∀ f ∈ fields, Keyed f.2) → Keyed (.obj fields)

/-- `Keyed`, of a value that may be `undefined`. -/
def KeyedAt (v : Option Json) : Prop := ∀ j ∈ v, Keyed j

theorem KeyedAt.none : KeyedAt none := by
  intro j hj
  cases hj

theorem KeyedAt.some {j : Json} (h : Keyed j) : KeyedAt (some j) := by
  intro i hi
  cases hi
  exact h

theorem KeyedAt.field {v : Option Json} (h : KeyedAt v) (k : String) : KeyedAt (field v k) := by
  intro j hj
  match v, h with
  | Option.some (.obj fields), h =>
    cases h _ rfl with
    | obj _ hall => exact hall _ (mem_of_lookup hj)
  | Option.none, _ | Option.some .null, _ | Option.some (.bool _), _ | Option.some (.num _), _ | Option.some (.str _), _
  | Option.some (.arr _), _ => cases hj

theorem getPath_snoc (v : Option Json) (p : List String) (k : String) : getPath v (p ++ [k]) = field (getPath v p) k := by
  simp [getPath]

theorem getPath_append (v : Option Json) (p q : List String) : getPath v (p ++ q) = getPath (getPath v p) q := by
  simp [getPath]

theorem KeyedAt.getPath {v : Option Json} (h : KeyedAt v) (p : List String) : KeyedAt (getPath v p) := by
  induction p generalizing v with
  | nil => exact h
  | cons k p ih => exact ih (h.field k)

/-! ## What a value shows -/

/-- What is left of a value; nothing, if it is empty. -/
def shown (v : Option Json) : Option Json := (v.map stripEmpty).filter fun s => !isEmptyJson s

theorem canonical_eq_shown (v : Option Json) : canonical v = (shown v).getD .null := by
  cases v with
  | none => rfl
  | some v =>
    rw [canonical, shown, Option.map_some, Option.filter_some]
    cases isEmptyJson (stripEmpty v) <;> rfl

theorem shown_ne_null {v : Option Json} : shown v ≠ some .null := by
  intro h
  have := (Option.filter_eq_some_iff.1 h).2
  simp [isEmptyJson] at this

theorem same_iff_shown {a b : Option Json} : same a b = true ↔ shown a = shown b := by
  rw [same, beq_iff_eq, canonical_eq_shown, canonical_eq_shown]
  constructor
  · intro h
    cases ha : shown a with
    | none =>
      cases hb : shown b with
      | none => rfl
      | some t =>
        rw [ha, hb, Option.getD_none, Option.getD_some] at h
        exact absurd (h ▸ hb) shown_ne_null
    | some s =>
      cases hb : shown b with
      | none =>
        rw [ha, hb, Option.getD_none, Option.getD_some] at h
        exact absurd (h ▸ ha) shown_ne_null
      | some t =>
        rw [ha, hb] at h
        exact congrArg some h
  · intro h
    rw [h]

theorem same_refl (v : Option Json) : same v v = true := same_iff_shown.2 rfl

theorem same_comm (a b : Option Json) : same a b = same b a := by
  rw [Bool.eq_iff_iff, same_iff_shown, same_iff_shown, eq_comm]

/-! ## Fields -/

theorem stripFields_keys (fields : List (String × Json)) : ((stripFields fields).map Prod.fst).Sublist (fields.map Prod.fst) := by
  induction fields with
  | nil => exact List.Sublist.slnil
  | cons f fields ih =>
    obtain ⟨k, v⟩ := f
    rw [stripFields]
    split
    · exact ih.cons k
    · exact ih.cons_cons k

/-- The fields that are left are those that show something. -/
theorem lookup_stripFields {fields : List (String × Json)} (hnodup : (fields.map Prod.fst).Nodup) (k : String) :
    (stripFields fields).lookup k = shown (fields.lookup k) := by
  induction fields with
  | nil => rfl
  | cons f fields ih =>
    obtain ⟨l, v⟩ := f
    have hrest := List.nodup_cons.1 hnodup
    rw [stripFields]
    by_cases hk : k = l
    · subst hk
      rw [List.lookup_cons_self, shown, Option.map_some, Option.filter_some]
      cases hempty : isEmptyJson (stripEmpty v) with
      | false => simp
      | true =>
        have hgone : (stripFields fields).lookup k = none :=
          Option.not_isSome_iff_eq_none.1 fun h => hrest.1 ((stripFields_keys fields).subset (lookup_isSome.1 h))
        simpa using hgone
    · have hne : (k == l) = false := by simpa using hk
      rw [List.lookup_cons, hne]
      split
      · exact ih hrest.2
      · rw [List.lookup_cons, hne]
        exact ih hrest.2

theorem lookup_of_mem {fields : List (String × Json)} (hnodup : (fields.map Prod.fst).Nodup) {k : String} {v : Json}
    (h : (k, v) ∈ fields) : fields.lookup k = some v := by
  induction fields with
  | nil => cases h
  | cons f fields ih =>
    obtain ⟨l, w⟩ := f
    have hrest := List.nodup_cons.1 hnodup
    rcases List.mem_cons.1 h with heq | h
    · cases heq
      exact List.lookup_cons_self
    · have hne : (k == l) = false := by
        have hmem := List.mem_map_of_mem (f := Prod.fst) h
        simpa using fun hkl : k = l => hrest.1 (hkl ▸ hmem)
      rw [List.lookup_cons, hne]
      exact ih hrest.2 h

theorem sortFields_perm (fields : List (String × Json)) : (sortFields fields).Perm fields := List.perm_insertionSort _ _

theorem sortFields_sorted (fields : List (String × Json)) : (sortFields fields).Pairwise fun f g => f.1 ≤ g.1 := by
  have : Std.Total fun f g : String × Json => f.1 ≤ g.1 := ⟨fun f g => le_total f.1 g.1⟩
  have : IsTrans (String × Json) fun f g => f.1 ≤ g.1 := ⟨fun _ _ _ h h' => h.trans h'⟩
  exact List.pairwise_insertionSort _ fields

/-- Sorted fields are equal as soon as they are looked up alike. -/
theorem sortFields_eq_iff {fs gs : List (String × Json)} (hf : (fs.map Prod.fst).Nodup) (hg : (gs.map Prod.fst).Nodup) :
    sortFields fs = sortFields gs ↔ ∀ k, fs.lookup k = gs.lookup k := by
  have hmem : ∀ {l : List (String × Json)}, (l.map Prod.fst).Nodup → ∀ k v, (k, v) ∈ l ↔ l.lookup k = some v :=
    fun hl k v => ⟨lookup_of_mem hl, mem_of_lookup⟩
  constructor
  · intro h k
    have hperm : fs.Perm gs := (sortFields_perm fs).symm.trans (h ▸ sortFields_perm gs)
    ext v
    rw [← hmem hf, ← hmem hg, hperm.mem_iff]
  · intro h
    have hperm : fs.Perm gs := by
      refine (List.perm_ext_iff_of_nodup (List.Nodup.of_map _ hf) (List.Nodup.of_map _ hg)).2 fun f => ?_
      rw [hmem hf, hmem hg, h]
    refine List.Perm.eq_of_pairwise (fun f g hfs hgs hle hge => ?_) (sortFields_sorted fs) (sortFields_sorted gs)
      ((sortFields_perm fs).trans (hperm.trans (sortFields_perm gs).symm))
    have hkey : f.1 = g.1 := le_antisymm hle hge
    have hff := (hmem hf _ _).1 ((sortFields_perm fs).mem_iff.1 hfs)
    have hgg := (hmem hg _ _).1 ((sortFields_perm gs).mem_iff.1 hgs)
    rw [h, hkey, hgg] at hff
    exact Prod.ext hkey (Option.some.inj hff).symm

/-! ## Settings of settings -/

/-- The fields of a value; nothing that is not an object has any. -/
def fieldsOf : Option Json → List (String × Json)
  | some (.obj fields) => fields
  | _ => []

theorem field_eq_lookup (v : Option Json) (k : String) : field v k = (fieldsOf v).lookup k := by
  rcases v with _ | _ | _ | _ | _ | _ | _ <;> rfl

theorem keysOf_eq (v : Option Json) : keysOf v = (fieldsOf v).map Prod.fst := by
  rcases v with _ | _ | _ | _ | _ | _ | _ <;> rfl

theorem KeyedAt.nodup {v : Option Json} (h : KeyedAt v) : ((fieldsOf v).map Prod.fst).Nodup := by
  match v, h with
  | Option.some (.obj fields), h =>
    cases h _ rfl with
    | obj hnodup _ => exact hnodup
  | Option.none, _ | Option.some .null, _ | Option.some (.bool _), _ | Option.some (.num _), _ | Option.some (.str _), _
  | Option.some (.arr _), _ => exact List.nodup_nil

/-- What a group of settings shows: its fields that show something, sorted. -/
theorem shown_group {v : Option Json} (h : isGroup v = true) :
    shown v = if sortFields (stripFields (fieldsOf v)) = [] then none else some (.obj (sortFields (stripFields (fieldsOf v)))) := by
  match v, h with
  | none, _ => rfl
  | some (.obj fields), _ =>
    by_cases hnil : sortFields (stripFields fields) = []
    · simp [shown, stripEmpty, isEmptyJson, fieldsOf, hnil]
    · simp [shown, stripEmpty, isEmptyJson, fieldsOf, hnil]
  | some .null, h | some (.bool _), h | some (.num _), h | some (.str _), h | some (.arr _), h =>
    simp_all [isGroup, isPlainObject, isEmptyValue, isEmptyJson, shown, stripEmpty, stripRows, fieldsOf, stripFields, sortFields]

/-- Two groups of settings are the same if and only if each of their fields is. -/
theorem same_group {b a : Option Json} (hb : KeyedAt b) (ha : KeyedAt a) (hgb : isGroup b = true) (hga : isGroup a = true) :
    same b a = true ↔ ∀ k, same (field b k) (field a k) = true := by
  have hsorted : shown b = shown a ↔ sortFields (stripFields (fieldsOf b)) = sortFields (stripFields (fieldsOf a)) := by
    rw [shown_group hgb, shown_group hga]
    by_cases hnb : sortFields (stripFields (fieldsOf b)) = []
    · by_cases hna : sortFields (stripFields (fieldsOf a)) = []
      · simp [hnb, hna]
      · simp [hnb, hna]
    · by_cases hna : sortFields (stripFields (fieldsOf a)) = []
      · simp [hnb, hna]
      · simp [hnb, hna]
  have hnb := hb.nodup
  have hna := ha.nodup
  rw [same_iff_shown, hsorted,
    sortFields_eq_iff (hnb.sublist (stripFields_keys _)) (hna.sublist (stripFields_keys _))]
  refine forall_congr' fun k => ?_
  rw [lookup_stripFields hnb, lookup_stripFields hna, same_iff_shown, field_eq_lookup, field_eq_lookup]

/-- What is not a group of settings shows something, and has no fields. -/
theorem shown_of_not_group {v : Option Json} (h : isGroup v = false) :
    (∃ s, shown v = some s ∧ isPlainObject (some s) = false) ∧ fieldsOf v = [] := by
  match v, h with
  | some (.arr (x :: xs)), _ => exact ⟨⟨.arr (stripRows (x :: xs)), by simp [shown, stripEmpty, stripRows, isEmptyJson], rfl⟩, rfl⟩
  | some (.bool b), h =>
    exact ⟨⟨.bool b, by simp_all [shown, stripEmpty, isEmptyJson, isGroup, isPlainObject, isEmptyValue], rfl⟩, rfl⟩
  | some (.num q), h =>
    exact ⟨⟨.num q, by simp_all [shown, stripEmpty, isEmptyJson, isGroup, isPlainObject, isEmptyValue], rfl⟩, rfl⟩
  | some (.str s), h =>
    exact ⟨⟨.str s, by simp_all [shown, stripEmpty, isEmptyJson, isGroup, isPlainObject, isEmptyValue], rfl⟩, rfl⟩

/-- Values that are the same are both groups of settings, or neither is. -/
theorem same_isGroup {b a : Option Json} (h : same b a = true) : isGroup b = isGroup a := by
  have hgroup : ∀ {b a : Option Json}, same b a = true → isGroup b = true → isGroup a = true := by
    intro b a h hgb
    by_contra hga
    obtain ⟨⟨s, hs, hobj⟩, -⟩ := shown_of_not_group (Bool.eq_false_iff.2 hga)
    rw [same_iff_shown, hs, shown_group hgb] at h
    split at h
    · cases h
    · cases Option.some.inj h
      cases hobj
  rw [Bool.eq_iff_iff]
  exact ⟨hgroup h, hgroup (same_comm b a ▸ h)⟩

/-- Values that are the same have the same fields. -/
theorem same_field {b a : Option Json} (hb : KeyedAt b) (ha : KeyedAt a) (h : same b a = true) (k : String) :
    same (field b k) (field a k) = true := by
  cases hgb : isGroup b with
  | true => exact (same_group hb ha hgb (same_isGroup h ▸ hgb)).1 h k
  | false =>
    have hga : isGroup a = false := same_isGroup h ▸ hgb
    rw [field_eq_lookup, field_eq_lookup, (shown_of_not_group hgb).2, (shown_of_not_group hga).2]
    exact same_refl _

theorem same_getPath {b a : Option Json} (hb : KeyedAt b) (ha : KeyedAt a) (h : same b a = true) (p : List String) :
    same (getPath b p) (getPath a p) = true := by
  induction p generalizing b a with
  | nil => exact h
  | cons k p ih => exact ih (hb.field k) (ha.field k) (same_field hb ha h k)

end EvuProxy.Review

import EvuProxy.Apply.ConfigChanges

/-!
# When the count of changes is zero

Maps are compared key by key, lists as bags of rows, and rows by the text they print as. The count is zero where no place shows a
difference; two rows that print alike show none.
-/

namespace EvuProxy

open Go

variable {α : Type}

/-! ## Places -/

/-- The values at one place of two files: the files themselves, and what two maps at one place hold under one key. -/
inductive At : Yaml α → Yaml α → Yaml α → Yaml α → Prop where
  | here (a b : Yaml α) : At a b a b
  | key {am bm : List (String × Yaml α)} {x y : Yaml α} (key : String) (h : At (Yaml.get am key) (Yaml.get bm key) x y) :
      At (.map am) (.map bm) x y

/-- Two values at one place are the same, lists up to the order of their rows; no value is the same as an empty list. Two maps are
compared at the places within them. -/
def Agree : Yaml α → Yaml α → Prop
  | .map _, .map _ => True
  | .list al, .list bl => al.Perm bl
  | .list al, .null => al = []
  | .null, .list bl => bl = []
  | a, b => a = b

/-- Two files are the same up to the order of rows. -/
def SameRows (a b : Yaml α) : Prop := ∀ x y, At a b x y → Agree x y

/-- Two values at one place differ in what they print. -/
def Differ (text : α → String) : Yaml α → Yaml α → Prop
  | .map _, .map _ => False
  | .list al, .list bl => ¬(al.map (Yaml.text text)).Perm (bl.map (Yaml.text text))
  | .list al, .null => al ≠ []
  | .null, .list bl => bl ≠ []
  | a, b => a ≠ b

/-- A difference between two files shows at some place. -/
def Shows (text : α → String) (a b : Yaml α) : Prop := ∃ x y, At a b x y ∧ Differ text x y

/-- Lists at one place whose rows print as the same texts have the same rows. -/
def RowsTold (text : α → String) (a b : Yaml α) : Prop :=
  ∀ al bl, At a b (.list al) (.list bl) → (al.map (Yaml.text text)).Perm (bl.map (Yaml.text text)) → al.Perm bl

/-- The count is zero just for files that are the same, and does not depend on which of them comes first. -/
structure CountRight [DecidableEq α] (text : α → String) (unmarshal : String → Option (Document α)) (a b : String) (av bv : Yaml α) : Prop where
  zero : configChangeCount text unmarshal a b = 0 ↔ SameRows av bv
  comm : configChangeCount text unmarshal a b = configChangeCount text unmarshal b a

/-- Values that agree do not differ in print. -/
theorem Agree.not_differ {text : α → String} : ∀ {x y : Yaml α}, Agree x y → ¬Differ text x y := by
  intro x y h hd
  unfold Differ at hd
  split at hd
  · exact hd
  · exact hd (List.Perm.map _ h)
  · exact hd h
  · exact hd h
  · rename_i hmap hlist hleft hright
    refine hd ?_
    unfold Agree at h
    split at h
    · exact absurd rfl (hmap _ _ rfl)
    · exact absurd rfl (hlist _ _ rfl)
    · exact absurd rfl (hleft _ rfl)
    · exact absurd rfl (hright _ rfl)
    · exact h

theorem agree_of_not_differ {text : α → String} : ∀ {x y : Yaml α}, ¬Differ text x y →
    (∀ al bl, x = .list al → y = .list bl → (al.map (Yaml.text text)).Perm (bl.map (Yaml.text text)) → al.Perm bl) → Agree x y := by
  intro x y h htold
  unfold Agree
  split
  · trivial
  · exact htold _ _ rfl rfl (not_not.mp h)
  · exact not_not.mp h
  · exact not_not.mp h
  · rename_i hmap hlist hleft hright
    unfold Differ at h
    split at h
    · exact absurd rfl (hmap _ _ rfl)
    · exact absurd rfl (hlist _ _ rfl)
    · exact absurd rfl (hleft _ rfl)
    · exact absurd rfl (hright _ rfl)
    · exact not_not.mp h

/-- Where a value that is no map stands there is one place. -/
theorem at_eq {a b x y : Yaml α} (hne : ∀ am bm, a = .map am → b ≠ .map bm) (h : At a b x y) : x = a ∧ y = b := by
  cases h with
  | here => exact ⟨rfl, rfl⟩
  | key => exact absurd rfl (hne _ _ rfl)

/-! ## The sum over the keys -/

section count

variable [DecidableEq α] {text : α → String}

theorem countNewValue_eq (v : Yaml α) : countNewValue v = countValueChanges text .null v := by
  cases v <;> simp [countNewValue, countValueChanges, Yaml.deepEqual]

theorem count_null (v : Yaml α) : countValueChanges text v .null = countValueChanges text .null v := by
  cases v <;> simp [countValueChanges, Yaml.deepEqual, countListChanges, takeRows]

theorem countFields_eq (am bm : List (String × Yaml α)) :
    countFields text am bm = (am.map fun f => countValueChanges text f.2 (Yaml.get bm f.1)).sum := by
  induction am with
  | nil => rw [countFields, List.map_nil, List.sum_nil]
  | cons f am ih => rw [countFields, ih, List.map_cons, List.sum_cons]

/-- The keys of two maps, those of the first one first. -/
def keysOf (am bm : List (String × Yaml α)) : List String := am.map Prod.fst ++ (bm.map Prod.fst).filter (· ∉ am.map Prod.fst)

omit [DecidableEq α] in
theorem mem_keysOf {am bm : List (String × Yaml α)} {key : String} : key ∈ keysOf am bm ↔ key ∈ am.map Prod.fst ∨ key ∈ bm.map Prod.fst := by
  rw [keysOf, List.mem_append, List.mem_filter, decide_eq_true_eq]
  by_cases h : key ∈ am.map Prod.fst
  · exact iff_of_true (.inl h) (.inl h)
  · exact or_congr_right (and_iff_left h)

omit [DecidableEq α] in
theorem nodup_keysOf {am bm : List (String × Yaml α)} (ha : (am.map Prod.fst).Nodup) (hb : (bm.map Prod.fst).Nodup) :
    (keysOf am bm).Nodup := by
  refine ha.append (hb.filter _) fun key hkey hkey' => ?_
  rw [List.mem_filter, decide_eq_true_eq] at hkey'
  exact hkey'.2 hkey

omit [DecidableEq α] in
theorem get_null_of_not_keys {am bm : List (String × Yaml α)} {key : String} (h : key ∉ keysOf am bm) :
    Yaml.get am key = .null ∧ Yaml.get bm key = .null := by
  rw [mem_keysOf, not_or] at h
  exact ⟨get_of_not_mem h.1, get_of_not_mem h.2⟩

/-- Two maps differ by what they differ by under each of their keys. -/
theorem countMaps_eq {am bm : List (String × Yaml α)} (ha : (am.map Prod.fst).Nodup) (hb : (bm.map Prod.fst).Nodup) :
    countValueChanges text (.map am) (.map bm) =
      ((keysOf am bm).map fun key => countValueChanges text (Yaml.get am key) (Yaml.get bm key)).sum := by
  have hfirst : am.map (fun f => countValueChanges text f.2 (Yaml.get bm f.1)) =
      (am.map Prod.fst).map fun key => countValueChanges text (Yaml.get am key) (Yaml.get bm key) := by
    rw [List.map_map]
    exact List.map_congr_left fun f hf => by rw [Function.comp_apply, get_of_mem ha hf]
  have hsecond : (bm.filter (·.1 ∉ am.map Prod.fst)).map (fun f => countNewValue f.2) =
      ((bm.map Prod.fst).filter (· ∉ am.map Prod.fst)).map fun key => countValueChanges text (Yaml.get am key) (Yaml.get bm key) := by
    rw [List.filter_map, List.map_map]
    refine List.map_congr_left fun f hf => ?_
    obtain ⟨hf, hnot⟩ := List.mem_filter.mp hf
    rw [Function.comp_apply, get_of_not_mem (by simpa using hnot), get_of_mem hb hf, countNewValue_eq]
  rw [countValueChanges, countFields_eq, hfirst, hsecond, keysOf, List.map_append, List.sum_append]

/-- Which file comes first does not matter. -/
theorem count_comm : ∀ a : Yaml α, a.Ordered → ∀ b : Yaml α, b.Ordered → countValueChanges text a b = countValueChanges text b a := by
  refine Yaml.map_induction (fun am ih ha b hb => ?_) fun a hmap ha b hb => ?_
  · cases b with
    | map bm =>
      have hnodup := nodup_keys ha
      have hnodup' := nodup_keys hb
      rw [countMaps_eq hnodup hnodup', countMaps_eq hnodup' hnodup]
      have hperm : (keysOf am bm).Perm (keysOf bm am) :=
        (List.perm_ext_iff_of_nodup (nodup_keysOf hnodup hnodup') (nodup_keysOf hnodup' hnodup)).mpr fun key => by
          rw [mem_keysOf, mem_keysOf, or_comm]
      rw [(hperm.map _).sum_nat]
      refine congrArg List.sum (List.map_congr_left fun key _ => ?_)
      rcases get_cases am key hnodup with ⟨f, hf, rfl, hget⟩ | hnull
      · have hordered := get_ordered ha f.1
        rw [hget] at hordered ⊢
        exact ih f hf hordered _ (get_ordered hb f.1)
      · rw [hnull, count_null]
    | _ => simp [countValueChanges, Yaml.deepEqual]
  · cases a with
    | map am => exact absurd rfl (hmap am)
    | null => exact (count_null b).symm
    | list al =>
      cases b with
      | list bl => simp only [countValueChanges, countListChanges_comm]
      | null => exact count_null _
      | _ => simp [countValueChanges, Yaml.deepEqual]
    | _ => cases b <;> simp [countValueChanges, Yaml.deepEqual, eq_comm]

/-- Two values that are not both maps count for nothing just when they print alike. -/
theorem count_zero_here {a b : Yaml α} (hne : ∀ am bm, a = .map am → b ≠ .map bm) : countValueChanges text a b = 0 ↔ ¬Differ text a b := by
  cases a with
  | map am =>
    cases b with
    | map bm => exact absurd rfl (hne am bm rfl)
    | _ => simp [countValueChanges, Yaml.deepEqual, Differ]
  | list al =>
    cases b with
    | list bl => simp [countValueChanges, Differ, countListChanges_eq_zero]
    | null => simp [countValueChanges, Differ, countListChanges, takeRows]
    | _ => simp [countValueChanges, Yaml.deepEqual, Differ]
  | _ => cases b <;> simp [countValueChanges, Yaml.deepEqual, Differ]

/-- The count is zero where no difference shows. -/
theorem count_zero_iff : ∀ a : Yaml α, a.Ordered → ∀ b : Yaml α, b.Ordered → (countValueChanges text a b = 0 ↔ ¬Shows text a b) := by
  have hhere : ∀ {a b : Yaml α}, (∀ am bm, a = .map am → b ≠ .map bm) → (¬Differ text a b ↔ ¬Shows text a b) := by
    intro a b hne
    refine not_congr ⟨fun h => ⟨a, b, .here a b, h⟩, ?_⟩
    rintro ⟨x, y, hat, hd⟩
    obtain ⟨rfl, rfl⟩ := at_eq hne hat
    exact hd
  have hnull' : ∀ (b : Yaml α) am bm, (Yaml.null : Yaml α) = .map am → b ≠ .map bm := fun _ _ _ h => nomatch h
  refine Yaml.map_induction (fun am ih ha b hb => ?_) fun a hmap ha b hb => ?_
  · by_cases hb' : ∃ bm, b = .map bm
    · obtain ⟨bm, rfl⟩ := hb'
      have hnodup := nodup_keys ha
      have hnodup' := nodup_keys hb
      have hkey : ∀ key, countValueChanges text (Yaml.get am key) (Yaml.get bm key) = 0 ↔
          ¬Shows text (Yaml.get am key) (Yaml.get bm key) := by
        intro key
        rcases get_cases am key hnodup with ⟨f, hf, rfl, hget⟩ | hnull
        · have hordered := get_ordered ha f.1
          rw [hget] at hordered ⊢
          exact ih f hf hordered _ (get_ordered hb f.1)
        · rw [hnull]
          exact (count_zero_here (hnull' _)).trans (hhere (hnull' _))
      rw [countMaps_eq hnodup hnodup', List.sum_eq_zero_iff_forall_eq_nat, List.forall_mem_map]
      constructor
      · rintro hzero ⟨x, y, hat, hd⟩
        cases hat with
        | here => exact hd
        | key key hat =>
          by_cases hmem : key ∈ keysOf am bm
          · exact (hkey key).mp (hzero key hmem) ⟨x, y, hat, hd⟩
          · obtain ⟨hleft, hright⟩ := get_null_of_not_keys hmem
            rw [hleft, hright] at hat
            obtain ⟨rfl, rfl⟩ := at_eq (hnull' _) hat
            exact hd rfl
      · intro hno key _
        rw [hkey]
        rintro ⟨x, y, hat, hd⟩
        exact hno ⟨x, y, .key key hat, hd⟩
    · have hne : ∀ am' bm, Yaml.map am = .map am' → b ≠ .map bm := fun _ bm _ h => hb' ⟨bm, h⟩
      exact (count_zero_here hne).trans (hhere hne)
  · have hne : ∀ am bm, a = .map am → b ≠ .map bm := fun am _ h => absurd h (hmap am)
    exact (count_zero_here hne).trans (hhere hne)

end count

/-! ## A route that is renamed -/

/-- A file with one route, decoded. -/
def routeDocument (route : List (String × Yaml Unit)) (h : (Yaml.map route).Ordered) : Document Unit where
  value := .map [("forwarding", .map [("routes", .list [.map route])])]
  ordered := by
    unfold Yaml.Ordered at h
    simp only [Yaml.Ordered, OrderedRows, OrderedFields, List.pairwise_singleton, and_true, true_and]
    exact h

/-- A route that is paused when its peer is offline. -/
def pausedRoute : Document Unit := routeDocument
  [("name", .str "web"), ("pause_when_peer_offline", .bool true), ("ports", .list [.str "80"])]
  (by simp only [Yaml.Ordered, OrderedRows, OrderedFields, and_true]; decide)

/-- A route that is not, with a longer name. -/
def renamedRoute : Document Unit := routeDocument [("name", .str "web pause_when_peer_offline:true"), ("ports", .list [.str "80"])]
  (by simp only [Yaml.Ordered, OrderedRows, OrderedFields, and_true]; decide)

def pausedFile : String := "forwarding:\n  routes:\n    - name: web\n      pause_when_peer_offline: true\n      ports: [\"80\"]\n"

def renamedFile : String := "forwarding:\n  routes:\n    - name: web pause_when_peer_offline:true\n      ports: [\"80\"]\n"

/-- What YAML makes of the two files. -/
def decodeRoutes (file : String) : Option (Document Unit) :=
  if file = pausedFile then some pausedRoute else if file = renamedFile then some renamedRoute else none

end EvuProxy

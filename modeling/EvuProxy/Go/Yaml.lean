import EvuProxy.Go.Text

/-!
# Decoded YAML

What `yaml.Unmarshal` makes of a document when it may choose the types, and how `fmt` prints it.
-/

namespace Go

/-- A decoded value. What is neither text, number nor container of these, such as a time or a map with other keys, is an `other`. -/
inductive Yaml (α : Type) where
  | null
  | bool (b : Bool)
  | int (i : Int)
  | str (s : String)
  | other (a : α)
  | list (rows : List (Yaml α))
  | map (fields : List (String × Yaml α))

variable {α : Type}

/-- An index into a map: a key that is missing has no value. -/
def Yaml.get (fields : List (String × Yaml α)) (key : String) : Yaml α := (fields.lookup key).getD .null

mutual

/-- The fields of every map stand in the order of their keys, each key once. -/
def Yaml.Ordered : Yaml α → Prop
  | .list rows => OrderedRows rows
  | .map fields => fields.Pairwise (·.1 < ·.1) ∧ OrderedFields fields
  | _ => True

def OrderedRows : List (Yaml α) → Prop
  | [] => True
  | row :: rows => row.Ordered ∧ OrderedRows rows

def OrderedFields : List (String × Yaml α) → Prop
  | [] => True
  | (_, v) :: fields => v.Ordered ∧ OrderedFields fields

end

/-- What a document decodes to; a map in it has each key once. -/
structure Document (α : Type) where
  value : Yaml α
  ordered : value.Ordered

mutual

/-- `fmt.Sprintf("%v", v)`. -/
def Yaml.text (text : α → String) : Yaml α → String
  | .null => "<nil>"
  | .bool b => if b then "true" else "false"
  | .int i => toString i
  | .str s => s
  | .other a => text a
  | .list rows => "[" ++ join (rowTexts text rows) " " ++ "]"
  | .map fields => "map[" ++ join (fieldTexts text fields) " " ++ "]"

def rowTexts (text : α → String) : List (Yaml α) → List String
  | [] => []
  | row :: rows => row.text text :: rowTexts text rows

def fieldTexts (text : α → String) : List (String × Yaml α) → List String
  | [] => []
  | (key, v) :: fields => (key ++ ":" ++ v.text text) :: fieldTexts text fields

end

/-- `reflect.DeepEqual` of two values that are not both lists and not both maps. -/
def Yaml.deepEqual [DecidableEq α] : Yaml α → Yaml α → Bool
  | .null, .null => true
  | .bool b, .bool c => b = c
  | .int i, .int j => i = j
  | .str s, .str t => s = t
  | .other a, .other b => a = b
  | _, _ => false

/-! ## Maps -/

/-- Induction over the values that maps hold. -/
theorem Yaml.map_induction {P : Yaml α → Prop} (map : ∀ fields, (∀ f ∈ fields, P f.2) → P (.map fields))
    (rest : ∀ v, (∀ fields, v ≠ .map fields) → P v) : ∀ v, P v
  | .map fields => map fields fun f _ => Yaml.map_induction map rest f.2
  | .null => rest _ nofun
  | .bool _ => rest _ nofun
  | .int _ => rest _ nofun
  | .str _ => rest _ nofun
  | .other _ => rest _ nofun
  | .list _ => rest _ nofun
termination_by v => sizeOf v
decreasing_by
  rename_i hf
  have := List.sizeOf_lt_of_mem hf
  cases f
  simp only [Yaml.map.sizeOf_spec, Prod.mk.sizeOf_spec] at this ⊢
  omega

theorem orderedFields_mem {fields : List (String × Yaml α)} (h : OrderedFields fields) : ∀ f ∈ fields, f.2.Ordered := by
  induction fields with
  | nil => exact fun _ hf => absurd hf List.not_mem_nil
  | cons f fields ih =>
    obtain ⟨key, v⟩ := f
    intro f hf
    rcases List.mem_cons.mp hf with rfl | hf
    · exact h.1
    · exact ih h.2 f hf

/-- The keys of an ordered map are distinct. -/
theorem nodup_keys {fields : List (String × Yaml α)} (h : (Yaml.map fields).Ordered) : (fields.map Prod.fst).Nodup := by
  unfold Yaml.Ordered at h
  exact List.pairwise_map.mpr (h.1.imp fun hlt heq => by rw [heq] at hlt; exact String.lt_irrefl _ hlt)

theorem get_of_mem {fields : List (String × Yaml α)} (hnodup : (fields.map Prod.fst).Nodup) {f : String × Yaml α} (hf : f ∈ fields) :
    Yaml.get fields f.1 = f.2 := by
  induction fields with
  | nil => cases hf
  | cons g fields ih =>
    obtain ⟨key, v⟩ := g
    rw [List.map_cons, List.nodup_cons] at hnodup
    unfold Yaml.get at ih ⊢
    rw [List.lookup_cons]
    rcases List.mem_cons.mp hf with rfl | hf
    · rw [beq_self_eq_true]
      rfl
    · have hne : (f.1 == key) = false := by
        rw [beq_eq_false_iff_ne]
        intro heq
        have hmem : f.1 ∈ fields.map Prod.fst := List.mem_map_of_mem hf
        exact hnodup.1 (heq ▸ hmem)
      rw [hne]
      exact ih hnodup.2 hf

theorem get_of_not_mem {fields : List (String × Yaml α)} {key : String} (h : key ∉ fields.map Prod.fst) : Yaml.get fields key = .null := by
  have hnone : fields.lookup key = none := List.lookup_eq_none_iff.mpr fun f hf => by
    rw [bne_iff_ne]
    rintro rfl
    exact h (List.mem_map_of_mem hf)
  rw [Yaml.get, hnone]
  rfl

/-- What a map holds under a key is one of its values, or missing. -/
theorem get_cases (fields : List (String × Yaml α)) (key : String) (hnodup : (fields.map Prod.fst).Nodup) :
    (∃ f ∈ fields, f.1 = key ∧ Yaml.get fields key = f.2) ∨ Yaml.get fields key = .null := by
  by_cases h : key ∈ fields.map Prod.fst
  · obtain ⟨f, hf, rfl⟩ := List.mem_map.mp h
    exact .inl ⟨f, hf, rfl, get_of_mem hnodup hf⟩
  · exact .inr (get_of_not_mem h)

theorem get_ordered {fields : List (String × Yaml α)} (h : (Yaml.map fields).Ordered) (key : String) : (Yaml.get fields key).Ordered := by
  rcases get_cases fields key (nodup_keys h) with ⟨f, hf, -, hget⟩ | hnull
  · rw [hget]
    unfold Yaml.Ordered at h
    exact orderedFields_mem h.2 f hf
  · rw [hnull]
    exact trivial

end Go

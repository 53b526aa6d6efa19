import Mathlib.Data.List.Nodup

/-!
# Tables with a primary key

The statements of SQLite that the program uses on a table whose rows a key tells apart, and a transaction over them.
-/

namespace Sql

/-- A table. `key` is its primary key: no two rows have the same one. -/
structure Table (α : Type*) {κ : Type*} (key : α → κ) where
  rows : List α
  nodup : (rows.map key).Nodup

/-- A row that is not inserted, as there is one with its key. -/
structure UniqueViolation (α : Type*) where
  row : α

section table

variable {α κ : Type*} {key : α → κ}

namespace Table

/-- A table without rows. -/
def empty : Table α key := ⟨[], List.nodup_nil⟩

/-- `DELETE FROM … WHERE`. -/
def deleteWhere (t : Table α key) (p : α → Bool) : Table α key :=
  ⟨t.rows.filter fun row => !p row, t.nodup.sublist (List.filter_sublist.map key)⟩

theorem mem_deleteWhere {t : Table α key} {p : α → Bool} {x : α} : x ∈ (t.deleteWhere p).rows ↔ x ∈ t.rows ∧ p x = false := by
  simp [deleteWhere]

/-- `DELETE FROM` without a condition. -/
def clear (t : Table α key) : Table α key := t.deleteWhere fun _ => true

theorem rows_clear (t : Table α key) : t.clear.rows = [] := by
  simp [clear, deleteWhere]

variable [DecidableEq κ]

/-- `INSERT INTO`. -/
def insert (t : Table α key) (row : α) : Except (UniqueViolation α) (Table α key) :=
  if h : key row ∈ t.rows.map key then .error ⟨row⟩
  else .ok ⟨t.rows ++ [row], by
    rw [List.map_append, List.map_singleton, ← List.concat_eq_append]
    exact t.nodup.concat h⟩

/-- `INSERT OR REPLACE INTO`. -/
def replace (t : Table α key) (row : α) : Table α key where
  rows := (t.deleteWhere fun old => key old = key row).rows ++ [row]
  nodup := by
    rw [List.map_append, List.map_singleton, ← List.concat_eq_append]
    refine (deleteWhere t _).nodup.concat fun hmem => ?_
    obtain ⟨old, hold, hkey⟩ := List.mem_map.mp hmem
    simpa [hkey] using (List.mem_filter.mp hold).2

theorem insert_free {t : Table α key} {row : α} (h : key row ∉ t.rows.map key) :
    ∃ t', t.insert row = .ok t' ∧ t'.rows = t.rows ++ [row] :=
  ⟨_, dif_neg h, rfl⟩

theorem insert_taken {t : Table α key} {row : α} (h : key row ∈ t.rows.map key) : t.insert row = .error ⟨row⟩ :=
  dif_pos h

theorem mem_replace {t : Table α key} {row x : α} : x ∈ (t.replace row).rows ↔ (x ∈ t.rows ∧ key x ≠ key row) ∨ x = row := by
  simp [replace, mem_deleteWhere]

/-! ## Statement after statement -/

/-- One `INSERT INTO` for each of the rows, up to the first that fails. -/
def insertAll (t : Table α key) (rows : List α) : Except (UniqueViolation α) (Table α key) := rows.foldlM insert t

/-- One `INSERT OR REPLACE INTO` for each of the rows. -/
def replaceAll (t : Table α key) (rows : List α) : Table α key := rows.foldl replace t

/-- Where all of the rows are inserted, their keys differ and are new, and the table holds them too. -/
theorem insertAll_ok {rows : List α} : ∀ {t t' : Table α key}, t.insertAll rows = .ok t' →
    (t.rows.map key ++ rows.map key).Nodup ∧ t'.rows = t.rows ++ rows := by
  induction rows with
  | nil =>
    intro t t' h
    cases h
    rw [List.map_nil, List.append_nil, List.append_nil]
    exact ⟨t.nodup, rfl⟩
  | cons row rows ih =>
    intro t t' h
    rw [insertAll, List.foldlM_cons] at h
    by_cases hmem : key row ∈ t.rows.map key
    · rw [insert_taken hmem] at h
      cases h
    · obtain ⟨next, hins, hrows⟩ := insert_free hmem
      rw [hins] at h
      obtain ⟨hnodup, hrows'⟩ := ih h
      rw [hrows, List.map_append, List.append_assoc] at hnodup
      rw [hrows, List.append_assoc] at hrows'
      exact ⟨hnodup, hrows'⟩

/-- Rows whose keys are new, and differ, are all inserted. -/
theorem insertAll_free {rows : List α} : ∀ {t : Table α key}, (t.rows.map key ++ rows.map key).Nodup →
    ∃ t', t.insertAll rows = .ok t' := by
  induction rows with
  | nil =>
    intro t _
    exact ⟨t, rfl⟩
  | cons row rows ih =>
    intro t h
    rw [List.map_cons, ← List.singleton_append, ← List.append_assoc] at h
    have hfree : key row ∉ t.rows.map key := fun hmem =>
      List.disjoint_of_nodup_append h.of_append_left hmem List.mem_cons_self
    obtain ⟨next, hins, hrows⟩ := insert_free hfree
    have hnext : (next.rows.map key ++ rows.map key).Nodup := by
      rw [hrows, List.map_append]
      exact h
    obtain ⟨t', hall⟩ := ih hnext
    refine ⟨t', ?_⟩
    rw [insertAll, List.foldlM_cons, hins]
    exact hall

/-- What a table holds once rows with different keys have been put in: those, and what it held under no key of theirs. -/
theorem mem_replaceAll {rows : List α} (h : (rows.map key).Nodup) : ∀ {t : Table α key} {x : α},
    x ∈ (t.replaceAll rows).rows ↔ (x ∈ t.rows ∧ key x ∉ rows.map key) ∨ x ∈ rows := by
  induction rows with
  | nil =>
    intro t x
    simp [replaceAll]
  | cons row rows ih =>
    intro t x
    rw [List.map_cons, List.nodup_cons] at h
    rw [replaceAll, List.foldl_cons, ← replaceAll, ih h.2, mem_replace, List.map_cons, List.mem_cons, List.mem_cons]
    constructor
    · rintro (⟨⟨hx, hne⟩ | rfl, hnew⟩ | hx)
      · exact .inl ⟨hx, not_or.mpr ⟨hne, hnew⟩⟩
      · exact .inr (.inl rfl)
      · exact .inr (.inr hx)
    · rintro (⟨hx, hnew⟩ | rfl | hx)
      · exact .inl ⟨.inl ⟨hx, (not_or.mp hnew).1⟩, (not_or.mp hnew).2⟩
      · exact .inl ⟨.inr rfl, h.1⟩
      · exact .inr hx

end Table

end table

section transaction

variable {σ ε : Type*}

/-- A transaction: the database after it, and its error. Where a statement fails all of them are rolled back. -/
def transaction (body : σ → Except ε σ) (db : σ) : σ × Except ε Unit :=
  match body db with
  | .ok db' => (db', .ok ())
  | .error e => (db, .error e)

theorem transaction_ok {body : σ → Except ε σ} {db db' : σ} (h : body db = .ok db') : transaction body db = (db', .ok ()) := by
  rw [transaction, h]

/-- A transaction commits exactly where none of its statements fails. -/
theorem transaction_commits_iff {body : σ → Except ε σ} {db : σ} :
    (transaction body db).2 = .ok () ↔ ∃ db', body db = .ok db' := by
  unfold transaction
  cases body db <;> simp

theorem transaction_rolled_back {body : σ → Except ε σ} {db : σ} (h : (transaction body db).2 ≠ .ok ()) : (transaction body db).1 = db := by
  unfold transaction at h ⊢
  cases hbody : body db with
  | ok db' =>
    rw [hbody] at h
    exact absurd rfl h
  | error e => rfl

end transaction

end Sql

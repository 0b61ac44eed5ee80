import Mathlib

/-!
# Tables with a primary key

A table is a list of rows in which no key occurs twice. Inserting fails on a key that is there,
deleting and updating keep the rest as it is.
-/

namespace PurpleSky

/-- The rows of a table with a primary key. -/
structure Table {α κ : Type} (key : α → κ) where
  rows : List α
  unique : (rows.map key).Nodup

namespace Table

variable {α κ : Type} {key : α → κ}

/-- A table without rows. -/
def empty (key : α → κ) : Table key := ⟨[], List.nodup_nil⟩

/-- The row of a key. -/
def find? [DecidableEq κ] (t : Table key) (k : κ) : Option α := t.rows.find? fun r => key r = k

/-- Insert a row with a new key. -/
def insert [DecidableEq κ] (t : Table key) (r : α) : Option (Table key) :=
  if h : key r ∈ t.rows.map key then none
  else some ⟨t.rows ++ [r], by
    rw [List.map_append, List.map_cons, List.map_nil]
    exact List.nodup_append.mpr ⟨t.unique, by simp, by
      intro a ha b hb
      obtain rfl := List.mem_singleton.mp hb
      rintro rfl
      exact h ha⟩⟩

/-- Delete the rows that meet a condition. -/
def delete (t : Table key) (p : α → Bool) : Table key :=
  ⟨t.rows.filter fun r => !p r, (List.filter_sublist.map key).nodup t.unique⟩

/-- Change the rows that meet a condition, not their keys. -/
def update (t : Table key) (p : α → Bool) (f : α → α) (hf : ∀ r, key (f r) = key r) : Table key :=
  ⟨t.rows.map fun r => if p r then f r else r, by
    have h : (key ∘ fun r => if p r then f r else r) = key := by
      funext r
      by_cases hp : p r
      · simp [hp, hf]
      · simp [hp]
    rw [List.map_map, h]
    exact t.unique⟩

/-- A row is found at its own key, since keys are unique. -/
theorem find?_eq_some_iff [DecidableEq κ] {t : Table key} {k : κ} {r : α} :
    t.find? k = some r ↔ r ∈ t.rows ∧ key r = k := by
  constructor
  · intro h
    exact ⟨List.mem_of_find?_eq_some h, of_decide_eq_true (List.find?_some h :)⟩
  · rintro ⟨hr, rfl⟩
    cases hf : t.find? (key r) with
    | none =>
        have := List.find?_eq_none.mp hf r hr
        simp at this
    | some r' =>
        have hr' := List.mem_of_find?_eq_some hf
        have hk : key r' = key r := of_decide_eq_true (List.find?_some hf :)
        rw [List.inj_on_of_nodup_map t.unique hr' hr hk]

/-- Rows with the same key are the same. -/
theorem eq_of_key_eq (t : Table key) {r s : α} (hr : r ∈ t.rows) (hs : s ∈ t.rows)
    (h : key r = key s) : r = s :=
  List.inj_on_of_nodup_map t.unique hr hs h

/-- A row is inserted exactly where its key is new, behind the others. -/
theorem insert_eq_some_iff [DecidableEq κ] {t u : Table key} {r : α} :
    t.insert r = some u ↔ (∀ s ∈ t.rows, key s ≠ key r) ∧ u.rows = t.rows ++ [r] := by
  unfold insert
  constructor
  · intro h
    split at h
    · cases h
    · rename_i hk
      obtain rfl := Option.some.inj h
      refine ⟨fun s hs hsr => hk ?_, rfl⟩
      rw [← hsr]
      exact List.mem_map_of_mem hs
  · rintro ⟨hk, hu⟩
    have hmem : key r ∉ t.rows.map key := by
      intro h
      obtain ⟨s, hs, hsr⟩ := List.mem_map.mp h
      exact hk s hs hsr
    rw [dif_neg hmem]
    cases u
    cases hu
    rfl

/-- A condition that only the row of one key can meet is met once. -/
theorem countP_eq_one [DecidableEq α] (t : Table key) {r : α} (hr : r ∈ t.rows) {p : α → Bool}
    (hp : p r = true) (hkey : ∀ s, p s = true → key s = key r) : t.rows.countP p = 1 := by
  have hrows : t.rows.countP p = t.rows.count r := by
    refine List.countP_congr fun s hs => ?_
    rw [beq_iff_eq]
    constructor
    · intro h
      exact t.eq_of_key_eq hs hr (hkey s h)
    · rintro rfl
      exact hp
  rw [hrows]
  exact List.count_eq_one_of_mem (t.unique.of_map _) hr

/-- An empty table has no rows. -/
@[simp] theorem rows_empty : (empty key).rows = [] := rfl

/-- The rows that are not deleted stay in their order. -/
@[simp] theorem rows_delete (t : Table key) (p : α → Bool) :
    (t.delete p).rows = t.rows.filter fun r => !p r := rfl

/-- A row is replaced in its place. -/
@[simp] theorem rows_update (t : Table key) (p : α → Bool) (f : α → α)
    (hf : ∀ r, key (f r) = key r) :
    (t.update p f hf).rows = t.rows.map fun r => if p r then f r else r := rfl

/-- A row is left if it was there and was not deleted. -/
theorem mem_delete {t : Table key} {p : α → Bool} {r : α} :
    r ∈ (t.delete p).rows ↔ r ∈ t.rows ∧ p r = false := by
  simp

end Table

end PurpleSky

import PurpleSky.Node.Core

/-!
# Maps with byte keys

What is found in a map after a key was put or taken out, and what is in one whose value was changed.
-/

namespace PurpleSky.Node

variable {α : Type} {map : List (Bytes × α)} {key key' : Bytes} {value : α}

/-- The first entry of a key is the one that is found. -/
theorem lookup_cons_self : ((key, value) :: map).lookup key = some value := by
  rw [List.lookup_cons, beq_self_eq_true]

/-- An entry of another key is passed over. -/
theorem lookup_cons_of_ne (h : key' ≠ key) :
    ((key, value) :: map).lookup key' = map.lookup key' := by
  rw [List.lookup_cons, beq_eq_false_iff_ne.mpr h]

/-- What is found under a key is in the map. -/
theorem mem_of_lookup (h : map.lookup key = some value) : (key, value) ∈ map := by
  induction map with
  | nil => cases h
  | cons entry map ih =>
      obtain ⟨k, v⟩ := entry
      by_cases hk : key = k
      · subst hk
        rw [lookup_cons_self] at h
        obtain rfl := Option.some.inj h
        exact List.mem_cons_self
      · rw [lookup_cons_of_ne hk] at h
        exact List.mem_cons_of_mem _ (ih h)

/-- Removing a key leaves the others. -/
theorem lookup_removeKey_of_ne (h : key' ≠ key) :
    (removeKey map key).lookup key' = map.lookup key' := by
  unfold removeKey
  induction map with
  | nil => rfl
  | cons entry map ih =>
      obtain ⟨k, v⟩ := entry
      by_cases hk : k = key
      · rw [List.filter_cons_of_neg (by simpa using hk), lookup_cons_of_ne (hk ▸ h), ih]
      · rw [List.filter_cons_of_pos (by simpa using hk)]
        by_cases hk' : key' = k
        · rw [hk', lookup_cons_self, lookup_cons_self]
        · rw [lookup_cons_of_ne hk', lookup_cons_of_ne hk', ih]

/-- What was put at a key is found there. -/
@[simp] theorem lookup_insertKey_self : (insertKey map key value).lookup key = some value :=
  lookup_cons_self

/-- Putting a value at a key leaves the others. -/
theorem lookup_insertKey_of_ne (h : key' ≠ key) :
    (insertKey map key value).lookup key' = map.lookup key' := by
  show ((key, value) :: removeKey map key).lookup key' = _
  rw [lookup_cons_of_ne h, lookup_removeKey_of_ne h]

/-- What is in a changed map was in it, and changed under the key. -/
theorem mem_modifyKey {f : α → α} (h : (key', value) ∈ modifyKey map key f) :
    ∃ old, (key', old) ∈ map ∧ value = if key' = key then f old else old := by
  obtain ⟨⟨k, old⟩, hmem, heq⟩ := List.mem_map.mp h
  split_ifs at heq with hk
  · obtain ⟨rfl, rfl⟩ := Prod.mk.inj heq
    obtain rfl : k = key := hk
    exact ⟨old, hmem, (if_pos rfl).symm⟩
  · obtain ⟨rfl, rfl⟩ := Prod.mk.inj heq
    exact ⟨old, hmem, (if_neg hk).symm⟩

end PurpleSky.Node

import PurpleSky.Lib.Bytes

/-!
# Ordered maps

The entries of a map after an insertion or a removal, as a permutation of lists, and the `total` of
a measure over the values: what a running counter beside a map has to be.
-/

set_option linter.unusedSectionVars false

namespace PurpleSky

/-- An ordered map with the order of its keys' type. -/
abbrev BTreeMap (K V : Type) [Ord K] := Std.ExtTreeMap K V compare

namespace BTreeMap

variable {K V : Type} [Ord K] [Std.TransOrd K] [Std.LawfulEqOrd K] [DecidableEq K]

/-- No entry is listed twice, since the keys of the list ascend. -/
theorem nodup_toList (m : BTreeMap K V) : m.toList.Nodup := by
  refine Std.ExtTreeMap.ordered_keys_toList.imp ?_
  rintro a b hlt rfl
  have hself : compare a.1 a.1 = .eq := Std.ReflCmp.compare_self
  rw [hself] at hlt
  cases hlt

/-- The list has exactly the entries that are found. -/
theorem mem_toList {m : BTreeMap K V} {e : K × V} : e ∈ m.toList ↔ m[e.1]? = some e.2 :=
  Std.ExtTreeMap.mem_toList_iff_getElem?_eq_some

/-- After an insertion the new value is found at its key, and the old ones elsewhere. -/
theorem getElem?_insert (m : BTreeMap K V) (k a : K) (v : V) :
    (m.insert k v)[a]? = if k = a then some v else m[a]? := by
  rw [Std.ExtTreeMap.getElem?_insert]
  simp only [Std.LawfulEqCmp.compare_eq_iff_eq]

/-- After a removal nothing is found at the key, and the old values elsewhere. -/
theorem getElem?_erase (m : BTreeMap K V) (k a : K) :
    (m.erase k)[a]? = if k = a then none else m[a]? := by
  rw [Std.ExtTreeMap.getElem?_erase]
  simp only [Std.LawfulEqCmp.compare_eq_iff_eq]

/-- The entries after an insertion: the new one and those at other keys. -/
theorem toList_insert_perm (m : BTreeMap K V) (k : K) (v : V) :
    (m.insert k v).toList.Perm ((k, v) :: (m.erase k).toList) := by
  have hnew : (k, v) ∉ (m.erase k).toList := by
    rw [mem_toList, getElem?_erase]
    simp
  rw [List.perm_ext_iff_of_nodup (nodup_toList _)
    (List.nodup_cons.mpr ⟨hnew, nodup_toList _⟩)]
  rintro ⟨a, w⟩
  rw [mem_toList, List.mem_cons, mem_toList, getElem?_insert, getElem?_erase, Prod.mk.injEq]
  by_cases h : k = a
  · subst h
    simp [eq_comm]
  · simp [h, Ne.symm h]

/-- The entries of a map with one of them in front. -/
theorem toList_perm_erase {m : BTreeMap K V} {k : K} {v : V} (h : m[k]? = some v) :
    m.toList.Perm ((k, v) :: (m.erase k).toList) := by
  have hself : m.insert k v = m := by
    refine Std.ExtTreeMap.ext_getElem? fun a => ?_
    rw [getElem?_insert]
    split_ifs with ha
    · rw [← ha, h]
    · rfl
  have hperm := toList_insert_perm m k v
  rwa [hself] at hperm

/-- Removing a key that is not there changes nothing. -/
theorem erase_eq_self {m : BTreeMap K V} {k : K} (h : k ∉ m) : m.erase k = m := by
  refine Std.ExtTreeMap.ext_getElem? fun a => ?_
  rw [getElem?_erase]
  split_ifs with ha
  · subst ha
    exact (Std.ExtTreeMap.getElem?_eq_none h).symm
  · rfl

/-- What holds of the listed entries holds of what is found, and conversely. -/
theorem forall_mem_toList {m : BTreeMap K V} {p : K × V → Prop} :
    (∀ e ∈ m.toList, p e) ↔ ∀ (k : K) (v : V), m[k]? = some v → p (k, v) := by
  constructor
  · intro h k v hget
    exact h (k, v) (mem_toList.mpr hget)
  · rintro h ⟨k, v⟩ hmem
    exact h k v (mem_toList.mp hmem)

/-- A value that is found is among the listed values. -/
theorem mem_map_snd_toList {m : BTreeMap K V} {k : K} {v : V} (h : m[k]? = some v) :
    v ∈ m.toList.map Prod.snd :=
  List.mem_map.mpr ⟨(k, v), mem_toList.mpr h, rfl⟩

/-- One map has every entry of another. -/
def Contains (m m' : BTreeMap K V) : Prop := ∀ (k : K) (v : V), m'[k]? = some v → m[k]? = some v

/-- The sum of a measure over the values. -/
def total (f : V → Nat) (m : BTreeMap K V) : Nat := (m.toList.map fun e => f e.2).sum

variable (f : V → Nat)

/-- An insertion adds the new measure to that of the other keys: a value that is replaced no longer
counts. -/
theorem total_insert (m : BTreeMap K V) (k : K) (v : V) :
    total f (m.insert k v) = f v + total f (m.erase k) := by
  unfold total
  rw [((toList_insert_perm m k v).map _).sum_eq, List.map_cons, List.sum_cons]

/-- The sum splits into an entry and the rest, so that removing it subtracts its measure. -/
theorem total_eq_add_erase {m : BTreeMap K V} {k : K} {v : V} (h : m[k]? = some v) :
    total f m = f v + total f (m.erase k) := by
  unfold total
  rw [((toList_perm_erase h).map _).sum_eq, List.map_cons, List.sum_cons]

end BTreeMap

end PurpleSky

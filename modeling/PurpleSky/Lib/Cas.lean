import PurpleSky.Lib.BTreeMap

/-!
# Content-addressed stores

An ordered map in which every value is filed under an address computed from it. `insertAll` files a
list of values in turn. Where the address has no collision among the values involved, each of them
is found again under its address (`getElem?_insertAll_of_mem`), whatever else the map holds.
-/

set_option linter.unusedSectionVars false

namespace PurpleSky

namespace Cas

variable {K V : Type} [Ord K] [Std.TransOrd K] [Std.LawfulEqOrd K] [DecidableEq K]
  (addr : V → K)

/-- No two of these values share an address. -/
def CollisionFree (vs : List V) : Prop := ∀ v ∈ vs, ∀ w ∈ vs, addr v = addr w → v = w

instance [DecidableEq V] (vs : List V) : Decidable (CollisionFree addr vs) :=
  inferInstanceAs (Decidable (∀ v ∈ vs, ∀ w ∈ vs, addr v = addr w → v = w))

/-- File values in turn; a later value replaces an earlier one at the same address. -/
def insertAll (vs : List V) (m : BTreeMap K V) : BTreeMap K V :=
  vs.foldl (fun m v => m.insert (addr v) v) m

/-- Every value is filed under its address. -/
def Addressed (m : BTreeMap K V) : Prop := ∀ k v, m[k]? = some v → addr v = k

/-- Nothing is filed. -/
@[simp] theorem insertAll_nil (m : BTreeMap K V) : insertAll addr [] m = m := rfl

/-- The first value is filed, then the others. -/
@[simp] theorem insertAll_cons (v : V) (vs : List V) (m : BTreeMap K V) :
    insertAll addr (v :: vs) m = insertAll addr vs (m.insert (addr v) v) := rfl

/-- Values are filed in turn. -/
theorem insertAll_append (vs ws : List V) (m : BTreeMap K V) :
    insertAll addr (vs ++ ws) m = insertAll addr ws (insertAll addr vs m) :=
  List.foldl_append

variable {addr}

/-- Fewer values have no more collisions. -/
theorem CollisionFree.of_subset {vs ws : List V} (h : CollisionFree addr ws) (hs : vs ⊆ ws) :
    CollisionFree addr vs :=
  fun v hv w hw => h v (hs hv) w (hs hw)

/-- The last value filed is found. -/
theorem getElem?_insertAll_concat (vs : List V) (v : V) (m : BTreeMap K V) (k : K) :
    (insertAll addr (vs ++ [v]) m)[k]? =
      if addr v = k then some v else (insertAll addr vs m)[k]? := by
  rw [insertAll_append, insertAll_cons, insertAll_nil, BTreeMap.getElem?_insert]

/-- An address none of the values has keeps what the map holds there. -/
theorem getElem?_insertAll_of_forall_ne {vs : List V} {m : BTreeMap K V} {k : K}
    (h : ∀ v ∈ vs, addr v ≠ k) : (insertAll addr vs m)[k]? = m[k]? := by
  induction vs using List.reverseRecOn with
  | nil => rfl
  | append_singleton vs v ih =>
      rw [getElem?_insertAll_concat, if_neg (h v (by simp)), ih fun w hw => h w (by simp [hw])]

/-- The address of a filed value holds one of the filed values. -/
theorem exists_getElem?_insertAll {vs : List V} {m : BTreeMap K V} {v : V} (hv : v ∈ vs) :
    ∃ w ∈ vs, addr w = addr v ∧ (insertAll addr vs m)[addr v]? = some w := by
  induction vs using List.reverseRecOn with
  | nil => cases hv
  | append_singleton vs u ih =>
      rw [getElem?_insertAll_concat]
      by_cases hu : addr u = addr v
      · exact ⟨u, by simp, hu, if_pos hu⟩
      · have hmem : v ∈ vs := by
          rcases List.mem_append.mp hv with hv | hv
          · exact hv
          · exact absurd (by rw [List.mem_singleton.mp hv]) hu
        obtain ⟨w, hw, hwv, hget⟩ := ih hmem
        exact ⟨w, by simp [hw], hwv, by rw [if_neg hu, hget]⟩

/-- **A filed value is found under its address**, when the filed values do not collide. -/
theorem getElem?_insertAll_of_mem {vs : List V} (hfree : CollisionFree addr vs)
    {m : BTreeMap K V} {v : V} (hv : v ∈ vs) : (insertAll addr vs m)[addr v]? = some v := by
  obtain ⟨w, hw, hwv, hget⟩ := exists_getElem?_insertAll (m := m) hv
  rw [hget, hfree w hw v hv hwv]

/-- What a store holds after filing: a filed value, or what was there. -/
theorem of_getElem?_insertAll {vs : List V} {m : BTreeMap K V} {k : K} {v : V}
    (h : (insertAll addr vs m)[k]? = some v) : (v ∈ vs ∧ addr v = k) ∨ m[k]? = some v := by
  induction vs using List.reverseRecOn with
  | nil => exact Or.inr h
  | append_singleton vs u ih =>
      rw [getElem?_insertAll_concat] at h
      split_ifs at h with hu
      · obtain rfl := Option.some.inj h
        exact Or.inl ⟨by simp, hu⟩
      · rcases ih h with ⟨hv, hk⟩ | hm
        · exact Or.inl ⟨by simp [hv], hk⟩
        · exact Or.inr hm

/-- The addresses in a store after filing. -/
theorem mem_insertAll {vs : List V} {m : BTreeMap K V} {k : K} :
    k ∈ insertAll addr vs m ↔ (∃ v ∈ vs, addr v = k) ∨ k ∈ m := by
  constructor
  · intro h
    obtain ⟨v, hv⟩ := Option.isSome_iff_exists.mp (Std.ExtTreeMap.isSome_getElem?_iff_mem.mpr h)
    rcases of_getElem?_insertAll hv with ⟨hmem, hk⟩ | hm
    · exact Or.inl ⟨v, hmem, hk⟩
    · exact Or.inr (Std.ExtTreeMap.isSome_getElem?_iff_mem.mp (by rw [hm]; rfl))
  · intro h
    rw [← Std.ExtTreeMap.isSome_getElem?_iff_mem]
    by_cases hex : ∃ v ∈ vs, addr v = k
    · obtain ⟨v, hv, rfl⟩ := hex
      obtain ⟨w, -, -, hget⟩ := exists_getElem?_insertAll (m := m) hv
      rw [hget]
      rfl
    · rw [getElem?_insertAll_of_forall_ne fun v hv hk => hex ⟨v, hv, hk⟩]
      exact Std.ExtTreeMap.isSome_getElem?_iff_mem.mpr (h.resolve_left hex)

/-- Filing into an empty map leaves only the filed values. -/
theorem map_snd_insertAll_subset (vs : List V) :
    (insertAll addr vs ∅).toList.map Prod.snd ⊆ vs := by
  intro v hv
  obtain ⟨e, hmem, rfl⟩ := List.mem_map.mp hv
  rcases of_getElem?_insertAll (BTreeMap.mem_toList.mp hmem) with ⟨h, -⟩ | h
  · exact h
  · simp at h

/-- Which maps contain what filing makes. -/
theorem contains_insertAll_iff {vs : List V} (hfree : CollisionFree addr vs) {m : BTreeMap K V} :
    BTreeMap.Contains m (insertAll addr vs ∅) ↔ ∀ v ∈ vs, m[addr v]? = some v := by
  constructor
  · intro h v hv
    exact h _ _ (getElem?_insertAll_of_mem hfree hv)
  · intro h k v hget
    rcases of_getElem?_insertAll hget with ⟨hmem, rfl⟩ | hempty
    · exact h v hmem
    · simp at hempty

/-- Filing keeps every value under its address. -/
theorem Addressed.insertAll {m : BTreeMap K V} (hm : Addressed addr m) (vs : List V) :
    Addressed addr (insertAll addr vs m) := by
  intro k v h
  rcases of_getElem?_insertAll h with ⟨-, hk⟩ | h
  · exact hk
  · exact hm k v h

/-- Nothing is filed under a wrong address. -/
theorem addressed_empty : Addressed addr (∅ : BTreeMap K V) := by
  intro k v h
  simp at h

end Cas

end PurpleSky

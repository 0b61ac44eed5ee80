import Mathlib

/-!
# Sorting by a key

Where the keys are distinct, a sort by key has one result: whichever order the values came in, and
whatever a sort does with equal keys.

* **`eq_sortByKey`**: any arrangement by ascending keys is the result.
* `sortByKey_congr`: the order that the values came in does not matter.
* **`eq_range_of_ascending`**: as many ascending numbers as fit below a bound are all of them.
-/

namespace PurpleSky

variable {α κ : Type} [LinearOrder κ] {key : α → κ} {l l' : List α}

/-- The values by ascending keys. -/
def sortByKey (key : α → κ) (l : List α) : List α := l.insertionSort fun a b => key a ≤ key b

/-- Sorting keeps what is there. -/
theorem sortByKey_perm (key : α → κ) (l : List α) : (sortByKey key l).Perm l :=
  List.perm_insertionSort _ l

/-- After sorting the keys do not descend. -/
theorem pairwise_sortByKey (key : α → κ) (l : List α) :
    (sortByKey key l).Pairwise fun a b => key a ≤ key b := by
  have htotal : Std.Total fun a b : α => key a ≤ key b := ⟨fun a b => le_total (key a) (key b)⟩
  have htrans : IsTrans α fun a b => key a ≤ key b := ⟨fun _ _ _ => le_trans⟩
  exact List.pairwise_insertionSort _ l

/-- Distinct keys in ascending order ascend strictly. -/
theorem ascending_of_nodup (h : l.Pairwise fun a b => key a ≤ key b) (hnd : (l.map key).Nodup) :
    (l.map key).Pairwise (· < ·) :=
  List.pairwise_map.mpr ((h.and (List.pairwise_map.mp hnd)).imp fun h => lt_of_le_of_ne h.1 h.2)

/-- Where the keys are different they ascend. -/
theorem ascending_sortByKey (hnd : (l.map key).Nodup) :
    ((sortByKey key l).map key).Pairwise (· < ·) :=
  ascending_of_nodup (pairwise_sortByKey key l)
    (((sortByKey_perm key l).map key).nodup_iff.mpr hnd)

/-- Any arrangement of values with distinct keys, by ascending keys, is their sort. -/
theorem eq_sortByKey (hnd : (l.map key).Nodup) (hperm : l'.Perm l)
    (h : l'.Pairwise fun a b => key a ≤ key b) : l' = sortByKey key l := by
  refine (hperm.trans (sortByKey_perm key l).symm).eq_of_pairwise (fun a b ha hb hab hba => ?_) h
    (pairwise_sortByKey key l)
  exact List.inj_on_of_nodup_map hnd (hperm.mem_iff.mp ha) ((sortByKey_perm key l).mem_iff.mp hb)
    (hab.antisymm hba)

/-- Where the keys are different the order of the input does not show. -/
theorem sortByKey_congr (hnd : (l.map key).Nodup) (hperm : l'.Perm l) :
    sortByKey key l' = sortByKey key l :=
  eq_sortByKey hnd ((sortByKey_perm key l').trans hperm) (pairwise_sortByKey key l')

/-- Ascending numbers below a bound, as many as there are, leave none out. -/
theorem eq_range_of_ascending {ids : List Nat} {n : Nat} (h : ids.Pairwise (· < ·))
    (hlt : ∀ i ∈ ids, i < n) (hlength : n ≤ ids.length) : ids = List.range n := by
  have hsub : ids.Subperm (List.range n) :=
    h.nodup.subperm fun i hi => List.mem_range.mpr (hlt i hi)
  have hperm : ids.Perm (List.range n) :=
    hsub.perm_of_length_le (by rwa [List.length_range])
  exact hperm.eq_of_pairwise (fun a b _ _ hab hba => absurd hba hab.asymm) h List.pairwise_lt_range

end PurpleSky

import PurpleSky.Lib.BTreeMap

/-!
# Counting in a map

How often each key comes in a list, counted in an ordered map, one key at a time.

* **`getElem?_tally`**: a key that comes is there with its count, another one is not.
* `total_tally`, `size_tally`: how many keys came, and how many different ones.
* `tally_perm`: the order does not matter.
-/

namespace PurpleSky

variable {K : Type} [Ord K] [Std.TransOrd K]

/-- Count a key. -/
def tallyStep (counts : BTreeMap K Nat) (k : K) : BTreeMap K Nat :=
  counts.insert k (counts[k]?.getD 0 + 1)

/-- How often each key comes. -/
def tally (keys : List K) : BTreeMap K Nat := keys.foldl tallyStep ∅

theorem tally_concat (keys : List K) (k : K) : tally (keys ++ [k]) = tallyStep (tally keys) k := by
  rw [tally, List.foldl_append]
  rfl

variable [Std.LawfulEqOrd K] [DecidableEq K]

/-- A key that comes is there with its count. -/
theorem getElem?_tally [BEq K] [LawfulBEq K] (keys : List K) (k : K) :
    (tally keys)[k]? = if k ∈ keys then some (keys.count k) else none := by
  induction keys using List.reverseRecOn with
  | nil => rfl
  | append_singleton keys j ih =>
      rw [tally_concat, tallyStep, BTreeMap.getElem?_insert]
      by_cases hjk : j = k
      · subst hjk
        have hcount : (tally keys)[j]?.getD 0 = keys.count j := by
          rw [ih]
          split_ifs with hmem
          · rfl
          · exact (List.count_eq_zero.mpr hmem).symm
        simp [hcount]
      · have hkj : k ≠ j := Ne.symm hjk
        simp [hjk, hkj, ih, List.count_append]

/-- The counts of all keys together. -/
theorem total_tally (keys : List K) : BTreeMap.total id (tally keys) = keys.length := by
  induction keys using List.reverseRecOn with
  | nil => rfl
  | append_singleton keys j ih =>
      rw [tally_concat, tallyStep, BTreeMap.total_insert, List.length_append, List.length_singleton,
        ← ih]
      cases h : (tally keys)[j]? with
      | none =>
          have hmem : j ∉ tally keys := by
            rw [← Std.ExtTreeMap.isSome_getElem?_iff_mem, h]
            simp
          rw [BTreeMap.erase_eq_self hmem, Option.getD_none]
          simp [Nat.add_comm]
      | some n =>
          rw [BTreeMap.total_eq_add_erase id h, Option.getD_some]
          simp only [id]
          omega

theorem mem_tally {keys : List K} {k : K} : k ∈ tally keys ↔ k ∈ keys := by
  rw [← Std.ExtTreeMap.isSome_getElem?_iff_mem, getElem?_tally]
  split_ifs with hmem <;> simp [hmem]

/-- How many different keys there are. -/
theorem size_tally (keys : List K) : (tally keys).size = keys.toFinset.card := by
  induction keys using List.reverseRecOn with
  | nil => rfl
  | append_singleton keys j ih =>
      have hset : (keys ++ [j]).toFinset = insert j keys.toFinset := by
        ext k
        simp
      rw [tally_concat, tallyStep, Std.ExtTreeMap.size_insert, hset, ih]
      by_cases hmem : j ∈ keys
      · rw [if_pos (Std.ExtTreeMap.contains_iff_mem.mpr (mem_tally.mpr hmem)),
          Finset.insert_eq_of_mem (List.mem_toFinset.mpr hmem)]
      · rw [if_neg (Std.ExtTreeMap.contains_iff_mem.not.mpr (mem_tally.not.mpr hmem)),
          Finset.card_insert_of_notMem (List.mem_toFinset.not.mpr hmem)]

/-- The order of the keys does not matter. -/
theorem tally_perm {keys keys' : List K} (h : keys.Perm keys') : tally keys = tally keys' := by
  refine Std.ExtTreeMap.ext_getElem? fun k => ?_
  simp only [getElem?_tally, h.count_eq, h.mem_iff]

end PurpleSky

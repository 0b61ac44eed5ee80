import Mathlib

/-!
# Strings of digits of one length

A number as a string of `k` digits in a base, the highest first, as a writer of fixed-width numbers
makes it. Where the symbols of the digits are in order, the strings are in the order of the numbers.

* `value_digits`: the string is read back as the number, up to its overflow.
* **`map_digits_lt`**: smaller numbers have smaller strings.
-/

namespace PurpleSky.Digits

/-- The lowest `k` digits of a number, the highest first. -/
def digits (b k v : Nat) : List Nat := (List.range k).reverse.map fun i => v / b ^ i % b

/-- The number that digits stand for, the highest first. -/
def value (b : Nat) (ds : List Nat) : Nat := ds.foldl (fun n d => n * b + d) 0

variable {b k v w : Nat}

/-- The first digit, and those of the rest. -/
theorem digits_succ : digits b (k + 1) v = v / b ^ k % b :: digits b k v := by
  rw [digits, List.range_succ, List.reverse_append, List.reverse_singleton, List.singleton_append,
    List.map_cons, digits]

/-- There are as many digits as are asked for. -/
@[simp] theorem length_digits : (digits b k v).length = k := by simp [digits]

/-- Each is less than the base. -/
theorem lt_of_mem_digits (hb : 0 < b) {d : Nat} (h : d ∈ digits b k v) : d < b := by
  obtain ⟨i, -, rfl⟩ := List.mem_map.mp h
  exact Nat.mod_lt _ hb

/-- Reading goes on from what was read before. -/
theorem foldl_digits (a : Nat) :
    (digits b k v).foldl (fun n d => n * b + d) a = a * b ^ k + v % b ^ k := by
  induction k generalizing a with
  | zero => simp [digits, Nat.mod_one]
  | succ k ih =>
      rw [digits_succ, List.foldl_cons, ih, Nat.mod_pow_succ]
      ring

/-- A number is read back without what does not fit. -/
theorem value_digits : value b (digits b k v) = v % b ^ k := by
  rw [value, foldl_digits, Nat.zero_mul, Nat.zero_add]

/-- The highest digits decide, and then the others. -/
theorem map_digits_lt {α : Type} [LT α] {f : Nat → α} (hb : 0 < b)
    (hf : ∀ i j, i < j → j < b → f i < f j) (h : v % b ^ k < w % b ^ k) :
    (digits b k v).map f < (digits b k w).map f := by
  induction k with
  | zero => simp [Nat.mod_one] at h
  | succ k ih =>
      rw [digits_succ, digits_succ, List.map_cons, List.map_cons, List.cons_lt_cons_iff]
      rcases lt_trichotomy (v / b ^ k % b) (w / b ^ k % b) with hlt | heq | hgt
      · exact .inl (hf _ _ hlt (Nat.mod_lt _ hb))
      · refine .inr ⟨congrArg f heq, ih ?_⟩
        rw [Nat.mod_pow_succ, Nat.mod_pow_succ, heq] at h
        exact Nat.lt_of_add_lt_add_right h
      · -- a higher digit is worth more than all of the lower ones
        have hlow : w % b ^ k < b ^ k := Nat.mod_lt _ (Nat.pow_pos hb)
        have hhigh : b ^ k * (w / b ^ k % b + 1) ≤ b ^ k * (v / b ^ k % b) :=
          Nat.mul_le_mul_left _ hgt
        rw [Nat.mod_pow_succ, Nat.mod_pow_succ] at h
        rw [mul_add_one] at hhigh
        linarith [Nat.zero_le (v % b ^ k)]

end PurpleSky.Digits

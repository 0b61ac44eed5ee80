import Mathlib.Data.List.MinMax

/-!
# The first greatest item

`List.argmax` is what a loop finds that keeps the greatest item so far and replaces it only by a
greater one.

* **`argmax_eq_some_iff_append`**: it is the first of the greatest items.
* **`argmax_perm`**: where no two items are equal in rank, the order of the list does not matter.
-/

namespace PurpleSky

variable {α β : Type} [LinearOrder β] {f : α → β} {l l' : List α} {m : α}

theorem argmax_append_cons {before after : List α} (hbefore : ∀ a ∈ before, f a < f m)
    (hafter : ∀ a ∈ after, f a ≤ f m) : (before ++ m :: after).argmax f = some m := by
  induction after using List.reverseRecOn with
  | nil =>
      rw [List.argmax_concat]
      cases h : before.argmax f with
      | none => rfl
      | some c => exact if_pos (hbefore c (List.argmax_mem h))
  | append_singleton after b ih =>
      have hb : f b ≤ f m := hafter b (by simp)
      have hrest : (before ++ m :: after).argmax f = some m :=
        ih fun a ha => hafter a (List.mem_append_left _ ha)
      rw [← List.cons_append, ← List.append_assoc, List.argmax_concat, hrest]
      exact if_neg (not_lt.mpr hb)

/-- The greatest item that comes first: those before it are smaller, those after it no greater. -/
theorem argmax_eq_some_iff_append :
    l.argmax f = some m ↔ ∃ before after, l = before ++ m :: after ∧
      (∀ a ∈ before, f a < f m) ∧ ∀ a ∈ after, f a ≤ f m := by
  constructor
  · intro h
    induction l using List.reverseRecOn with
    | nil => cases h
    | append_singleton l b ih =>
        rw [List.argmax_concat] at h
        cases hl : l.argmax f with
        | none =>
            obtain rfl := List.argmax_eq_none.mp hl
            rw [hl] at h
            obtain rfl := Option.some.inj h
            exact ⟨[], [], rfl, by simp, by simp⟩
        | some c =>
            simp only [hl] at h
            split_ifs at h with hlt
            · obtain rfl := Option.some.inj h
              exact ⟨l, [], rfl, fun a ha => (List.le_of_mem_argmax ha hl).trans_lt hlt, by simp⟩
            · obtain rfl := Option.some.inj h
              obtain ⟨before, after, rfl, hbefore, hafter⟩ := ih hl
              refine ⟨before, after ++ [b], by simp, hbefore, fun a ha => ?_⟩
              rcases List.mem_append.mp ha with ha | ha
              · exact hafter a ha
              · obtain rfl := List.mem_singleton.mp ha
                exact not_lt.mp hlt
  · rintro ⟨before, after, rfl, hbefore, hafter⟩
    exact argmax_append_cons hbefore hafter

/-- Without ties the greatest item is the same in every order. -/
theorem argmax_perm (h : l.Perm l') (hf : ∀ a ∈ l, ∀ b ∈ l, f a = f b → a = b) :
    l.argmax f = l'.argmax f := by
  cases hl : l.argmax f with
  | none =>
      obtain rfl := List.argmax_eq_none.mp hl
      rw [List.nil_perm.mp h, List.argmax_nil]
  | some m =>
      cases hl' : l'.argmax f with
      | none =>
          obtain rfl := List.argmax_eq_none.mp hl'
          rw [List.perm_nil.mp h] at hl
          cases hl
      | some m' =>
          have hm : m ∈ l := List.argmax_mem hl
          have hm' : m' ∈ l := h.mem_iff.mpr (List.argmax_mem hl')
          have hle : f m' ≤ f m := List.le_of_mem_argmax hm' hl
          have hge : f m ≤ f m' := List.le_of_mem_argmax (h.mem_iff.mp hm) hl'
          rw [hf m hm m' hm' (le_antisymm hge hle)]

end PurpleSky

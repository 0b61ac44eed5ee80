import PurpleSky.Lib.Machine

/-!
# Sliding windows

A limiter lets a call through when fewer than `capacity` of the calls it let through so far lie in
the window that ends now. The limiter here, `ledger`, forgets nothing: its state is every call it
ever let through.

* **`within_concat_le`**: one more call keeps the bound of every window.
* **`within_final_ledger_le`**: no window, wherever it ends, holds more than `capacity` calls.
* **`reply_ledger_iff`**: a call is turned away exactly where the window that ends with it is full.
-/

namespace PurpleSky.SlidingWindow

open Machine

variable {σ α : Type}

/-- The calls of a run that were let through. -/
def accepted (entries : List (Entry σ α Bool)) : List α :=
  (entries.filter (·.reply)).map (·.event)

/-- An empty run accepts nothing. -/
@[simp] theorem accepted_nil : accepted ([] : List (Entry σ α Bool)) = [] := rfl

/-- A run accepts its first event or not, and then what the rest accepts. -/
theorem accepted_cons (x : Entry σ α Bool) (xs : List (Entry σ α Bool)) :
    accepted (x :: xs) = (bif x.reply then [x.event] else []) ++ accepted xs := by
  cases h : x.reply <;> simp [accepted, h]

variable [LinearOrder α] [Add α]

/-- How many of the times lie in the window that ends at `t`: not after it, and less than `window`
before it. -/
def within (window : α) (times : List α) (t : α) : Nat :=
  times.countP fun n => decide (n ≤ t ∧ t < n + window)

/-- The limiter that remembers every call it let through. -/
def ledger (window : α) (capacity : Nat) : Machine (List α) α Bool where
  step history now :=
    if within window history now < capacity then (history ++ [now], true) else (history, false)

variable {window : α} {capacity : Nat} {history times : List α} {now t : α}

/-- Events within a window are counted part by part. -/
@[simp] theorem within_append :
    within window (history ++ times) t = within window history t + within window times t :=
  List.countP_append

/-- One event counts at most once. -/
theorem within_singleton_le_one : within window [now] t ≤ 1 :=
  List.countP_le_length

/-- Once all calls are over, a later window holds no more of them. -/
theorem within_le_of_le (hle : ∀ n ∈ history, n ≤ now) (ht : now ≤ t) :
    within window history t ≤ within window history now := by
  refine List.countP_mono_left fun n hn h => ?_
  obtain ⟨-, hlt⟩ := of_decide_eq_true h
  exact decide_eq_true ⟨hle n hn, ht.trans_lt hlt⟩

/-- A call that finds room in its own window leaves every window within its bound. -/
theorem within_concat_le (hle : ∀ n ∈ history, n ≤ now)
    (hbound : ∀ t, within window history t ≤ capacity)
    (hroom : within window history now < capacity) :
    within window (history ++ [now]) t ≤ capacity := by
  rw [within_append]
  by_cases ht : now ≤ t
  · -- The window at `t` holds no more of the earlier calls than the one that ends now.
    have hearlier : within window history t ≤ within window history now := within_le_of_le hle ht
    have hone : within window [now] t ≤ 1 := within_singleton_le_one
    omega
  · have hnone : within window [now] t = 0 := by simp [within, ht]
    have hearlier : within window history t ≤ capacity := hbound t
    omega

/-! ## Runs of the ledger -/

/-- An event is accepted where there is room, and noted. -/
theorem step_ledger_of_lt (h : within window history now < capacity) :
    (ledger window capacity).step history now = (history ++ [now], true) :=
  if_pos h

/-- Without room it is refused, and leaves nothing. -/
theorem step_ledger_of_not_lt (h : ¬within window history now < capacity) :
    (ledger window capacity).step history now = (history, false) :=
  if_neg h

/-- The ledger ends up with the calls it let through. -/
theorem final_ledger (nows : List α) :
    (ledger window capacity).final history nows =
      history ++ accepted ((ledger window capacity).trace history nows) := by
  induction nows generalizing history with
  | nil => simp [final, trace]
  | cons now nows ih =>
      rw [final, ih, trace, accepted_cons, ← List.append_assoc]
      by_cases h : within window history now < capacity
      · simp [entry, step_ledger_of_lt h]
      · simp [entry, step_ledger_of_not_lt h]

/-- Every window of a run whose clock does not go back is within its bound. -/
theorem within_final_ledger_le {nows : List α} (hnows : nows.Pairwise (· ≤ ·))
    (hle : ∀ n ∈ history, ∀ now ∈ nows, n ≤ now)
    (hbound : ∀ t, within window history t ≤ capacity) :
    within window ((ledger window capacity).final history nows) t ≤ capacity := by
  induction nows generalizing history with
  | nil => exact hbound t
  | cons now nows ih =>
      obtain ⟨hfirst, hrest⟩ := List.pairwise_cons.mp hnows
      have hnow : ∀ n ∈ history, n ≤ now := fun n hn => hle n hn now List.mem_cons_self
      rw [final]
      by_cases h : within window history now < capacity
      · rw [step_ledger_of_lt h]
        refine ih hrest (fun n hn m hm => ?_) fun t => within_concat_le hnow hbound h
        rcases List.mem_append.mp hn with hn | hn
        · exact hle n hn m (List.mem_cons_of_mem _ hm)
        · obtain rfl := List.mem_singleton.mp hn
          exact hfirst m hm
      · rw [step_ledger_of_not_lt h]
        exact ih hrest (fun n hn m hm => hle n hn m (List.mem_cons_of_mem _ hm)) hbound

/-- A call is turned away exactly where its window is full. -/
theorem reply_ledger_iff (hbound : within window history now ≤ capacity) :
    ((ledger window capacity).step history now).2 = false ↔
      within window history now = capacity := by
  by_cases h : within window history now < capacity
  · simp [step_ledger_of_lt h, h.ne]
  · simp only [step_ledger_of_not_lt h, true_iff]
    omega

end PurpleSky.SlidingWindow

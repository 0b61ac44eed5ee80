import PurpleSky.Lib.SlidingWindow
import PurpleSky.Node.Core

/-!
# The rate limit

`limit` keeps a list of times, drops those that are over at every call and counts the rest. The list
is pruned only where it is used, so what it says about a window that ends at another time takes an
argument: it `Remembers` the calls that were let through, as far as any later window counts them.

* **`replies_limiter`**: a list pruned in this way answers as one that forgets nothing.
* **`limit_window`**: what the limit promises over a run.
-/

namespace PurpleSky.Node

open Machine SlidingWindow

/-- A rate limit, called with the time of the clock. -/
def limiter (window capacity : Nat) : Machine (List Nat) Nat Bool where
  step times now := (limit times now window capacity).swap

/-- The times that are not over. -/
def fresh (window : Nat) (times : List Nat) (now : Nat) : List Nat :=
  times.filter fun time => now - time < window

variable {window capacity now t : Nat} {times history nows : List Nat}

theorem step_limiter_of_le (h : capacity ≤ (fresh window times now).length) :
    (limiter window capacity).step times now = (fresh window times now, false) :=
  congrArg Prod.swap (if_pos h)

theorem step_limiter_of_lt (h : (fresh window times now).length < capacity) :
    (limiter window capacity).step times now = (fresh window times now ++ [now], true) :=
  congrArg Prod.swap (if_neg (not_le.mpr h))

/-- What is over at a time is over at a later one. -/
theorem fresh_fresh (ht : now ≤ t) :
    fresh window (fresh window times now) t = fresh window times t := by
  rw [fresh, fresh, fresh, List.filter_filter]
  refine List.filter_congr fun time _ => ?_
  rw [← Bool.decide_and, decide_eq_decide]
  omega

theorem fresh_append :
    fresh window (times ++ history) t = fresh window times t ++ fresh window history t :=
  List.filter_append _ _

/-- A call reads of the list only what is not over. -/
theorem step_limiter_fresh (ht : now ≤ t) :
    (limiter window capacity).step (fresh window times now) t =
      (limiter window capacity).step times t := by
  by_cases h : capacity ≤ (fresh window times t).length
  · rw [step_limiter_of_le h, step_limiter_of_le (by rwa [fresh_fresh ht]), fresh_fresh ht]
  · rw [not_le] at h
    rw [step_limiter_of_lt h, step_limiter_of_lt (by rwa [fresh_fresh ht]), fresh_fresh ht]

/-- The list never grows beyond the capacity. -/
theorem length_step_limiter_le (h : times.length ≤ capacity) :
    ((limiter window capacity).step times now).1.length ≤ capacity := by
  have hfresh : (fresh window times now).length ≤ times.length := List.length_filter_le _ _
  by_cases hfull : capacity ≤ (fresh window times now).length
  · rw [step_limiter_of_le hfull]
    exact hfresh.trans h
  · rw [not_le] at hfull
    rw [step_limiter_of_lt hfull, List.length_append, List.length_singleton]
    exact hfull

/-- The list that is kept is the whole history to every window that ends now or later. -/
structure Remembers (window : Nat) (times history : List Nat) (now : Nat) : Prop where
  le : ∀ n ∈ history, n ≤ now
  fresh : ∀ t, now ≤ t → fresh window times t = fresh window history t

namespace Remembers

theorem mono (h : Remembers window times history now) (ht : now ≤ t) :
    Remembers window times history t where
  le n hn := (h.le n hn).trans ht
  fresh u hu := h.fresh u (ht.trans hu)

/-- What the limit counts is what lies in the window. -/
theorem length_fresh (h : Remembers window times history now) :
    (Node.fresh window times now).length = within window history now := by
  rw [h.fresh now le_rfl, Node.fresh, within, List.countP_eq_length_filter]
  refine congrArg List.length (List.filter_congr fun n hn => ?_)
  have hle : n ≤ now := h.le n hn
  rw [decide_eq_decide]
  omega

/-- A call keeps the two lists together, and both let it through or neither does. -/
theorem step (h : Remembers window times history now) :
    Remembers window ((limiter window capacity).step times now).1
      ((ledger window capacity).step history now).1 now ∧
    ((limiter window capacity).step times now).2 = ((ledger window capacity).step history now).2 := by
  have hcount : (Node.fresh window times now).length = within window history now := h.length_fresh
  by_cases hroom : within window history now < capacity
  · rw [step_ledger_of_lt hroom, step_limiter_of_lt (hcount ▸ hroom)]
    refine ⟨⟨fun n hn => ?_, fun t ht => ?_⟩, rfl⟩
    · rcases List.mem_append.mp hn with hn | hn
      · exact h.le n hn
      · exact (List.mem_singleton.mp hn).le
    · simp only [fresh_append, fresh_fresh ht, h.fresh t ht]
  · have hfull : capacity ≤ (Node.fresh window times now).length := by omega
    rw [step_ledger_of_not_lt hroom, step_limiter_of_le hfull]
    refine ⟨⟨h.le, fun t ht => ?_⟩, rfl⟩
    simp only [fresh_fresh ht, h.fresh t ht]

theorem nil : Remembers window [] [] now := ⟨by simp, fun _ _ => rfl⟩

/-- The two lists stay together over a run whose clock does not go back. -/
theorem final (hnows : nows.Pairwise (· ≤ ·))
    (hall : ∀ now ∈ nows, Remembers window times history now ∧ now ≤ t)
    (h : Remembers window times history t) :
    Remembers window ((limiter window capacity).final times nows)
      ((ledger window capacity).final history nows) t := by
  induction nows generalizing times history with
  | nil => exact h
  | cons now nows ih =>
      obtain ⟨hfirst, hrest⟩ := List.pairwise_cons.mp hnows
      obtain ⟨⟨hnow, hle⟩, hall⟩ := List.forall_mem_cons.mp hall
      have hstep : Remembers window ((limiter window capacity).step times now).1
        ((ledger window capacity).step history now).1 now := hnow.step.1
      exact ih hrest (fun m hm => ⟨hstep.mono (hfirst m hm), (hall m hm).2⟩) (hstep.mono hle)

/-- The two limiters let the same calls through. -/
theorem accepted_trace (hnows : nows.Pairwise (· ≤ ·))
    (hall : ∀ now ∈ nows, Remembers window times history now) :
    accepted ((limiter window capacity).trace times nows) =
      accepted ((ledger window capacity).trace history nows) := by
  induction nows generalizing times history with
  | nil => rfl
  | cons now nows ih =>
      obtain ⟨hfirst, hrest⟩ := List.pairwise_cons.mp hnows
      have hnow : Remembers window times history now := hall now List.mem_cons_self
      have hstep : Remembers window ((limiter window capacity).step times now).1
        ((ledger window capacity).step history now).1 now := hnow.step.1
      have hreply : ((limiter window capacity).step times now).2 =
        ((ledger window capacity).step history now).2 := hnow.step.2
      rw [trace, trace, accepted_cons, accepted_cons, ih hrest fun m hm => hstep.mono (hfirst m hm)]
      simp only [entry, hreply]

end Remembers

/-! ## Runs -/

/-- The calls that were let through are what the limiter that forgets nothing remembers. -/
theorem final_ledger_eq (hnows : nows.Pairwise (· ≤ ·)) :
    (ledger window capacity).final [] nows =
      accepted ((limiter window capacity).trace [] nows) := by
  rw [final_ledger, List.nil_append, Remembers.accepted_trace hnows fun _ _ => Remembers.nil]

/-- A call is turned away exactly where its window is full. -/
theorem reply_limiter_iff (hnows : (nows ++ [now]).Pairwise (· ≤ ·)) :
    ((limiter window capacity).step ((limiter window capacity).final [] nows) now).2 = false ↔
      within window (accepted ((limiter window capacity).trace [] nows)) now = capacity := by
  obtain ⟨hfirst, -, hle⟩ := List.pairwise_append.mp hnows
  have hsim : Remembers window ((limiter window capacity).final [] nows)
      ((ledger window capacity).final [] nows) now :=
    Remembers.nil.final hfirst fun n hn => ⟨Remembers.nil, hle n hn now List.mem_cons_self⟩
  have hbound : within window ((ledger window capacity).final [] nows) now ≤ capacity :=
    within_final_ledger_le hfirst (by simp) fun t => Nat.zero_le _
  rw [hsim.step.2, reply_ledger_iff hbound, final_ledger_eq hfirst]

theorem length_final_limiter_le : ((limiter window capacity).final [] nows).length ≤ capacity := by
  induction nows using List.reverseRecOn with
  | nil => exact Nat.zero_le _
  | append_singleton nows now ih =>
      rw [final_append]
      exact length_step_limiter_le ih

/-- A call that is turned away leaves the times that are not over. -/
theorem step_limiter_eq_of_reply (h : ((limiter window capacity).step times now).2 = false) :
    ((limiter window capacity).step times now).1 = fresh window times now := by
  by_cases hfull : capacity ≤ (fresh window times now).length
  · rw [step_limiter_of_le hfull]
  · rw [step_limiter_of_lt (not_le.mp hfull)] at h
    cases h

/-- What a call that is turned away leaves behind makes no difference to the later ones. -/
theorem answers_trace_fresh (hle : ∀ t ∈ nows, now ≤ t) :
    ((limiter window capacity).trace (fresh window times now) nows).map
        (fun x => (x.event, x.reply)) =
      ((limiter window capacity).trace times nows).map fun x => (x.event, x.reply) := by
  cases nows with
  | nil => rfl
  | cons t nows =>
      simp only [trace, List.map_cons, entry, step_limiter_fresh (hle t List.mem_cons_self)]

/-- The limit of a sliding window, over every run whose clock does not go back: no window holds more
calls than the capacity, a call is turned away exactly where its own window is full, the list stays
within the capacity, and a run answers the same without a call it turns away. -/
theorem limit_window (window capacity : Nat) (nows : List Nat) (hnows : nows.Pairwise (· ≤ ·)) :
    (∀ t, within window (accepted ((limiter window capacity).trace [] nows)) t ≤ capacity) ∧
      ∀ pre x post, (limiter window capacity).trace [] nows = pre ++ x :: post →
        (x.reply = false ↔ within window (accepted pre) x.event = capacity) ∧
        x.before.length ≤ capacity ∧ x.after.length ≤ capacity ∧
        (x.reply = false →
          ((limiter window capacity).trace [] ((pre ++ post).map (·.event))).map
              (fun y => (y.event, y.reply)) =
            (pre ++ post).map fun y => (y.event, y.reply)) := by
  refine ⟨fun t => ?_, fun pre x post h => ?_⟩
  · rw [← final_ledger_eq hnows]
    exact within_final_ledger_le hnows (by simp) fun t => Nat.zero_le _
  · obtain ⟨es₁, now, es₂, rfl, rfl, rfl, rfl⟩ := exists_of_trace_eq_cons h
    obtain ⟨-, hafter, -⟩ := List.pairwise_append.mp hnows
    have hlater : ∀ t ∈ es₂, now ≤ t := (List.pairwise_cons.mp hafter).1
    have hupto : (es₁ ++ [now]).Pairwise (· ≤ ·) :=
      hnows.sublist ((List.singleton_sublist.mpr List.mem_cons_self).append_left es₁)
    refine ⟨reply_limiter_iff hupto, length_final_limiter_le,
      length_step_limiter_le length_final_limiter_le, fun hreply => ?_⟩
    have hstate : (entry (limiter window capacity) ((limiter window capacity).final [] es₁) now).after =
        fresh window ((limiter window capacity).final [] es₁) now :=
      step_limiter_eq_of_reply hreply
    rw [List.map_append, map_event_trace, map_event_trace, trace_append, List.map_append,
      List.map_append, hstate, answers_trace_fresh hlater]

/-- The window of a minute that has room for two calls, called six times. -/
theorem limit_window_sample :
    (∀ t, within 60 (accepted ((limiter 60 2).trace [] [0, 10, 20, 60, 69, 70])) t ≤ 2) ∧
      ∀ pre x post, (limiter 60 2).trace [] [0, 10, 20, 60, 69, 70] = pre ++ x :: post →
        (x.reply = false ↔ within 60 (accepted pre) x.event = 2) ∧
        x.before.length ≤ 2 ∧ x.after.length ≤ 2 ∧
        (x.reply = false →
          ((limiter 60 2).trace [] ((pre ++ post).map (·.event))).map
              (fun y => (y.event, y.reply)) =
            (pre ++ post).map fun y => (y.event, y.reply)) :=
  limit_window 60 2 [0, 10, 20, 60, 69, 70] (by decide)

end PurpleSky.Node

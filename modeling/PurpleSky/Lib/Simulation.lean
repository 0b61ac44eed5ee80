import PurpleSky.Lib.Machine
import PurpleSky.Lib.Procedure

/-!
# A machine that is worked by another

`N` simulates `M` when every allowed step of `M` is made by some steps of `N` that show it. Then every
allowed run of `M` is made by a run of `N`, which falls into one block for each step of `M`
(`Explains`). What is known of runs of `N` is read back through the blocks.

* **`Simulates.run`**: a run for a run; `Simulates.trans`: one simulation after another.
* `Explains.of_append_cons`, `Explains.of_mem`: from an entry to its block, and from an entry of the
  blocks to what it is part of.
* `Drives`: a procedure that works a machine, with a rule for each operation.
-/

namespace PurpleSky.Machine

/-! ## Blocks -/

section

variable {α β γ : Type}

/-- A list that falls into blocks, one for each item of another list, which it shows. -/
inductive Explains (Shows : α → List β → Prop) : List α → List β → Prop
  | nil : Explains Shows [] []
  | cons {x : α} {xs : List α} {ys zs : List β} (block : Shows x ys) (rest : Explains Shows xs zs) :
      Explains Shows (x :: xs) (ys ++ zs)

namespace Explains

variable {Shows : α → List β → Prop} {xs xs' pre post : List α} {ys zs ws : List β} {x : α} {y : β}

/-- Without items there are no blocks. -/
theorem eq_nil (h : Explains Shows [] ys) : ys = [] := by
  cases h
  rfl

/-- A single item has a single block. -/
theorem of_singleton (h : Explains Shows [x] ys) : Shows x ys := by
  cases h with
  | cons block rest =>
      rw [rest.eq_nil, List.append_nil]
      exact block

/-- Blocks of two parts, one after the other. -/
theorem append (h : Explains Shows xs ys) (h' : Explains Shows xs' zs) :
    Explains Shows (xs ++ xs') (ys ++ zs) := by
  induction h with
  | nil => exact h'
  | cons block _ ih =>
      rw [List.append_assoc]
      exact .cons block ih

/-- Two parts have blocks of their own. -/
theorem of_append (h : Explains Shows (xs ++ xs') ws) :
    ∃ ys zs, ws = ys ++ zs ∧ Explains Shows xs ys ∧ Explains Shows xs' zs := by
  induction xs generalizing ws with
  | nil => exact ⟨[], ws, rfl, .nil, h⟩
  | cons x xs ih =>
      cases h with
      | cons block rest =>
          obtain ⟨ys, zs, rfl, hxs, hxs'⟩ := ih rest
          exact ⟨_, zs, (List.append_assoc _ _ _).symm, .cons block hxs, hxs'⟩

/-- The block of an item, and what comes before and after it. -/
theorem of_append_cons (h : Explains Shows (pre ++ x :: post) ws) :
    ∃ as block bs, ws = as ++ (block ++ bs) ∧ Explains Shows pre as ∧ Shows x block ∧
      Explains Shows post bs := by
  obtain ⟨as, rest, rfl, hpre, hrest⟩ := h.of_append
  cases hrest with
  | cons block hpost => exact ⟨as, _, _, rfl, hpre, block, hpost⟩

/-- The item whose block something is in. -/
theorem of_mem {as bs : List β} (h : Explains Shows xs (as ++ y :: bs)) :
    ∃ pre x post as' us vs bs', xs = pre ++ x :: post ∧ as = as' ++ us ∧ bs = vs ++ bs' ∧
      Explains Shows pre as' ∧ Shows x (us ++ y :: vs) ∧ Explains Shows post bs' := by
  generalize hws : as ++ y :: bs = ws at h
  induction h generalizing as with
  | nil => simp at hws
  | @cons x xs ys zs block rest ih =>
      rcases List.append_eq_append_iff.mp hws with ⟨us, hys, hrest⟩ | ⟨us, has, hzs⟩
      · cases us with
        | nil =>
            rw [List.append_nil] at hys
            obtain ⟨pre, x', post, as', us', vs, bs', rfl, hnil, rfl, hpre, hx, hpost⟩ :=
              @ih [] hrest
            obtain ⟨rfl, rfl⟩ := List.append_eq_nil_iff.mp hnil.symm
            refine ⟨x :: pre, x', post, as, [], vs, bs', rfl, (List.append_nil _).symm, rfl, ?_,
              hx, hpost⟩
            rw [← hys, ← List.append_nil ys]
            exact .cons block hpre
        | cons u us =>
            obtain ⟨rfl, rfl⟩ := List.cons.inj hrest
            exact ⟨[], x, xs, [], as, us, zs, rfl, rfl, rfl, .nil, hys ▸ block, rest⟩
      · obtain ⟨pre, x', post, as', us', vs, bs', rfl, rfl, rfl, hpre, hx, hpost⟩ := ih hzs.symm
        exact ⟨x :: pre, x', post, ys ++ as', us', vs, bs', rfl,
          by rw [has, List.append_assoc], rfl, .cons block hpre, hx, hpost⟩

/-- The block of an item is part of the blocks. -/
theorem exists_block (h : Explains Shows xs ys) (hx : x ∈ xs) :
    ∃ block, Shows x block ∧ block ⊆ ys := by
  obtain ⟨pre, post, rfl⟩ := List.append_of_mem hx
  obtain ⟨as, block, bs, rfl, -, hblock, -⟩ := h.of_append_cons
  refine ⟨block, hblock, fun y hy => ?_⟩
  exact List.mem_append_right _ (List.mem_append_left _ hy)

/-- What is in the blocks is in the block of some item. -/
theorem exists_of_mem (h : Explains Shows xs ys) (hy : y ∈ ys) :
    ∃ x ∈ xs, ∃ block, Shows x block ∧ y ∈ block := by
  obtain ⟨as, bs, rfl⟩ := List.append_of_mem hy
  obtain ⟨pre, x, post, _, us, vs, _, rfl, -, -, -, hx, -⟩ := h.of_mem
  exact ⟨x, by simp, us ++ y :: vs, hx, by simp⟩

/-- What no block goes beyond its item with, all blocks together do not. -/
theorem flatMap_sublist {f : α → List γ} {g : β → List γ} (h : Explains Shows xs ys)
    (hblock : ∀ x ys, Shows x ys → (ys.flatMap g).Sublist (f x)) :
    (ys.flatMap g).Sublist (xs.flatMap f) := by
  induction h with
  | nil => exact .slnil
  | cons block _ ih =>
      rw [List.flatMap_append, List.flatMap_cons]
      exact (hblock _ _ block).append ih

end Explains

end

/-! ## Runs -/

variable {σ ε ρ τ δ κ : Type}

/-- The step that a run makes after some events. -/
theorem trace_append_cons (M : Machine σ ε ρ) (s : σ) (es : List ε) (e : ε) (es' : List ε) :
    M.trace s (es ++ e :: es') = M.trace s es ++ M.entry (M.final s es) e ::
      M.trace (M.entry (M.final s es) e).after es' :=
  trace_append _ _ _

/-- Every allowed step of `M` is made by steps of `N` that show it. -/
def Simulates (N : Machine τ δ κ) (M : Machine σ ε ρ) (A : σ → ε → Prop) (R : σ → τ → Prop)
    (Shows : Entry σ ε ρ → List (Entry τ δ κ) → Prop) : Prop :=
  ∀ s t e, R s t → A s e →
    ∃ ds, R (M.step s e).1 (N.final t ds) ∧ Shows (M.entry s e) (N.trace t ds)

/-- Every allowed run is made by a run. -/
theorem Simulates.run {N : Machine τ δ κ} {M : Machine σ ε ρ} {A : σ → ε → Prop} {R : σ → τ → Prop}
    {Shows : Entry σ ε ρ → List (Entry τ δ κ) → Prop} (h : Simulates N M A R Shows) {s : σ} {t : τ}
    (hst : R s t) {es : List ε} (hes : M.Meets A s es) :
    ∃ ds, R (M.final s es) (N.final t ds) ∧ Explains Shows (M.trace s es) (N.trace t ds) := by
  induction es generalizing s t with
  | nil => exact ⟨[], hst, .nil⟩
  | cons e es ih =>
      obtain ⟨ds, hstep, hshows⟩ := h s t e hst hes.1
      obtain ⟨ds', hfinal, hexplains⟩ := ih hstep hes.2
      refine ⟨ds ++ ds', ?_, ?_⟩
      · rwa [final_append]
      · rw [trace_append]
        exact .cons hshows hexplains

/-- A machine that is worked by another is worked by what works that one. -/
theorem Simulates.trans {υ ζ χ : Type} {L : Machine υ ζ χ} {N : Machine τ δ κ} {M : Machine σ ε ρ}
    {A : σ → ε → Prop} {R : σ → τ → Prop} {R' : τ → υ → Prop}
    {Shows : Entry σ ε ρ → List (Entry τ δ κ) → Prop}
    {Shows' : Entry τ δ κ → List (Entry υ ζ χ) → Prop} (h : Simulates N M A R Shows)
    (h' : Simulates L N (fun _ _ => True) R' Shows') :
    Simulates L M A (fun s u => ∃ t, R s t ∧ R' t u)
      fun x zs => ∃ ys, Shows x ys ∧ Explains Shows' ys zs := by
  rintro s u e ⟨t, hst, htu⟩ he
  obtain ⟨ds, hstep, hshows⟩ := h s t e hst he
  obtain ⟨ds', hfinal, hexplains⟩ := h'.run htu (meets_iff.mpr fun _ _ => trivial : N.Meets _ t ds)
  exact ⟨ds', ⟨_, hstep, hfinal⟩, _, hshows, hexplains⟩

/-! ## Procedures -/

open Procedure

variable {ι α β : Type} {N : Machine τ δ κ} {R : σ → τ → Prop}

/-- Wherever a procedure ends, some steps of a machine have kept it together with the procedure.
With the entries `ys` from before, the last state and the entries are `Q` where the procedure
returns, and the entries are `E` where it stops. -/
def Drives (N : Machine τ δ κ) (R : σ → τ → Prop) (E : List (Entry τ δ κ) → Prop)
    (x : Procedure σ ι α) (Q : α → σ → List (Entry τ δ κ) → Prop) (s : σ) (t : τ)
    (ys : List (Entry τ δ κ)) : Prop :=
  wp x (fun a s' => ∃ ds, R s' (N.final t ds) ∧ Q a s' (ys ++ N.trace t ds))
    (fun _ s' => ∃ ds, R s' (N.final t ds) ∧ E (ys ++ N.trace t ds)) s

variable {E : List (Entry τ δ κ) → Prop} {x : Procedure σ ι α} {f : α → Procedure σ ι β}
  {Q Q' : α → σ → List (Entry τ δ κ) → Prop} {P : β → σ → List (Entry τ δ κ) → Prop} {s : σ} {t : τ}
  {ys : List (Entry τ δ κ)}

/-- What a procedure returns with may be weakened. -/
theorem Drives.mono (h : Drives N R E x Q s t ys) (hQ : ∀ a s ys, Q a s ys → Q' a s ys) :
    Drives N R E x Q' s t ys :=
  wp.mono h (fun a s' ⟨ds, hs, hq⟩ => ⟨ds, hs, hQ a s' _ hq⟩) fun _ _ he => he

/-- The steps of a sequence are those of its first procedure, and then those of the rest, from where
it returned. -/
theorem Drives.bind (h : Drives N R E x Q s t ys)
    (hf : ∀ a s' t' ys', R s' t' → Q a s' ys' → Drives N R E (f a) P s' t' ys') :
    Drives N R E (x >>= f) P s t ys := by
  refine wp.bind h (fun a s' ⟨ds, hs, hq⟩ => ?_) fun _ _ he => he
  refine wp.mono (hf a s' (N.final t ds) _ hs hq) ?_ ?_
  · rintro b s'' ⟨ds', hs'', hp⟩
    exact ⟨ds ++ ds', by rwa [final_append], by rwa [trace_append, ← List.append_assoc]⟩
  · rintro b s'' ⟨ds', hs'', he⟩
    exact ⟨ds ++ ds', by rwa [final_append], by rwa [trace_append, ← List.append_assoc]⟩

/-- The entries from before are not lost. -/
theorem Drives.remember (h : Drives N R E x Q s t ys) :
    Drives N R E x (fun a s' ys' => Q a s' ys' ∧ ys <+: ys') s t ys :=
  wp.mono h (fun _ _ ⟨ds, hs, hq⟩ => ⟨ds, hs, hq, List.prefix_append _ _⟩) fun _ _ he => he

/-- What is known of a procedure without the machine. -/
theorem Drives.and {T : α → σ → Prop} (h : Drives N R E x Q s t ys)
    (h' : wp x T (fun _ _ => True) s) :
    Drives N R E x (fun a s' ys' => Q a s' ys' ∧ T a s') s t ys :=
  (wp.and h h').mono (fun _ _ ⟨⟨ds, hs, hq⟩, ht⟩ => ⟨ds, hs, hq, ht⟩) fun _ _ he => he.1

/-! ### Operations that leave the machine alone -/

/-- No step at all. -/
theorem still {Z : List (Entry τ δ κ) → Prop} (hs : R s t) (hz : Z ys) :
    ∃ ds, R s (N.final t ds) ∧ Z (ys ++ N.trace t ds) :=
  ⟨[], hs, by rwa [trace, List.append_nil]⟩

/-- Returning takes no step. -/
theorem drives_pure {a : α} (hs : R s t) (hq : Q a s ys) :
    Drives N R E (pure a : Procedure σ ι α) Q s t ys := still (Z := Q a s) hs hq

/-- Stopping takes none, and what was done so far has to be allowed there. -/
theorem drives_stop {e : ι} (hs : R s t) (he : E ys) :
    Drives N R E (stop e : Procedure σ ι α) Q s t ys := still hs he

/-- Reading takes none. -/
theorem drives_read {f : σ → Procedure σ ι β} (h : Drives N R E (f s) P s t ys) :
    Drives N R E (read >>= f) P s t ys := h

/-- A change takes none, and the machine is related again later. -/
theorem drives_change {g : σ → σ} {f : Unit → Procedure σ ι β}
    (h : Drives N R E (f ()) P (g s) t ys) : Drives N R E (change g >>= f) P s t ys := h

/-- A guard takes none. It may stop, so what was done so far has to be allowed there. -/
theorem drives_require {c : Prop} [Decidable c] {e : ι} {f : Unit → Procedure σ ι β} (hs : R s t)
    (he : E ys) (h : c → Drives N R E (f ()) P s t ys) :
    Drives N R E (require c e >>= f) P s t ys :=
  (wp_bind _ _).mpr (wp_require.mpr ⟨h, fun _ => still hs he⟩)

/-- Neither does a computation beside the state. -/
theorem drives_lift {y : Except ι α} (hs : R s t) (he : E ys)
    (h : ∀ a, y = .ok a → Drives N R E (f a) P s t ys) : Drives N R E (lift y >>= f) P s t ys :=
  (wp_bind _ _).mpr (wp_lift.mpr ⟨h, fun _ _ => still hs he⟩)

end PurpleSky.Machine

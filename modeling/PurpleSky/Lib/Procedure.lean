import PurpleSky.Lib.Except

/-!
# Procedures that may stop

A procedure changes a state and returns a value, or stops with an error; what it had changed when it
stopped stays changed. `wp x Q E s` says that `x`, started in `s`, returns with `Q` or stops with
`E`. Each operation has an equation for it, and by `wp.bind` a procedure is used in a sequence by
what was proved about it. `Along` is for what holds wherever a procedure ends, and `Halts` for the
errors it stops with; both have a rule for each operation.
-/

namespace PurpleSky

/-- A procedure on states `σ` that returns an `α` or stops with an `ε`. -/
def Procedure (σ ε α : Type) := σ → Except ε α × σ

namespace Procedure

variable {σ ε α β : Type}

/-- A sequence goes on from the state that its first procedure left, and stops where that stops. -/
instance : Monad (Procedure σ ε) where
  pure a := fun s => (.ok a, s)
  bind x f := fun s =>
    match x s with
    | (.ok a, s) => f a s
    | (.error e, s) => (.error e, s)

/-- Sequences are associative, so that `do` blocks may be regrouped. -/
instance : LawfulMonad (Procedure σ ε) :=
  LawfulMonad.mk' _
    (fun x => by
      funext s
      show (match x s with | (.ok a, s) => (.ok a, s) | (.error e, s) => (.error e, s)) = x s
      match x s with
      | (.ok a, s) => rfl
      | (.error e, s) => rfl)
    (fun a f => rfl)
    (fun x f g => by
      funext s
      show (match (match x s with | (.ok a, s) => f a s | (.error e, s) => (.error e, s)) with
          | (.ok b, s) => g b s
          | (.error e, s) => (.error e, s)) =
        match x s with
        | (.ok a, s) => (match f a s with | (.ok b, s) => g b s | (.error e, s) => (.error e, s))
        | (.error e, s) => (.error e, s)
      match x s with
      | (.ok a, s) => rfl
      | (.error e, s) => rfl)

/-- The state. -/
def read : Procedure σ ε σ := fun s => (.ok s, s)

/-- Change the state. -/
def change (f : σ → σ) : Procedure σ ε Unit := fun s => (.ok (), f s)

/-- Stop with an error. -/
def stop (e : ε) : Procedure σ ε α := fun s => (.error e, s)

/-- Go on when a condition holds. -/
def require (c : Prop) [Decidable c] (e : ε) : Procedure σ ε Unit :=
  if c then pure () else stop e

/-- Go on with the result of a computation, which does not change the state. -/
def lift (x : Except ε α) : Procedure σ ε α := fun s => (x, s)

/-- A procedure returns with `Q` or stops with `E`. -/
def wp (x : Procedure σ ε α) (Q : α → σ → Prop) (E : ε → σ → Prop) (s : σ) : Prop :=
  match x s with
  | (.ok a, s) => Q a s
  | (.error e, s) => E e s

variable {Q Q' : α → σ → Prop} {R : β → σ → Prop} {E E' : ε → σ → Prop} {s : σ}

/-! ## Sequences -/

/-- After a procedure that returned, the next one is run in the state it left. -/
theorem bind_of_ok {x : Procedure σ ε α} {f : α → Procedure σ ε β} {a : α} {s' : σ}
    (h : x s = (.ok a, s')) : (x >>= f) s = f a s' := by
  show (match x s with | (.ok a, s) => f a s | (.error e, s) => (.error e, s)) = _
  rw [h]

/-- After a procedure that stopped nothing is run, and its state stays. -/
theorem bind_of_error {x : Procedure σ ε α} {f : α → Procedure σ ε β} {e : ε} {s' : σ}
    (h : x s = (.error e, s')) : (x >>= f) s = (.error e, s') := by
  show (match x s with | (.ok a, s) => f a s | (.error e, s) => (.error e, s)) = _
  rw [h]

/-! ## Equations -/

/-- Returning a value changes nothing. -/
@[simp] theorem wp_pure (a : α) : wp (pure a : Procedure σ ε α) Q E s ↔ Q a s := Iff.rfl

/-- A sequence is judged by its first procedure, with what the second does as the postcondition. -/
theorem wp_bind (x : Procedure σ ε α) (f : α → Procedure σ ε β) :
    wp (x >>= f) R E s ↔ wp x (fun a s => wp (f a) R E s) E s := by
  show (match (match x s with | (.ok a, s) => f a s | (.error e, s) => (.error e, s)) with
    | (.ok b, s) => R b s
    | (.error e, s) => E e s) ↔ _
  unfold wp
  match x s with
  | (.ok a, s) => rfl
  | (.error e, s) => rfl

/-- Reading returns the state, and leaves it. -/
@[simp] theorem wp_read {Q : σ → σ → Prop} : wp (read : Procedure σ ε σ) Q E s ↔ Q s s := Iff.rfl

/-- A change returns in the changed state. -/
@[simp] theorem wp_change {Q : Unit → σ → Prop} (f : σ → σ) :
    wp (change f : Procedure σ ε Unit) Q E s ↔ Q () (f s) := Iff.rfl

/-- Stopping leaves the state as it is. -/
@[simp] theorem wp_stop (e : ε) : wp (stop e : Procedure σ ε α) Q E s ↔ E e s := Iff.rfl

/-- A guard is judged in both cases, and changes nothing in either. -/
theorem wp_require {Q : Unit → σ → Prop} {c : Prop} [Decidable c] {e : ε} :
    wp (require c e) Q E s ↔ (c → Q () s) ∧ (¬c → E e s) := by
  unfold require
  by_cases h : c
  · simp [h]
  · simp [h]

/-- A computation beside the state is judged by its result. -/
theorem wp_lift {x : Except ε α} :
    wp (lift x) Q E s ↔ (∀ a, x = .ok a → Q a s) ∧ ∀ e, x = .error e → E e s := by
  cases x with
  | ok a => simp [wp, lift]
  | error e => simp [wp, lift]

/-- A branch is judged where its condition holds. -/
theorem wp_ite {c : Prop} [Decidable c] {x y : Procedure σ ε α} :
    wp (if c then x else y) Q E s ↔ (c → wp x Q E s) ∧ (¬c → wp y Q E s) := by
  by_cases h : c
  · simp [h]
  · simp [h]

/-! ## Rules -/

/-- What is proved about a procedure may be weakened. -/
theorem wp.mono {x : Procedure σ ε α} (h : wp x Q E s) (hQ : ∀ a s, Q a s → Q' a s)
    (hE : ∀ e s, E e s → E' e s) : wp x Q' E' s := by
  unfold wp at h ⊢
  match x s, h with
  | (.ok a, s), h => exact hQ a s h
  | (.error e, s), h => exact hE e s h

/-- A sequence, by what is proved about its first procedure. -/
theorem wp.bind {x : Procedure σ ε α} {f : α → Procedure σ ε β} (h : wp x Q E' s)
    (hf : ∀ a s, Q a s → wp (f a) R E s) (hE : ∀ e s, E' e s → E e s) : wp (x >>= f) R E s :=
  (wp_bind x f).mpr (h.mono hf hE)

/-- Two things that are proved about a procedure hold together. -/
theorem wp.and {x : Procedure σ ε α} (h : wp x Q E s) (h' : wp x Q' E' s) :
    wp x (fun a s => Q a s ∧ Q' a s) (fun e s => E e s ∧ E' e s) s := by
  unfold wp at h h' ⊢
  match x s, h, h' with
  | (.ok a, s), h, h' => exact ⟨h, h'⟩
  | (.error e, s), h, h' => exact ⟨h, h'⟩

/-- A procedure that returned did so with `Q`. -/
theorem wp.of_ok {x : Procedure σ ε α} (h : wp x Q E s) {a : α} {s' : σ} (hx : x s = (.ok a, s')) :
    Q a s' := by
  unfold wp at h
  rw [hx] at h
  exact h

/-- An invariant holds in the last state, whether a procedure returned or stopped. -/
theorem wp.last {x : Procedure σ ε α} {I : σ → Prop} (h : wp x (fun _ => I) (fun _ => I) s) :
    I (x s).2 := by
  unfold wp at h
  match hx : x s with
  | (.ok a, s') =>
      rw [hx] at h
      exact h
  | (.error e, s') =>
      rw [hx] at h
      exact h

/-! ## First and last states -/

/-- Wherever a procedure ends, its last state is related to its first. -/
def Along (R : σ → σ → Prop) (x : Procedure σ ε α) : Prop :=
  ∀ s, wp x (fun _ => R s) (fun _ => R s) s

section

variable {P : σ → σ → Prop} {x : Procedure σ ε α} {f : α → Procedure σ ε β}

/-- A transitive relation holds along a sequence if it does along its procedures. -/
theorem Along.bind [IsTrans σ P] (hx : Along P x) (hf : ∀ a, Along P (f a)) :
    Along P (x >>= f) := by
  intro s
  refine wp.bind (hx s) (fun a s' ha => ?_) fun _ _ h => h
  exact (hf a s').mono (fun _ _ hb => trans_of P ha hb) fun _ _ hb => trans_of P ha hb

/-- Returning stays where it is. -/
theorem along_pure [Std.Refl P] {a : α} : Along P (pure a : Procedure σ ε α) := fun s => refl_of P s

/-- So does reading. -/
theorem along_read [Std.Refl P] : Along P (read : Procedure σ ε σ) := fun s => refl_of P s

/-- A change has to be related to the state before it. -/
theorem along_change {g : σ → σ} (h : ∀ s, P s (g s)) : Along P (change g : Procedure σ ε Unit) := h

/-- Stopping stays where it is. -/
theorem along_stop [Std.Refl P] {e : ε} : Along P (stop e : Procedure σ ε α) := fun s => refl_of P s

/-- A guard stays where it is, whether it is passed or not. -/
theorem along_require [Std.Refl P] {c : Prop} [Decidable c] {e : ε} :
    Along P (require c e : Procedure σ ε Unit) :=
  fun s => wp_require.mpr ⟨fun _ => refl_of P s, fun _ => refl_of P s⟩

/-- A computation beside the state stays where it is. -/
theorem along_lift [Std.Refl P] {y : Except ε α} : Along P (lift y : Procedure σ ε α) :=
  fun s => wp_lift.mpr ⟨fun _ _ => refl_of P s, fun _ _ => refl_of P s⟩

/-- Both branches are looked at. -/
theorem along_ite {c : Prop} [Decidable c] {y : Procedure σ ε α} (hx : Along P x) (hy : Along P y) :
    Along P (if c then x else y) := fun s => wp_ite.mpr ⟨fun _ => hx s, fun _ => hy s⟩

/-- A procedure that comes after others, whose first state is related to theirs. -/
theorem Along.after [IsTrans σ P] {s₀ : σ} (hx : Along P x) (h : P s₀ s) :
    wp x (fun _ => P s₀) (fun _ => P s₀) s :=
  (hx s).mono (fun _ _ h' => trans_of P h h') fun _ _ h' => trans_of P h h'

end

/-! ## Errors -/

/-- Wherever a procedure stops, its error is one of `P`. -/
def Halts (P : ε → Prop) (x : Procedure σ ε α) : Prop :=
  ∀ s, wp x (fun _ _ => True) (fun e _ => P e) s

section

variable {P : ε → Prop} {x : Procedure σ ε α} {f : α → Procedure σ ε β}

/-- A sequence stops where its first procedure does, or the rest does. -/
theorem Halts.bind (hx : Halts P x) (hf : ∀ a, Halts P (f a)) : Halts P (x >>= f) :=
  fun s => wp.bind (hx s) (fun a s' _ => hf a s') fun _ _ h => h

/-- Returning a value does not stop. -/
theorem halts_pure {a : α} : Halts P (pure a : Procedure σ ε α) := fun _ => trivial

/-- Neither does reading. -/
theorem halts_read : Halts P (read : Procedure σ ε σ) := fun _ => trivial

/-- Neither does a change. -/
theorem halts_change {g : σ → σ} : Halts P (change g : Procedure σ ε Unit) := fun _ => trivial

/-- The error that a procedure stops with has to be allowed. -/
theorem halts_stop {e : ε} (h : P e) : Halts P (stop e : Procedure σ ε α) := fun _ => h

/-- So has that of a guard. -/
theorem halts_require {c : Prop} [Decidable c] {e : ε} (h : P e) :
    Halts P (require c e : Procedure σ ε Unit) :=
  fun _ => wp_require.mpr ⟨fun _ => trivial, fun _ => h⟩

/-- Both branches are looked at. -/
theorem halts_ite {c : Prop} [Decidable c] {y : Procedure σ ε α} (hx : Halts P x) (hy : Halts P y) :
    Halts P (if c then x else y) := fun s => wp_ite.mpr ⟨fun _ => hx s, fun _ => hy s⟩

end

end Procedure

end PurpleSky

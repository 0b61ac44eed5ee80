import PurpleSky.Lib.Bytes

/-!
# Computations that may fail

When a sequence of fallible steps succeeds: each of them did. The equations are stated for the way
`do` blocks are written out. `Throws E x` says that `x` fails with nothing but `E`; each operation
has a rule for it.
-/

namespace PurpleSky

variable {ε α β : Type}

/-- A sequence succeeds when its first step does and the rest does from there. -/
theorem bind_eq_ok {x : Except ε α} {f : α → Except ε β} {b : β} :
    (x >>= f) = .ok b ↔ ∃ a, x = .ok a ∧ f a = .ok b := by
  cases x with
  | error e =>
      constructor
      · intro h
        cases h
      · rintro ⟨a, h, -⟩
        cases h
  | ok a =>
      constructor
      · intro h
        exact ⟨a, rfl, h⟩
      · rintro ⟨a', h, hf⟩
        obtain rfl := Except.ok.inj h
        exact hf

/-- A sequence fails when its first step does, or the rest does from there. -/
theorem bind_eq_error {x : Except ε α} {f : α → Except ε β} {e : ε} :
    (x >>= f) = .error e ↔ x = .error e ∨ ∃ a, x = .ok a ∧ f a = .error e := by
  cases x with
  | error e' =>
      have hbind : (Except.error e' >>= f) = .error e' := rfl
      simp [hbind]
  | ok a =>
      have hbind : (Except.ok a >>= f) = f a := rfl
      simp [hbind]

/-- Changing the value of a computation is a sequence whose second step cannot fail. -/
theorem Except.map_eq_bind (x : Except ε α) (f : α → β) :
    x.map f = (x >>= fun a => pure (f a)) := by
  cases x <;> rfl

/-- A value that is returned is the result. -/
@[simp] theorem pure_eq_ok {a b : α} : (pure a : Except ε α) = .ok b ↔ a = b := by
  constructor
  · intro h
    exact Except.ok.inj h
  · rintro rfl
    rfl

/-- A computation that is said to have succeeded has a result. -/
theorem exists_of_isOk {x : Except ε α} (h : x.isOk = true) : ∃ a, x = .ok a := by
  cases x with
  | error e => cases h
  | ok a => exact ⟨a, rfl⟩

/-- Go on when a condition holds. -/
def ensure (c : Prop) [Decidable c] (e : ε) : Except ε Unit := if c then .ok () else .error e

/-- Go on with a value that is there. -/
def okOr (x : Option α) (e : ε) : Except ε α :=
  match x with
  | some a => .ok a
  | none => .error e

/-- A guard is passed exactly when its condition holds. -/
@[simp] theorem ensure_eq_ok {c : Prop} [Decidable c] {e : ε} {u : Unit} :
    ensure c e = .ok u ↔ c := by
  unfold ensure
  by_cases h : c
  · simp [h]
  · simp [h]

/-- A value is gone on with exactly when it is there. -/
@[simp] theorem okOr_eq_ok {x : Option α} {e : ε} {a : α} : okOr x e = .ok a ↔ x = some a := by
  unfold okOr
  cases x with
  | none => simp
  | some b => simp

/-- After a result the rest is run on it. -/
theorem ok_bind (a : α) (f : α → Except ε β) : (Except.ok a >>= f) = f a := rfl

/-- A value that is there is the result. -/
theorem okOr_some (a : α) (e : ε) : okOr (some a) e = .ok a := rfl

/-- A guard whose condition holds is passed. -/
theorem ensure_of {c : Prop} [Decidable c] (h : c) (e : ε) : ensure c e = .ok () := if_pos h

/-- A guard whose condition fails stops with its error. -/
theorem ensure_of_not {c : Prop} [Decidable c] (h : ¬c) (e : ε) : ensure c e = .error e := if_neg h

/-- Guards of equivalent conditions are the same, whatever decides them. -/
theorem ensure_congr {p q : Prop} [Decidable p] [Decidable q] (h : p ↔ q) (e : ε) :
    ensure p e = ensure q e := if_congr h rfl rfl

/-- Sequences are compared where they go on. -/
theorem bind_congr_ok {x : Except ε α} {f g : α → Except ε β} (h : ∀ a, x = .ok a → f a = g a) :
    (x >>= f) = (x >>= g) := by
  cases x with
  | error e => rfl
  | ok a => exact h a rfl

/-- A guard stops exactly when its condition fails, and with its own error. -/
theorem ensure_eq_error {c : Prop} [Decidable c] {e e' : ε} :
    ensure c e = .error e' ↔ ¬c ∧ e = e' := by
  unfold ensure
  by_cases h : c
  · simp [h]
  · simp [h]

/-- A missing value is the only reason to stop, and the error is the one given. -/
theorem okOr_eq_error {x : Option α} {e e' : ε} : okOr x e = .error e' ↔ x = none ∧ e = e' := by
  unfold okOr
  cases x with
  | none => simp
  | some b => simp

/-! ## Which errors -/

/-- A computation fails with nothing but `E`. -/
def Throws (E : ε → Prop) (x : Except ε α) : Prop := ∀ e, x = .error e → E e

variable {E E' : ε → Prop}

/-- What errors are known of may be weakened. -/
theorem Throws.mono {x : Except ε α} (h : Throws E x) (hE : ∀ e, E e → E' e) : Throws E' x :=
  fun e he => hE e (h e he)

/-- A sequence fails where its first step does, or the rest does from what that gave. -/
theorem Throws.bind {x : Except ε α} {f : α → Except ε β} (hx : Throws E x)
    (hf : ∀ a, x = .ok a → Throws E (f a)) : Throws E (x >>= f) := by
  intro e h
  rcases bind_eq_error.mp h with h | ⟨a, ha, h⟩
  · exact hx e h
  · exact hf a ha e h

/-- A value that is returned is no error. -/
theorem throws_pure (a : α) : Throws E (pure a : Except ε α) := by
  intro e h
  cases h

/-- An error that is thrown has to be allowed. -/
theorem throws_error {e : ε} (h : E e) : Throws E (.error e : Except ε α) := by
  intro e' he
  obtain rfl := Except.error.inj he
  exact h

/-- The error of a guard has to be allowed where the condition fails. -/
theorem throws_ensure {c : Prop} [Decidable c] {e : ε} (h : ¬c → E e) : Throws E (ensure c e) := by
  intro e' he
  obtain ⟨hc, rfl⟩ := ensure_eq_error.mp he
  exact h hc

/-- The error for a missing value has to be allowed where there is none. -/
theorem throws_okOr {x : Option α} {e : ε} (h : x = none → E e) : Throws E (okOr x e) := by
  intro e' he
  obtain ⟨hx, rfl⟩ := okOr_eq_error.mp he
  exact h hx

/-- Errors that are translated are allowed when every translation is. -/
theorem throws_mapError {ε' : Type} {E : ε' → Prop} {x : Except ε α} {f : ε → ε'}
    (h : ∀ e, E (f e)) : Throws E (x.mapError f) := by
  intro e he
  cases x with
  | ok a => cases he
  | error e' =>
      obtain rfl := Except.error.inj he
      exact h e'

/-- Both branches are looked at, since either may be taken. -/
theorem throws_ite {c : Prop} [Decidable c] {x y : Except ε α}
    (hx : Throws E x) (hy : Throws E y) : Throws E (if c then x else y) := by
  by_cases h : c
  · rwa [if_pos h]
  · rwa [if_neg h]

/-- A guard that fails on a condition. -/
theorem ite_error_eq_ok {c : Prop} [Decidable c] {e : ε} {x : Except ε α} {b : α} :
    (if c then .error e else x) = .ok b ↔ ¬c ∧ x = .ok b := by
  by_cases h : c
  · rw [if_pos h]
    simp [h]
  · rw [if_neg h]
    simp [h]

end PurpleSky

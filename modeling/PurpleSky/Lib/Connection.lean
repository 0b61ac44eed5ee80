import PurpleSky.Lib.Procedure

/-!
# Connections with transactions

A connection has what is stored and, while a transaction is open, a working copy. Statements see and
change the working copy if there is one, and what is stored otherwise; a commit stores the copy; a
transaction that ends without a commit is rolled back. A statement that fails changes nothing.

* `Does x f`: inside a transaction, `x` does to the working copy what `f` says.
* `Commits x f`: `x` does what `f` says and commits, or fails and leaves what is stored alone.
* **`Performs x f`**: outside of transactions, `x` either stores what `f` says or changes nothing.
-/

namespace PurpleSky

/-- A connection: what is stored, and the copy that an open transaction works on. -/
structure Connection (δ : Type) where
  stored : δ
  working : Option δ

namespace Connection

variable {δ ε α β : Type}

/-- A connection without a transaction. -/
def idle (d : δ) : Connection δ := ⟨d, none⟩

/-- What statements see. -/
def view (c : Connection δ) : δ := c.working.getD c.stored

/-- Look at the data. -/
def select (f : δ → Except ε α) : Procedure (Connection δ) ε α := fun c => (f c.view, c)

/-- Change the data in one statement. -/
def execute (f : δ → Except ε (α × δ)) : Procedure (Connection δ) ε α := fun c =>
  match f c.view with
  | .error e => (.error e, c)
  | .ok (a, d) =>
      match c.working with
      | none => (.ok a, idle d)
      | some _ => (.ok a, ⟨c.stored, some d⟩)

/-- Store the working copy. -/
def commit (x : Except ε Unit) : Procedure (Connection δ) ε Unit := fun c =>
  match x with
  | .error e => (.error e, c)
  | .ok _ => (.ok (), idle c.view)

/-- Run a procedure in a transaction. When it is over, what was not committed is rolled back. -/
def transaction (start : Except ε Unit) (body : Procedure (Connection δ) ε α) :
    Procedure (Connection δ) ε α := fun c =>
  match start with
  | .error e => (.error e, c)
  | .ok _ =>
      let (result, c) := body ⟨c.stored, some c.stored⟩
      (result, idle c.stored)

/-! ## Inside a transaction -/

/-- A procedure does to the working copy what `f` says. When it fails, the copy may be anything. -/
structure Does (x : Procedure (Connection δ) ε α) (f : δ → Except ε (α × δ)) : Prop where
  ok {d₀ d a d'} : f d = .ok (a, d') → x ⟨d₀, some d⟩ = (.ok a, ⟨d₀, some d'⟩)
  error {d₀ d e} : f d = .error e → ∃ d', x ⟨d₀, some d⟩ = (.error e, ⟨d₀, some d'⟩)

/-- A procedure does what `f` says and commits it, or fails without a commit. -/
structure Commits (x : Procedure (Connection δ) ε α) (f : δ → Except ε (α × δ)) : Prop where
  ok {d₀ d a d'} : f d = .ok (a, d') → x ⟨d₀, some d⟩ = (.ok a, idle d')
  error {d₀ d e} : f d = .error e → ∃ d', x ⟨d₀, some d⟩ = (.error e, ⟨d₀, some d'⟩)

variable {x : Procedure (Connection δ) ε α} {y : α → Procedure (Connection δ) ε β}
  {f : δ → Except ε (α × δ)} {g : α → δ → Except ε (β × δ)}

/-- A look at the data, in terms of the data. -/
def keeping (f : δ → Except ε α) (d : δ) : Except ε (α × δ) := (f d).map fun a => (a, d)

/-- What only reads succeeds with the same data. -/
theorem keeping_eq_ok {f : δ → Except ε α} {d d' : δ} {a : α} :
    keeping f d = .ok (a, d') ↔ f d = .ok a ∧ d = d' := by
  unfold keeping
  cases f d with
  | error e => simp [Except.map]
  | ok b => simp [Except.map]

/-- It fails as the reading does. -/
theorem keeping_eq_error {f : δ → Except ε α} {d : δ} {e : ε} :
    keeping f d = .error e ↔ f d = .error e := by
  unfold keeping
  cases f d with
  | error e => simp [Except.map]
  | ok b => simp [Except.map]

/-- What follows a reading goes on with the same data. -/
theorem keeping_bind (f : δ → Except ε α) (d : δ) (k : α × δ → Except ε β) :
    (keeping f d >>= k) = (f d >>= fun a => k (a, d)) := by
  unfold keeping
  cases f d <;> rfl

/-- A check gives its value with the same data. -/
theorem keeping_map (r : Except ε Unit) (a : α) (d : δ) :
    keeping (fun _ => r.map fun _ => a) d = (r >>= fun _ => pure (a, d)) := by
  cases r <;> rfl

/-- A query does what its reading does. -/
theorem does_select (f : δ → Except ε α) : Does (select f) (keeping f) where
  ok {d₀ d a d'} h := by
    obtain ⟨hf, rfl⟩ := keeping_eq_ok.mp h
    exact congrArg (·, Connection.mk d₀ (some d)) hf
  error {d₀ d e} h := ⟨d, congrArg (·, Connection.mk d₀ (some d)) (keeping_eq_error.mp h)⟩

/-- What does not use the database keeps it. -/
theorem does_lift (r : Except ε α) :
    Does (δ := δ) (Procedure.lift r) (keeping fun _ => r) where
  ok {d₀ d a d'} h := by
    obtain ⟨hf, rfl⟩ := keeping_eq_ok.mp h
    exact congrArg (·, Connection.mk d₀ (some d)) hf
  error {d₀ d e} h := ⟨d, congrArg (·, Connection.mk d₀ (some d)) (keeping_eq_error.mp h)⟩

/-- A statement does what its function does. -/
theorem does_execute (f : δ → Except ε (α × δ)) : Does (execute f) f where
  ok {d₀ d a d'} h := by
    simp only [execute, view, Option.getD_some, h]
  error {d₀ d e} h := by
    refine ⟨d, ?_⟩
    simp only [execute, view, Option.getD_some, h]

/-- A commit, and nothing that may fail after it. -/
theorem commits_commit (r : Except ε Unit) (a : α) :
    Commits (δ := δ) (commit r >>= fun _ => pure a) (keeping fun _ => r.map fun _ => a) where
  ok {d₀ d b d'} h := by
    obtain ⟨hr, rfl⟩ := keeping_eq_ok.mp h
    cases r with
    | error e => cases hr
    | ok u =>
        obtain rfl := Except.ok.inj hr
        rfl
  error {d₀ d e} h := by
    have hr := keeping_eq_error.mp h
    cases r with
    | error e' =>
        obtain rfl := Except.error.inj hr
        exact ⟨d, rfl⟩
    | ok u => cases hr

/-- What a procedure commits may be written in another way. -/
theorem Commits.of_eq {f' : δ → Except ε (α × δ)} (h : Commits x f) (hf : ∀ d, f d = f' d) :
    Commits x f' := by
  obtain rfl : f = f' := funext hf
  exact h

/-- Steps in front of a commit. -/
theorem Does.commits (h : Does x f) (hy : ∀ a, Commits (y a) (g a)) :
    Commits (x >>= y) fun d => f d >>= fun r => g r.1 r.2 where
  ok {d₀ d b d'} hok := by
    obtain ⟨⟨a, d₁⟩, hf, hg⟩ := bind_eq_ok.mp hok
    rw [Procedure.bind_of_ok (h.ok hf)]
    exact (hy a).ok hg
  error {d₀ d e} herr := by
    rcases bind_eq_error.mp herr with hf | ⟨⟨a, d₁⟩, hf, hg⟩
    · obtain ⟨d', hx⟩ := h.error hf
      exact ⟨d', Procedure.bind_of_error hx⟩
    · rw [Procedure.bind_of_ok (h.ok hf)]
      exact (hy a).error hg

/-! ## Outside of transactions -/

/-- A procedure stores what `f` says, or changes nothing. -/
structure Performs (x : Procedure (Connection δ) ε α) (f : δ → Except ε (α × δ)) : Prop where
  ok {d a d'} : f d = .ok (a, d') → x (idle d) = (.ok a, idle d')
  error {d e} : f d = .error e → x (idle d) = (.error e, idle d)

/-- A transaction whose body commits stores all of it or nothing. -/
theorem Commits.performs (h : Commits x f) (start : Except ε Unit) :
    Performs (transaction start x) fun d => start >>= fun _ => f d := by
  have hrun : ∀ u d, start = .ok u → transaction start x (idle d) =
      ((x ⟨d, some d⟩).1, idle (x ⟨d, some d⟩).2.stored) := by
    rintro u d rfl
    rfl
  constructor
  · intro d a d' hok
    obtain ⟨u, hstart, hf⟩ := bind_eq_ok.mp hok
    rw [hrun u d hstart, h.ok hf]
    rfl
  · intro d e herr
    rcases bind_eq_error.mp herr with rfl | ⟨u, hstart, hf⟩
    · rfl
    · obtain ⟨d', hx⟩ := @Commits.error _ _ _ _ _ h d d e hf
      rw [hrun u d hstart, hx]

/-- Outside a transaction a statement is committed by itself. -/
theorem performs_execute (f : δ → Except ε (α × δ)) : Performs (execute f) f where
  ok {d a d'} h := by
    simp only [execute, view, idle, Option.getD_none, h]
  error {d e} h := by
    simp only [execute, view, idle, Option.getD_none, h]

/-- A look at the data in front. -/
theorem Performs.after_select {f : δ → Except ε α} (h : ∀ a, Performs (y a) (g a)) :
    Performs (select f >>= y) fun d => f d >>= fun a => g a d where
  ok {d b d'} hok := by
    obtain ⟨a, hf, hg⟩ := bind_eq_ok.mp hok
    have hselect : select f (idle d) = (.ok a, idle d) := congrArg (·, idle d) hf
    rw [Procedure.bind_of_ok hselect]
    exact (h a).ok hg
  error {d e} herr := by
    rcases bind_eq_error.mp herr with hf | ⟨a, hf, hg⟩
    · have hselect : select f (idle d) = (.error e, idle d) := congrArg (·, idle d) hf
      exact Procedure.bind_of_error hselect
    · have hselect : select f (idle d) = (.ok a, idle d) := congrArg (·, idle d) hf
      rw [Procedure.bind_of_ok hselect]
      exact (h a).error hg

/-- A check in front. -/
theorem Performs.after_lift {r : Except ε α} (h : ∀ a, Performs (y a) (g a)) :
    Performs (Procedure.lift r >>= y) fun d => r >>= fun a => g a d := by
  exact Performs.after_select (f := fun _ => r) h

/-- What a procedure performs may be written in another way. -/
theorem Performs.of_eq {f' : δ → Except ε (α × δ)} (h : Performs x f) (hf : ∀ d, f d = f' d) :
    Performs x f' := by
  obtain rfl : f = f' := funext hf
  exact h

/-! ## Reading -/

/-- A procedure that leaves every connection as it is. -/
def ReadOnly (x : Procedure (Connection δ) ε α) : Prop := ∀ c, (x c).2 = c

/-- A query only reads. -/
theorem readOnly_select (f : δ → Except ε α) : ReadOnly (select f) := fun _ => rfl

/-- A value only reads. -/
theorem readOnly_pure (a : α) : ReadOnly (pure a : Procedure (Connection δ) ε α) := fun _ => rfl

/-- Two readings only read. -/
theorem ReadOnly.bind (h : ReadOnly x) (hy : ∀ a, ReadOnly (y a)) : ReadOnly (x >>= y) := by
  intro c
  have hx := h c
  match hrun : x c with
  | (.ok a, s) =>
      rw [hrun] at hx
      obtain rfl : s = c := hx
      rw [Procedure.bind_of_ok hrun]
      exact hy a s
  | (.error e, s) =>
      rw [hrun] at hx
      rw [Procedure.bind_of_error hrun]
      exact hx

end Connection

end PurpleSky

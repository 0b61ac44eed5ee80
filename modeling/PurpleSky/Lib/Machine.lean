import Mathlib

/-!
# Machines that react to events

A machine takes a state and an event to the next state and a reply. Its runs are all lists of
events whose events meet a condition on the state they come to (`Meets`); what a run did is the list
of its entries (`trace`).

* **`Meets.invariant`**: what every allowed event keeps holds at the end of every run.
* **`Meets.later`**: what holds once, and is kept by every allowed event, holds before every later
  event.
* **`Meets.nodup_filterMap`**: what every event takes away for good is taken at most once.
* **`Meets.origin`**: what is there was made by some event and has been there since.
-/

namespace PurpleSky

/-- A deterministic machine; the outside world is in its events. -/
structure Machine (σ ε ρ : Type) where
  step : σ → ε → σ × ρ

namespace Machine

variable {σ ε ρ τ : Type}

/-- One step of a run. -/
structure Entry (σ ε ρ : Type) where
  before : σ
  event : ε
  reply : ρ
  after : σ

variable (M : Machine σ ε ρ)

/-- The step a machine takes on an event. -/
def entry (s : σ) (e : ε) : Entry σ ε ρ := ⟨s, e, (M.step s e).2, (M.step s e).1⟩

/-- The entries of a run. -/
def trace : σ → List ε → List (Entry σ ε ρ)
  | _, [] => []
  | s, e :: es => M.entry s e :: trace (M.step s e).1 es

/-- The state at the end of a run. -/
def final : σ → List ε → σ
  | s, [] => s
  | s, e :: es => final (M.step s e).1 es

/-- Every event of a run meets a condition on the state it comes to. -/
def Meets (A : σ → ε → Prop) : σ → List ε → Prop
  | _, [] => True
  | s, e :: es => A s e ∧ Meets A (M.step s e).1 es

instance decidableMeets (A : σ → ε → Prop) [∀ s e, Decidable (A s e)] (s : σ) (es : List ε) :
    Decidable (M.Meets A s es) :=
  match es with
  | [] => inferInstanceAs (Decidable True)
  | e :: es =>
      haveI := decidableMeets A (M.step s e).1 es
      inferInstanceAs (Decidable (_ ∧ _))

variable {M} {A : σ → ε → Prop} {I D : σ → Prop}

@[simp] theorem trace_append (s : σ) (es₁ es₂ : List ε) :
    M.trace s (es₁ ++ es₂) = M.trace s es₁ ++ M.trace (M.final s es₁) es₂ := by
  induction es₁ generalizing s with
  | nil => rfl
  | cons e es₁ ih => simp only [List.cons_append, trace, final, ih]

@[simp] theorem final_append (s : σ) (es₁ es₂ : List ε) :
    M.final s (es₁ ++ es₂) = M.final (M.final s es₁) es₂ := by
  induction es₁ generalizing s with
  | nil => rfl
  | cons e es₁ ih => simp only [List.cons_append, final, ih]

theorem final_concat (s : σ) (es : List ε) (e : ε) :
    M.final s (es ++ [e]) = (M.entry (M.final s es) e).after := by
  rw [final_append]
  rfl

theorem meets_append {s : σ} {es₁ es₂ : List ε} :
    M.Meets A s (es₁ ++ es₂) ↔ M.Meets A s es₁ ∧ M.Meets A (M.final s es₁) es₂ := by
  induction es₁ generalizing s with
  | nil => simp [Meets, final]
  | cons e es₁ ih => simp only [List.cons_append, Meets, final, ih, and_assoc]

@[simp] theorem map_event_trace (s : σ) (es : List ε) : (M.trace s es).map (·.event) = es := by
  induction es generalizing s with
  | nil => rfl
  | cons e es ih => simp only [trace, List.map_cons, ih, entry]

/-- A part of a trace is the trace of a part of the run. -/
theorem exists_of_trace_eq_append {s : σ} {es : List ε} {pre post : List (Entry σ ε ρ)}
    (h : M.trace s es = pre ++ post) :
    ∃ es₁ es₂, es = es₁ ++ es₂ ∧ pre = M.trace s es₁ ∧ post = M.trace (M.final s es₁) es₂ := by
  induction pre generalizing s es with
  | nil => exact ⟨[], es, rfl, rfl, h.symm⟩
  | cons x pre ih =>
      cases es with
      | nil => cases h
      | cons e es =>
          simp only [trace, List.cons_append, List.cons.injEq] at h
          obtain ⟨rfl, h⟩ := h
          obtain ⟨es₁, es₂, rfl, rfl, rfl⟩ := ih h
          exact ⟨e :: es₁, es₂, rfl, rfl, rfl⟩

/-- An entry of a trace is a step at the end of the run so far, and the rest goes on from there. -/
theorem exists_of_trace_eq_cons {s : σ} {es : List ε} {pre post : List (Entry σ ε ρ)}
    {x : Entry σ ε ρ} (h : M.trace s es = pre ++ x :: post) :
    ∃ es₁ e es₂, es = es₁ ++ e :: es₂ ∧ pre = M.trace s es₁ ∧ x = M.entry (M.final s es₁) e ∧
      post = M.trace x.after es₂ := by
  obtain ⟨es₁, es₂, rfl, rfl, hpost⟩ := exists_of_trace_eq_append h
  cases es₂ with
  | nil => cases hpost
  | cons e es₂ =>
      simp only [trace, List.cons.injEq] at hpost
      obtain ⟨rfl, rfl⟩ := hpost
      exact ⟨es₁, e, es₂, rfl, rfl, rfl, rfl⟩

/-! ## Invariants -/

/-- Allowed events keep `D` where the invariant `I` holds. -/
def Keeps (M : Machine σ ε ρ) (A : σ → ε → Prop) (I D : σ → Prop) : Prop :=
  ∀ s e, I s → A s e → D s → D (M.step s e).1

/-- An invariant holds at the end of a run. -/
theorem Meets.invariant {s : σ} {es : List ε} (hM : M.Meets A s es)
    (hI : M.Keeps A I I) (hs : I s) : I (M.final s es) := by
  induction es generalizing s with
  | nil => exact hs
  | cons e es ih => exact ih hM.2 (hI s e hs hM.1 hs)

/-- What is kept where an invariant holds is there at the end of a run that it began with. -/
theorem Meets.kept {s : σ} {es : List ε} (hM : M.Meets A s es) (hI : M.Keeps A I I)
    (hD : M.Keeps A I D) (hs : I s) (hd : D s) : D (M.final s es) := by
  induction es generalizing s with
  | nil => exact hd
  | cons e es ih => exact ih hM.2 (hI s e hs hM.1 hs) (hD s e hs hM.1 hd)

/-- What is kept is kept by fewer events and under more assumptions. -/
theorem Keeps.mono {B : σ → ε → Prop} {J : σ → Prop} (h : M.Keeps A I D)
    (hA : ∀ s e, B s e → A s e) (hI : ∀ s, J s → I s) : M.Keeps B J D :=
  fun s e hj hb hd => h s e (hI s hj) (hA s e hb) hd

/-- Two invariants that are kept by themselves are kept together. -/
theorem Keeps.and {B : σ → ε → Prop} {J : σ → Prop} (hI : M.Keeps A I I) (hJ : M.Keeps B J J) :
    M.Keeps (fun s e => A s e ∧ B s e) (fun s => I s ∧ J s) fun s => I s ∧ J s :=
  fun s e h he _ => ⟨hI s e h.1 he.1 h.1, hJ s e h.2 he.2 h.2⟩

/-- Every entry of a trace is an allowed step from a state where the invariant holds. -/
theorem Meets.entries {s : σ} {es : List ε} (hM : M.Meets A s es) (hI : M.Keeps A I I) (hs : I s) :
    ∀ x ∈ M.trace s es, x = M.entry x.before x.event ∧ I x.before ∧ A x.before x.event := by
  induction es generalizing s with
  | nil =>
      intro x hx
      cases hx
  | cons e es ih =>
      intro x hx
      rcases List.mem_cons.mp hx with rfl | hx
      · exact ⟨rfl, hs, hM.1⟩
      · exact ih hM.2 (hI s e hs hM.1 hs) x hx

/-- The events of a run meet a condition when its entries do. -/
theorem meets_iff {s : σ} {es : List ε} :
    M.Meets A s es ↔ ∀ x ∈ M.trace s es, A x.before x.event := by
  induction es generalizing s with
  | nil => simp [Meets, trace]
  | cons e es ih =>
      rw [Meets, trace, List.forall_mem_cons, ih]
      rfl

/-- Every entry of a run is a step of the machine. -/
theorem eq_entry_of_mem_trace {s : σ} {es : List ε} {x : Entry σ ε ρ} (hx : x ∈ M.trace s es) :
    x = M.entry x.before x.event := by
  induction es generalizing s with
  | nil => cases hx
  | cons e es ih =>
      rcases List.mem_cons.mp hx with rfl | hx
      · rfl
      · exact ih hx

/-- Every entry of a run is about an event of it. -/
theorem event_mem_of_mem_trace {s : σ} {es : List ε} {x : Entry σ ε ρ} (hx : x ∈ M.trace s es) :
    x.event ∈ es := by
  induction es generalizing s with
  | nil => cases hx
  | cons e es ih =>
      rcases List.mem_cons.mp hx with rfl | hx
      · exact List.mem_cons_self
      · exact List.mem_cons_of_mem _ (ih hx)

/-- What holds at some state and is kept holds before every later event. -/
theorem Meets.always {s : σ} {es : List ε} (hM : M.Meets A s es) (hI : M.Keeps A I I)
    (hD : M.Keeps A I D) (hs : I s) (hd : D s) :
    ∀ x ∈ M.trace s es, x = M.entry x.before x.event ∧ I x.before ∧ A x.before x.event ∧
      D x.before := by
  have hboth : M.Keeps A (fun s => I s ∧ D s) (fun s => I s ∧ D s) :=
    fun s e h ha _ => ⟨hI s e h.1 ha h.1, hD s e h.1 ha h.2⟩
  intro x hx
  obtain ⟨hstep, ⟨hi, hd⟩, ha⟩ := hM.entries hboth ⟨hs, hd⟩ x hx
  exact ⟨hstep, hi, ha, hd⟩

/-- What holds after an entry and is kept holds before every later one. -/
theorem Meets.later {s : σ} {es : List ε} (hM : M.Meets A s es) (hI : M.Keeps A I I)
    (hD : M.Keeps A I D) (hs : I s) {pre post : List (Entry σ ε ρ)} {x : Entry σ ε ρ}
    (h : M.trace s es = pre ++ x :: post) (hx : D x.after) :
    ∀ y ∈ post, y = M.entry y.before y.event ∧ I y.before ∧ A y.before y.event ∧ D y.before := by
  obtain ⟨es₁, e, es₂, rfl, -, rfl, rfl⟩ := exists_of_trace_eq_cons h
  obtain ⟨h₁, h₂⟩ := meets_append.mp hM
  have hi : I (M.final s es₁) := h₁.invariant hI hs
  exact h₂.2.always hI hD (hI _ _ hi h₂.1 hi) hx

/-- What is there at the end of a run and was not at its beginning was made by some entry, and has
been there since. -/
theorem Meets.origin {s : σ} {es : List ε} (hM : M.Meets A s es) (hI : M.Keeps A I I) (hs : I s)
    {R : τ → σ → Prop} {N : Entry σ ε ρ → τ → Prop} {t : τ} (hnone : ¬R t s)
    (hstep : ∀ s e, I s → A s e → R t (M.step s e).1 → R t s ∨ N (M.entry s e) t)
    (ht : R t (M.final s es)) :
    ∃ pre x post, M.trace s es = pre ++ x :: post ∧ N x t ∧ R t x.after ∧
      ∀ y ∈ post, R t y.before ∧ R t y.after := by
  induction es using List.reverseRecOn with
  | nil => exact absurd ht hnone
  | append_singleton es e ih =>
      obtain ⟨hes, he⟩ := meets_append.mp hM
      have hi : I (M.final s es) := hes.invariant hI hs
      rw [final_append] at ht
      have htrace : M.trace s (es ++ [e]) = M.trace s es ++ [M.entry (M.final s es) e] :=
        trace_append _ _ _
      rcases hstep _ _ hi he.1 ht with hold | hnew
      · obtain ⟨pre, x, post, heq, hx, hafter, hpost⟩ := ih hes hold
        refine ⟨pre, x, post ++ [M.entry (M.final s es) e], ?_, hx, hafter, fun y hy => ?_⟩
        · rw [htrace, heq, List.append_assoc, List.cons_append]
        · rcases List.mem_append.mp hy with hy | hy
          · exact hpost y hy
          · obtain rfl := List.mem_singleton.mp hy
            exact ⟨hold, ht⟩
      · exact ⟨M.trace s es, M.entry (M.final s es) e, [], htrace, hnew, ht, by simp⟩

/-- When taking `t` at an entry makes it untakable, and that is kept, nothing is taken twice. -/
theorem Meets.nodup_filterMap {s : σ} {es : List ε} (hM : M.Meets A s es) (hI : M.Keeps A I I)
    (hs : I s) {Gone : τ → σ → Prop} (hG : ∀ t, M.Keeps A I (Gone t))
    {f : Entry σ ε ρ → Option τ}
    (hf : ∀ s e t, I s → A s e → f (M.entry s e) = some t → ¬Gone t s ∧ Gone t (M.step s e).1) :
    ((M.trace s es).filterMap f).Nodup := by
  induction es generalizing s with
  | nil => exact List.nodup_nil
  | cons e es ih =>
      have hs' : I (M.step s e).1 := hI s e hs hM.1 hs
      have hrest := ih hM.2 hs'
      rw [trace, List.filterMap_cons]
      cases h : f (M.entry s e) with
      | none => exact hrest
      | some t =>
          refine List.nodup_cons.mpr ⟨fun hmem => ?_, hrest⟩
          obtain ⟨x, hx, hxt⟩ := List.mem_filterMap.mp hmem
          have hgone := (hf s e t hs hM.1 h).2
          obtain ⟨hstep, hi, ha, hg⟩ := hM.2.always hI (hG t) hs' hgone x hx
          rw [hstep] at hxt
          exact (hf _ _ t hi ha hxt).1 hg

end Machine

end PurpleSky

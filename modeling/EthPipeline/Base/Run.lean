import Mathlib.Tactic.Common

/-!
# Runs of a partial step function

A system that takes events: `step s e` is the state after `e`, or nothing when
`e` cannot happen in `s`.  `runs` takes the events one after the other and leaves
out those that cannot happen, so every list of events is a run.

* `runs_invariant`: what every step keeps, every run keeps.
* `runs_invariant_of_meets`: the same for the runs whose steps all meet a
  condition on the event and the state before it.
* `always_iff_meets`: a condition on the steps that is as strong as a property of
  every state of the run.
* `runs_iff_meets`: the same for a property that is not regained once it is lost.
-/

namespace Run

variable {σ ε : Type} (step : σ → ε → Option σ)

/-- The state after an event, if it can happen. -/
def next (s : σ) (e : ε) : σ := (step s e).getD s

def runs (s : σ) (es : List ε) : σ := es.foldl (next step) s

/-- Every event that happens in the run meets `C`. -/
def Meets (C : σ → ε → Prop) : σ → List ε → Prop
  | _, [] => True
  | s, e :: es => ((step s e).isSome → C s e) ∧ Meets C (next step s e) es

instance decidableMeets {C : σ → ε → Prop} [∀ s e, Decidable (C s e)] :
    ∀ (s : σ) (es : List ε), Decidable (Meets step C s es)
  | _, [] => inferInstanceAs (Decidable True)
  | s, e :: es =>
    have := decidableMeets (C := C) (next step s e) es
    inferInstanceAs (Decidable (_ ∧ _))

variable {step} {C : σ → ε → Prop} {P : σ → Prop}

theorem next_of_some {s s' : σ} {e : ε} (h : step s e = some s') : next step s e = s' := by
  rw [next, h]
  rfl

theorem next_of_none {s : σ} {e : ε} (h : step s e = none) : next step s e = s := by
  rw [next, h]
  rfl

/-- A condition on the events alone. -/
theorem meets_of_forall {C : ε → Prop} {es : List ε} (h : ∀ e ∈ es, C e) (s : σ) :
    Meets step (fun _ e => C e) s es := by
  induction es generalizing s with
  | nil => trivial
  | cons e es ih =>
    exact ⟨fun _ => h e List.mem_cons_self, ih (fun e he => h e (List.mem_cons_of_mem _ he)) _⟩

theorem Meets.and {D : σ → ε → Prop} {s : σ} {es : List ε} (hC : Meets step C s es)
    (hD : Meets step D s es) : Meets step (fun s e => C s e ∧ D s e) s es := by
  induction es generalizing s with
  | nil => trivial
  | cons e es ih => exact ⟨fun he => ⟨hC.1 he, hD.1 he⟩, ih hC.2 hD.2⟩

/-- **Invariants of the runs that meet a condition.** -/
theorem runs_invariant_of_meets
    (hstep : ∀ s e s', step s e = some s' → C s e → P s → P s') {s : σ} {es : List ε}
    (hC : Meets step C s es) (hs : P s) : P (runs step s es) := by
  induction es generalizing s with
  | nil => exact hs
  | cons e es ih =>
    refine ih hC.2 ?_
    cases he : step s e with
    | none =>
      rw [next_of_none he]
      exact hs
    | some s' =>
      rw [next_of_some he]
      exact hstep s e s' he (hC.1 (by rw [he]; rfl)) hs

/-- **Invariants of all runs.** -/
theorem runs_invariant (hstep : ∀ s e s', step s e = some s' → P s → P s') {s : σ}
    (es : List ε) (hs : P s) : P (runs step s es) := by
  have hall : ∀ (es : List ε) (s : σ), Meets step (fun _ _ => True) s es := by
    intro es
    induction es with
    | nil => exact fun _ => trivial
    | cons e es ih => exact fun s => ⟨fun _ => trivial, ih _⟩
  exact runs_invariant_of_meets (fun s e s' h _ => hstep s e s' h) (hall es s) hs

theorem runs_append (s : σ) (es es' : List ε) :
    runs step s (es ++ es') = runs step (runs step s es) es' :=
  List.foldl_append

/-- What every step keeps holds on from any state of the run. -/
theorem runs_take_of_le (hstep : ∀ s e s', step s e = some s' → P s → P s') {s : σ} {es : List ε}
    {n m : ℕ} (hle : n ≤ m) (hn : P (runs step s (es.take n))) : P (runs step s (es.take m)) := by
  obtain ⟨k, rfl⟩ := Nat.exists_eq_add_of_le hle
  rw [List.take_add, runs_append]
  exact runs_invariant hstep _ hn

/-- **A property of every state of the run** is a condition on its steps, if every step
from where it holds keeps it exactly on that condition. -/
theorem always_iff_meets {I : σ → Prop} (hI : ∀ s e s', step s e = some s' → I s → I s')
    (hP : ∀ s e s', step s e = some s' → I s → P s → (P s' ↔ C s e)) {s : σ} {es : List ε}
    (hIs : I s) (hPs : P s) : (∀ n, P (runs step s (es.take n))) ↔ Meets step C s es := by
  induction es generalizing s with
  | nil => exact iff_of_true (fun n => by rwa [List.take_nil]) trivial
  | cons e es ih =>
    have hsplit : (∀ n, P (runs step s ((e :: es).take n))) ↔
        ∀ n, P (runs step (next step s e) (es.take n)) := by
      constructor
      · exact fun h n => h (n + 1)
      · intro h n
        cases n with
        | zero => exact hPs
        | succ n => exact h n
    rw [hsplit]
    change _ ↔ ((step s e).isSome → C s e) ∧ Meets step C (next step s e) es
    cases he : step s e with
    | none =>
      rw [next_of_none he, ih hIs hPs]
      simp
    | some s' =>
      rw [next_of_some he]
      have hiff := hP s e s' he hIs hPs
      have hIs' := hI s e s' he hIs
      constructor
      · intro h
        have hPs' : P s' := h 0
        exact ⟨fun _ => hiff.mp hPs', (ih hIs' hPs').mp h⟩
      · rintro ⟨hC, hmeets⟩
        exact (ih hIs' (hiff.mpr (hC rfl))).mpr hmeets

/-- **A property that is not regained** holds in the end of a run if it does in the beginning
and no step loses it. -/
theorem runs_iff_meets {I : σ → Prop} (hI : ∀ s e s', step s e = some s' → I s → I s')
    (hP : ∀ s e s', step s e = some s' → I s → (P s' ↔ P s ∧ C s e)) {s : σ} {es : List ε}
    (hIs : I s) : P (runs step s es) ↔ P s ∧ Meets step C s es := by
  induction es generalizing s with
  | nil => exact (and_iff_left trivial).symm
  | cons e es ih =>
    change P (runs step (next step s e) es) ↔
      P s ∧ ((step s e).isSome → C s e) ∧ Meets step C (next step s e) es
    cases he : step s e with
    | none =>
      rw [next_of_none he, ih hIs]
      simp
    | some s' =>
      rw [next_of_some he, ih (hI s e s' he hIs), hP s e s' he hIs]
      simp [and_assoc]

end Run

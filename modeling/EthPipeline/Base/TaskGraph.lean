import EthPipeline.Base.Run
import Mathlib.Logic.Relation

/-!
# Tasks that wait for tasks

A graph of tasks over a shared state.  A task is ready when all the tasks above
it have succeeded; it then makes attempts until one succeeds or its retries are
used up, and a task below one that failed never becomes ready.  Ready tasks take
their attempts in any order.

* `step_cases`: everything a step can do.
* `runs_sound`: what a successful attempt establishes, given what the tasks above
  it have established, holds of every task that has succeeded; and an invariant
  of the shared state has to be kept only where the tasks above have succeeded.
* `runs_settled`: the same where an attempt may undo what the tasks below it have
  established: they have not succeeded yet.
-/

/-- `attempt t d` is an attempt of `t` under the circumstances `d`: whether it
succeeds, and the state it leaves either way. -/
structure TaskGraph (τ δ σ : Type) where
  upstream : τ → List τ
  retries : ℕ
  attempt : τ → δ → σ → Bool × σ

namespace TaskGraph

open Run

variable {τ δ σ : Type} [DecidableEq τ]

inductive Status where
  | waiting (failures : ℕ)
  | success
  | failed
  deriving DecidableEq, Repr

structure State (τ σ : Type) where
  status : τ → Status
  world : σ

def State.init (w : σ) : State τ σ := ⟨fun _ => .waiting 0, w⟩

variable (G : TaskGraph τ δ σ)

def Ready (s : State τ σ) (t : τ) : Prop := ∀ u ∈ G.upstream t, s.status u = .success

instance (s : State τ σ) (t : τ) : Decidable (G.Ready s t) :=
  inferInstanceAs (Decidable (∀ u ∈ G.upstream t, _))

/-- What becomes of a task after an attempt. -/
def after (failures : ℕ) (ok : Bool) : Status :=
  if ok then .success else if failures < G.retries then .waiting (failures + 1) else .failed

/-- The next attempt of a task. -/
def step (s : State τ σ) (e : τ × δ) : Option (State τ σ) :=
  match s.status e.1 with
  | .waiting failures =>
    if G.Ready s e.1 then
      let (ok, w) := G.attempt e.1 e.2 s.world
      some ⟨Function.update s.status e.1 (G.after failures ok), w⟩
    else none
  | _ => none

/-- Everything a step can do. -/
theorem step_cases {s s' : State τ σ} {t : τ} {d : δ} (h : G.step s (t, d) = some s') :
    ∃ failures, s.status t = .waiting failures ∧ G.Ready s t ∧
      s' = ⟨Function.update s.status t (G.after failures (G.attempt t d s.world).1),
        (G.attempt t d s.world).2⟩ := by
  unfold step at h
  split at h
  · next failures hstatus =>
    split at h
    · next hready => exact ⟨failures, hstatus, hready, (Option.some.inj h).symm⟩
    · cases h
  · cases h

variable {G} {Post : τ → σ → Prop} {J : σ → Prop} {C : State τ σ → τ × δ → Prop}

/-- What has been established so far, and the invariant of the shared state. -/
structure Sound (Post : τ → σ → Prop) (J : σ → Prop) (s : State τ σ) : Prop where
  post : ∀ t, s.status t = .success → Post t s.world
  safe : J s.world

/-- A step keeps what the tasks have established. -/
theorem Sound.step {s s' : State τ σ} {t : τ} {d : δ} (h : Sound Post J s)
    (hstep : G.step s (t, d) = some s')
    (hpost : (∀ u ∈ G.upstream t, Post u s.world) → (G.attempt t d s.world).1 = true →
      Post t (G.attempt t d s.world).2)
    (hstable : ∀ u, Post u s.world → Post u (G.attempt t d s.world).2)
    (hsafe : J s.world → (∀ u ∈ G.upstream t, Post u s.world) → J (G.attempt t d s.world).2) :
    Sound Post J s' := by
  obtain ⟨failures, -, hready, rfl⟩ := G.step_cases hstep
  have habove : ∀ u ∈ G.upstream t, Post u s.world := fun u hu => h.post u (hready u hu)
  refine ⟨fun u hu => ?_, hsafe h.safe habove⟩
  by_cases hut : u = t
  · subst hut
    refine hpost habove ?_
    simp only [Function.update_self, after] at hu
    split at hu
    · assumption
    · split at hu <;> cases hu
  · simp only [Function.update_of_ne hut] at hu
    exact hstable u (h.post u hu)

/-- **Assume, guarantee**: along every run whose attempts meet a condition. -/
theorem runs_sound
    (hpost : ∀ s t d, C s (t, d) → (∀ u ∈ G.upstream t, Post u s.world) →
      (G.attempt t d s.world).1 = true → Post t (G.attempt t d s.world).2)
    (hstable : ∀ t d w u, Post u w → Post u (G.attempt t d w).2)
    (hsafe : ∀ t d w, J w → (∀ u ∈ G.upstream t, Post u w) → J (G.attempt t d w).2)
    {w : σ} (hw : J w) {es : List (τ × δ)} (hC : Meets G.step C (State.init w) es) :
    Sound Post J (runs G.step (State.init w) es) := by
  have hinit : Sound Post J (State.init w : State τ σ) := by
    refine ⟨fun t ht => ?_, hw⟩
    cases ht
  refine runs_invariant_of_meets (fun s e s' hstep he h => ?_) hC hinit
  exact h.step hstep (hpost s e.1 e.2 he) (hstable e.1 e.2 s.world) (hsafe e.1 e.2 s.world)

/-! ### Tasks that come before -/

/-- The tasks that `t` waits for, directly or through others. -/
def Above (G : TaskGraph τ δ σ) : τ → τ → Prop := Relation.TransGen fun u t => u ∈ G.upstream t

/-- Whatever is above a task that has succeeded has succeeded. -/
structure Settled (G : TaskGraph τ δ σ) (Post : τ → σ → Prop) (s : State τ σ) : Prop where
  above : ∀ t, s.status t = .success → ∀ u, G.Above u t → s.status u = .success
  post : ∀ t, s.status t = .success → Post t s.world

theorem Settled.step {s s' : State τ σ} {t : τ} {d : δ} (h : Settled G Post s)
    (hstep : G.step s (t, d) = some s')
    (hpost : (∀ u, G.Above u t → Post u s.world) → (G.attempt t d s.world).1 = true →
      Post t (G.attempt t d s.world).2)
    (hstable : ∀ u, u ≠ t → ¬G.Above t u → Post u s.world → Post u (G.attempt t d s.world).2) :
    Settled G Post s' := by
  obtain ⟨failures, hwaiting, hready, rfl⟩ := G.step_cases hstep
  have hne : ∀ u, s.status u = .success → u ≠ t := by
    rintro u hu rfl
    rw [hwaiting] at hu
    cases hu
  have habove : ∀ u, G.Above u t → s.status u = .success := by
    intro u hu
    cases hu with
    | single hu => exact hready u hu
    | tail hu hv => exact h.above _ (hready _ hv) u hu
  have hkept : ∀ u status, s.status u = .success →
      Function.update s.status t status u = .success := by
    intro u status hu
    rwa [Function.update_of_ne (hne u hu)]
  constructor
  · intro v hv u hu
    by_cases hvt : v = t
    · subst hvt
      exact hkept u _ (habove u hu)
    · simp only [Function.update_of_ne hvt] at hv
      exact hkept u _ (h.above v hv u hu)
  · intro v hv
    by_cases hvt : v = t
    · subst hvt
      refine hpost (fun u hu => h.post u (habove u hu)) ?_
      simp only [Function.update_self, after] at hv
      split at hv
      · assumption
      · split at hv <;> cases hv
    · simp only [Function.update_of_ne hvt] at hv
      refine hstable v hvt (fun htv => ?_) (h.post v hv)
      exact hne t (h.above v hv t htv) rfl

/-- **What the tasks have established stands**, along every run whose attempts meet a
condition. -/
theorem runs_settled
    (hpost : ∀ s t d, C s (t, d) → (∀ u, G.Above u t → Post u s.world) →
      (G.attempt t d s.world).1 = true → Post t (G.attempt t d s.world).2)
    (hstable : ∀ t d w u, u ≠ t → ¬G.Above t u → Post u w → Post u (G.attempt t d w).2)
    {w : σ} {es : List (τ × δ)} (hC : Meets G.step C (State.init w) es) :
    Settled G Post (runs G.step (State.init w) es) := by
  have hinit : Settled G Post (State.init w : State τ σ) := by
    refine ⟨fun t ht => ?_, fun t ht => ?_⟩
    · cases ht
    · cases ht
  refine runs_invariant_of_meets (fun s e s' hstep he h => ?_) hC hinit
  exact h.step hstep (hpost s e.1 e.2 he) (hstable e.1 e.2 s.world)

end TaskGraph

import EthPipeline.Base.Run

/-!
# Processes over one store

Any number of processes, started at any time, move one after the other on a store that all
of them see, and between two moves of one the others may move.

* `runs_holds`: what holds of the store and of each process holds in every run, if a move
  keeps it for the process that moves and does not take it from the others.
-/

namespace Processes

variable {σ π ι α : Type}

structure System (σ π : Type) where
  store : σ
  processes : List π

inductive Event (ι α : Type) where
  | start (x : ι)
  | act (i : ℕ) (a : α)

/-- A process starts, or the `i`-th one moves. -/
def step (start : ι → π) (move : σ → π → α → Option (σ × π)) (c : System σ π) :
    Event ι α → Option (System σ π)
  | .start x => some ⟨c.store, c.processes ++ [start x]⟩
  | .act i a => (c.processes[i]?).bind fun p =>
      (move c.store p a).map fun moved => ⟨moved.1, c.processes.set i moved.2⟩

/-- The events that start only what meets `L`. -/
def Starting (L : ι → Prop) : Event ι α → Prop
  | .start x => L x
  | .act _ _ => True

/-- `I` of the store, and `J` of every process with it. -/
structure Holds (I : σ → Prop) (J : σ → π → Prop) (c : System σ π) : Prop where
  store : I c.store
  processes : ∀ p ∈ c.processes, J c.store p

/-- What a move has to keep: its own process goes on, and it disturbs no other. -/
structure Rules (start : ι → π) (move : σ → π → α → Option (σ × π)) (L : ι → Prop) (I : σ → Prop)
    (J : σ → π → Prop) : Prop where
  begins : ∀ s x, L x → I s → J s (start x)
  keeps : ∀ s p a s' p', move s p a = some (s', p') → I s → J s p → I s' ∧ J s' p'
  others : ∀ s p a s' p' q, move s p a = some (s', p') → I s → J s p → J s q → J s' q

variable {start : ι → π} {move : σ → π → α → Option (σ × π)} {L : ι → Prop} {I : σ → Prop}
  {J : σ → π → Prop} {c c' : System σ π} {e : Event ι α}

theorem step_act {i : ℕ} {a : α} (h : step start move c (.act i a) = some c') :
    ∃ p s p', c.processes[i]? = some p ∧ move c.store p a = some (s, p') ∧
      c' = ⟨s, c.processes.set i p'⟩ := by
  obtain ⟨p, hp, h⟩ := Option.bind_eq_some_iff.mp h
  obtain ⟨⟨s, p'⟩, hmove, rfl⟩ := Option.map_eq_some_iff.mp h
  exact ⟨p, s, p', hp, hmove, rfl⟩

theorem step_holds (hrules : Rules start move L I J) (h : step start move c e = some c')
    (he : Starting L e) (hc : Holds I J c) : Holds I J c' := by
  cases e with
  | start x =>
    obtain rfl := Option.some.inj h
    refine ⟨hc.store, fun p hp => ?_⟩
    rcases List.mem_append.mp hp with hp | hp
    · exact hc.processes p hp
    · obtain rfl := List.mem_singleton.mp hp
      exact hrules.begins c.store x he hc.store
  | act i a =>
    obtain ⟨p, s, p', hp, hmove, rfl⟩ := step_act h
    have hJ := hc.processes p (List.mem_of_getElem? hp)
    obtain ⟨hI', hJ'⟩ := hrules.keeps c.store p a s p' hmove hc.store hJ
    refine ⟨hI', fun q hq => ?_⟩
    rcases List.mem_or_eq_of_mem_set hq with hq | rfl
    · exact hrules.others c.store p a s p' q hmove hc.store hJ (hc.processes q hq)
    · exact hJ'

/-- **Every run**, whatever is started and in whatever order the processes move. -/
theorem runs_holds (hrules : Rules start move L I J) {es : List (Event ι α)}
    (hes : ∀ e ∈ es, Starting L e) (hc : Holds I J c) :
    Holds I J (Run.runs (step start move) c es) :=
  Run.runs_invariant_of_meets (fun _ _ _ h he hc => step_holds hrules h he hc)
    (Run.meets_of_forall hes c) hc

end Processes

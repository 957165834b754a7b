import Mathlib.Data.List.Sort
import Mathlib.Tactic.Common

/-!
# Queries with an order and a limit

`ORDER BY … LIMIT n` fixes neither the order of equal rows nor which of them the
limit cuts off, so a query has several answers.

* `Answer.subset`: an answer has rows of the table only.
* `answer_latest`: sorting the rows, newest first, gives an answer.
* `filter_eq_take`: rows that come before all others are a prefix of the sorted rows.
-/

namespace Query

variable {ρ : Type}

/-- `result` is an answer of `SELECT … FROM rows ORDER BY … LIMIT limit`. -/
def Answer (le : ρ → ρ → Prop) (limit : ℕ) (rows result : List ρ) : Prop :=
  ∃ sorted : List ρ, sorted.Perm rows ∧ sorted.Pairwise le ∧ result = sorted.take limit

theorem Answer.subset {le : ρ → ρ → Prop} {limit : ℕ} {rows result : List ρ}
    (h : Answer le limit rows result) : result ⊆ rows := by
  obtain ⟨sorted, hperm, -, rfl⟩ := h
  intro r hr
  exact hperm.subset (List.mem_of_mem_take hr)

/-- `ORDER BY time DESC`. -/
def Newer (time : ρ → ℤ) (a b : ρ) : Prop := time b ≤ time a

instance (time : ρ → ℤ) (a b : ρ) : Decidable (Newer time a b) :=
  inferInstanceAs (Decidable (_ ≤ _))

/-- The answer that keeps equal rows in the order of the table. -/
def latest (time : ρ → ℤ) (limit : ℕ) (rows : List ρ) : List ρ :=
  (rows.mergeSort fun a b => Newer time a b).take limit

theorem answer_latest (time : ρ → ℤ) (limit : ℕ) (rows : List ρ) :
    Answer (Newer time) limit rows (latest time limit rows) := by
  refine ⟨_, List.mergeSort_perm rows _, ?_, rfl⟩
  have hsorted : (rows.mergeSort fun a b => decide (Newer time a b)).Pairwise
      fun a b => decide (Newer time a b) = true := List.pairwise_mergeSort ?_ ?_ rows
  · exact hsorted.imp fun h => of_decide_eq_true h
  · intro a b c hab hbc
    have hab : time b ≤ time a := of_decide_eq_true hab
    have hbc : time c ≤ time b := of_decide_eq_true hbc
    exact decide_eq_true (hbc.trans hab)
  · intro a b
    rcases le_total (time b) (time a) with h | h
    · simp [Newer, h]
    · simp [Newer, h]

/-- **A downward closed part** of a sorted list is a prefix of it. -/
theorem filter_eq_take {le : ρ → ρ → Prop} {p : ρ → Bool} {sorted : List ρ}
    (hsorted : sorted.Pairwise le) (hdown : ∀ a b, le a b → p b → p a) :
    sorted.filter p = sorted.take (sorted.countP p) := by
  induction sorted with
  | nil => rfl
  | cons a sorted ih =>
    obtain ⟨ha, hsorted⟩ := List.pairwise_cons.mp hsorted
    by_cases hpa : p a
    · rw [List.filter_cons_of_pos hpa, List.countP_cons_of_pos hpa, List.take_succ_cons,
        ih hsorted]
    · -- then it holds of none of the others
      have hnone : ∀ b ∈ sorted, ¬p b := fun b hb hpb => hpa (hdown a b (ha b hb) hpb)
      rw [List.filter_cons_of_neg hpa, List.countP_cons_of_neg hpa,
        List.countP_eq_zero.mpr hnone, List.take_zero]
      exact List.filter_eq_nil_iff.mpr hnone

end Query

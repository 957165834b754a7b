import Mathlib.Algebra.Order.Ring.Int
import Mathlib.Tactic.Common

/-!
# Searching a sequence of instants

A strictly increasing sequence, its first entry at or after an instant, and its
last entry at or before one.

* `IsFirst.le_iff`, `IsLast.le_iff`: the two cut the sequence in half.
-/

/-- Instants that increase strictly. -/
structure Timeline where
  time : ℕ → ℤ
  increasing : ∀ m n, m < n → time m < time n

namespace Timeline

variable (T : Timeline)

def IsFirst (t : ℤ) (n : ℕ) : Prop := t ≤ T.time n ∧ ∀ m, t ≤ T.time m → n ≤ m

def IsLast (t : ℤ) (n : ℕ) : Prop := T.time n ≤ t ∧ ∀ m, T.time m ≤ t → m ≤ n

variable {T} {t : ℤ} {n m : ℕ}

theorem time_le (h : m ≤ n) : T.time m ≤ T.time n := by
  rcases Nat.lt_or_eq_of_le h with hlt | rfl
  · exact (T.increasing m n hlt).le
  · exact le_rfl

theorem IsFirst.le_iff (h : T.IsFirst t n) : n ≤ m ↔ t ≤ T.time m := by
  constructor
  · intro hle
    exact h.1.trans (time_le hle)
  · exact h.2 m

theorem IsLast.le_iff (h : T.IsLast t n) : m ≤ n ↔ T.time m ≤ t := by
  constructor
  · intro hle
    exact (time_le hle).trans h.1
  · exact h.2 m

theorem IsFirst.lt_iff (h : T.IsFirst t n) : m < n ↔ T.time m < t := by
  rw [← not_le, h.le_iff, not_le]

theorem IsLast.lt_iff (h : T.IsLast t n) : n < m ↔ t < T.time m := by
  rw [← not_le, h.le_iff, not_le]

end Timeline

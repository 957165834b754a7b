import Mathlib.Algebra.Order.Field.Basic
import Mathlib.Data.List.Basic
import Mathlib.Tactic.Common
import Mathlib.Tactic.Linarith

/-!
# Scaled values and ranks

A column is scaled to lie between zero and one by its least and its greatest value;
a row has a rank by the rows that come before it.

* `scaled_mem`, `scaled_mono`: the range of a scaled value, and its order.
* `rank_le_rank`: what fewer rows come before has the better rank.
-/

namespace Ranking

section scaled

variable {K : Type} [Field K] [LinearOrder K] [IsStrictOrderedRing K] {lo hi x y : K}

/-- The place of `x` between `lo` and `hi`; a range of one value has the length one. -/
def scaled (lo hi x : K) : K := (x - lo) / if hi - lo = 0 then 1 else hi - lo

theorem length_pos (h : lo ≤ hi) : 0 < if hi - lo = 0 then (1 : K) else hi - lo := by
  split
  · exact one_pos
  · next hne => exact lt_of_le_of_ne (sub_nonneg.mpr h) (Ne.symm hne)

/-- **A scaled value** lies between zero and one. -/
theorem scaled_mem (hlo : lo ≤ x) (hhi : x ≤ hi) : 0 ≤ scaled lo hi x ∧ scaled lo hi x ≤ 1 := by
  have hpos := length_pos (hlo.trans hhi)
  constructor
  · exact div_nonneg (sub_nonneg.mpr hlo) hpos.le
  · rw [scaled, div_le_one hpos]
    split
    · next hzero => linarith
    · exact sub_le_sub_right hhi lo

theorem scaled_mono (h : lo ≤ hi) (hxy : x ≤ y) : scaled lo hi x ≤ scaled lo hi y :=
  div_le_div_of_nonneg_right (sub_le_sub_right hxy lo) (length_pos h).le

end scaled

section rank

variable {α κ : Type} [DecidableEq κ] {part : α → κ} {before : α → α → Bool} {rows : List α} {a b : α}

/-- `rank()` over the rows of a part: one more than the rows that come before. -/
def rank (part : α → κ) (before : α → α → Bool) (rows : List α) (a : α) : ℕ :=
  1 + rows.countP fun other => part other = part a && before other a

/-- **Fewer rows before**, better rank. -/
theorem rank_le_rank (hpart : part a = part b)
    (h : ∀ other ∈ rows, before other a = true → before other b = true) :
    rank part before rows a ≤ rank part before rows b := by
  refine Nat.add_le_add_left (List.countP_mono_left fun other hother hbefore => ?_) 1
  obtain ⟨hsame, hbefore⟩ := Bool.and_eq_true_iff.mp hbefore
  rw [hpart] at hsame
  exact Bool.and_eq_true_iff.mpr ⟨hsame, h other hother hbefore⟩

/-- The rank in a table of one part. -/
theorem rank_eq_countP (hpart : ∀ other ∈ rows, part other = part a) :
    rank part before rows a = 1 + rows.countP fun other => before other a := by
  refine congrArg (1 + ·) (List.countP_congr fun other hother => ?_)
  rw [decide_eq_true (hpart other hother), Bool.true_and]

end rank

end Ranking

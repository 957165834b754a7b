import Mathlib.Data.List.Nodup
import Mathlib.Data.List.Perm.Basic
import Mathlib.Tactic.Common

/-!
# First occurrences

A loop that passes over what it has seen keeps the first occurrence of every value,
and may stop when it has enough of them.

* `nodup_append_firsts_iff`: what is kept repeats a value only if what was seen before
  does.
* `take_firsts_append`: a loop that stops, over a list in two parts.
-/

namespace Distinct

variable {κ : Type} [DecidableEq κ]

/-- The values that were not `seen`, each once. -/
def firsts : List κ → List κ → List κ
  | _, [] => []
  | seen, x :: xs => if x ∈ seen then firsts seen xs else x :: firsts (seen ++ [x]) xs

variable {seen seen' xs ys : List κ} {x a : κ}

theorem firsts_cons_of_mem (h : x ∈ seen) : firsts seen (x :: xs) = firsts seen xs := if_pos h

theorem firsts_cons_of_not_mem (h : x ∉ seen) :
    firsts seen (x :: xs) = x :: firsts (seen ++ [x]) xs := if_neg h

/-- Only which values were seen matters. -/
theorem firsts_congr (h : ∀ a, a ∈ seen ↔ a ∈ seen') : firsts seen xs = firsts seen' xs := by
  induction xs generalizing seen seen' with
  | nil => rfl
  | cons x xs ih =>
    by_cases hx : x ∈ seen
    · rw [firsts_cons_of_mem hx, firsts_cons_of_mem ((h x).mp hx), ih h]
    · have hx' : x ∉ seen' := fun hmem => hx ((h x).mpr hmem)
      have hnext : ∀ a, a ∈ seen ++ [x] ↔ a ∈ seen' ++ [x] := fun a => by
        rw [List.mem_append, List.mem_append, h a]
      rw [firsts_cons_of_not_mem hx, firsts_cons_of_not_mem hx', ih hnext]

theorem not_mem_of_mem_firsts (h : a ∈ firsts seen xs) : a ∉ seen := by
  induction xs generalizing seen with
  | nil => cases h
  | cons x xs ih =>
    by_cases hx : x ∈ seen
    · rw [firsts_cons_of_mem hx] at h
      exact ih h
    · rw [firsts_cons_of_not_mem hx] at h
      rcases List.mem_cons.mp h with rfl | h
      · exact hx
      · exact fun hmem => ih h (List.mem_append_left [x] hmem)

theorem nodup_firsts (seen xs : List κ) : (firsts seen xs).Nodup := by
  induction xs generalizing seen with
  | nil => exact List.nodup_nil
  | cons x xs ih =>
    by_cases hx : x ∈ seen
    · rw [firsts_cons_of_mem hx]
      exact ih seen
    · rw [firsts_cons_of_not_mem hx]
      refine List.nodup_cons.mpr ⟨fun hmem => ?_, ih (seen ++ [x])⟩
      exact not_mem_of_mem_firsts hmem (by simp)

/-- The first `n` of them do not repeat what was seen. -/
theorem nodup_append_firsts_iff {n : ℕ} :
    (seen ++ (firsts seen xs).take n).Nodup ↔ seen.Nodup := by
  constructor
  · exact fun h => h.of_append_left
  · intro hseen
    refine List.nodup_append'.mpr ⟨hseen, (nodup_firsts seen xs).take, fun a ha hfirst => ?_⟩
    exact not_mem_of_mem_firsts (List.mem_of_mem_take hfirst) ha

theorem mem_append_cons_iff {α : Type} {seen xs : List α} {x a : α} (hx : x ∈ seen) :
    a ∈ seen ++ x :: xs ↔ a ∈ seen ++ xs := by
  rw [List.mem_append, List.mem_append, List.mem_cons]
  constructor
  · rintro (ha | rfl | ha)
    · exact .inl ha
    · exact .inl hx
    · exact .inr ha
  · rintro (ha | ha)
    · exact .inl ha
    · exact .inr (.inr ha)

theorem mem_append_firsts_iff : a ∈ seen ++ firsts seen xs ↔ a ∈ seen ++ xs := by
  induction xs generalizing seen with
  | nil => rfl
  | cons x xs ih =>
    by_cases hx : x ∈ seen
    · rw [firsts_cons_of_mem hx, ih, mem_append_cons_iff hx]
    · rw [firsts_cons_of_not_mem hx, List.append_cons, ih, List.append_cons seen x xs]

theorem firsts_append : firsts seen (xs ++ ys) = firsts seen xs ++ firsts (seen ++ xs) ys := by
  induction xs generalizing seen with
  | nil => rw [List.append_nil]; rfl
  | cons x xs ih =>
    rw [List.cons_append]
    by_cases hx : x ∈ seen
    · rw [firsts_cons_of_mem hx, firsts_cons_of_mem hx, ih]
      congr 1
      exact firsts_congr fun a => (mem_append_cons_iff hx).symm
    · rw [firsts_cons_of_not_mem hx, firsts_cons_of_not_mem hx, ih, List.append_cons seen x xs]
      rfl

/-- A list without repetition is kept. -/
theorem firsts_eq_self (h : (seen ++ xs).Nodup) : firsts seen xs = xs := by
  induction xs generalizing seen with
  | nil => rfl
  | cons x xs ih =>
    have hx : x ∉ seen := fun hmem =>
      List.disjoint_of_nodup_append h hmem List.mem_cons_self
    rw [firsts_cons_of_not_mem hx, ih]
    rwa [← List.append_cons]

/-- **A loop that stops** at `n` values: over the second part it has as many places left as the
first part leaves. -/
theorem take_firsts_append (n : ℕ) :
    (firsts seen (xs ++ ys)).take n = (firsts seen xs).take n ++
      (firsts (seen ++ (firsts seen xs).take n) ys).take (n - ((firsts seen xs).take n).length) := by
  rw [firsts_append]
  by_cases hn : (firsts seen xs).length ≤ n
  · have hseen : firsts (seen ++ firsts seen xs) ys = firsts (seen ++ xs) ys :=
      firsts_congr fun a => mem_append_firsts_iff
    rw [List.take_of_length_le hn, hseen, List.take_append, List.take_of_length_le hn]
  · have hlength : ((firsts seen xs).take n).length = n := by
      rw [List.length_take]
      omega
    rw [List.take_append_of_le_length (by omega), hlength, Nat.sub_self, List.take_zero,
      List.append_nil]

end Distinct

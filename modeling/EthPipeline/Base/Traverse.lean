import Mathlib.Data.List.Forall2
import Mathlib.Tactic.Common

/-!
# Lists of conversions that may fail

`xs.mapM f` converts every element, or fails as a whole.

* `mapM_eq_some_iff`: the results stand beside the elements, one by one.
-/

namespace Traverse

variable {α β : Type} {f : α → Option β} {xs : List α} {ys : List β}

/-- **All elements** are converted, in order. -/
theorem mapM_eq_some_iff : xs.mapM f = some ys ↔ List.Forall₂ (fun x y => f x = some y) xs ys := by
  induction xs generalizing ys with
  | nil =>
    rw [List.mapM_nil, List.forall₂_nil_left_iff]
    exact ⟨fun h => (Option.some.inj h).symm, fun h => congrArg some h.symm⟩
  | cons x xs ih =>
    rw [List.mapM_cons, List.forall₂_cons_left_iff]
    simp only [Option.bind_eq_bind, Option.bind_eq_some_iff]
    constructor
    · rintro ⟨y, hy, zs, hzs, h⟩
      exact ⟨y, zs, hy, ih.mp hzs, (Option.some.inj h).symm⟩
    · rintro ⟨y, zs, hy, hzs, rfl⟩
      exact ⟨y, hy, zs, ih.mpr hzs, rfl⟩

/-- Every result comes from an element. -/
theorem exists_source (h : xs.mapM f = some ys) {y : β} (hy : y ∈ ys) : ∃ x ∈ xs, f x = some y := by
  have hall := mapM_eq_some_iff.mp h
  induction hall with
  | nil => cases hy
  | cons hxy _ ih =>
    rcases List.mem_cons.mp hy with rfl | hy
    · exact ⟨_, List.mem_cons_self, hxy⟩
    · obtain ⟨x, hx, hfx⟩ := ih (mapM_eq_some_iff.mpr ‹_›) hy
      exact ⟨x, List.mem_cons_of_mem _ hx, hfx⟩

/-- Every element has its result. -/
theorem exists_result (h : xs.mapM f = some ys) {x : α} (hx : x ∈ xs) : ∃ y ∈ ys, f x = some y := by
  have hall := mapM_eq_some_iff.mp h
  induction hall with
  | nil => cases hx
  | cons hxy _ ih =>
    rcases List.mem_cons.mp hx with rfl | hx
    · exact ⟨_, List.mem_cons_self, hxy⟩
    · obtain ⟨y, hy, hfx⟩ := ih (mapM_eq_some_iff.mpr ‹_›) hx
      exact ⟨y, List.mem_cons_of_mem _ hy, hfx⟩

theorem mapM_of_forall_mem {g : α → β} (h : ∀ x ∈ xs, f x = some (g x)) :
    xs.mapM f = some (xs.map g) := by
  rw [mapM_eq_some_iff, List.forall₂_map_right_iff, List.forall₂_same]
  exact h

end Traverse

import EthPipeline.Base.Doubles
import Mathlib.Algebra.BigOperators.Group.List.Basic
import Mathlib.Algebra.Order.BigOperators.Group.List
import Mathlib.Data.List.Sublists

/-!
# Sums of doubles

Addition of doubles is not associative: what a list of them comes to depends on the order
and the brackets (`Sums`).

* `Sums.eq_sum`: numbers whose parts all add up to doubles come to their sum, in whatever
  order they are added.
* `AddsExactly.of_unit`: multiples of one power of two that come to little are such numbers.
-/

theorem Binary64.two_zpow_lt_halfwayMax {e : ℤ} (h : e < 1024) : (2 : ℚ) ^ e < halfwayMax := by
  have hnat : ∀ n : ℕ, n < 1024 → 2 ^ n < halfwayMax := by
    intro n hn
    exact (Nat.pow_le_pow_right two_pos (Nat.le_of_lt_succ hn)).trans_lt (by decide +kernel)
  have hle : e ≤ (e.toNat : ℤ) := Int.self_le_toNat e
  calc (2 : ℚ) ^ e ≤ 2 ^ (e.toNat : ℤ) := zpow_le_zpow_right₀ (by norm_num) hle
    _ = ((2 ^ e.toNat : ℕ) : ℚ) := by rw [zpow_natCast, Nat.cast_pow, Nat.cast_ofNat]
    _ < halfwayMax := Nat.cast_lt.mpr (hnat e.toNat (by omega))

namespace PyFloat

/-- `x + y`. -/
def add : PyFloat → PyFloat → PyFloat
  | finite p, finite q => ofRat (p + q)
  | nan, _ => nan
  | _, nan => nan
  | inf s, inf t => if s = t then inf s else nan
  | inf s, finite _ => inf s
  | finite _, inf t => inf t

/-- `round(x, s)`. -/
def round (s : ℕ) : PyFloat → PyFloat
  | finite q => ofRat (Decimal.roundHalfUp s (Binary64.shortest q))
  | x => x

/-- `x > q`, where NaN is above every number. -/
def above (x : PyFloat) (q : ℚ) : Bool :=
  match x with
  | finite p => q < p
  | inf negative => !negative
  | nan => true

/-- `x < q`, where NaN is above every number. -/
def below (x : PyFloat) (q : ℚ) : Bool :=
  match x with
  | finite p => p < q
  | inf negative => negative
  | nan => false

end PyFloat

/-- What adding up doubles may come to, when their order and the brackets are open. -/
inductive Sums : List ℚ → PyFloat → Prop
  | one (x : ℚ) : Sums [x] (.finite x)
  | add {xs ys zs : List ℚ} {a b : PyFloat} : Sums xs a → Sums ys b → (xs ++ ys).Perm zs →
      Sums zs (a.add b)

/-- A way of adding up doubles. -/
structure Summation where
  total : List ℚ → PyFloat
  sums : ∀ xs, xs ≠ [] → Sums xs (total xs)

/-- No addition rounds, in whatever order: every part of the numbers adds up to a double. -/
def AddsExactly (xs : List ℚ) : Prop := ∀ ys ∈ xs.sublists, Binary64.ofRat ys.sum = some ys.sum

instance (xs : List ℚ) : Decidable (AddsExactly xs) :=
  inferInstanceAs (Decidable (∀ ys ∈ xs.sublists, _))

namespace AddsExactly

variable {xs ys : List ℚ}

theorem sum (h : AddsExactly xs) : Binary64.ofRat xs.sum = some xs.sum :=
  h xs (List.mem_sublists.mpr (List.Sublist.refl xs))

theorem of_subperm (h : AddsExactly xs) (hsub : ys.Subperm xs) : AddsExactly ys := by
  intro zs hzs
  obtain ⟨zs', hperm, hsub'⟩ := ((List.mem_sublists.mp hzs).subperm.trans hsub)
  rw [← hperm.sum_eq]
  exact h zs' (List.mem_sublists.mpr hsub')

/-- **Multiples of one power of two** that come to at most 2⁵³ of it are added exactly. -/
theorem of_unit {e : ℤ} (hlow : -1074 ≤ e) (hhigh : e ≤ 970)
    (hunit : ∀ x ∈ xs, ∃ k : ℤ, x = k * 2 ^ e) (hsum : (xs.map abs).sum ≤ 2 ^ 53 * 2 ^ e) :
    AddsExactly xs := by
  intro ys hys
  have hsub := List.mem_sublists.mp hys
  have hpos := Binary64.two_zpow_pos e
  have hwhole : ∃ k : ℤ, ys.sum = k * 2 ^ e := by
    have hall : ∀ y ∈ ys, ∃ k : ℤ, y = k * 2 ^ e := fun y hy => hunit y (hsub.subset hy)
    clear hys hsub
    induction ys with
    | nil => exact ⟨0, by simp⟩
    | cons y ys ih =>
      obtain ⟨k, hk⟩ := hall y List.mem_cons_self
      obtain ⟨m, hm⟩ := ih fun z hz => hall z (List.mem_cons_of_mem _ hz)
      exact ⟨k + m, by rw [List.sum_cons, hk, hm, Int.cast_add, add_mul]⟩
  obtain ⟨k, hk⟩ := hwhole
  have habs : |ys.sum| ≤ 2 ^ 53 * 2 ^ e := by
    calc |ys.sum| ≤ (ys.map abs).sum := by
          clear hys hsub hk
          induction ys with
          | nil => simp
          | cons y ys ih =>
            rw [List.sum_cons, List.map_cons, List.sum_cons]
            exact (abs_add_le _ _).trans (by linarith)
      _ ≤ (xs.map abs).sum := by
          refine (hsub.map abs).sum_le_sum fun x hx => ?_
          obtain ⟨y, -, rfl⟩ := List.mem_map.mp hx
          exact abs_nonneg y
      _ ≤ 2 ^ 53 * 2 ^ e := hsum
  have hk' : |k| ≤ 2 ^ 53 := by
    rw [hk, abs_mul, abs_of_pos hpos] at habs
    have h := le_of_mul_le_mul_right habs hpos
    exact_mod_cast h
  have hroom : |ys.sum| < (Binary64.halfwayMax : ℚ) := by
    calc |ys.sum| ≤ 2 ^ 53 * 2 ^ e := habs
      _ = 2 ^ (53 + e) := by rw [zpow_add₀ two_ne_zero]; norm_num
      _ < (Binary64.halfwayMax : ℚ) := Binary64.two_zpow_lt_halfwayMax (by omega)
  unfold Binary64.ofRat
  rw [if_pos hroom, hk, Binary64.nearest_of_mul hk' hlow]

end AddsExactly

/-- **Where no addition rounds**, the doubles come to their sum. -/
theorem Sums.eq_sum {xs : List ℚ} {total : PyFloat} (h : Sums xs total) (hexact : AddsExactly xs) :
    total = .finite xs.sum := by
  induction h with
  | one x => simp
  | @add xs ys zs a b _ _ hperm ihx ihy =>
    rw [ihx (hexact.of_subperm ((List.sublist_append_left xs ys).subperm.trans hperm.subperm)),
      ihy (hexact.of_subperm ((List.sublist_append_right xs ys).subperm.trans hperm.subperm))]
    show PyFloat.ofRat (xs.sum + ys.sum) = _
    rw [← List.sum_append, hperm.sum_eq, PyFloat.ofRat, hexact.sum]

namespace Summation

/-- From the first to the last. -/
def inOrder : Summation where
  total
    | [] => .finite 0
    | x :: xs => xs.foldl (fun a y => a.add (.finite y)) (.finite x)
  sums := by
    have hfold : ∀ (xs ys : List ℚ) (a : PyFloat), Sums ys a →
        Sums (ys ++ xs) (xs.foldl (fun a y => a.add (.finite y)) a) := by
      intro xs
      induction xs with
      | nil =>
        intro ys a ha
        simpa using ha
      | cons x xs ih =>
        intro ys a ha
        have h := ih (ys ++ [x]) _ (ha.add (.one x) (List.Perm.refl _))
        simpa using h
    intro xs hne
    cases xs with
    | nil => exact absurd rfl hne
    | cons x xs => exact hfold xs [x] _ (.one x)

end Summation

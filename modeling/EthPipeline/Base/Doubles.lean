import EthPipeline.Base.Rounding

/-!
# Doubles as decimals

What a double is printed as, and how it is rounded to digits.

* `nearest_of_mul`: a number of at most 53 binary digits is a double.
* `abs_nearest_sub_le`: how far a number is from its double.
* `shortest_nearest`: a double is printed as the decimal of few digits it is nearest to.
* `Decimal.roundHalfUp_near_iff`: how a number near another is rounded.
-/

namespace Binary64

/-! ### Numbers that are doubles -/

theorem nearest_zero : nearest 0 = 0 := if_pos rfl

theorem nearest_of_mul_lastPlace {q : ℚ} (hq : q ≠ 0) {k : ℤ} (h : k * 2 ^ lastPlace q = q) :
    nearest q = q := by
  have hle := nearest_le_of_mul hq h.ge
  have hge := le_nearest_of_mul hq h.le
  rw [h] at hle hge
  exact le_antisymm hle hge

/-- **Numbers of at most 53 binary digits** are doubles. -/
theorem nearest_of_mul {k e : ℤ} (hk : |k| ≤ 2 ^ 53) (he : -1074 ≤ e) :
    nearest (k * 2 ^ e) = k * 2 ^ e := by
  rcases eq_or_ne k 0 with rfl | hne
  · simp [nearest_zero]
  have hpos := two_zpow_pos e
  have hq : (k : ℚ) * 2 ^ e ≠ 0 := mul_ne_zero (Int.cast_ne_zero.mpr hne) hpos.ne'
  have habs : |(k : ℚ) * 2 ^ e| ≤ 2 ^ (e + 53) := by
    have hk' : |(k : ℚ)| ≤ 2 ^ 53 := by exact_mod_cast hk
    rw [abs_mul, abs_of_pos hpos, zpow_add₀ two_ne_zero, mul_comm]
    exact mul_le_mul_of_nonneg_left hk' hpos.le
  have hlow := (leading_spec hq).1
  have hleading : leading ((k : ℚ) * 2 ^ e) ≤ e + 53 :=
    (zpow_le_zpow_iff_right₀ (by norm_num : (1 : ℚ) < 2)).mp (hlow.trans habs)
  rcases lt_or_eq_of_le hleading with hlt | heq
  · obtain ⟨i, hi⟩ := exists_mul_eq_two_zpow (q := (k : ℚ) * 2 ^ e) (e := e)
      (by unfold lastPlace; omega)
    exact nearest_of_mul_lastPlace hq (k := k * i) (by push_cast; rw [mul_assoc, hi])
  · -- only a power of two has 54 digits here
    rw [heq] at hlow
    obtain ⟨i, hi⟩ := exists_mul_eq_two_zpow (q := (k : ℚ) * 2 ^ e) (e := e + 53)
      (by unfold lastPlace; omega)
    rcases abs_choice ((k : ℚ) * 2 ^ e) with hsign | hsign
    · exact nearest_of_mul_lastPlace hq (hi.trans (le_antisymm hlow habs |>.trans hsign))
    · refine nearest_of_mul_lastPlace hq (k := -i) ?_
      rw [Int.cast_neg, neg_mul, hi, le_antisymm hlow habs, hsign, neg_neg]

theorem nearest_intCast {n : ℤ} (h : |n| ≤ 2 ^ 53) : nearest n = n := by
  simpa using nearest_of_mul (e := 0) h (by norm_num)

/-- A double has at most 53 binary digits. -/
theorem exists_nearest_eq (q : ℚ) :
    ∃ k e : ℤ, nearest q = k * 2 ^ e ∧ |k| ≤ 2 ^ 53 ∧ -1074 ≤ e := by
  rcases eq_or_ne q 0 with rfl | hq
  · exact ⟨0, 0, by simp [nearest_zero], by norm_num, by norm_num⟩
  refine ⟨roundHalfEven (scale q (lastPlace q)), lastPlace q, ?_, ?_, le_max_left _ _⟩
  · rw [nearest, if_neg hq, scale_eq (roundHalfEven _), neg_neg]
  · have hscale : |scale q (lastPlace q)| ≤ ((2 ^ 53 : ℤ) : ℚ) := by
      have hhigh := (leading_spec hq).2
      rw [scale_eq, abs_mul, abs_of_pos (two_zpow_pos _)]
      calc |q| * 2 ^ (-lastPlace q) ≤ 2 ^ (leading q + 1) * 2 ^ (-lastPlace q) :=
            mul_le_mul_of_nonneg_right hhigh.le (two_zpow_pos _).le
        _ = 2 ^ (leading q + 1 - lastPlace q) := by rw [← zpow_add₀ two_ne_zero, sub_eq_add_neg]
        _ ≤ 2 ^ (53 : ℤ) := zpow_le_zpow_right₀ (by norm_num) (by unfold lastPlace; omega)
        _ = ((2 ^ 53 : ℤ) : ℚ) := by norm_num
    obtain ⟨hlow, hhigh⟩ := abs_le.mp hscale
    rw [← Int.cast_neg] at hlow
    exact abs_le.mpr ⟨le_roundHalfEven hlow, roundHalfEven_le hhigh⟩

/-- What is rounded once is a double. -/
theorem nearest_nearest (q : ℚ) : nearest (nearest q) = nearest q := by
  obtain ⟨k, e, hq, hk, he⟩ := exists_nearest_eq q
  rw [hq, nearest_of_mul hk he]

/-! ### How far the double is -/

theorem abs_roundHalfEven_sub_le (q : ℚ) : |(roundHalfEven q : ℚ) - q| ≤ 1 / 2 := by
  have hfloor : (⌊q⌋ : ℚ) + Int.fract q = q := Int.floor_add_fract q
  have hlow := Int.fract_nonneg q
  have hhigh := Int.fract_lt_one q
  rw [roundHalfEven_eq, abs_le]
  split_ifs <;> push_cast <;> constructor <;> linarith

/-- **A double is near its number**: one part in 2⁵³. -/
theorem abs_nearest_sub_le {q : ℚ} (h : 2 ^ (-1022 : ℤ) ≤ |q|) :
    |nearest q - q| ≤ |q| / 2 ^ 53 := by
  have hq : q ≠ 0 := by
    rintro rfl
    rw [abs_zero] at h
    exact absurd h (not_le.mpr (two_zpow_pos _))
  obtain ⟨hlow, hhigh⟩ := leading_spec hq
  have hleading : -1022 < leading q + 1 :=
    (zpow_lt_zpow_iff_right₀ (by norm_num : (1 : ℚ) < 2)).mp (h.trans_lt hhigh)
  have hplace : lastPlace q = leading q - 52 := by
    unfold lastPlace
    omega
  have hpos := two_zpow_pos (lastPlace q)
  have hscale : scale q (lastPlace q) * 2 ^ lastPlace q = q := by
    rw [scale_eq, mul_assoc, ← zpow_add₀ two_ne_zero, neg_add_cancel, zpow_zero, mul_one]
  calc |nearest q - q|
      = |(roundHalfEven (scale q (lastPlace q)) : ℚ) - scale q (lastPlace q)| * 2 ^ lastPlace q := by
        rw [nearest, if_neg hq, scale_eq (roundHalfEven _), neg_neg, ← abs_of_pos hpos, ← abs_mul,
          abs_of_pos hpos, sub_mul, hscale]
    _ ≤ 1 / 2 * 2 ^ lastPlace q :=
        mul_le_mul_of_nonneg_right (abs_roundHalfEven_sub_le _) hpos.le
    _ = 2 ^ leading q / 2 ^ 53 := by
        rw [hplace, zpow_sub₀ two_ne_zero]
        norm_num
        ring
    _ ≤ |q| / 2 ^ 53 := div_le_div_of_nonneg_right hlow (by positivity)

/-- A number that is not tiny is a normal one. -/
theorem normal_of_le {q : ℚ} (h : 1 / 2 ^ 64 ≤ |q|) : 2 ^ (-1022 : ℤ) < |q| := by
  calc (2 : ℚ) ^ (-1022 : ℤ) < 2 ^ (-64 : ℤ) := zpow_lt_zpow_right₀ (by norm_num) (by norm_num)
    _ = 1 / 2 ^ 64 := by norm_num
    _ ≤ |q| := h

/-! ### Doubles as decimals -/

/-- The decimal a double is printed as: the fewest digits after the point that tell it
from its neighbours.  Past 17 of them it is the double itself. -/
def shortest (d : ℚ) : ℚ :=
  match (List.range 18).find? fun s => nearest (Decimal.roundHalfUp s d) = d with
  | some s => Decimal.roundHalfUp s d
  | none => d

/-- `round(d, s)` of a double: the printed decimal is rounded half up. -/
def round (s : ℕ) (d : ℚ) : ℚ := nearest (Decimal.roundHalfUp s (shortest d))

example : round 2 (nearest (1005 / 1000)) = nearest (101 / 100) := by decide +kernel

theorem nearest_shortest {d : ℚ} (h : nearest d = d) : nearest (shortest d) = d := by
  unfold shortest
  split
  · next s hs =>
    have hfound := List.find?_some hs
    exact of_decide_eq_true hfound
  · exact h

/-- Of two numbers with `s` digits after the point that are less than the last one apart. -/
theorem eq_of_digits {s : ℕ} {p q : ℚ} {m n : ℤ} (hp : p * 10 ^ s = m) (hq : q * 10 ^ s = n)
    (h : |p - q| < 1 / 10 ^ s) : p = q := by
  have hpow : (0 : ℚ) < 10 ^ s := by positivity
  have hlt : |((m - n : ℤ) : ℚ)| < 1 := by
    rw [Int.cast_sub, ← hp, ← hq, ← sub_mul, abs_mul, abs_of_pos hpow]
    rwa [lt_div_iff₀ hpow] at h
  have hzero : |m - n| < 1 := by exact_mod_cast hlt
  have heq : m = n := by
    have := Int.abs_lt_one_iff.mp hzero
    omega
  exact mul_right_cancel₀ hpow.ne' (by rw [hp, hq, heq])

/-- A number with `s` digits after the point is near its double. -/
theorem abs_nearest_sub_le_of_digits {s : ℕ} {x : ℚ} {n : ℤ} (hs : s ≤ 18)
    (hx : x * 10 ^ s = n) : |nearest x - x| ≤ |x| / 2 ^ 53 := by
  have hpow : (0 : ℚ) < 10 ^ s := by positivity
  rcases eq_or_ne x 0 with rfl | hne
  · rw [nearest_zero, sub_zero, abs_zero, zero_div]
  refine abs_nearest_sub_le (normal_of_le ?_).le
  have hone : (1 : ℚ) ≤ |(n : ℚ)| := by
    have hn0 : n ≠ 0 := by
      rintro rfl
      rw [Int.cast_zero, mul_eq_zero] at hx
      exact hx.elim hne hpow.ne'
    exact_mod_cast Int.one_le_abs hn0
  calc (1 : ℚ) / 2 ^ 64 ≤ 1 / 10 ^ 18 := by norm_num
    _ ≤ 1 / 10 ^ s := one_div_le_one_div_of_le hpow (pow_le_pow_right₀ (by norm_num) hs)
    _ ≤ |x| := by
      rw [div_le_iff₀ hpow]
      calc 1 ≤ |(n : ℚ)| := hone
        _ = |x| * 10 ^ s := by rw [← hx, abs_mul, abs_of_pos hpow]

/-- A number of few digits, `s` of them after the point, is within a quarter of the last one. -/
theorem abs_nearest_sub_lt_of_digits {s : ℕ} {x : ℚ} {n : ℤ} (hs : s ≤ 18) (hx : x * 10 ^ s = n)
    (hn : |n| < 2 * 10 ^ 15) : |nearest x - x| < 1 / 10 ^ s / 4 := by
  have hpow : (0 : ℚ) < 10 ^ s := by positivity
  have hval : |x| = |(n : ℚ)| / 10 ^ s := by
    rw [eq_div_iff hpow.ne', ← hx, abs_mul, abs_of_pos hpow]
  have hn' : |(n : ℚ)| < 2 * 10 ^ 15 := by exact_mod_cast hn
  calc |nearest x - x| ≤ |x| / 2 ^ 53 := abs_nearest_sub_le_of_digits hs hx
    _ = |(n : ℚ)| / 10 ^ s / 2 ^ 53 := by rw [hval]
    _ < 2 * 10 ^ 15 / 10 ^ s / 2 ^ 53 :=
      div_lt_div_of_pos_right (div_lt_div_of_pos_right hn' hpow) (by positivity)
    _ = 1 / 10 ^ s * (2 * 10 ^ 15 / 2 ^ 53) := by ring
    _ ≤ 1 / 10 ^ s * (1 / 4) := mul_le_mul_of_nonneg_left (by norm_num) (by positivity)
    _ = 1 / 10 ^ s / 4 := by ring

/-- **Numbers of 15 digits** have doubles of their own. -/
theorem nearest_inj_of_digits {s : ℕ} {x y : ℚ} {m n : ℤ} (hs : s ≤ 18) (hx : x * 10 ^ s = m)
    (hm : |m| < 2 * 10 ^ 15) (hy : y * 10 ^ s = n) (hn : |n| < 2 * 10 ^ 15)
    (h : nearest x = nearest y) : x = y := by
  have hnearx := abs_nearest_sub_lt_of_digits hs hx hm
  have hneary := abs_nearest_sub_lt_of_digits hs hy hn
  have hunit : (0 : ℚ) < 1 / 10 ^ s := by positivity
  rw [h, abs_lt] at hnearx
  rw [abs_lt] at hneary
  refine eq_of_digits hx hy (abs_lt.mpr ⟨?_, ?_⟩) <;> linarith

/-- What has the double of a number is not twice as large. -/
theorem abs_le_of_nearest_eq {s : ℕ} {x c : ℚ} {m n : ℤ} (hs : s ≤ 18) (hx : x * 10 ^ s = n)
    (hc : c * 10 ^ s = m) (h : nearest c = nearest x) : |m| ≤ 2 * |n| := by
  have hpow : (0 : ℚ) < 10 ^ s := by positivity
  have hnearx := abs_nearest_sub_le_of_digits hs hx
  have hnearc := abs_nearest_sub_le_of_digits hs hc
  rw [h] at hnearc
  have hle : |c| ≤ 2 * |x| := by
    have hc' : |c| ≤ |nearest x| + |nearest x - c| := by
      have := abs_sub_abs_le_abs_sub c (nearest x)
      rw [abs_sub_comm] at this
      linarith
    have hx' : |nearest x| ≤ |x| + |nearest x - x| := by
      have := abs_sub_abs_le_abs_sub (nearest x) x
      linarith
    have hx0 := abs_nonneg x
    have hc0 := abs_nonneg c
    norm_num at hnearx hnearc
    linarith
  have hm : |(m : ℚ)| ≤ 2 * |(n : ℚ)| := by
    rw [← hc, ← hx, abs_mul, abs_mul, abs_of_pos hpow, ← mul_assoc]
    exact mul_le_mul_of_nonneg_right hle hpow.le
  exact_mod_cast hm

/-- **A number of 15 digits is printed as it is.** -/
theorem shortest_nearest {s : ℕ} {x : ℚ} {n : ℤ} (hs : s < 18) (hx : x * 10 ^ s = n)
    (hn : |n| < 10 ^ 15) : shortest (nearest x) = x := by
  have hn' : |n| < 2 * 10 ^ 15 := by omega
  -- the candidate with `s` digits is `x`
  have hcandidate : Decimal.roundHalfUp s (nearest x) = x := by
    obtain ⟨m, hm⟩ := Decimal.roundHalfUp_exact s (nearest x)
    have hnear := abs_nearest_sub_lt_of_digits hs.le hx hn'
    have hround := Decimal.abs_roundHalfUp_sub_le s (nearest x)
    have hunit : (0 : ℚ) < 1 / 10 ^ s := by positivity
    rw [show (1 : ℚ) / (2 * 10 ^ s) = 1 / 10 ^ s / 2 by rw [div_div, mul_comm], abs_le] at hround
    rw [abs_lt] at hnear
    refine eq_of_digits hm hx (abs_lt.mpr ⟨?_, ?_⟩) <;> linarith
  cases hfind : (List.range 18).find? fun k =>
      nearest (Decimal.roundHalfUp k (nearest x)) = nearest x with
  | none =>
    have hnone := List.find?_eq_none.mp hfind s (List.mem_range.mpr hs)
    simp [hcandidate] at hnone
  | some k =>
    obtain ⟨hk, -, hfirst⟩ := List.find?_range_eq_some.mp hfind
    have hks : k ≤ s := by
      by_contra hlt
      have := hfirst s (not_le.mp hlt)
      simp [hcandidate] at this
    have hvalue : shortest (nearest x) = Decimal.roundHalfUp k (nearest x) := by
      unfold shortest
      rw [hfind]
    -- a candidate with fewer digits has `s` digits as well
    obtain ⟨m, hm⟩ := Decimal.roundHalfUp_exact k (nearest x)
    have hm' : Decimal.roundHalfUp k (nearest x) * 10 ^ s = ((m * 10 ^ (s - k) : ℤ) : ℚ) := by
      push_cast
      rw [← hm, mul_assoc, ← pow_add, Nat.add_sub_cancel' hks]
    have hsame := of_decide_eq_true hk
    rw [hvalue]
    have hle := abs_le_of_nearest_eq hs.le hx hm' hsame
    exact nearest_inj_of_digits hs.le hm' (by omega) hx hn' hsame

/-- The decimal of a double is near it. -/
theorem abs_shortest_sub_le {d : ℚ} (h : nearest d = d) (hd : 2 ^ (-1022 : ℤ) < |d|) :
    |d - shortest d| ≤ |shortest d| / 2 ^ 53 := by
  have hnearest := nearest_shortest h
  have hsmall : nearest (2 ^ (-1022 : ℤ)) = 2 ^ (-1022 : ℤ) := by
    simpa using nearest_of_mul (k := 1) (e := -1022) (by norm_num) (by norm_num)
  have hsmall' : nearest (-2 ^ (-1022 : ℤ)) = -2 ^ (-1022 : ℤ) := by
    simpa using nearest_of_mul (k := -1) (e := -1022) (by norm_num) (by norm_num)
  have hnormal : 2 ^ (-1022 : ℤ) ≤ |shortest d| := by
    by_contra hlt
    obtain ⟨hlow, hhigh⟩ := abs_lt.mp (not_le.mp hlt)
    have hlow' := nearest_mono hlow.le
    have hhigh' := nearest_mono hhigh.le
    rw [hnearest, hsmall'] at hlow'
    rw [hnearest, hsmall] at hhigh'
    exact absurd (abs_le.mpr ⟨hlow', hhigh'⟩) (not_le.mpr hd)
  have hle := abs_nearest_sub_le hnormal
  rwa [hnearest] at hle

/-- A decimal that is printed for its double. -/
def Printed (x : ℚ) : Prop := shortest (nearest x) = x

theorem printed_shortest {d : ℚ} (h : nearest d = d) : Printed (shortest d) := by
  unfold Printed
  rw [nearest_shortest h]

/-- **Decimals that are printed** are ordered as their doubles. -/
theorem Printed.lt_iff {x y : ℚ} (hx : Printed x) (hy : Printed y) :
    x < y ↔ nearest x < nearest y := by
  constructor
  · intro h
    refine lt_of_le_of_ne (nearest_mono h.le) fun heq => h.ne ?_
    rw [← hx, heq, hy]
  · intro h
    by_contra hle
    exact absurd (nearest_mono (not_lt.mp hle)) (not_le.mpr h)

theorem Printed.abs_lt_iff {x y : ℚ} (hx : Printed x) (hy : Printed y) (h : |x - y| < |y|) :
    |x| < |y| ↔ |nearest x| < |nearest y| := by
  rcases le_or_gt 0 y with hy0 | hy0
  · rw [abs_of_nonneg hy0] at h
    have hx0 : 0 ≤ x := by
      have := (abs_lt.mp h).1
      linarith
    rw [abs_of_nonneg hx0, abs_of_nonneg hy0, abs_of_nonneg (nearest_nonneg hx0),
      abs_of_nonneg (nearest_nonneg hy0)]
    exact hx.lt_iff hy
  · rw [abs_of_neg hy0] at h
    have hx0 : x ≤ 0 := by
      have := (abs_lt.mp h).2
      linarith
    rw [abs_of_nonpos hx0, abs_of_neg hy0, abs_of_nonpos (nearest_nonpos hx0),
      abs_of_nonpos (nearest_nonpos hy0.le), neg_lt_neg_iff, neg_lt_neg_iff]
    exact hy.lt_iff hx

end Binary64

/-! ### Rounding next to a tie -/

namespace Decimal

theorem roundHalfUp_neg (s : ℕ) (q : ℚ) : roundHalfUp s (-q) = -roundHalfUp s q := by
  rcases lt_trichotomy q 0 with h | rfl | h
  · rw [roundHalfUp_of_neg h, roundHalfUp_of_nonneg (by linarith), neg_neg]
  · have hzero := roundHalfUp_intCast s 0
    rw [Int.cast_zero] at hzero
    rw [neg_zero, hzero, neg_zero]
  · rw [roundHalfUp_of_neg (by linarith), roundHalfUp_of_nonneg h.le, neg_neg]

/-- Between numbers that are rounded to different decimals there is a tie. -/
theorem exists_tie {s : ℕ} {p q : ℚ} (h : p ≤ q) (hne : roundHalfUp s p ≠ roundHalfUp s q) :
    ∃ j : ℤ, Odd j ∧ p ≤ j / (2 * 10 ^ s) ∧ j / (2 * 10 ^ s) ≤ q := by
  have hpow : (0 : ℚ) < 2 * 10 ^ s := by positivity
  have hpos : ∀ {x y : ℚ}, 0 ≤ x → x ≤ y → roundHalfUp s x ≠ roundHalfUp s y →
      ∃ j : ℤ, Odd j ∧ x ≤ j / (2 * 10 ^ s) ∧ j / (2 * 10 ^ s) ≤ y := by
    intro x y hx hxy hxy'
    rw [roundHalfUp_of_nonneg hx, roundHalfUp_of_nonneg (hx.trans hxy)] at hxy'
    have hle : ⌊x * 10 ^ s + 1 / 2⌋ ≤ ⌊y * 10 ^ s + 1 / 2⌋ := by gcongr
    have hlt : ⌊x * 10 ^ s + 1 / 2⌋ < ⌊y * 10 ^ s + 1 / 2⌋ :=
      lt_of_le_of_ne hle fun heq => hxy' (by rw [heq])
    have hlow := Int.lt_floor_add_one (x * 10 ^ s + 1 / 2)
    have hhigh := Int.floor_le (y * 10 ^ s + 1 / 2)
    have hstep : (⌊x * 10 ^ s + 1 / 2⌋ : ℚ) + 1 ≤ ⌊y * 10 ^ s + 1 / 2⌋ := by exact_mod_cast hlt
    refine ⟨2 * ⌊y * 10 ^ s + 1 / 2⌋ - 1, by rw [Int.odd_iff]; omega, ?_, ?_⟩
    · rw [le_div_iff₀ hpow]
      push_cast
      linarith
    · rw [div_le_iff₀ hpow]
      push_cast
      linarith
  rcases le_or_gt 0 p with hp | hp
  · exact hpos hp h hne
  rcases le_or_gt q 0 with hq | hq
  · -- the negatives, the other way round
    obtain ⟨j, hj, hlow, hhigh⟩ := hpos (x := -q) (y := -p) (by linarith) (by linarith)
      fun heq => hne (by rw [roundHalfUp_neg, roundHalfUp_neg] at heq; linarith)
    have hneg : ((-j : ℤ) : ℚ) / (2 * 10 ^ s) = -(j / (2 * 10 ^ s)) := by push_cast; ring
    exact ⟨-j, hj.neg, by rw [hneg]; linarith, by rw [hneg]; linarith⟩
  · -- zero lies between them, and one of them is not rounded to it
    have hzero : roundHalfUp s 0 = 0 := by simpa using roundHalfUp_intCast s 0
    by_cases hq' : roundHalfUp s q = 0
    · obtain ⟨j, hj, hlow, hhigh⟩ := hpos (x := 0) (y := -p) le_rfl (by linarith)
        fun heq => hne (by rw [roundHalfUp_neg, hzero] at heq; linarith)
      have hneg : ((-j : ℤ) : ℚ) / (2 * 10 ^ s) = -(j / (2 * 10 ^ s)) := by push_cast; ring
      exact ⟨-j, hj.neg, by rw [hneg]; linarith, by rw [hneg]; linarith⟩
    · obtain ⟨j, hj, hlow, hhigh⟩ := hpos (x := 0) (y := q) le_rfl hq.le
        fun heq => hq' (by rw [← heq, hzero])
      exact ⟨j, hj, hp.le.trans hlow, hhigh⟩

/-- What is near a tie is rounded like it exactly when it is no closer to zero. -/
theorem roundHalfUp_tie_iff {s : ℕ} {j : ℤ} {x y : ℚ} (hj : Odd j) (hx : x = j / (2 * 10 ^ s))
    (hnear : |y - x| < 1 / 10 ^ s) : roundHalfUp s y = roundHalfUp s x ↔ |x| ≤ |y| := by
  have hpos : ∀ {i : ℤ} {x y : ℚ}, Odd i → 0 ≤ i → x = i / (2 * 10 ^ s) → |y - x| < 1 / 10 ^ s →
      (roundHalfUp s y = roundHalfUp s x ↔ |x| ≤ |y|) := by
    intro i x y hi hi0 hx hnear
    have hpow : (0 : ℚ) < 10 ^ s := by positivity
    obtain ⟨k, rfl⟩ := hi
    have hk : (0 : ℚ) ≤ k := by exact_mod_cast (show 0 ≤ k by omega)
    have hx' : x * 10 ^ s = k + 1 / 2 := by
      rw [hx]
      push_cast
      field_simp
    have hx0 : 0 < x := by
      by_contra hneg
      have := mul_nonpos_of_nonpos_of_nonneg (not_lt.mp hneg) hpow.le
      linarith
    have hround : roundHalfUp s x = (k + 1 : ℤ) / 10 ^ s := by
      rw [roundHalfUp_of_nonneg hx0.le, hx',
        show (k : ℚ) + 1 / 2 + 1 / 2 = ((k + 1 : ℤ) : ℚ) by push_cast; ring, Int.floor_intCast]
    have hnear' : |(y - x) * 10 ^ s| < 1 := by
      rw [abs_mul, abs_of_pos hpow]
      exact (lt_div_iff₀ hpow).mp hnear
    rw [sub_mul, hx', abs_lt] at hnear'
    rw [hround, abs_of_pos hx0]
    rcases le_or_gt 0 y with hy | hy
    · rw [roundHalfUp_of_nonneg hy, div_left_inj' hpow.ne', Int.cast_inj, abs_of_nonneg hy,
        Int.floor_eq_iff]
      push_cast
      constructor
      · intro h
        refine le_of_mul_le_mul_right ?_ hpow
        linarith
      · intro h
        have := mul_le_mul_of_nonneg_right h hpow.le
        constructor <;> linarith
    · refine iff_of_false (fun heq => ?_) (not_le.mpr ?_)
      · have hneg := roundHalfUp_nonpos (s := s) hy
        rw [heq, div_le_iff₀ hpow] at hneg
        push_cast at hneg
        linarith
      · rw [abs_of_neg hy]
        refine lt_of_mul_lt_mul_right ?_ hpow.le
        linarith
  rcases le_or_gt 0 j with hj0 | hj0
  · exact hpos hj hj0 hx hnear
  · have hneg : -x = ((-j : ℤ) : ℚ) / (2 * 10 ^ s) := by
      rw [hx]
      push_cast
      ring
    have h := hpos (x := -x) (y := -y) hj.neg (by omega) hneg (by rwa [← neg_sub', abs_neg])
    rwa [roundHalfUp_neg, roundHalfUp_neg, neg_inj, abs_neg, abs_neg] at h

/-- **Rounding a number near `x`**: where no tie but `x` itself is as near, it is rounded like
`x` unless `x` is a tie that it falls short of. -/
theorem roundHalfUp_near_iff {s : ℕ} {x y δ : ℚ} (hnear : |y - x| < δ) (hδ : δ ≤ 1 / 10 ^ s)
    (hfar : ∀ j : ℤ, x ≠ j / (2 * 10 ^ s) → δ ≤ |x - j / (2 * 10 ^ s)|) :
    roundHalfUp s y = roundHalfUp s x ↔
      ¬ ((∃ j : ℤ, Odd j ∧ x = j / (2 * 10 ^ s)) ∧ |y| < |x|) := by
  by_cases htie : ∃ j : ℤ, Odd j ∧ x = j / (2 * 10 ^ s)
  · obtain ⟨j, hj, hx⟩ := htie
    rw [roundHalfUp_tie_iff hj hx (hnear.trans_le hδ), ← not_lt]
    exact not_congr ⟨fun h => ⟨⟨j, hj, hx⟩, h⟩, And.right⟩
  · refine iff_of_true ?_ fun h => htie h.1
    by_contra hne
    have hbetween : ∃ j : ℤ, Odd j ∧ |x - j / (2 * 10 ^ s)| ≤ |y - x| := by
      rcases le_total x y with hle | hle
      · obtain ⟨j, hj, hlow, hhigh⟩ := exists_tie hle (Ne.symm hne)
        refine ⟨j, hj, ?_⟩
        rw [abs_of_nonpos (by linarith), abs_of_nonneg (by linarith)]
        linarith
      · obtain ⟨j, hj, hlow, hhigh⟩ := exists_tie hle hne
        refine ⟨j, hj, ?_⟩
        rw [abs_of_nonneg (by linarith), abs_of_nonpos (by linarith)]
        linarith
    obtain ⟨j, hj, hle⟩ := hbetween
    have hge := hfar j fun hx => htie ⟨j, hj, hx⟩
    linarith

end Decimal

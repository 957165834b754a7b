import EthPipeline.Base.Binary64
import Mathlib.Data.Rat.Floor
import Mathlib.Algebra.Order.Field.Power
import Mathlib.Tactic.Linarith
import Mathlib.Tactic.FieldSimp
import Mathlib.Tactic.Positivity
import Mathlib.Tactic.NormNum
import Mathlib.Tactic.Ring

/-!
# Decimal numbers of SQL, and doubles next to them

A decimal is the rational it stands for; its type bounds the digits it may have
before and after the point.  A number is brought into a type by rounding half up,
and is `NULL` when it has too many digits.

* `roundHalfUp_mono`: rounding keeps the order.
* `le_roundHalfUp_iff`: from where on a number is rounded up.
* `cast_of_le`: a type has room for what lies below an integer it has room for.
* `sum_of_room`: a sum that has room is exact.
* `le_nearest`: a number that is not below an integer does not become a double below
  it.
* `one_lt_nearest`, `nearest_lt_one`: numbers off one stay on their side of it.
-/

/-- `decimal(precision, scale)`. -/
structure DecimalType where
  precision : ℕ
  scale : ℕ
  deriving DecidableEq, Repr

namespace Decimal

/-- The nearest number with `scale` digits after the point, ties away from zero. -/
def roundHalfUp (scale : ℕ) (q : ℚ) : ℚ :=
  if 0 ≤ q then ⌊q * 10 ^ scale + 1 / 2⌋ / 10 ^ scale else -(⌊-q * 10 ^ scale + 1 / 2⌋ / 10 ^ scale)

/-- A number brought into a type; `none` is `NULL`. -/
def cast (t : DecimalType) (q : ℚ) : Option ℚ :=
  let r := roundHalfUp t.scale q
  if |r| * 10 ^ t.scale < 10 ^ t.precision then some r else none

/-- The type of a result that needs `precision` digits, `scale` of them after the
point: past 38 digits, digits after the point go first, down to six. -/
def adjust (precision scale : ℕ) : DecimalType :=
  if precision ≤ 38 then ⟨precision, scale⟩
  else ⟨38, max (38 - (precision - scale)) (min scale 6)⟩

def addType (t u : DecimalType) : DecimalType :=
  let scale := max t.scale u.scale
  adjust (max (t.precision - t.scale) (u.precision - u.scale) + scale + 1) scale

/-- `a + b` and `a - b`. -/
def add (t u : DecimalType) (a b : ℚ) : Option ℚ := cast (addType t u) (a + b)

def sub (t u : DecimalType) (a b : ℚ) : Option ℚ := cast (addType t u) (a - b)

/-- `round(column, scale)`. -/
def roundType (t : DecimalType) (scale : ℕ) : DecimalType :=
  let scale := min t.scale scale
  ⟨min 38 (t.precision - t.scale + 1 + scale), scale⟩

def round (t : DecimalType) (scale : ℕ) (q : ℚ) : Option ℚ := cast (roundType t scale) q

def divType (t u : DecimalType) : DecimalType :=
  let scale := max 6 (t.scale + u.precision + 1)
  adjust (t.precision - t.scale + u.scale + scale) scale

/-- `a / b`: the quotient has 38 digits after the point before it is brought into its
type. -/
def divide (t u : DecimalType) (a b : ℚ) : Option ℚ :=
  if b = 0 then none else cast (divType t u) (roundHalfUp 38 (a / b))

/-- The type of the sum of a column. -/
def sumType (t : DecimalType) : DecimalType := ⟨min 38 (t.precision + 10), t.scale⟩

/-- `sum` of the values of a column that are not null: `NULL` without any, and when
the sum has too many digits. -/
def sum (t : DecimalType) (qs : List ℚ) : Option ℚ :=
  if qs = [] then none else cast (sumType t) qs.sum

example : divType ⟨38, 0⟩ ⟨19, 0⟩ = ⟨38, 6⟩ := rfl

example : addType ⟨38, 18⟩ ⟨38, 18⟩ = ⟨38, 17⟩ := rfl

/-! ### Rounding keeps the order -/

theorem roundHalfUp_of_nonneg {s : ℕ} {q : ℚ} (h : 0 ≤ q) :
    roundHalfUp s q = ⌊q * 10 ^ s + 1 / 2⌋ / 10 ^ s := if_pos h

theorem roundHalfUp_of_neg {s : ℕ} {q : ℚ} (h : q < 0) :
    roundHalfUp s q = -(⌊-q * 10 ^ s + 1 / 2⌋ / 10 ^ s) := if_neg (not_le.mpr h)

theorem roundHalfUp_nonneg {s : ℕ} {q : ℚ} (h : 0 ≤ q) : 0 ≤ roundHalfUp s q := by
  rw [roundHalfUp_of_nonneg h]
  have hfloor : 0 ≤ ⌊q * 10 ^ s + 1 / 2⌋ := Int.floor_nonneg.mpr (by positivity)
  positivity

theorem roundHalfUp_nonpos {s : ℕ} {q : ℚ} (h : q < 0) : roundHalfUp s q ≤ 0 := by
  rw [roundHalfUp_of_neg h]
  have hq : 0 ≤ -q := by linarith
  have hfloor : 0 ≤ ⌊-q * 10 ^ s + 1 / 2⌋ := Int.floor_nonneg.mpr (by positivity)
  have : (0 : ℚ) ≤ ⌊-q * 10 ^ s + 1 / 2⌋ / 10 ^ s := by positivity
  linarith

/-- **Rounding keeps the order.** -/
theorem roundHalfUp_mono {s : ℕ} {p q : ℚ} (h : p ≤ q) : roundHalfUp s p ≤ roundHalfUp s q := by
  have hfloor : ∀ {x y : ℚ}, x ≤ y →
      ((⌊x * 10 ^ s + 1 / 2⌋ : ℤ) : ℚ) / 10 ^ s ≤ ⌊y * 10 ^ s + 1 / 2⌋ / 10 ^ s := by
    intro x y hxy
    have hle : ⌊x * 10 ^ s + 1 / 2⌋ ≤ ⌊y * 10 ^ s + 1 / 2⌋ := by
      gcongr
    gcongr
  rcases lt_or_ge p 0 with hp | hp
  · rcases lt_or_ge q 0 with hq | hq
    · rw [roundHalfUp_of_neg hp, roundHalfUp_of_neg hq]
      exact neg_le_neg (hfloor (neg_le_neg h))
    · exact (roundHalfUp_nonpos hp).trans (roundHalfUp_nonneg hq)
  · rw [roundHalfUp_of_nonneg hp, roundHalfUp_of_nonneg (hp.trans h)]
    exact hfloor h

/-- What has no more digits than asked for is not changed. -/
theorem roundHalfUp_of_exact {s : ℕ} {q : ℚ} {n : ℤ} (h : q * 10 ^ s = n) :
    roundHalfUp s q = q := by
  have hhalf : ∀ m : ℤ, ⌊(m : ℚ) + 1 / 2⌋ = m := by
    intro m
    rw [Int.floor_eq_iff]
    constructor <;> linarith
  have hdiv : (n : ℚ) / 10 ^ s = q := by rw [← h]; field_simp
  rcases lt_or_ge q 0 with hq | hq
  · have hneg : -q * 10 ^ s = ((-n : ℤ) : ℚ) := by push_cast; linarith
    rw [roundHalfUp_of_neg hq, hneg, hhalf]
    push_cast
    rw [neg_div, neg_neg, hdiv]
  · rw [roundHalfUp_of_nonneg hq, h, hhalf, hdiv]

/-- **From half a digit below** a number is rounded up. -/
theorem le_roundHalfUp_iff {s : ℕ} {q : ℚ} (hq : 0 ≤ q) {m : ℤ} :
    (m : ℚ) / 10 ^ s ≤ roundHalfUp s q ↔ (m - 1 / 2) / 10 ^ s ≤ q := by
  have hpow : (0 : ℚ) < 10 ^ s := by positivity
  rw [roundHalfUp_of_nonneg hq, div_le_div_iff_of_pos_right hpow, Int.cast_le, Int.le_floor,
    div_le_iff₀ hpow]
  constructor
  · intro h
    linarith
  · intro h
    linarith

theorem roundHalfUp_intCast (s : ℕ) (n : ℤ) : roundHalfUp s n = n :=
  roundHalfUp_of_exact (n := n * 10 ^ s) (by push_cast; rfl)

/-- Rounding moves a number by half a digit at most. -/
theorem abs_roundHalfUp_sub_le (s : ℕ) (q : ℚ) : |roundHalfUp s q - q| ≤ 1 / (2 * 10 ^ s) := by
  have hfloor : ∀ x : ℚ, |⌊x * 10 ^ s + 1 / 2⌋ / 10 ^ s - x| ≤ 1 / (2 * 10 ^ s) := by
    intro x
    have hpow : (0 : ℚ) < 10 ^ s := by positivity
    have hlow := Int.floor_le (x * 10 ^ s + 1 / 2)
    have hhigh := Int.lt_floor_add_one (x * 10 ^ s + 1 / 2)
    have hdiff : (⌊x * 10 ^ s + 1 / 2⌋ : ℚ) / 10 ^ s - x =
        (⌊x * 10 ^ s + 1 / 2⌋ - x * 10 ^ s) / 10 ^ s := by
      field_simp
    have hhalf : (1 : ℚ) / (2 * 10 ^ s) = 1 / 2 / 10 ^ s := by field_simp
    rw [hdiff, hhalf, abs_div, abs_of_pos hpow, div_le_div_iff_of_pos_right hpow, abs_le]
    constructor
    · linarith
    · linarith
  rcases lt_or_ge q 0 with hq | hq
  · rw [roundHalfUp_of_neg hq, ← abs_neg]
    have h := hfloor (-q)
    rwa [show -(-((⌊-q * 10 ^ s + 1 / 2⌋ : ℚ) / 10 ^ s) - q) = ⌊-q * 10 ^ s + 1 / 2⌋ / 10 ^ s - -q by ring]
  · rw [roundHalfUp_of_nonneg hq]
    exact hfloor q

/-! ### What a type has room for -/

theorem cast_eq_some {t : DecimalType} {q r : ℚ} (h : cast t q = some r) :
    r = roundHalfUp t.scale q ∧ |r| * 10 ^ t.scale < 10 ^ t.precision := by
  unfold cast at h
  dsimp only at h
  split at h
  · next hlt =>
    cases h
    exact ⟨rfl, hlt⟩
  · cases h

/-- **A type has room** for what lies between integers it has room for. -/
theorem cast_of_le {t : DecimalType} {q : ℚ} {n : ℕ} (hq : 0 ≤ q) (hn : q ≤ n)
    (hroom : n * 10 ^ t.scale < 10 ^ t.precision) :
    cast t q = some (roundHalfUp t.scale q) := by
  have hpos := roundHalfUp_nonneg (s := t.scale) hq
  have hle : roundHalfUp t.scale q ≤ n := by
    have := roundHalfUp_mono (s := t.scale) hn
    rwa [show ((n : ℕ) : ℚ) = ((n : ℤ) : ℚ) by norm_cast, roundHalfUp_intCast] at this
  unfold cast
  dsimp only
  rw [if_pos]
  rw [abs_of_nonneg hpos]
  calc roundHalfUp t.scale q * 10 ^ t.scale ≤ n * 10 ^ t.scale := by gcongr
    _ < 10 ^ t.precision := by exact_mod_cast hroom

theorem abs_roundHalfUp_le {s : ℕ} {q : ℚ} {n : ℕ} (h : |q| ≤ n) : |roundHalfUp s q| ≤ n := by
  obtain ⟨hlow, hhigh⟩ := abs_le.mp h
  have hlow := roundHalfUp_mono (s := s) hlow
  have hhigh := roundHalfUp_mono (s := s) hhigh
  rw [show (-(n : ℚ)) = ((-(n : ℤ) : ℤ) : ℚ) by push_cast; rfl, roundHalfUp_intCast] at hlow
  rw [show (n : ℚ) = ((n : ℤ) : ℚ) by norm_cast, roundHalfUp_intCast] at hhigh
  rw [abs_le]
  push_cast at hlow hhigh
  exact ⟨hlow, hhigh⟩

/-- A type has room for what lies between an integer it has room for and its negative. -/
theorem cast_of_abs_le {t : DecimalType} {q : ℚ} {n : ℕ} (hq : |q| ≤ n)
    (hroom : n * 10 ^ t.scale < 10 ^ t.precision) :
    cast t q = some (roundHalfUp t.scale q) := by
  have hle := abs_roundHalfUp_le (s := t.scale) hq
  unfold cast
  dsimp only
  rw [if_pos]
  calc |roundHalfUp t.scale q| * 10 ^ t.scale ≤ n * 10 ^ t.scale := by gcongr
    _ < 10 ^ t.precision := by exact_mod_cast hroom

/-! ### Numbers that a type has -/

/-- A number that a type has, digit for digit. -/
structure Fits (t : DecimalType) (q : ℚ) : Prop where
  exact : ∃ n : ℤ, q * 10 ^ t.scale = n
  room : |q| * 10 ^ t.scale < 10 ^ t.precision

theorem cast_of_fits {t : DecimalType} {q : ℚ} (h : Fits t q) : cast t q = some q := by
  obtain ⟨n, hn⟩ := h.exact
  unfold cast
  dsimp only
  rw [roundHalfUp_of_exact hn, if_pos h.room]

theorem fits_natCast {t : DecimalType} {n : ℕ} (h : n * 10 ^ t.scale < 10 ^ t.precision) :
    Fits t n where
  exact := ⟨n * 10 ^ t.scale, by push_cast; rfl⟩
  room := by
    rw [Nat.abs_cast]
    exact_mod_cast h

theorem roundHalfUp_exact (s : ℕ) (q : ℚ) : ∃ n : ℤ, roundHalfUp s q * 10 ^ s = n := by
  have hpow : (10 : ℚ) ^ s ≠ 0 := by positivity
  unfold roundHalfUp
  split
  · exact ⟨_, div_mul_cancel₀ _ hpow⟩
  · refine ⟨-⌊-q * 10 ^ s + 1 / 2⌋, ?_⟩
    rw [neg_mul, div_mul_cancel₀ _ hpow, Int.cast_neg]

/-- What is brought into a type fits it. -/
theorem fits_of_cast {t : DecimalType} {q r : ℚ} (h : cast t q = some r) : Fits t r := by
  obtain ⟨rfl, hroom⟩ := cast_eq_some h
  exact ⟨roundHalfUp_exact _ _, hroom⟩

theorem exact_sum {s : ℕ} {qs : List ℚ} (h : ∀ q ∈ qs, ∃ n : ℤ, q * 10 ^ s = n) :
    ∃ n : ℤ, qs.sum * 10 ^ s = n := by
  induction qs with
  | nil => exact ⟨0, by simp⟩
  | cons q qs ih =>
    obtain ⟨m, hm⟩ := h q List.mem_cons_self
    obtain ⟨n, hn⟩ := ih fun r hr => h r (List.mem_cons_of_mem _ hr)
    exact ⟨m + n, by rw [List.sum_cons, add_mul, hm, hn, Int.cast_add]⟩

/-- **A sum with room is exact.** -/
theorem sum_of_room {t : DecimalType} {qs : List ℚ} (hne : qs ≠ []) (h : ∀ q ∈ qs, Fits t q)
    (hroom : |qs.sum| * 10 ^ t.scale < 10 ^ (sumType t).precision) : sum t qs = some qs.sum := by
  unfold sum
  rw [if_neg hne]
  exact cast_of_fits ⟨exact_sum fun q hq => (h q hq).exact, hroom⟩

/-- Without values the sum is null, and filled with zero. -/
theorem sum_getD {t : DecimalType} {qs : List ℚ} (h : ∀ q ∈ qs, Fits t q)
    (hroom : |qs.sum| * 10 ^ t.scale < 10 ^ (sumType t).precision) : (sum t qs).getD 0 = qs.sum := by
  by_cases hne : qs = []
  · subst hne
    rfl
  · rw [sum_of_room hne h hroom, Option.getD_some]

end Decimal

/-! ### Doubles next to integers -/

namespace Binary64

theorem scale_eq (q : ℚ) (e : ℤ) : scale q e = q * 2 ^ (-e) := by
  unfold scale
  split
  · next h =>
    obtain ⟨n, rfl⟩ := Int.eq_ofNat_of_zero_le h
    rw [Rat.mkRat_eq_div, zpow_neg, Int.toNat_natCast, zpow_natCast]
    push_cast
    rw [← div_div, Rat.num_div_den]
    rfl
  · next h =>
    obtain ⟨n, hn⟩ := Int.eq_ofNat_of_zero_le (show 0 ≤ -e by omega)
    rw [Rat.mkRat_eq_div, hn, Int.toNat_natCast, zpow_natCast]
    push_cast
    rw [mul_div_right_comm, Rat.num_div_den]

theorem two_zpow_pos (e : ℤ) : (0 : ℚ) < 2 ^ e := zpow_pos two_pos e

theorem floor_le_roundHalfEven (q : ℚ) : ⌊q⌋ ≤ roundHalfEven q := by
  rw [Rat.floor_def']
  unfold roundHalfEven
  dsimp only
  split_ifs <;> omega

/-- An integer below stays below. -/
theorem le_roundHalfEven {n : ℤ} {q : ℚ} (h : (n : ℚ) ≤ q) : n ≤ roundHalfEven q :=
  (Int.le_floor.mpr h).trans (floor_le_roundHalfEven q)

/-- What is not positive is not rounded past zero. -/
theorem roundHalfEven_nonpos {q : ℚ} (h : q ≤ 0) : roundHalfEven q ≤ 0 := by
  have hden : (0 : ℤ) < q.den := by exact_mod_cast q.den_pos
  have hdiv := Int.emod_add_mul_ediv q.num q.den
  have hmod := Int.emod_nonneg q.num hden.ne'
  have hnum : q.num ≤ 0 := Rat.num_nonpos.mpr h
  -- with a remainder the floor is negative
  have hneg : 0 < q.num % q.den → q.num / q.den < 0 := by
    intro hpos
    by_contra hfloor
    have := Int.mul_nonneg hden.le (Int.not_lt.mp hfloor)
    omega
  have hfloor : q.num / q.den ≤ 0 := by
    by_contra hfloor
    have := Int.mul_pos hden (Int.not_le.mp hfloor)
    omega
  unfold roundHalfEven
  dsimp only
  split_ifs <;> omega

theorem abs_eq_div (q : ℚ) : |q| = (q.num.natAbs : ℚ) / q.den := by
  conv_lhs => rw [← Rat.num_div_den q, abs_div, Nat.abs_cast]
  rw [Nat.cast_natAbs, Int.cast_abs]

/-- The leading bit of `q`. -/
theorem leading_spec {q : ℚ} (h : q ≠ 0) :
    (2 : ℚ) ^ leading q ≤ |q| ∧ |q| < 2 ^ (leading q + 1) := by
  have hnum : q.num.natAbs ≠ 0 := by simpa using h
  have hden : q.den ≠ 0 := q.den_nz
  have hden0 : (0 : ℚ) < q.den := by exact_mod_cast q.den_pos
  have hn : ((2 : ℚ) ^ (Nat.log2 q.num.natAbs : ℤ) ≤ q.num.natAbs) ∧
      ((q.num.natAbs : ℚ) < 2 ^ ((Nat.log2 q.num.natAbs : ℤ) + 1)) := by
    constructor
    · exact_mod_cast Nat.log2_self_le hnum
    · exact_mod_cast Nat.lt_log2_self
  have hd : ((2 : ℚ) ^ (Nat.log2 q.den : ℤ) ≤ q.den) ∧
      ((q.den : ℚ) < 2 ^ ((Nat.log2 q.den : ℤ) + 1)) := by
    constructor
    · exact_mod_cast Nat.log2_self_le hden
    · exact_mod_cast Nat.lt_log2_self
  have hlow : (2 : ℚ) ^ ((Nat.log2 q.num.natAbs : ℤ) - Nat.log2 q.den - 1) ≤ |q| := by
    rw [abs_eq_div, le_div_iff₀ hden0]
    calc (2 : ℚ) ^ ((Nat.log2 q.num.natAbs : ℤ) - Nat.log2 q.den - 1) * q.den
        ≤ 2 ^ ((Nat.log2 q.num.natAbs : ℤ) - Nat.log2 q.den - 1)
            * 2 ^ ((Nat.log2 q.den : ℤ) + 1) :=
          mul_le_mul_of_nonneg_left hd.2.le (two_zpow_pos _).le
      _ = 2 ^ (Nat.log2 q.num.natAbs : ℤ) := by
          rw [← zpow_add₀ two_ne_zero]
          congr 1
          ring
      _ ≤ q.num.natAbs := hn.1
  have hhigh : |q| < 2 ^ ((Nat.log2 q.num.natAbs : ℤ) - Nat.log2 q.den + 1) := by
    rw [abs_eq_div, div_lt_iff₀ hden0]
    calc (q.num.natAbs : ℚ) < 2 ^ ((Nat.log2 q.num.natAbs : ℤ) + 1) := hn.2
      _ = 2 ^ ((Nat.log2 q.num.natAbs : ℤ) - Nat.log2 q.den + 1) * 2 ^ (Nat.log2 q.den : ℤ) := by
          rw [← zpow_add₀ two_ne_zero]
          congr 1
          ring
      _ ≤ 2 ^ ((Nat.log2 q.num.natAbs : ℤ) - Nat.log2 q.den + 1) * q.den :=
          mul_le_mul_of_nonneg_left hd.1 (two_zpow_pos _).le
  have hscale : ∀ e : ℤ, 1 ≤ |scale q e| ↔ (2 : ℚ) ^ e ≤ |q| := by
    intro e
    rw [scale_eq, abs_mul, abs_of_pos (two_zpow_pos (-e)), zpow_neg, ← div_eq_mul_inv,
      le_div_iff₀ (two_zpow_pos e), one_mul]
  unfold leading
  dsimp only
  split
  · next hge => exact ⟨(hscale _).mp hge, hhigh⟩
  · next hlt =>
    refine ⟨hlow, ?_⟩
    rw [sub_add_cancel]
    exact not_le.mp fun hle => hlt ((hscale _).mpr hle)

/-- A multiple of the last place below `q` stays below. -/
theorem le_nearest_of_mul {q : ℚ} (hq : q ≠ 0) {k : ℤ} (h : k * 2 ^ lastPlace q ≤ q) :
    k * 2 ^ lastPlace q ≤ nearest q := by
  have hpos := two_zpow_pos (lastPlace q)
  have hk : k ≤ roundHalfEven (scale q (lastPlace q)) := by
    refine le_roundHalfEven ?_
    rw [scale_eq, zpow_neg, ← div_eq_mul_inv, le_div_iff₀ hpos]
    exact h
  rw [nearest, if_neg hq, scale_eq, neg_neg]
  exact mul_le_mul_of_nonneg_right (by exact_mod_cast hk) hpos.le

/-- **Integers that have a double** stay below what is rounded. -/
theorem le_nearest {n : ℕ} {q : ℚ} (hn : n ≤ 2 ^ 53) (h : (n : ℚ) ≤ q) : (n : ℚ) ≤ nearest q := by
  rcases Nat.eq_zero_or_pos n with rfl | hpos
  · rcases eq_or_ne q 0 with rfl | hq
    · simp [nearest]
    · simpa using le_nearest_of_mul (k := 0) hq (by simpa using h)
  have hq0 : 0 < q := lt_of_lt_of_le (by exact_mod_cast hpos) h
  obtain ⟨hlow, hhigh⟩ := leading_spec hq0.ne'
  rw [abs_of_pos hq0] at hlow hhigh
  have hleading : 0 ≤ leading q := by
    have hone : (2 : ℚ) ^ (0 : ℤ) < 2 ^ (leading q + 1) := by
      rw [zpow_zero]
      exact lt_of_le_of_lt (le_trans (by exact_mod_cast hpos) h) hhigh
    have := (zpow_lt_zpow_iff_right₀ (by norm_num : (1 : ℚ) < 2)).mp hone
    omega
  have hlast : lastPlace q = leading q - 52 := by
    unfold lastPlace
    omega
  rcases le_or_gt (n : ℚ) (2 ^ leading q) with hle | hgt
  · -- the leading power of two is between them
    have hmul : ((2 ^ 52 : ℤ) : ℚ) * 2 ^ lastPlace q = 2 ^ leading q := by
      rw [hlast, zpow_sub₀ two_ne_zero]
      field_simp
      norm_num
    exact hle.trans (hmul ▸ le_nearest_of_mul hq0.ne' (hmul ▸ hlow))
  · -- the integer is a multiple of the last place
    have hsmall : leading q < 53 := by
      have : (2 : ℚ) ^ leading q < 2 ^ (53 : ℤ) := lt_of_lt_of_le hgt (by exact_mod_cast hn)
      exact (zpow_lt_zpow_iff_right₀ (by norm_num : (1 : ℚ) < 2)).mp this
    obtain ⟨m, hm⟩ := Int.eq_ofNat_of_zero_le (show 0 ≤ -lastPlace q by omega)
    have hmul : ((n * 2 ^ m : ℤ) : ℚ) * 2 ^ lastPlace q = n := by
      rw [show lastPlace q = -(m : ℤ) by omega, zpow_neg, zpow_natCast]
      push_cast
      field_simp
    have hnearest := le_nearest_of_mul hq0.ne' (hmul.trans_le h)
    rwa [hmul] at hnearest

theorem roundHalfEven_le {n : ℤ} {q : ℚ} (h : q ≤ n) : roundHalfEven q ≤ n := by
  have hden : (0 : ℤ) < q.den := by exact_mod_cast q.den_pos
  have hdiv := Int.emod_add_mul_ediv q.num q.den
  have hmod := Int.emod_nonneg q.num hden.ne'
  have hnum : q.num ≤ n * q.den := by
    have hle : (q.num : ℚ) ≤ n * q.den := by
      rw [← div_le_iff₀ (by exact_mod_cast hden), Rat.num_div_den]
      exact h
    exact_mod_cast hle
  -- with a remainder the floor is below
  have hlt : 0 < q.num % q.den → q.num / q.den < n := by
    intro hpos
    by_contra hge
    have := mul_le_mul_of_nonneg_left (not_lt.mp hge) hden.le
    linarith
  have hle : q.num / q.den ≤ n := by
    by_contra hgt
    have := mul_lt_mul_of_pos_left (not_le.mp hgt) hden
    linarith
  unfold roundHalfEven
  dsimp only
  split_ifs <;> omega

/-- A multiple of the last place above `q` stays above. -/
theorem nearest_le_of_mul {q : ℚ} (hq : q ≠ 0) {k : ℤ} (h : q ≤ k * 2 ^ lastPlace q) :
    nearest q ≤ k * 2 ^ lastPlace q := by
  have hpos := two_zpow_pos (lastPlace q)
  have hk : roundHalfEven (scale q (lastPlace q)) ≤ k := by
    refine roundHalfEven_le ?_
    rw [scale_eq, zpow_neg, ← div_eq_mul_inv, div_le_iff₀ hpos]
    exact h
  rw [nearest, if_neg hq, scale_eq, neg_neg]
  exact mul_le_mul_of_nonneg_right (by exact_mod_cast hk) hpos.le

/-- The leading bit of what is below a power of two. -/
theorem leading_lt {q : ℚ} (hq : 0 < q) {e : ℤ} (h : q < 2 ^ e) : leading q < e := by
  have hlow := (leading_spec hq.ne').1
  rw [abs_of_pos hq] at hlow
  exact (zpow_lt_zpow_iff_right₀ (by norm_num : (1 : ℚ) < 2)).mp (hlow.trans_lt h)

/-- Numbers of few binary digits are multiples of every smaller place. -/
theorem exists_mul_lastPlace {q : ℚ} {n : ℤ} {m : ℕ} (h : lastPlace q ≤ -m) :
    ∃ k : ℤ, (k : ℚ) * 2 ^ lastPlace q = n / 2 ^ m := by
  obtain ⟨j, hj⟩ := Int.eq_ofNat_of_zero_le (show 0 ≤ -m - lastPlace q by omega)
  refine ⟨n * 2 ^ j, ?_⟩
  rw [show lastPlace q = -((j + m : ℕ) : ℤ) by push_cast; omega, zpow_neg, zpow_natCast, pow_add]
  push_cast
  field_simp

theorem nearest_nonpos {q : ℚ} (h : q ≤ 0) : nearest q ≤ 0 := by
  unfold nearest
  split
  · exact le_refl _
  · rw [scale_eq, neg_neg]
    refine mul_nonpos_of_nonpos_of_nonneg ?_ (two_zpow_pos _).le
    have : scale q (lastPlace q) ≤ 0 := by
      rw [scale_eq]
      exact mul_nonpos_of_nonpos_of_nonneg h (two_zpow_pos _).le
    exact_mod_cast roundHalfEven_nonpos this

/-- **What is above one stays above one.** -/
theorem one_lt_nearest {q : ℚ} (h : 1 + 1 / 2 ^ 52 ≤ q) : 1 < nearest q := by
  have hone : (0 : ℚ) < 1 / 2 ^ 52 := by positivity
  rcases le_or_gt 2 q with htwo | htwo
  · have hle := le_nearest (n := 2) (by norm_num) (by exact_mod_cast htwo)
    push_cast at hle
    linarith
  · have hq : 0 < q := by linarith
    have hleading := leading_lt (e := 1) hq (by simpa using htwo)
    obtain ⟨k, hk⟩ := exists_mul_lastPlace (q := q) (n := 2 ^ 52 + 1) (m := 52)
      (by unfold lastPlace; omega)
    have hvalue : ((2 ^ 52 + 1 : ℤ) : ℚ) / 2 ^ 52 = 1 + 1 / 2 ^ 52 := by norm_num
    have hle := le_nearest_of_mul hq.ne' (hk.trans_le (hvalue.trans_le h))
    rw [hk, hvalue] at hle
    linarith

/-- What is at most one stays so. -/
theorem nearest_le_one {q : ℚ} (h : q ≤ 1) : nearest q ≤ 1 := by
  rcases le_or_gt q 0 with hzero | hpos
  · exact (nearest_nonpos hzero).trans zero_le_one
  · have hleading := leading_lt (e := 1) hpos (by norm_num; linarith)
    obtain ⟨k, hk⟩ := exists_mul_lastPlace (q := q) (n := 1) (m := 0) (by unfold lastPlace; omega)
    have hvalue : ((1 : ℤ) : ℚ) / 2 ^ 0 = 1 := by norm_num
    have hle := nearest_le_of_mul hpos.ne' (h.trans_eq (hvalue.symm.trans hk.symm))
    rwa [hk, hvalue] at hle

/-- **What is below one stays below one.** -/
theorem nearest_lt_one {q : ℚ} (h : q ≤ 1 - 1 / 2 ^ 53) : nearest q < 1 := by
  have hone : (0 : ℚ) < 1 / 2 ^ 53 := by positivity
  rcases le_or_gt q 0 with hzero | hpos
  · exact (nearest_nonpos hzero).trans_lt zero_lt_one
  · have hleading := leading_lt (e := 0) hpos (by norm_num; linarith)
    obtain ⟨k, hk⟩ := exists_mul_lastPlace (q := q) (n := 2 ^ 53 - 1) (m := 53)
      (by unfold lastPlace; omega)
    have hvalue : ((2 ^ 53 - 1 : ℤ) : ℚ) / 2 ^ 53 = 1 - 1 / 2 ^ 53 := by norm_num
    have hle := nearest_le_of_mul hpos.ne' (h.trans_eq (hvalue.symm.trans hk.symm))
    rw [hk, hvalue] at hle
    linarith

end Binary64

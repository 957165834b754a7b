import EthPipeline.Base.Decimal

/-!
# Rounding keeps the order

* `roundHalfEven_mono`, `nearest_mono`: a number that is not above another does not become a
  double above it.
* `PyFloat.Le.ofRat`, `PyFloat.Le.divBy`: the same for floats, infinities among them.
-/

namespace Binary64

/-- Rounding by the fractional part. -/
theorem roundHalfEven_eq (q : ℚ) : roundHalfEven q =
    if 2 * Int.fract q < 1 then ⌊q⌋ else if 1 < 2 * Int.fract q then ⌊q⌋ + 1
    else if ⌊q⌋ % 2 = 0 then ⌊q⌋ else ⌊q⌋ + 1 := by
  have hden : (0 : ℚ) < q.den := by exact_mod_cast q.den_pos
  have hfract : Int.fract q * q.den = (q.num % q.den : ℤ) := by
    have hdiv : (q.num : ℚ) = (q.num % q.den : ℤ) + q.den * (q.num / q.den : ℤ) := by
      exact_mod_cast (Int.emod_add_mul_ediv q.num q.den).symm
    have hnum : q * q.den = q.num := Rat.mul_den_eq_num q
    rw [Int.fract, Rat.floor_def', sub_mul, hnum]
    linarith
  have hlt : 2 * Int.fract q < 1 ↔ 2 * (q.num % q.den) < q.den := by
    rw [← mul_lt_mul_iff_left₀ hden, mul_assoc, hfract, one_mul]
    exact_mod_cast Iff.rfl
  have hgt : 1 < 2 * Int.fract q ↔ (q.den : ℤ) < 2 * (q.num % q.den) := by
    rw [← mul_lt_mul_iff_left₀ hden, mul_assoc, hfract, one_mul]
    exact_mod_cast Iff.rfl
  rw [Rat.floor_def']
  unfold roundHalfEven
  simp only [hlt, hgt]

theorem roundHalfEven_mono {p q : ℚ} (h : p ≤ q) : roundHalfEven p ≤ roundHalfEven q := by
  rcases lt_or_eq_of_le (Int.floor_mono h) with hfloor | hfloor
  · -- an integer lies between them
    have hp : p ≤ (⌊p⌋ + 1 : ℤ) := by
      push_cast
      exact (Int.lt_floor_add_one p).le
    calc roundHalfEven p ≤ ⌊p⌋ + 1 := roundHalfEven_le hp
      _ ≤ ⌊q⌋ := hfloor
      _ ≤ roundHalfEven q := floor_le_roundHalfEven q
  · have hfract : Int.fract p ≤ Int.fract q := by
      unfold Int.fract
      rw [hfloor]
      linarith
    rw [roundHalfEven_eq p, roundHalfEven_eq q, hfloor]
    split_ifs <;> first | omega | linarith

/-- The leading bit of what is smaller in size. -/
theorem leading_mono {p q : ℚ} (hp : p ≠ 0) (hq : q ≠ 0) (h : |p| ≤ |q|) : leading p ≤ leading q := by
  have hlow := (leading_spec hp).1
  have hhigh := (leading_spec hq).2
  have hlt : (2 : ℚ) ^ leading p < 2 ^ (leading q + 1) := hlow.trans_lt (h.trans_lt hhigh)
  have := (zpow_lt_zpow_iff_right₀ (by norm_num : (1 : ℚ) < 2)).mp hlt
  omega

/-- A power of two is a multiple of every smaller place. -/
theorem exists_mul_eq_two_zpow {q : ℚ} {e : ℤ} (h : lastPlace q ≤ e) :
    ∃ k : ℤ, (k : ℚ) * 2 ^ lastPlace q = 2 ^ e := by
  obtain ⟨n, hn⟩ := Int.eq_ofNat_of_zero_le (show 0 ≤ e - lastPlace q by omega)
  refine ⟨2 ^ n, ?_⟩
  rw [show e = n + lastPlace q by omega, zpow_add₀ two_ne_zero, zpow_natCast]
  push_cast
  rfl

/-- With the same last place the integers decide. -/
theorem nearest_mono_of_lastPlace {p q : ℚ} (hp : p ≠ 0) (hq : q ≠ 0)
    (hplace : lastPlace p = lastPlace q) (h : p ≤ q) : nearest p ≤ nearest q := by
  have hpos := two_zpow_pos (lastPlace q)
  have hscale : scale p (lastPlace q) ≤ scale q (lastPlace q) := by
    rw [scale_eq, scale_eq]
    exact mul_le_mul_of_nonneg_right h (two_zpow_pos _).le
  have hround : (roundHalfEven (scale p (lastPlace q)) : ℚ) ≤ roundHalfEven (scale q (lastPlace q)) :=
    Int.cast_le.mpr (roundHalfEven_mono hscale)
  unfold nearest
  rw [if_neg hp, if_neg hq, hplace, scale_eq (roundHalfEven _), scale_eq (roundHalfEven _), neg_neg]
  exact mul_le_mul_of_nonneg_right hround hpos.le

theorem nearest_nonneg {q : ℚ} (h : 0 ≤ q) : 0 ≤ nearest q := by
  simpa using le_nearest (n := 0) (by norm_num) (by simpa using h)

/-- Of two numbers with different last places, a power of two lies between the doubles. -/
theorem nearest_mono_of_pos {p q : ℚ} (hp : 0 < p) (h : p ≤ q) : nearest p ≤ nearest q := by
  have hq : 0 < q := hp.trans_le h
  have hleading := leading_mono hp.ne' hq.ne' (by rwa [abs_of_pos hp, abs_of_pos hq])
  by_cases hplace : lastPlace p = lastPlace q
  · exact nearest_mono_of_lastPlace hp.ne' hq.ne' hplace h
  · have hlt : leading p + 1 ≤ leading q := by
      unfold lastPlace at hplace
      omega
    have hp₁ := (leading_spec hp.ne').2
    have hq₁ := (leading_spec hq.ne').1
    rw [abs_of_pos hp] at hp₁
    rw [abs_of_pos hq] at hq₁
    have hpow : (2 : ℚ) ^ (leading p + 1) ≤ 2 ^ leading q :=
      zpow_le_zpow_right₀ (by norm_num) hlt
    obtain ⟨k, hk⟩ := exists_mul_eq_two_zpow (q := p) (e := leading q)
      (by unfold lastPlace at hplace ⊢; omega)
    obtain ⟨m, hm⟩ := exists_mul_eq_two_zpow (q := q) (e := leading q)
      (by unfold lastPlace at hplace ⊢; omega)
    calc nearest p ≤ 2 ^ leading q :=
          hk ▸ nearest_le_of_mul hp.ne' (hk ▸ (hp₁.le.trans hpow))
      _ ≤ nearest q := hm ▸ le_nearest_of_mul hq.ne' (hm ▸ hq₁)

theorem nearest_mono_of_neg {p q : ℚ} (hq : q < 0) (h : p ≤ q) : nearest p ≤ nearest q := by
  have hp : p < 0 := h.trans_lt hq
  have hleading := leading_mono hq.ne hp.ne (by
    rw [abs_of_neg hp, abs_of_neg hq]
    linarith)
  by_cases hplace : lastPlace p = lastPlace q
  · exact nearest_mono_of_lastPlace hp.ne hq.ne hplace h
  · have hlt : leading q + 1 ≤ leading p := by
      unfold lastPlace at hplace
      omega
    have hp₁ := (leading_spec hp.ne).1
    have hq₁ := (leading_spec hq.ne).2
    rw [abs_of_neg hp] at hp₁
    rw [abs_of_neg hq] at hq₁
    have hpow : (2 : ℚ) ^ (leading q + 1) ≤ 2 ^ leading p :=
      zpow_le_zpow_right₀ (by norm_num) hlt
    obtain ⟨k, hk⟩ := exists_mul_eq_two_zpow (q := p) (e := leading p)
      (by unfold lastPlace at hplace ⊢; omega)
    obtain ⟨m, hm⟩ := exists_mul_eq_two_zpow (q := q) (e := leading p)
      (by unfold lastPlace at hplace ⊢; omega)
    have hk' : ((-k : ℤ) : ℚ) * 2 ^ lastPlace p = -2 ^ leading p := by
      rw [← hk]
      push_cast
      ring
    have hm' : ((-m : ℤ) : ℚ) * 2 ^ lastPlace q = -2 ^ leading p := by
      rw [← hm]
      push_cast
      ring
    calc nearest p ≤ -2 ^ leading p := by
          rw [← hk']
          refine nearest_le_of_mul hp.ne ?_
          rw [hk']
          linarith
      _ ≤ nearest q := by
          rw [← hm']
          refine le_nearest_of_mul hq.ne ?_
          rw [hm']
          linarith

/-- **Rounding to a double keeps the order.** -/
theorem nearest_mono {p q : ℚ} (h : p ≤ q) : nearest p ≤ nearest q := by
  rcases lt_trichotomy q 0 with hq | rfl | hq
  · exact nearest_mono_of_neg hq h
  · exact (nearest_nonpos h).trans (nearest_nonneg le_rfl)
  · rcases le_or_gt p 0 with hp | hp
    · exact (nearest_nonpos hp).trans (nearest_nonneg hq.le)
    · exact nearest_mono_of_pos hp h

end Binary64

namespace PyFloat

/-- `x <= y`. -/
def Le : PyFloat → PyFloat → Prop
  | .finite p, .finite q => p ≤ q
  | .finite _, .inf negative => negative = false
  | .inf negative, .finite _ => negative = true
  | .inf negative, .inf negative' => negative = true ∨ negative' = false
  | _, _ => False

namespace Le

/-- A rational as a float. -/
theorem ofRat {p q : ℚ} (h : p ≤ q) : (PyFloat.ofRat p).Le (PyFloat.ofRat q) := by
  unfold PyFloat.ofRat Binary64.ofRat
  by_cases hp : |p| < Binary64.halfwayMax
  · by_cases hq : |q| < Binary64.halfwayMax
    · rw [if_pos hp, if_pos hq]
      exact Binary64.nearest_mono h
    · rw [if_pos hp, if_neg hq]
      have hpos : ¬ q < 0 := by
        intro hneg
        rw [abs_of_neg hneg] at hq
        rw [abs_of_neg (h.trans_lt hneg)] at hp
        linarith
      exact decide_eq_false hpos
  · rw [if_neg hp]
    by_cases hneg : p < 0
    · have htrue : decide (p < 0) = true := decide_eq_true hneg
      by_cases hq : |q| < Binary64.halfwayMax
      · rw [if_pos hq]
        exact htrue
      · rw [if_neg hq]
        exact .inl htrue
    · have hq : ¬ |q| < Binary64.halfwayMax := by
        intro hq
        rw [abs_of_nonneg ((not_lt.mp hneg).trans h)] at hq
        rw [abs_of_nonneg (not_lt.mp hneg)] at hp
        linarith
      rw [if_neg hq]
      exact .inr (decide_eq_false (not_lt.mpr ((not_lt.mp hneg).trans h)))

/-- A function that keeps the order of the finite floats and leaves the others. -/
theorem of_finite {f : PyFloat → PyFloat} (hinf : ∀ negative, f (.inf negative) = .inf negative)
    (hfinite : ∀ p q : ℚ, p ≤ q → (f (.finite p)).Le (f (.finite q)))
    (hnan : ∀ q, f (.finite q) ≠ .nan) {x y : PyFloat} (h : x.Le y) : (f x).Le (f y) := by
  have hbelow : ∀ q, (PyFloat.inf true).Le (f (.finite q)) := by
    intro q
    cases hvalue : f (.finite q) with
    | finite r => rfl
    | inf negative => exact .inl rfl
    | nan => exact absurd hvalue (hnan q)
  have habove : ∀ q, (f (.finite q)).Le (.inf false) := by
    intro q
    cases hvalue : f (.finite q) with
    | finite r => rfl
    | inf negative => exact .inr rfl
    | nan => exact absurd hvalue (hnan q)
  cases x with
  | finite p =>
    cases y with
    | finite q => exact hfinite p q h
    | inf negative =>
      obtain rfl : negative = false := h
      rw [hinf]
      exact habove p
    | nan => exact h.elim
  | inf negative =>
    rw [hinf]
    cases y with
    | finite q =>
      obtain rfl : negative = true := h
      exact hbelow q
    | inf negative' =>
      rw [hinf]
      exact h
    | nan => exact h.elim
  | nan => cases y <;> exact h.elim

theorem ofRat_ne_nan (q : ℚ) : PyFloat.ofRat q ≠ .nan := by
  unfold PyFloat.ofRat
  cases Binary64.ofRat q <;> nofun

/-- Division by a positive number. -/
theorem divBy {x y : PyFloat} (h : x.Le y) {d : ℚ} (hd : 0 < d) : (x.divBy d).Le (y.divBy d) := by
  refine of_finite (f := fun x => x.divBy d) (fun _ => rfl) (fun p q hpq => ?_)
    (fun q => ofRat_ne_nan _) h
  exact ofRat (div_le_div_of_nonneg_right hpq hd.le)

end Le

end PyFloat

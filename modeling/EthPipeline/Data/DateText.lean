import EthPipeline.Data.IsoText
import Mathlib.Data.List.Basic

/-!
# The day behind a date

A day can be read back from its year, month and day of the month, and from the text that
`strftime("%Y-%m-%d")` makes of them.

* `dayOf_civil`: the inverse of `civil`.
* `dateText_injective`: from 1970 on, two days with the same text are the same.
-/

/-- The day with a year, a month and a day of the month. -/
def dayOf : ℤ × ℤ × ℤ → ℤ
  | (year, month, dayOfMonth) =>
    let marchYear := if month ≤ 2 then year - 1 else year
    let shifted := if month ≤ 2 then month + 9 else month - 3
    let yearOfEra := marchYear % 400
    let dayOfYear := (153 * shifted + 2) / 5 + dayOfMonth - 1
    marchYear / 400 * 146097 + 365 * yearOfEra + yearOfEra / 4 - yearOfEra / 100 + dayOfYear - 719468

/-- The year of a day of a century that begins on the day `36524 * c` of its era. -/
theorem year_of_century {r s q c : ℤ} (hr : 0 ≤ r) (hr' : r < 36524) (hc : 0 ≤ c) (hc' : c < 4)
    (hq : q = (24 * c + r) / 1460) (hs : s = (r - q) / 365) :
    0 ≤ s ∧ s < 100 ∧ 365 * s + s / 4 ≤ r ∧ r ≤ 365 * s + s / 4 + 366 := by
  have hle : 365 * s ≤ r - q := by omega
  have hlt : r - q < 365 * s + 365 := by omega
  have hquarter : s / 4 ≤ q := by omega
  refine ⟨by omega, by omega, by omega, by omega⟩

theorem year_of_era {d y : ℤ} (hd : 0 ≤ d) (hd' : d < 146097)
    (hy : y = (d - d / 1460 + d / 36524 - d / 146096) / 365) :
    0 ≤ y ∧ y < 400 ∧ 365 * y + y / 4 - y / 100 ≤ d ∧ d ≤ 365 * y + y / 4 - y / 100 + 366 := by
  by_cases hlast : d = 146096
  · subst hlast
    subst hy
    decide
  · obtain ⟨hs, hs', hlow, hhigh⟩ := year_of_century (r := d % 36524) (c := d / 36524) (by omega)
      (by omega) (by omega) (by omega) rfl rfl
    have hyear : y = 100 * (d / 36524) +
        (d % 36524 - (24 * (d / 36524) + d % 36524) / 1460) / 365 := by omega
    generalize (d % 36524 - (24 * (d / 36524) + d % 36524) / 1460) / 365 = s at *
    have hquarter : y / 4 = 25 * (d / 36524) + s / 4 := by omega
    have hcentury : y / 100 = d / 36524 := by omega
    rw [hquarter, hcentury]
    refine ⟨by omega, by omega, by omega, by omega⟩

/-- The inverse of `civil`. -/
theorem dayOf_civil (day : ℤ) : dayOf (civil day) = day := by
  unfold civil dayOf
  dsimp only
  generalize hd : (day + 719468) % 146097 = d
  generalize hera : (day + 719468) / 146097 = era
  generalize hy : (d - d / 1460 + d / 36524 - d / 146096) / 365 = y
  obtain ⟨hy₀, hy₁, hlow, hhigh⟩ := year_of_era (by omega) (by omega) hy.symm
  generalize hn : d - (365 * y + y / 4 - y / 100) = n
  generalize hm : (5 * n + 2) / 153 = m
  have hmonth : 0 ≤ m ∧ m < 12 := by omega
  have hdiv : (y + era * 400) / 400 = era := by omega
  have hmod : (y + era * 400) % 400 = y := by omega
  by_cases hten : m < 10
  · have hlate : ¬ m + 3 ≤ 2 := by omega
    simp only [hten, hlate, ↓reduceIte, hdiv, hmod]
    omega
  · have hearly : m - 9 ≤ 2 := by omega
    simp only [hten, hearly, ↓reduceIte, add_sub_cancel_right, hdiv, hmod]
    omega

/-- From 1970 on there are no negative numbers in a date. -/
theorem civil_nonneg {day : ℤ} (h : 0 ≤ day) :
    0 ≤ (civil day).1 ∧ 0 ≤ (civil day).2.1 ∧ 0 ≤ (civil day).2.2 := by
  unfold civil
  dsimp only
  generalize hd : (day + 719468) % 146097 = d
  generalize hera : (day + 719468) / 146097 = era
  generalize hy : (d - d / 1460 + d / 36524 - d / 146096) / 365 = y
  obtain ⟨hy₀, hy₁, hlow, hhigh⟩ := year_of_era (by omega) (by omega) hy.symm
  generalize hn : d - (365 * y + y / 4 - y / 100) = n
  generalize hm : (5 * n + 2) / 153 = m
  refine ⟨?_, ?_, by omega⟩
  · split <;> split <;> omega
  · split <;> omega

/-! ### Texts -/

/-- The digits of a number, with zeros in front. -/
theorem toList_padded (width : ℕ) (n : ℤ) :
    ∃ zeros, (padded width n).toList = List.replicate zeros '0' ++ Nat.toDigits 10 n.toNat := by
  refine ⟨width - (toString n.toNat).length, ?_⟩
  unfold padded
  rw [String.toList_append, String.toList_ofList]
  exact congrArg _ (Nat.toList_repr ..)

theorem not_mem_padded (width : ℕ) (n : ℤ) : '-' ∉ (padded width n).toList := by
  obtain ⟨zeros, htext⟩ := toList_padded width n
  rw [htext, List.mem_append]
  rintro (h | h)
  · exact absurd (List.eq_of_mem_replicate h) (by decide)
  · exact absurd (Nat.isDigit_of_mem_toDigits (by decide) (by decide) h) (by decide)

theorem padded_inj {width : ℕ} {m n : ℤ} (hm : 0 ≤ m) (hn : 0 ≤ n)
    (h : (padded width m).toList = (padded width n).toList) : m = n := by
  obtain ⟨zeros, hdigits⟩ := toList_padded width m
  obtain ⟨zeros', hdigits'⟩ := toList_padded width n
  have hvalue : ∀ (k : ℕ) (a : ℕ),
      Nat.ofDigitChars 10 (List.replicate k '0' ++ Nat.toDigits 10 a) 0 = a := by
    intro k a
    rw [Nat.ofDigitChars_append, Nat.ofDigitChars_replicate_zero, Nat.mul_zero,
      Nat.ofDigitChars_ten_toDigits]
  have hnat : m.toNat = n.toNat := by
    rw [← hvalue zeros m.toNat, ← hdigits, h, hdigits', hvalue]
  omega

/-- What stands before the first hyphen is the same, and so is what stands after it. -/
theorem split_at_hyphen {as bs as' bs' : List Char} (ha : '-' ∉ as) (hb : '-' ∉ bs)
    (h : as ++ '-' :: as' = bs ++ '-' :: bs') : as = bs ∧ as' = bs' := by
  have hbefore : ∀ cs cs' : List Char, '-' ∉ cs → (cs ++ '-' :: cs').takeWhile (· ≠ '-') = cs := by
    intro cs cs' hcs
    rw [List.takeWhile_append_of_pos]
    · simp
    · intro c hc
      have hne : c ≠ '-' := by
        rintro rfl
        exact hcs hc
      simpa using hne
  have hfirst : as = bs := by rw [← hbefore as as' ha, h, hbefore bs bs' hb]
  subst hfirst
  exact ⟨rfl, (List.cons.inj (List.append_cancel_left h)).2⟩

theorem toList_dateText (day : ℤ) :
    (dateText day).toList = (padded 4 (civil day).1).toList ++
      '-' :: ((padded 2 (civil day).2.1).toList ++ '-' :: (padded 2 (civil day).2.2).toList) := by
  unfold dateText
  generalize civil day = date
  obtain ⟨year, month, dayOfMonth⟩ := date
  have hhyphen : "-".toList = ['-'] := by decide
  dsimp only
  generalize padded 4 year = yearText
  generalize padded 2 month = monthText
  generalize padded 2 dayOfMonth = dayText
  simp only [String.toList_append, List.append_assoc, hhyphen, List.cons_append,
    List.nil_append]

/-- **The text of a date names the day.** -/
theorem dateText_injective {a b : ℤ} (ha : 0 ≤ a) (hb : 0 ≤ b) (h : dateText a = dateText b) :
    a = b := by
  obtain ⟨hyear, hmonth, hday⟩ := civil_nonneg ha
  obtain ⟨hyear', hmonth', hday'⟩ := civil_nonneg hb
  have hlist := congrArg String.toList h
  rw [toList_dateText, toList_dateText] at hlist
  obtain ⟨hfirst, hrest⟩ := split_at_hyphen (not_mem_padded 4 _) (not_mem_padded 4 _) hlist
  obtain ⟨hsecond, hthird⟩ := split_at_hyphen (not_mem_padded 2 _) (not_mem_padded 2 _) hrest
  rw [← dayOf_civil a, ← dayOf_civil b]
  refine congrArg dayOf (Prod.ext (padded_inj hyear hyear' hfirst) (Prod.ext ?_ ?_))
  · exact padded_inj hmonth hmonth' hsecond
  · exact padded_inj hday hday' hthird

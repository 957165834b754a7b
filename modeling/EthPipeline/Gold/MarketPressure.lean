import EthPipeline.Gold.MarketFlowHourly

/-!
# The pressure label and the amounts

From which amounts on `build_market_flow_hourly` speaks of a pressure: sums and ratio
are rounded before they are compared with one.

* `one_lt_ratio_iff`, `ratio_lt_one_iff`: the ratio of two amounts next to one.
* `pressure_follows_amounts`: the label of an hour, from its sums.
* `close_amounts_neutral`: amounts that differ, and no pressure.
-/

namespace Gold

open Silver

/-- The least quotient that is rounded to more than one. -/
def sellFrom : ℚ := 1 + 1 / (2 * 10 ^ 4) - 1 / (2 * 10 ^ 13) - 1 / (2 * 10 ^ 38)

/-- The least quotient that is rounded to one. -/
def neutralFrom : ℚ := 1 - 1 / (2 * 10 ^ 4) - 1 / (2 * 10 ^ 13) - 1 / (2 * 10 ^ 38)

/-! ### The ratio next to one -/

section ratio

variable {d w : ℚ}

/-- Three roundings reach a number of four digits from three half digits below. -/
theorem le_roundedQuotient_iff (h : 0 ≤ d / w) (m : ℤ) :
    (m : ℚ) / 10 ^ 4 ≤ roundedQuotient d w ↔
      (m : ℚ) / 10 ^ 4 - 1 / (2 * 10 ^ 4) - 1 / (2 * 10 ^ 13) - 1 / (2 * 10 ^ 38) ≤ d / w := by
  have h38 := Decimal.roundHalfUp_nonneg (s := 38) h
  have h13 := Decimal.roundHalfUp_nonneg (s := 13) h38
  have hsecond : ((m : ℚ) - 1 / 2) / 10 ^ 4 = (((2 * m - 1) * (5 * 10 ^ 8) : ℤ) : ℚ) / 10 ^ 13 := by
    push_cast
    ring
  have hthird : ((((2 * m - 1) * (5 * 10 ^ 8) : ℤ) : ℚ) - 1 / 2) / 10 ^ 13 =
      (((2 * ((2 * m - 1) * (5 * 10 ^ 8)) - 1) * (5 * 10 ^ 24) : ℤ) : ℚ) / 10 ^ 38 := by
    push_cast
    ring
  have hlast : ((((2 * ((2 * m - 1) * (5 * 10 ^ 8)) - 1) * (5 * 10 ^ 24) : ℤ) : ℚ) - 1 / 2) /
      10 ^ 38 = (m : ℚ) / 10 ^ 4 - 1 / (2 * 10 ^ 4) - 1 / (2 * 10 ^ 13) - 1 / (2 * 10 ^ 38) := by
    push_cast
    ring
  rw [roundedQuotient, Decimal.le_roundHalfUp_iff h13, hsecond, Decimal.le_roundHalfUp_iff h38,
    hthird, Decimal.le_roundHalfUp_iff h, hlast]

/-- A quotient below the next number of four digits is at most the last. -/
theorem roundedQuotient_le {m : ℤ} (h : roundedQuotient d w < ((m + 1 : ℤ) : ℚ) / 10 ^ 4) :
    roundedQuotient d w ≤ (m : ℚ) / 10 ^ 4 := by
  have hpow : (0 : ℚ) < 10 ^ 4 := by norm_num
  obtain ⟨n, hn⟩ := Decimal.roundHalfUp_exact 4
    (Decimal.roundHalfUp 13 (Decimal.roundHalfUp 38 (d / w)))
  have hn : roundedQuotient d w * 10 ^ 4 = n := hn
  rw [lt_div_iff₀ hpow, hn, Int.cast_lt] at h
  rw [le_div_iff₀ hpow, hn, Int.cast_le]
  omega

/-- **Above one**: the deposits are enough more. -/
theorem one_lt_ratio_iff (hd : 0 ≤ d) (hw : 0 < w) :
    1 < Binary64.nearest (roundedQuotient d w) ↔ sellFrom * w ≤ d := by
  have hnext := le_roundedQuotient_iff (div_nonneg hd hw.le) 10001
  have hfrom : ((10001 : ℤ) : ℚ) / 10 ^ 4 - 1 / (2 * 10 ^ 4) - 1 / (2 * 10 ^ 13) -
      1 / (2 * 10 ^ 38) = sellFrom := by
    unfold sellFrom
    norm_num
  rw [hfrom, le_div_iff₀ hw] at hnext
  rw [← hnext]
  constructor
  · intro h
    by_contra hlt
    have hle := roundedQuotient_le (m := 10000) (not_le.mp hlt)
    have hone := Binary64.nearest_le_one (hle.trans_eq (by norm_num))
    linarith
  · intro h
    exact Binary64.one_lt_nearest (le_trans (by norm_num) h)

/-- **Below one**: the withdrawals are enough more. -/
theorem ratio_lt_one_iff (hd : 0 ≤ d) (hw : 0 < w) :
    Binary64.nearest (roundedQuotient d w) < 1 ↔ d < neutralFrom * w := by
  have hone := le_roundedQuotient_iff (div_nonneg hd hw.le) 10000
  have hfrom : ((10000 : ℤ) : ℚ) / 10 ^ 4 - 1 / (2 * 10 ^ 4) - 1 / (2 * 10 ^ 13) -
      1 / (2 * 10 ^ 38) = neutralFrom := by
    unfold neutralFrom
    norm_num
  rw [hfrom, le_div_iff₀ hw] at hone
  rw [← not_le, ← not_le, ← hone, not_iff_not]
  constructor
  · intro h
    by_contra hlt
    have hle := roundedQuotient_le (m := 9999) (not_le.mp hlt)
    have hbelow := Binary64.nearest_lt_one (hle.trans (by norm_num))
    linarith
  · intro h
    have hnat := Binary64.le_nearest (n := 1) (q := roundedQuotient d w) (by norm_num)
      (le_trans (by norm_num) h)
    exact_mod_cast hnat

end ratio

/-! ### The label -/

section label

variable {d w x : ℚ}

/-- The cascade where both amounts are above zero. -/
theorem pressureLabel_of_ratio (hd : 0 < d) (hw : 0 < w) :
    (pressureLabel (some d) (some w) (some x) ∈ sellLabels ↔ 1 < x) ∧
      (pressureLabel (some d) (some w) (some x) ∈ buyLabels ↔ x < 1) := by
  have hlow : Binary64.nearest (67 / 100) < 1 := by decide +kernel
  have hcascade : pressureLabel (some d) (some w) (some x) =
      if 3 / 2 < x then "STRONG_SELL_PRESSURE" else if 1 < x then "MILD_SELL_PRESSURE"
      else if x < Binary64.nearest (67 / 100) then "STRONG_BUY_PRESSURE"
      else if x < 1 then "MILD_BUY_PRESSURE" else "NEUTRAL" := by
    simp [pressureLabel, Sql.eq, Sql.and, above, below, hd.ne', hw.ne']
  rw [hcascade]
  split_ifs with hstrong hmild hlow' hbelow
  · exact ⟨iff_of_true (by decide) (by linarith), iff_of_false (by decide) (by linarith)⟩
  · exact ⟨iff_of_true (by decide) hmild, iff_of_false (by decide) (by linarith)⟩
  · exact ⟨iff_of_false (by decide) hmild, iff_of_true (by decide) (by linarith)⟩
  · exact ⟨iff_of_false (by decide) hmild, iff_of_true (by decide) hbelow⟩
  · exact ⟨iff_of_false (by decide) hmild, iff_of_false (by decide) hbelow⟩

/-- The cascade where nothing is withdrawn, and where nothing is deposited. -/
theorem pressureLabel_deposit (hd : 0 < d) (ratio : Option ℚ) :
    pressureLabel (some d) (some 0) ratio = "STRONG_SELL_PRESSURE" := by
  simp [pressureLabel, Sql.eq, Sql.and, above, hd.ne', hd]

theorem pressureLabel_withdrawal (hw : 0 < w) (ratio : Option ℚ) :
    pressureLabel (some 0) (some w) ratio = "STRONG_BUY_PRESSURE" := by
  simp [pressureLabel, Sql.eq, Sql.and, above, hw.ne', hw]

/-- **The label of two amounts** of four digits. -/
theorem pressureLabel_iff (hd : 0 ≤ d) (hd' : d ≤ 10 ^ 20) (hw : 0 ≤ w)
    (hw' : w ≠ 0 → 1 / 10 ^ 4 ≤ |w|) :
    (pressureLabel (some d) (some w) (depositWithdrawalRatio (some d) (some w)) ∈ sellLabels ↔
        0 < d ∧ sellFrom * w ≤ d) ∧
      (pressureLabel (some d) (some w) (depositWithdrawalRatio (some d) (some w)) ∈ buyLabels ↔
        0 < w ∧ d < neutralFrom * w) := by
  have hpos : 0 < neutralFrom := by norm_num [neutralFrom]
  have hpos' : 0 < sellFrom := by norm_num [sellFrom]
  rcases hw.eq_or_lt with rfl | hw
  · rw [show depositWithdrawalRatio (some d) (some 0) = none from if_pos rfl, mul_zero, mul_zero]
    rcases hd.eq_or_lt with rfl | hd
    · exact ⟨iff_of_false (by decide +kernel) (fun h => lt_irrefl _ h.1),
        iff_of_false (by decide +kernel) (fun h => lt_irrefl _ h.1)⟩
    · rw [pressureLabel_deposit hd]
      exact ⟨iff_of_true (by decide) ⟨hd, hd.le⟩,
        iff_of_false (by decide) (fun h => lt_irrefl _ h.1)⟩
  · rcases hd.eq_or_lt with rfl | hd
    · rw [pressureLabel_withdrawal hw]
      exact ⟨iff_of_false (by decide) (fun h => lt_irrefl _ h.1),
        iff_of_true (by decide) ⟨hw, mul_pos hpos hw⟩⟩
    · obtain ⟨hsell, hbuy⟩ := pressureLabel_of_ratio (x := Binary64.nearest (roundedQuotient d w))
        hd hw
      rw [ratio_of_room (by rwa [abs_of_pos hd]) (hw' hw.ne'), hsell, hbuy,
        one_lt_ratio_iff hd.le hw, ratio_lt_one_iff hd.le hw]
      exact ⟨⟨fun h => ⟨hd, h⟩, fun h => h.2⟩, ⟨fun h => ⟨hw, h⟩, fun h => h.2⟩⟩

end label

/-! ### The label of an hour -/

/-- What the label of a row says of the amounts its hour has deposited and withdrawn. -/
structure PressureFollows (deposit withdrawal : ℚ) (label : String) : Prop where
  sell : label ∈ sellLabels ↔ 0 < Decimal.roundHalfUp 4 deposit ∧
    sellFrom * Decimal.roundHalfUp 4 withdrawal ≤ Decimal.roundHalfUp 4 deposit
  buy : label ∈ buyLabels ↔ 0 < Decimal.roundHalfUp 4 withdrawal ∧
    Decimal.roundHalfUp 4 deposit < neutralFrom * Decimal.roundHalfUp 4 withdrawal
  neutral : label = "NEUTRAL" ↔ label ∉ sellLabels ∧ label ∉ buyLabels
  sell_only : label ∈ sellLabels → withdrawal < deposit
  buy_only : label ∈ buyLabels → deposit < withdrawal
  equal : deposit = withdrawal → label = "NEUTRAL"

theorem neutral_iff {label : String} (h : label ∈ "NEUTRAL" :: sellLabels ++ buyLabels) :
    label = "NEUTRAL" ↔ label ∉ sellLabels ∧ label ∉ buyLabels := by
  constructor
  · rintro rfl
    decide
  · rintro ⟨hsell, hbuy⟩
    rcases List.mem_append.mp h with h | h
    · exact (List.mem_cons.mp h).resolve_right hsell
    · exact absurd h hbuy

/-- Amounts whose roundings are in an order are in it. -/
theorem lt_of_roundHalfUp_lt {s : ℕ} {p q : ℚ}
    (h : Decimal.roundHalfUp s p < Decimal.roundHalfUp s q) : p < q := by
  by_contra hle
  exact absurd h (not_lt.mpr (Decimal.roundHalfUp_mono (not_lt.mp hle)))

section hour

variable {rows : List WhaleRow}

theorem hourTotal_nonneg (hpos : ∀ row ∈ rows, ∀ q, row.valueEth = some q → 0 < q) (flow : String)
    (hour : Option ℤ) : 0 ≤ hourTotal rows flow hour := by
  refine List.sum_nonneg fun q hq => ?_
  obtain ⟨v, hv, rfl⟩ := List.mem_filterMap.mp hq
  obtain ⟨row, hrow, heq⟩ := List.mem_map.mp hv
  exact (hpos row (List.mem_filter.mp hrow).1 q heq).le

/-- **The label of an hour follows its amounts**, up to the rounding of sums and ratio: it
speaks of a pressure only where there is one, and always where the rounded amounts are
far enough apart. -/
theorem pressure_follows_amounts (rows : List WhaleRow)
    (hpos : ∀ row ∈ rows, ∀ q, row.valueEth = some q → 0 < q) (date : ℤ) :
    ∀ r ∈ buildMarketFlowHourly rows date, r.hour ≠ none → HourRoom rows r.hour →
      PressureFollows (hourTotal rows "CEX_DEPOSIT" r.hour)
        (hourTotal rows "CEX_WITHDRAWAL" r.hour) r.pressureLabel := by
  intro r hr hhour h
  have hlabel := (h.columns hr hhour).2
  have hmem : r.pressureLabel ∈ "NEUTRAL" :: sellLabels ++ buyLabels := by
    rw [hlabel]
    exact pressureLabel_mem ..
  rw [h.cexDepositEth hr hhour, h.cexWithdrawalEth hr hhour] at hlabel
  have hd := Decimal.roundHalfUp_nonneg (s := 4) (hourTotal_nonneg hpos "CEX_DEPOSIT" r.hour)
  have hw := Decimal.roundHalfUp_nonneg (s := 4) (hourTotal_nonneg hpos "CEX_WITHDRAWAL" r.hour)
  have hd' := (abs_le.mp (abs_roundHalfUp_le_room h.deposits)).2
  obtain ⟨hsell, hbuy⟩ := pressureLabel_iff hd hd' hw le_abs_roundHalfUp
  rw [← hlabel] at hsell hbuy
  have hsell_only : r.pressureLabel ∈ sellLabels →
      hourTotal rows "CEX_WITHDRAWAL" r.hour < hourTotal rows "CEX_DEPOSIT" r.hour := by
    intro hin
    obtain ⟨hdpos, hle⟩ := hsell.mp hin
    refine lt_of_roundHalfUp_lt (s := 4) ?_
    rcases hw.eq_or_lt with hzero | hwpos
    · rwa [← hzero]
    · have hmore : 1 < sellFrom := by norm_num [sellFrom]
      nlinarith only [hle, hwpos, hmore]
  have hbuy_only : r.pressureLabel ∈ buyLabels →
      hourTotal rows "CEX_DEPOSIT" r.hour < hourTotal rows "CEX_WITHDRAWAL" r.hour := by
    intro hin
    obtain ⟨hwpos, hlt⟩ := hbuy.mp hin
    refine lt_of_roundHalfUp_lt (s := 4) ?_
    have hless : neutralFrom < 1 := by norm_num [neutralFrom]
    nlinarith only [hlt, hwpos, hless]
  refine ⟨hsell, hbuy, neutral_iff hmem, hsell_only, hbuy_only, fun heq => ?_⟩
  rw [neutral_iff hmem]
  constructor
  · intro hin
    exact absurd heq (hsell_only hin).ne'
  · intro hin
    exact absurd heq (hbuy_only hin).ne

theorem marketHour_pressure : ∃ r ∈ buildMarketFlowHourly marketHour 20608,
    r.pressureLabel = "MILD_SELL_PRESSURE" ∧ PressureFollows
      (hourTotal marketHour "CEX_DEPOSIT" r.hour) (hourTotal marketHour "CEX_WITHDRAWAL" r.hour)
      r.pressureLabel := by
  have hpos : ∀ row ∈ marketHour, ∀ q, row.valueEth = some q → 0 < q := by
    intro row hrow q hq
    obtain ⟨r, hr, -, hpos⟩ := amount_marketHour row hrow
    rw [hq] at hr
    cases hr
    exact hpos
  obtain ⟨r, hr, hlabel, hhour⟩ : ∃ r ∈ buildMarketFlowHourly marketHour 20608,
      r.pressureLabel = "MILD_SELL_PRESSURE" ∧ r.hour ≠ none := by decide +kernel
  exact ⟨r, hr, hlabel, pressure_follows_amounts marketHour hpos 20608 r hr hhour
    (marketDay_marketHour.hourRoom r.hour)⟩

/-- Deposits and withdrawals that differ by one in a hundred thousand. -/
def closeHour : List WhaleRow := [whaleOf "CEX_DEPOSIT" 100001, whaleOf "CEX_WITHDRAWAL" 100000]

/-- **More deposits, and no pressure**: the ratio is rounded to one, and a sum that has no
room is null. -/
theorem close_amounts_neutral :
    ((buildMarketFlowHourly closeHour 20608).map (·.pressureLabel) = ["NEUTRAL", "NEUTRAL"] ∧
      hourTotal closeHour "CEX_WITHDRAWAL" (some 0) < hourTotal closeHour "CEX_DEPOSIT" (some 0)) ∧
    ((buildMarketFlowHourly overflowHour 20608).map (·.pressureLabel) = ["NEUTRAL", "NEUTRAL"] ∧
      hourTotal overflowHour "CEX_WITHDRAWAL" (some 0) <
        hourTotal overflowHour "CEX_DEPOSIT" (some 0)) := by
  refine ⟨⟨?_, ?_⟩, ?_, ?_⟩ <;> decide +kernel

end hour

end Gold

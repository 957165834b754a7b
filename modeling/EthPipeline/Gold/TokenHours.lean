import EthPipeline.Gold.TokenPopularityHourly

/-!
# The hours of a token

What the two token jobs count for one token of a day, and the change from hour to hour
that `build_token_popularity_hourly` reports.

* `hourly_never_agrees`: the hourly job fails; without its filter its hours would add up
  to the day.
* `round_changePct_iff`: when the change, computed in doubles, is rounded like the change.
* `trends_by_clock_iff`: the change is that from the hour before exactly when no token has
  an idle hour between two active ones, and no change is rounded otherwise.
-/

namespace Gold

open Silver

/-! ### The hours and the day -/

/-- What both tables know a token by. -/
def HourlyRow.name (row : HourlyRow) : Option String × Option String :=
  (row.tokenAddress, row.symbol)

def PopularityRow.name (row : PopularityRow) : Option String × Option String :=
  (row.tokenAddress, row.symbol)

/-- The hourly job succeeds, and its counts of each token add up to those of the day. -/
def HoursAgree (hourly : Except AnalysisException (List HourlyRow)) (daily : List PopularityRow) :
    Prop :=
  ∃ hours, hourly = .ok hours ∧ ∀ token,
    ((hours.filter fun row => row.name = token).map (·.txCount)).sum =
      ((daily.filter fun row => row.name = token).map (·.txCount)).sum

/-- What the hourly job makes of the rows that pass its filter. -/
def hourlyRows (byHour : HourOrder) (spark : Summation) (df : List TokenFlow) : List HourlyRow :=
  let trend := withTrend byHour (hourlyBase spark df)
  trend.map (hourlyRow trend)

section counts

variable {rows : List TokenFlow} {date : ℤ} {byHour : HourOrder}
  {estimate : TokenKey → List String → ℕ} {spark : Summation}
  (token : Option String × Option String)

/-- The transfers of a token. -/
def transfers (rows : List TokenFlow) (token : Option String × Option String) : ℕ :=
  ((rows.filter fun row => (row.tokenAddress, row.symbol) = token).map fun row =>
    if row.transactionHash.isSome then 1 else 0).sum

theorem countP_eq_sum (part : List TokenFlow) :
    part.countP (·.transactionHash.isSome) =
      (part.map fun row => if row.transactionHash.isSome then 1 else 0).sum := by
  induction part with
  | nil => rfl
  | cons row part ih =>
    rw [List.countP_cons, ih, List.map_cons, List.sum_cons, add_comm]

theorem transfers_hours (spark : Summation) :
    (((hourlyBase spark rows).filter fun g => (g.key.tokenAddress, g.key.symbol) = token).map
      (·.txCount)).sum = transfers rows token := by
  unfold hourlyBase transfers
  exact Grouping.sum_groupBy (fun g : HourlyBase => (g.key.tokenAddress, g.key.symbol))
    (fun key : HourKey => (key.tokenAddress, key.symbol)) (·.txCount) _ (fun _ _ => rfl)
    (fun _ part => countP_eq_sum part) token

theorem transfers_day (estimate : TokenKey → List String → ℕ) (spark : Summation) :
    (((dailyBase spark estimate rows).filter fun g =>
      (g.key.tokenAddress, g.key.symbol) = token).map (·.txCount)).sum = transfers rows token := by
  unfold dailyBase transfers
  exact Grouping.sum_groupBy (fun g : DailyBase => (g.key.tokenAddress, g.key.symbol))
    (fun key : TokenKey => (key.tokenAddress, key.symbol)) (·.txCount) _ (fun _ _ => rfl)
    (fun _ part => countP_eq_sum part) token

/-- Trend, rank and signal leave the groups as they are. -/
theorem map_withTrend (byHour : HourOrder) (base : List HourlyBase) :
    ((withTrend byHour base).map (·.1)).Perm base := by
  have hrows : (withTrend byHour base).map (·.1) = (byHour.run base).map id := by
    unfold withTrend
    rw [List.map_map]
    exact Window.map_overParts id
  rw [hrows, List.map_id]
  exact byHour.perm base

theorem transfers_hourlyRows :
    (((hourlyRows byHour spark rows).filter fun row => row.name = token).map (·.txCount)).sum =
      transfers rows token := by
  rw [← transfers_hours token spark]
  have hgroups := ((map_withTrend byHour (hourlyBase spark rows)).filter fun g =>
    (g.key.tokenAddress, g.key.symbol) = token).map (·.txCount)
  rw [← hgroups.sum_eq]
  unfold hourlyRows
  rw [List.filter_map, List.map_map, List.filter_map, List.map_map]
  rfl

theorem transfers_buildTokenPopularityDaily :
    (((buildTokenPopularityDaily rows date estimate spark).filter fun row =>
      row.name = token).map (·.txCount)).sum = transfers (onDate date rows) token := by
  rw [← transfers_day token estimate spark]
  unfold buildTokenPopularityDaily
  rw [List.filter_map, List.map_map]
  rfl

end counts

/-- **The hourly and the daily table never agree**: the hourly job fails.  Only its
filter is in the way. -/
theorem hourly_never_agrees (rows : List TokenFlow) (date : ℤ) (byHour : HourOrder)
    (estimate : TokenKey → List String → ℕ) (spark : Summation) :
    ¬ HoursAgree (buildTokenPopularityHourly rows date byHour spark)
        (buildTokenPopularityDaily rows date estimate spark) ∧
      HoursAgree (.ok (hourlyRows byHour spark (onDate date rows)))
        (buildTokenPopularityDaily rows date estimate spark) := by
  constructor
  · rintro ⟨hours, hok, -⟩
    rw [buildTokenPopularityHourly_error] at hok
    cases hok
  · refine ⟨_, rfl, fun token => ?_⟩
    rw [transfers_hourlyRows, transfers_buildTokenPopularityDaily]

/-- Sorting the hours as they come. -/
def insertionHourOrder : HourOrder :=
  Window.Sorting.insertion _ (fun _ _ _ => Earlier.trans) fun _ _ => Earlier.total _ _

/-- A day with one transfer of a known token. -/
def oneTransferDay : BronzeDay where
  transactions := []
  receipts := []
  blocks := [[⟨some 100, some 1780531200⟩]]
  tokenTransfers := [[⟨some "0xc", some "0xa", some "0xb", some 5, some "0x2", some 100⟩]]

/-- **The hourly job fails on a day that `build_token_flow` has written.** -/
theorem oneTransfer_fails :
    ∃ flow, buildTokenFlow (fun _ => .finite 1) oneTransferDay
        (⟨manualLabels, rfl⟩ : KnownLabels none) ⟨manualLabels, rfl⟩
        (some [⟨some "0xc", some "T", some "Token", some 0⟩]) = .ok flow ∧ flow.length = 1 ∧
      ¬ HoursAgree
        (buildTokenPopularityHourly (flow.map readFlow) 20608 insertionHourOrder .inOrder)
        (buildTokenPopularityDaily (flow.map readFlow) 20608 (fun _ paths => paths.length)
          .inOrder) := by
  refine ⟨_, rfl, by decide +kernel, ?_⟩
  rintro ⟨hours, hok, -⟩
  cases hok

/-! ### The change in doubles -/

section change

open Binary64

/-- The change from `m` to `n`, in percent. -/
def exactPct (n m : ℕ) : ℚ := 100 * ((n : ℚ) - m) / m

/-- The change from `m` to `n` is halfway between two hundredths, and a hundred times the
double of its hundredth part is closer to zero than the double of it. -/
def FallsShort (n m : ℕ) : Prop :=
  (∃ j : ℤ, Odd j ∧ exactPct n m = j / (2 * 10 ^ 2)) ∧
    |nearest (nearest (exactPct n m / 100) * 100)| < |nearest (exactPct n m)|

variable {n m : ℕ}

/-- What is computed: the double of the hundredth part, a hundred times. -/
theorem changePct_eq (hn : n < 2 ^ 32) (hm : m < 2 ^ 32) :
    changePct n m = nearest (nearest (exactPct n m / 100) * 100) := by
  have hpart : exactPct n m / 100 = ((n : ℚ) - m) / m := by
    rw [exactPct]
    ring
  unfold changePct
  rw [hpart, nearest_intCast (n := (n : ℤ) - m) (by rw [abs_le]; omega),
    nearest_intCast (n := (m : ℤ)) (by rw [abs_le]; omega)]
  push_cast
  rfl

/-- What is computed prints near the change: the quotient, the product and the print are each
one part in 2⁵³ off. -/
theorem abs_shortest_sub_exactPct_le (hm0 : 0 < m) (hn : n < 2 ^ 32) (hm : m < 2 ^ 32) :
    |shortest (changePct n m) - exactPct n m| ≤ |exactPct n m| / 2 ^ 50 := by
  have hm' : (0 : ℚ) < m := by exact_mod_cast hm0
  rcases eq_or_ne n m with rfl | hne
  · have hzero : shortest 0 = 0 := by
      simpa [nearest_zero] using shortest_nearest (s := 0) (x := 0) (n := 0) (by norm_num)
        (by norm_num) (by norm_num)
    rw [changePct_eq hn hm, exactPct, sub_self, mul_zero, zero_div, zero_div, nearest_zero,
      zero_mul, nearest_zero, hzero]
    norm_num
  have habs : ∀ {a b c : ℚ}, |a - b| ≤ c → |a| ≤ |b| + c ∧ |b| ≤ |a| + c := by
    intro a b c h
    have hleft := abs_sub_abs_le_abs_sub a b
    have hright := abs_sub_abs_le_abs_sub b a
    rw [abs_sub_comm] at hright
    constructor <;> linarith
  set x : ℚ := ((n : ℚ) - m) / m with hx
  have hexact : exactPct n m = 100 * x := by
    rw [exactPct, hx]
    ring
  have hlow : (1 : ℚ) / 2 ^ 32 ≤ |x| := by
    have hone : (1 : ℤ) ≤ |(n : ℤ) - m| := Int.one_le_abs (by omega)
    rw [hx, abs_div, abs_of_pos hm']
    exact div_le_div₀ (abs_nonneg _) (by exact_mod_cast hone) hm' (by exact_mod_cast hm.le)
  have hquot := abs_nearest_sub_le (normal_of_le (q := x) (by norm_num at hlow ⊢; linarith)).le
  have hy := habs hquot
  have hz : |nearest x * 100| = 100 * |nearest x| := by
    rw [mul_comm, abs_mul]
    norm_num
  norm_num at hquot hlow hy
  have hdouble := abs_nearest_sub_le (normal_of_le (q := nearest x * 100) (by
    rw [hz]
    norm_num
    linarith)).le
  have hd := habs hdouble
  rw [hz] at hdouble hd
  norm_num at hdouble hd
  have hprint := abs_shortest_sub_le (nearest_nearest (nearest x * 100)) (normal_of_le (by
    norm_num
    linarith))
  have hD := habs hprint
  norm_num at hprint hD
  have hprod : |nearest x * 100 - 100 * x| = 100 * |nearest x - x| := by
    rw [mul_comm, ← mul_sub, abs_mul]
    norm_num
  have hleft := abs_sub_le (shortest (nearest (nearest x * 100))) (nearest (nearest x * 100))
    (100 * x)
  have hright := abs_sub_le (nearest (nearest x * 100)) (nearest x * 100) (100 * x)
  rw [hprod] at hright
  rw [abs_sub_comm] at hprint
  rw [changePct_eq hn hm, hexact, mul_div_cancel_left₀ x (by norm_num), abs_mul]
  norm_num
  linarith

theorem abs_exactPct_le (hm0 : 0 < m) (hn : n < 2 ^ 32) (hm : m < 2 ^ 32) :
    |exactPct n m| ≤ 100 * 2 ^ 32 / m := by
  have hm' : (0 : ℚ) < m := by exact_mod_cast hm0
  have hdiff : |(n : ℚ) - m| ≤ 2 ^ 32 := by
    have hint : |(n : ℤ) - m| ≤ 2 ^ 32 := by rw [abs_le]; omega
    exact_mod_cast hint
  rw [exactPct, abs_div, abs_mul, abs_of_pos hm']
  norm_num at hdiff ⊢
  exact div_le_div_of_nonneg_right (by linarith) hm'.le

/-- No tie but the change itself is as near to it. -/
theorem le_abs_exactPct_sub (hm0 : 0 < m) {j : ℤ} (h : exactPct n m ≠ j / (2 * 10 ^ 2)) :
    1 / (200 * m : ℚ) ≤ |exactPct n m - j / (2 * 10 ^ 2)| := by
  have hm' : (0 : ℚ) < m := by exact_mod_cast hm0
  have hdiff : exactPct n m - j / (2 * 10 ^ 2) =
      ((20000 * ((n : ℤ) - m) - j * m : ℤ) : ℚ) / (200 * m) := by
    rw [exactPct]
    push_cast
    field_simp
    ring
  have hne : 20000 * ((n : ℤ) - m) - j * m ≠ 0 := by
    intro hzero
    rw [hzero, Int.cast_zero, zero_div, sub_eq_zero] at hdiff
    exact h hdiff
  have hone : (1 : ℚ) ≤ |((20000 * ((n : ℤ) - m) - j * m : ℤ) : ℚ)| := by
    exact_mod_cast Int.one_le_abs hne
  rw [hdiff, abs_div, abs_of_pos (by positivity : (0 : ℚ) < 200 * m)]
  exact div_le_div_of_nonneg_right hone (by positivity)

/-- A change at a tie prints as it is. -/
theorem printed_exactPct (hm0 : 0 < m) (hn : n < 2 ^ 32) (hm : m < 2 ^ 32) {j : ℤ}
    (h : exactPct n m = j / (2 * 10 ^ 2)) : Printed (exactPct n m) := by
  have hm1 : (1 : ℚ) ≤ m := by exact_mod_cast hm0
  have hdigits : exactPct n m * 10 ^ 3 = ((5 * j : ℤ) : ℚ) := by
    rw [h]
    push_cast
    ring
  have hlt : |((5 * j : ℤ) : ℚ)| < 10 ^ 15 := by
    calc |((5 * j : ℤ) : ℚ)| = |exactPct n m| * 10 ^ 3 := by
          rw [← hdigits, abs_mul, abs_of_pos (by positivity : (0 : ℚ) < 10 ^ 3)]
      _ ≤ 100 * 2 ^ 32 / m * 10 ^ 3 :=
          mul_le_mul_of_nonneg_right (abs_exactPct_le hm0 hn hm) (by norm_num)
      _ ≤ 100 * 2 ^ 32 * 10 ^ 3 :=
          mul_le_mul_of_nonneg_right (div_le_self (by norm_num) hm1) (by norm_num)
      _ < 10 ^ 15 := by norm_num
  exact shortest_nearest (s := 3) (by norm_num) hdigits (by exact_mod_cast hlt)

/-- **The change in doubles** is rounded like the change, unless it falls short of a tie. -/
theorem round_changePct_iff (hm0 : 0 < m) (hn : n < 2 ^ 32) (hm : m < 2 ^ 32) :
    round 2 (changePct n m) = nearest (Decimal.roundHalfUp 2 (exactPct n m)) ↔
      ¬ FallsShort n m := by
  have hm1 : (1 : ℚ) ≤ m := by exact_mod_cast hm0
  have hnear := abs_shortest_sub_exactPct_le hm0 hn hm
  have hsize := abs_exactPct_le hm0 hn hm
  have hdouble : nearest (changePct n m) = changePct n m := by
    unfold changePct
    exact nearest_nearest _
  have hδ : |shortest (changePct n m) - exactPct n m| < 1 / (200 * m : ℚ) := by
    calc |shortest (changePct n m) - exactPct n m|
        ≤ 100 * 2 ^ 32 / m / 2 ^ 50 :=
          hnear.trans (div_le_div_of_nonneg_right hsize (by norm_num))
      _ = 1 / m * (100 * 2 ^ 32 / 2 ^ 50) := by ring
      _ < 1 / m * (1 / 200) := mul_lt_mul_of_pos_left (by norm_num) (by positivity)
      _ = 1 / (200 * m : ℚ) := by field_simp
  -- decimals of this size have doubles of their own
  have hbound : |exactPct n m| ≤ 100 * 2 ^ 32 := hsize.trans (div_le_self (by norm_num) hm1)
  have hdigits : ∀ y : ℚ, |y| ≤ 200 * 2 ^ 32 → ∃ i : ℤ,
      Decimal.roundHalfUp 2 y * 10 ^ 2 = i ∧ |i| < 2 * 10 ^ 15 := by
    intro y hy
    obtain ⟨i, hi⟩ := Decimal.roundHalfUp_exact 2 y
    have hle := Decimal.abs_roundHalfUp_le (s := 2) (q := y) (n := 200 * 2 ^ 32)
      (by exact_mod_cast hy)
    refine ⟨i, hi, ?_⟩
    have hlt : |(i : ℚ)| < 2 * 10 ^ 15 := by
      rw [← hi, abs_mul, abs_of_pos (by positivity : (0 : ℚ) < 10 ^ 2)]
      push_cast at hle
      linarith
    exact_mod_cast hlt
  have hinj : round 2 (changePct n m) = nearest (Decimal.roundHalfUp 2 (exactPct n m)) ↔
      Decimal.roundHalfUp 2 (shortest (changePct n m)) = Decimal.roundHalfUp 2 (exactPct n m) := by
    refine ⟨fun h => ?_, fun h => congrArg nearest h⟩
    have hprint : |shortest (changePct n m)| ≤ 200 * 2 ^ 32 := by
      have htri := abs_sub_abs_le_abs_sub (shortest (changePct n m)) (exactPct n m)
      norm_num at hnear hbound ⊢
      linarith
    obtain ⟨i, hi, hi'⟩ := hdigits _ hprint
    obtain ⟨k, hk, hk'⟩ := hdigits (exactPct n m) (hbound.trans (by norm_num))
    exact nearest_inj_of_digits (by norm_num) hi hi' hk hk' h
  rw [hinj, Decimal.roundHalfUp_near_iff hδ ?_ fun j => le_abs_exactPct_sub hm0]
  · refine not_congr (and_congr_right ?_)
    rintro ⟨j, hj, htie⟩
    have hne : exactPct n m ≠ 0 := by
      rw [htie]
      have hj0 : (j : ℚ) ≠ 0 := by
        rintro hzero
        obtain rfl := Int.cast_eq_zero.mp hzero
        exact absurd hj (by decide)
      positivity
    have hclose : |shortest (changePct n m) - exactPct n m| < |exactPct n m| :=
      hnear.trans_lt (div_lt_self (abs_pos.mpr hne) (by norm_num))
    rw [(printed_shortest hdouble).abs_lt_iff (printed_exactPct hm0 hn hm htie) hclose,
      nearest_shortest hdouble, changePct_eq hn hm]
  · rw [div_le_div_iff₀ (by positivity) (by positivity)]
    linarith

end change

/-! ### The trend -/

def HourlyBase.token (row : HourlyBase) : Option String × Option ℤ :=
  (row.key.tokenAddress, row.key.dt)

/-- The hourly base table of a day: one row for each token and hour with transfers. -/
structure HourlyTable (base : List HourlyBase) : Prop where
  day : ∃ date, ∀ row ∈ base, row.key.dt = some date
  hours : ∀ row ∈ base, row.key.hour.isSome
  active : ∀ row ∈ base, 0 < row.txCount
  once : (base.map fun row => (row.token, row.key.hour)).Nodup

/-- How many transfers a token had in an hour, if any. -/
def countAt (base : List HourlyBase) (token : Option String × Option ℤ) (hour : ℤ) : Option ℕ :=
  (base.find? fun row => row.token = token ∧ row.key.hour = some hour).map (·.txCount)

/-- The change from the clock hour before, rounded to two places: the double of it. -/
def clockChangePct (base : List HourlyBase) (row : HourlyBase) : Option ℚ := do
  let hour ← row.key.hour
  let prev ← countAt base row.token (hour - 1)
  return Binary64.nearest (Decimal.roundHalfUp 2 (100 * ((row.txCount : ℚ) - prev) / prev))

/-- The change and the signal of every row compare adjacent hours. -/
structure TrendsByClock (base : List HourlyBase) (trend : List (HourlyBase × Option ℚ)) : Prop where
  change : ∀ p ∈ trend, p.2 = clockChangePct base p.1
  signal : ∀ p ∈ trend, (hourlyRow trend p).trendingSignal =
    trendingSignal (clockChangePct base p.1) (rankByTxCount trend p)

/-- A token that was active in an earlier hour was active in the hour before. -/
def NoIdleHours (base : List HourlyBase) : Prop :=
  ∀ row ∈ base, ∀ earlier ∈ base, ∀ hour hour', row.key.hour = some hour →
    earlier.key.hour = some hour' → earlier.token = row.token → hour' < hour →
      (countAt base row.token (hour - 1)).isSome

/-- No change from the hour before falls short of a tie. -/
def NoneFallsShort (base : List HourlyBase) : Prop :=
  ∀ row ∈ base, ∀ hour prev, row.key.hour = some hour →
    countAt base row.token (hour - 1) = some prev → ¬ FallsShort row.txCount prev

section trend

variable {base : List HourlyBase} {byHour : HourOrder} {row : HourlyBase} {hour : ℤ}

theorem HourlyTable.countAt_eq_some_iff (h : HourlyTable base) {token : Option String × Option ℤ}
    {n : ℕ} : countAt base token hour = some n ↔
      ∃ row ∈ base, row.token = token ∧ row.key.hour = some hour ∧ row.txCount = n := by
  unfold countAt
  rw [Option.map_eq_some_iff]
  constructor
  · rintro ⟨row, hfind, rfl⟩
    have hfound := List.find?_some hfind
    obtain ⟨htoken, hhour⟩ := of_decide_eq_true hfound
    exact ⟨row, List.mem_of_find?_eq_some hfind, htoken, hhour, rfl⟩
  · rintro ⟨row, hrow, htoken, hhour, rfl⟩
    cases hfind : base.find? fun row => row.token = token ∧ row.key.hour = some hour with
    | none =>
      have hnone := List.find?_eq_none.mp hfind row hrow
      simp [htoken, hhour] at hnone
    | some found =>
      have hfound := List.find?_some hfind
      obtain ⟨htoken', hhour'⟩ := of_decide_eq_true hfound
      have hsame : found = row := List.inj_on_of_nodup_map h.once
        (List.mem_of_find?_eq_some hfind) hrow (by rw [htoken, htoken', hhour, hhour'])
      exact ⟨found, rfl, by rw [hsame]⟩

/-- In the order of the hours an earlier hour stands before. -/
theorem mem_before {before after : List HourlyBase}
    (hsorted : (before ++ row :: after).Pairwise EarlierHour)
    (hhour : row.key.hour = some hour) {c : HourlyBase} (hc : c ∈ before ++ row :: after)
    {hour' : ℤ} (hc' : c.key.hour = some hour') (hlt : hour' < hour) : c ∈ before := by
  obtain ⟨-, hafter, -⟩ := List.pairwise_append.mp hsorted
  have hlater := (List.pairwise_cons.mp hafter).1
  rcases List.mem_append.mp hc with hc | hc
  · exact hc
  · exfalso
    rcases List.mem_cons.mp hc with rfl | hc
    · rw [hhour] at hc'
      cases hc'
      exact lt_irrefl _ hlt
    · have hle := hlater c hc
      unfold EarlierHour at hle
      rw [hhour, hc'] at hle
      exact absurd hlt (not_lt.mpr hle)

/-- **The previous row of a token** is that of its latest earlier hour, if there is one. -/
theorem HourlyTable.trend_cases (h : HourlyTable base) {pct : Option ℚ}
    (hmem : (row, pct) ∈ withTrend byHour base) (hhour : row.key.hour = some hour) :
    row ∈ base ∧
      ((∀ c ∈ base, c.token = row.token → ∀ hour', c.key.hour = some hour' → hour ≤ hour') ∧
          pct = none ∨
        ∃ b ∈ base, b.token = row.token ∧ ∃ last, b.key.hour = some last ∧ last < hour ∧
          pct = txCountChangePct row.txCount (some b.txCount) ∧
          ∀ c ∈ base, c.token = row.token → ∀ hour', c.key.hour = some hour' → hour' < hour →
            hour' ≤ last) := by
  obtain ⟨⟨a, prev⟩, hover, heq⟩ := List.mem_map.mp hmem
  obtain ⟨rfl, rfl⟩ := Prod.mk.inj heq
  have hsorted := byHour.sorted base
  obtain ⟨before, after, hrows, hprev⟩ := Window.lag_cases hsorted hover
  rw [hrows] at hsorted
  have hperm := byHour.perm base
  rw [hrows] at hperm
  obtain ⟨-, -, hcross⟩ := List.pairwise_append.mp hsorted
  have hbefore : ∀ c ∈ base, ∀ hour', c.key.hour = some hour' → hour' < hour → c ∈ before :=
    fun c hc hour' hc' => mem_before hsorted hhour (hperm.mem_iff.mpr hc) hc'
  refine ⟨hperm.mem_iff.mp (by simp), ?_⟩
  rcases hprev with ⟨hnone, rfl⟩ | ⟨b, hb, htoken, rfl, hlast⟩
  · refine .inl ⟨fun c hc htoken hour' hc' => ?_, rfl⟩
    by_contra hlt
    exact hnone c (hbefore c hc hour' hc' (not_le.mp hlt)) htoken
  · have hbase : b ∈ base := hperm.mem_iff.mp (List.mem_append_left _ hb)
    obtain ⟨last, hb'⟩ := Option.isSome_iff_exists.mp (h.hours b hbase)
    have hle : last ≤ hour := by
      have hle := hcross b hb a List.mem_cons_self
      unfold EarlierHour at hle
      rwa [hb', hhour] at hle
    have hne : last ≠ hour := by
      rintro rfl
      have hnodup := (hperm.map fun row => (row.token, row.key.hour)).nodup_iff.mpr h.once
      rw [List.map_append, List.map_cons, List.nodup_append] at hnodup
      refine hnodup.2.2 _ (List.mem_map_of_mem hb) _ List.mem_cons_self ?_
      exact Prod.ext htoken (hb'.trans hhour.symm)
    refine .inr ⟨b, hbase, htoken, last, hb', lt_of_le_of_ne hle hne, rfl,
      fun c hc hctoken hour' hc' hlt => ?_⟩
    rcases hlast c (hbefore c hc hour' hc' hlt) hctoken with hle | rfl
    · unfold EarlierHour at hle
      rwa [hc', hb'] at hle
    · rw [hb'] at hc'
      cases hc'
      exact le_rfl

/-- **The change of a row** is that from the hour before exactly when an earlier active
hour means that this hour was active, and the change does not fall short of a tie. -/
theorem HourlyTable.change_iff (h : HourlyTable base)
    (hcounts : ∀ row ∈ base, row.txCount < 2 ^ 32) {pct : Option ℚ}
    (hmem : (row, pct) ∈ withTrend byHour base) (hhour : row.key.hour = some hour) :
    pct = clockChangePct base row ↔
      (∀ earlier ∈ base, ∀ hour', earlier.key.hour = some hour' → earlier.token = row.token →
        hour' < hour → (countAt base row.token (hour - 1)).isSome) ∧
      ∀ prev, countAt base row.token (hour - 1) = some prev → ¬ FallsShort row.txCount prev := by
  have hclock : clockChangePct base row = (countAt base row.token (hour - 1)).map fun prev : ℕ =>
      Binary64.nearest (Decimal.roundHalfUp 2 (exactPct row.txCount prev)) := by
    unfold clockChangePct
    rw [hhour]
    show (countAt base row.token (hour - 1)).bind _ = _
    cases countAt base row.token (hour - 1) <;> rfl
  obtain ⟨hrow, ⟨hfirst, rfl⟩ | ⟨b, hb, htoken, last, hlast, hlt, rfl, hmax⟩⟩ :=
    h.trend_cases hmem hhour
  · -- there is no earlier hour
    have hnone : countAt base row.token (hour - 1) = none := by
      rw [Option.eq_none_iff_forall_not_mem]
      intro n hn
      obtain ⟨c, hc, hctoken, hc', -⟩ := h.countAt_eq_some_iff.mp hn
      have hle := hfirst c hc hctoken _ hc'
      omega
    rw [hclock, hnone]
    refine iff_of_true rfl ⟨fun earlier he hour' he' hetoken helt => ?_, fun prev hprev => ?_⟩
    · have hle := hfirst earlier he hetoken hour' he'
      omega
    · cases hprev
  · have hchange : txCountChangePct row.txCount (some b.txCount) =
        some (Binary64.round 2 (changePct row.txCount b.txCount)) := if_pos (h.active b hb)
    rw [hclock, hchange]
    cases hcount : countAt base row.token (hour - 1) with
    | none =>
      refine iff_of_false (fun heq => by cases heq) fun hsome => ?_
      have hactive := hsome.1 b hb last hlast htoken hlt
      cases hactive
    | some prev =>
      obtain ⟨c, hc, hctoken, hc', rfl⟩ := h.countAt_eq_some_iff.mp hcount
      -- the latest earlier hour is the hour before
      have hle := hmax c hc hctoken _ hc' (by omega)
      obtain rfl : last = hour - 1 := by omega
      obtain rfl : c = b :=
        List.inj_on_of_nodup_map h.once hc hb (by rw [hctoken, htoken, hc', hlast])
      rw [Option.map_some, Option.some.injEq,
        round_changePct_iff (h.active c hc) (hcounts row hrow) (hcounts c hc)]
      constructor
      · intro hkept
        refine ⟨fun _ _ _ _ _ _ => rfl, fun prev hprev => ?_⟩
        obtain rfl := Option.some.inj hprev
        exact hkept
      · exact fun hall => hall.2 _ rfl

end trend

/-- A token with `n` transfers at three o'clock and `m` in a later hour. -/
def twoHours (n m : ℕ) (hour : ℤ) : List HourlyBase :=
  [⟨⟨some 20608, some 3, some "0xc", some "T"⟩, n, none, none⟩,
    ⟨⟨some 20608, some hour, some "0xc", some "T"⟩, m, none, none⟩]

/-- From 160 to 183 the change is 14.375, and what is computed is below it. -/
example : FallsShort 183 160 ∧
    txCountChangePct 183 (some 160) = some (Binary64.nearest (1437 / 100)) :=
  ⟨⟨⟨2875, by decide, by decide +kernel⟩, by decide +kernel⟩, by decide +kernel⟩

end Gold

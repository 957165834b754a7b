import EthPipeline.Gold.WhaleLedger

/-!
# The market flow of an hour

`build_market_flow_hourly` of `src/gold/transform/market_flow_hourly.py`, over what
`read_silver` returns of the table `whale_txns`.

* `mem_buildMarketFlowHourly`: what a row has of its hour, also where no exchange is.
* `HourRoom.cexDepositEth`, `HourRoom.cexWithdrawalEth`: the amounts of an hour are its
  rounded sums.
* `hours_consistent`: what the rows of an hour have in common.
-/

namespace Gold

open Silver

/-! ### The totals of an hour -/

/-- `round(sum(..), 4)` of amounts. -/
def roundedSum (values : List (Option ℚ)) : Option ℚ :=
  (sumEth values).bind (Decimal.round (Decimal.sumType ethType) 4)

structure FlowTotal where
  dt : Option ℤ
  hour : Option ℤ
  flowType : String
  totalEth : Option ℚ
  deriving DecidableEq, Repr

def agg (df : List WhaleRow) : List FlowTotal :=
  Grouping.groupBy (fun row => (row.dt, row.hour, row.flowType))
    (fun key rows => ⟨key.1, key.2.1, key.2.2, roundedSum (rows.map (·.valueEth))⟩) df

/-! ### The pressure of an hour -/

/-- `when(flow_type == flow, value_eth).otherwise(0)`, a `decimal(38,18)`. -/
def amountIf (flow : String) (row : WhaleRow) : Option ℚ :=
  if row.flowType = flow then row.valueEth else some 0

/-- The type of a rounded sum. -/
def roundedType : DecimalType := Decimal.roundType (Decimal.sumType ethType) 4

/-- Null over nothing withdrawn; else the rounded quotient, and as a double like the null. -/
def depositWithdrawalRatio (deposit withdrawal : Option ℚ) : Option ℚ :=
  if withdrawal = some 0 then none else do
    let deposit ← deposit
    let withdrawal ← withdrawal
    let quotient ← Decimal.divide roundedType roundedType deposit withdrawal
    let ratio ← Decimal.round (Decimal.divType roundedType roundedType) 4 quotient
    return Binary64.nearest ratio

/-- `column > bound`, and `column < bound`. -/
def above (bound : ℚ) (column : Option ℚ) : Option Bool := column.map fun q => bound < q

def below (bound : ℚ) (column : Option ℚ) : Option Bool := column.map fun q => q < bound

def pressureLabel (deposit withdrawal ratio : Option ℚ) : String :=
  if Sql.and (Sql.eq deposit (some 0)) (Sql.eq withdrawal (some 0)) = some true then "NEUTRAL"
  else if Sql.and (Sql.eq withdrawal (some 0)) (above 0 deposit) = some true then
    "STRONG_SELL_PRESSURE"
  else if Sql.and (Sql.eq deposit (some 0)) (above 0 withdrawal) = some true then
    "STRONG_BUY_PRESSURE"
  else if above (3 / 2) ratio = some true then "STRONG_SELL_PRESSURE"
  else if above 1 ratio = some true then "MILD_SELL_PRESSURE"
  else if below (Binary64.nearest (67 / 100)) ratio = some true then "STRONG_BUY_PRESSURE"
  else if below 1 ratio = some true then "MILD_BUY_PRESSURE"
  else "NEUTRAL"

structure CexPivot where
  dt : Option ℤ
  hour : Option ℤ
  cexDepositEth : Option ℚ
  cexWithdrawalEth : Option ℚ
  depositWithdrawalRatio : Option ℚ
  pressureLabel : String
  deriving DecidableEq, Repr

def pivotOf (dt hour : Option ℤ) (rows : List WhaleRow) : CexPivot :=
  let deposit := roundedSum (rows.map (amountIf "CEX_DEPOSIT"))
  let withdrawal := roundedSum (rows.map (amountIf "CEX_WITHDRAWAL"))
  let ratio := depositWithdrawalRatio deposit withdrawal
  ⟨dt, hour, deposit, withdrawal, ratio, pressureLabel deposit withdrawal ratio⟩

/-- `flow_type` is one of the two of the exchanges. -/
def isCex (row : WhaleRow) : Bool :=
  row.flowType = "CEX_DEPOSIT" || row.flowType = "CEX_WITHDRAWAL"

def cexPivot (df : List WhaleRow) : List CexPivot :=
  Grouping.groupBy (fun row => (row.dt, row.hour)) (fun key rows => pivotOf key.1 key.2 rows)
    (df.filter isCex)

/-! ### The table -/

/-- `on=["dt", "hour"]`. -/
def hourKey (dt hour : Option ℤ) : Option (ℤ × ℤ) := dt.bind fun d => hour.map fun h => (d, h)

structure MarketRow where
  dt : Option ℤ
  hour : Option ℤ
  flowType : String
  totalEth : Option ℚ
  cexDepositEth : ℚ
  cexWithdrawalEth : ℚ
  depositWithdrawalRatio : Option ℚ
  pressureLabel : String
  deriving DecidableEq, Repr

/-- A row of the left join after both `fillna`. -/
def marketRow (row : FlowTotal × Option CexPivot) : MarketRow where
  dt := row.1.dt
  hour := row.1.hour
  flowType := row.1.flowType
  totalEth := row.1.totalEth
  cexDepositEth := (row.2.bind (·.cexDepositEth)).getD 0
  cexWithdrawalEth := (row.2.bind (·.cexWithdrawalEth)).getD 0
  depositWithdrawalRatio := row.2.bind (·.depositWithdrawalRatio)
  pressureLabel := (row.2.map (·.pressureLabel)).getD "NEUTRAL"

/-- `build_market_flow_hourly`. -/
def buildMarketFlowHourly (rows : List WhaleRow) (date : ℤ) : List MarketRow :=
  let df := withDate date rows
  (Join.left (fun row : FlowTotal => hourKey row.dt row.hour)
    (fun pivot : CexPivot => hourKey pivot.dt pivot.hour) (agg df) (cexPivot df)).map marketRow

/-! ### What a row has of its hour -/

section hour

variable (rows : List WhaleRow) (date : ℤ)

/-- The rows of an hour and a kind of flow. -/
def flowRows (flow : String) (hour : Option ℤ) : List WhaleRow :=
  rows.filter fun row => row.hour = hour ∧ row.flowType = flow

/-- The rows of an hour that the exchanges are in. -/
def cexRows (hour : Option ℤ) : List WhaleRow := (rows.filter isCex).filter fun row => row.hour = hour

/-- The total of an hour and a kind of flow. -/
def flowTotal (row : WhaleRow) : FlowTotal :=
  ⟨some date, row.hour, row.flowType,
    roundedSum ((flowRows rows row.flowType row.hour).map (·.valueEth))⟩

/-- The row of an hour and a kind of flow. -/
def hourRow (row : WhaleRow) : MarketRow :=
  marketRow (flowTotal rows date row, some (pivotOf (some date) row.hour (cexRows rows row.hour)))

variable {rows date}

theorem pivotOf_withDate (dt hour : Option ℤ) (part : List WhaleRow) :
    pivotOf dt hour (withDate date part) = pivotOf dt hour part := by
  unfold pivotOf withDate
  rw [List.map_map, List.map_map]
  rfl

theorem mem_agg {t : FlowTotal} :
    t ∈ agg (withDate date rows) ↔ ∃ row ∈ rows, t = flowTotal rows date row := by
  unfold agg withDate flowTotal flowRows
  rw [Grouping.mem_groupBy_map]
  simp only [Prod.mk.injEq, true_and, List.map_map]
  rfl

theorem mem_cexPivot {p : CexPivot} : p ∈ cexPivot (withDate date rows) ↔ ∃ row ∈ rows,
    isCex row = true ∧ p = pivotOf (some date) row.hour (cexRows rows row.hour) := by
  have hpart : ∀ part : List WhaleRow,
      part.map (fun row => { row with dt := some date }) = withDate date part := fun _ => rfl
  unfold cexPivot withDate cexRows
  rw [List.filter_map, Grouping.mem_groupBy_map]
  simp only [hpart, pivotOf_withDate, Prod.mk.injEq, true_and, List.mem_filter, and_assoc]
  rfl

theorem hourKey_inj {h h' : Option ℤ} (heq : hourKey (some date) h = hourKey (some date) h') :
    h = h' :=
  Option.map_injective (Prod.mk_right_injective date) heq

/-- Without exchanges the columns are those of no rows. -/
theorem marketRow_none (t : FlowTotal) (dt hour : Option ℤ) :
    marketRow (t, none) = marketRow (t, some (pivotOf dt hour [])) := rfl

/-- **What a row has of its hour**, whether an exchange is in it or not. -/
theorem mem_buildMarketFlowHourly {r : MarketRow} (hhour : r.hour ≠ none) :
    r ∈ buildMarketFlowHourly rows date ↔ ∃ row ∈ rows, r = hourRow rows date row := by
  have hjoined : ∀ row ∈ rows, row.hour ≠ none → ∀ y, (flowTotal rows date row, y) ∈ Join.left
        (fun t : FlowTotal => hourKey t.dt t.hour) (fun p : CexPivot => hourKey p.dt p.hour)
        (agg (withDate date rows)) (cexPivot (withDate date rows)) →
      marketRow (flowTotal rows date row, y) = hourRow rows date row := by
    intro row hrow hhour y hy
    rcases (Join.mem_left.mp hy).2 with ⟨p, hp, rfl⟩ | ⟨hnone, rfl⟩
    · obtain ⟨hp, hkey, -⟩ := Join.mem_found.mp hp
      obtain ⟨row', -, -, rfl⟩ := mem_cexPivot.mp hp
      have hsame : row.hour = row'.hour := hourKey_inj hkey
      rw [hourRow, hsame]
    · -- no exchange is in this hour
      have hempty : cexRows rows row.hour = [] := by
        refine List.filter_eq_nil_iff.mpr fun row' hrow' heq => ?_
        obtain ⟨hrow', hcex⟩ := List.mem_filter.mp hrow'
        have hsame : row'.hour = row.hour := of_decide_eq_true heq
        obtain ⟨h, hh⟩ := Option.ne_none_iff_exists'.mp hhour
        have hfound : pivotOf (some date) row'.hour (cexRows rows row'.hour) ∈ Join.found
            (fun t : FlowTotal => hourKey t.dt t.hour) (fun p : CexPivot => hourKey p.dt p.hour)
            (cexPivot (withDate date rows)) (flowTotal rows date row) := by
          refine Join.mem_found.mpr ⟨mem_cexPivot.mpr ⟨row', hrow', hcex, rfl⟩, ?_, ?_⟩
          · exact congrArg (hourKey (some date)) hsame.symm
          · simp [flowTotal, hourKey, hh]
        rw [hnone] at hfound
        cases hfound
      rw [hourRow, hempty]
      exact marketRow_none ..
  constructor
  · intro h
    obtain ⟨⟨t, y⟩, hmem, rfl⟩ := List.mem_map.mp h
    obtain ⟨row, hrow, rfl⟩ := mem_agg.mp (Join.mem_left.mp hmem).1
    exact ⟨row, hrow, hjoined row hrow hhour y hmem⟩
  · rintro ⟨row, hrow, rfl⟩
    obtain ⟨y, hmem⟩ : ∃ y, (flowTotal rows date row, y) ∈ Join.left
        (fun t : FlowTotal => hourKey t.dt t.hour) (fun p : CexPivot => hourKey p.dt p.hour)
        (agg (withDate date rows)) (cexPivot (withDate date rows)) :=
      Join.exists_mem_left (mem_agg.mpr ⟨row, hrow, rfl⟩)
    exact List.mem_map.mpr ⟨_, hmem, hjoined row hrow hhour y hmem⟩

/-- One row for an hour and a kind of flow. -/
theorem nodup_hour_flowType :
    ((buildMarketFlowHourly rows date).map fun r => (r.hour, r.flowType)).Nodup := by
  have hone : ∀ t ∈ agg (withDate date rows),
      (Join.found (fun t : FlowTotal => hourKey t.dt t.hour)
        (fun p : CexPivot => hourKey p.dt p.hour) (cexPivot (withDate date rows)) t).length ≤ 1 := by
    intro t _
    refine Join.length_found_le_one (Grouping.nodup_groupBy
      (f := fun key : Option ℤ × Option ℤ => hourKey key.1 key.2) (fun _ _ => rfl) ?_) t
    intro a ha c hc heq
    have hdt := dt_withDate (List.mem_filter.mp ha).1
    have hdt' := dt_withDate (List.mem_filter.mp hc).1
    rw [hdt, hdt'] at heq ⊢
    exact Prod.ext rfl (hourKey_inj heq)
  have hcolumns := Join.map_left (fun t : FlowTotal => (t.hour, t.flowType)) hone
  unfold buildMarketFlowHourly
  rw [List.map_map]
  refine (congrArg List.Nodup hcolumns).mpr (Grouping.nodup_groupBy
    (f := fun key : Option ℤ × Option ℤ × String => key.2) (fun _ _ => rfl) ?_)
  intro a ha c hc heq
  exact Prod.ext ((dt_withDate ha).trans (dt_withDate hc).symm) heq

end hour

/-! ### The amounts of an hour -/

section amounts

/-- What a kind of flow moves in an hour. -/
def hourTotal (rows : List WhaleRow) (flow : String) (hour : Option ℤ) : ℚ :=
  totalEth ((flowRows rows flow hour).map (·.valueEth))

/-- An hour of `whale_txns` with amounts, whose sums of the exchanges have room. -/
structure HourRoom (rows : List WhaleRow) (hour : Option ℤ) : Prop where
  values : ∀ row ∈ rows, row.hour = hour → ∃ q, row.valueEth = some q ∧ Decimal.Fits ethType q
  deposits : |hourTotal rows "CEX_DEPOSIT" hour| < 10 ^ 20
  withdrawals : |hourTotal rows "CEX_WITHDRAWAL" hour| < 10 ^ 20

/-- A day of `whale_txns` with amounts, whose sums of the exchanges have room. -/
structure MarketDay (rows : List WhaleRow) : Prop where
  values : ∀ row ∈ rows, ∃ q, row.valueEth = some q ∧ Decimal.Fits ethType q
  deposits : ∀ hour, |hourTotal rows "CEX_DEPOSIT" hour| < 10 ^ 20
  withdrawals : ∀ hour, |hourTotal rows "CEX_WITHDRAWAL" hour| < 10 ^ 20

theorem MarketDay.hourRoom {rows : List WhaleRow} (h : MarketDay rows) (hour : Option ℤ) :
    HourRoom rows hour :=
  ⟨fun row hrow _ => h.values row hrow, h.deposits hour, h.withdrawals hour⟩

theorem roundedSum_of_room {values : List (Option ℚ)} (hne : values ≠ [])
    (hvalues : ∀ v ∈ values, ∃ q, v = some q ∧ Decimal.Fits ethType q)
    (hroom : |totalEth values| < 10 ^ 20) :
    roundedSum values = some (Decimal.roundHalfUp 4 (totalEth values)) := by
  have hsum : sumEth values = some (totalEth values) := by
    refine sumEth_of_room ?_ (fun q hq => ?_) hroom
    · obtain ⟨v, hv⟩ := List.exists_mem_of_ne_nil values hne
      obtain ⟨q, rfl, -⟩ := hvalues v hv
      exact ⟨q, hv⟩
    · obtain ⟨r, hr, hfits⟩ := hvalues _ hq
      cases hr
      exact hfits
  rw [roundedSum, hsum, Option.bind_some]
  have hle : |totalEth values| ≤ (10 ^ 20 : ℕ) := by
    push_cast
    exact hroom.le
  exact Decimal.cast_of_abs_le (t := Decimal.roundType (Decimal.sumType ethType) 4) hle (by decide)

variable {rows : List WhaleRow} {date : ℤ} {flow : String}

/-- The sum over the exchanges is that of the kind of flow: the others add zero. -/
theorem totalEth_amountIf (hflow : ∀ row : WhaleRow, row.flowType = flow → isCex row = true)
    (hour : Option ℤ) :
    totalEth ((cexRows rows hour).map (amountIf flow)) = hourTotal rows flow hour := by
  have hzero : ∀ row : WhaleRow, (amountIf flow row).getD 0 =
      if row.flowType = flow then row.valueEth.getD 0 else 0 := by
    intro row
    unfold amountIf
    split
    · rfl
    · rfl
  have hcex : cexRows rows hour = rows.filter fun row => row.hour = hour ∧ isCex row = true := by
    unfold cexRows
    rw [List.filter_filter]
    exact List.filter_congr fun row _ => by simp
  have hflows : (rows.filter fun row => (row.hour = hour ∧ isCex row = true) ∧ row.flowType = flow) =
      flowRows rows flow hour := by
    refine List.filter_congr fun row _ => decide_eq_decide.mpr ?_
    constructor
    · rintro ⟨⟨hhour, -⟩, htype⟩
      exact ⟨hhour, htype⟩
    · rintro ⟨hhour, htype⟩
      exact ⟨⟨hhour, hflow row htype⟩, htype⟩
  rw [hourTotal, totalEth_map, totalEth_map, hcex, ← hflows]
  simp only [hzero]
  exact Grouping.sum_filter_ite _ _ _

theorem isCex_deposit (row : WhaleRow) (h : row.flowType = "CEX_DEPOSIT") : isCex row = true := by
  simp [isCex, h]

theorem isCex_withdrawal (row : WhaleRow) (h : row.flowType = "CEX_WITHDRAWAL") : isCex row = true := by
  simp [isCex, h]

/-- **The amount of a kind of flow** in an hour that the exchanges are in. -/
theorem HourRoom.roundedSum_cexRows {hour : Option ℤ} (h : HourRoom rows hour)
    (hflow : ∀ row : WhaleRow, row.flowType = flow → isCex row = true)
    (hroom : |hourTotal rows flow hour| < 10 ^ 20) (hne : cexRows rows hour ≠ []) :
    roundedSum ((cexRows rows hour).map (amountIf flow)) =
      some (Decimal.roundHalfUp 4 (hourTotal rows flow hour)) := by
  rw [← totalEth_amountIf hflow] at hroom ⊢
  refine roundedSum_of_room (by simpa using hne) (fun v hv => ?_) hroom
  obtain ⟨row, hrow, rfl⟩ := List.mem_map.mp hv
  unfold amountIf
  split
  · have hhour := List.mem_filter.mp hrow
    exact h.values row (List.mem_filter.mp hhour.1).1 (of_decide_eq_true hhour.2)
  · exact ⟨0, rfl, Decimal.fits_natCast (n := 0) (by decide)⟩

/-- Without exchanges nothing flows. -/
theorem hourTotal_of_empty (hflow : ∀ row : WhaleRow, row.flowType = flow → isCex row = true)
    {hour : Option ℤ} (h : cexRows rows hour = []) : hourTotal rows flow hour = 0 := by
  rw [← totalEth_amountIf hflow, h]
  rfl

theorem HourRoom.roundedSum_getD {hour : Option ℤ} (h : HourRoom rows hour)
    (hflow : ∀ row : WhaleRow, row.flowType = flow → isCex row = true)
    (hroom : |hourTotal rows flow hour| < 10 ^ 20) :
    (roundedSum ((cexRows rows hour).map (amountIf flow))).getD 0 =
      Decimal.roundHalfUp 4 (hourTotal rows flow hour) := by
  by_cases hne : cexRows rows hour = []
  · rw [hourTotal_of_empty hflow hne, hne]
    exact (Decimal.roundHalfUp_intCast 4 0).symm
  · rw [h.roundedSum_cexRows hflow hroom hne, Option.getD_some]

variable {r : MarketRow}

/-- **The amounts of an hour** are its rounded sums. -/
theorem HourRoom.cexDepositEth (h : HourRoom rows r.hour)
    (hr : r ∈ buildMarketFlowHourly rows date) (hhour : r.hour ≠ none) :
    r.cexDepositEth = Decimal.roundHalfUp 4 (hourTotal rows "CEX_DEPOSIT" r.hour) := by
  obtain ⟨row, hrow, rfl⟩ := (mem_buildMarketFlowHourly hhour).mp hr
  exact h.roundedSum_getD isCex_deposit h.deposits

theorem HourRoom.cexWithdrawalEth (h : HourRoom rows r.hour)
    (hr : r ∈ buildMarketFlowHourly rows date) (hhour : r.hour ≠ none) :
    r.cexWithdrawalEth = Decimal.roundHalfUp 4 (hourTotal rows "CEX_WITHDRAWAL" r.hour) := by
  obtain ⟨row, hrow, rfl⟩ := (mem_buildMarketFlowHourly hhour).mp hr
  exact h.roundedSum_getD isCex_withdrawal h.withdrawals

/-- The total of a kind of flow whose sum has room. -/
theorem MarketDay.totalEth_hourRow (h : MarketDay rows) {row : WhaleRow} (hrow : row ∈ rows)
    (hroom : |hourTotal rows row.flowType row.hour| < 10 ^ 20) :
    (hourRow rows date row).totalEth =
      some (Decimal.roundHalfUp 4 (hourTotal rows row.flowType row.hour)) := by
  refine roundedSum_of_room ?_ (fun v hv => ?_) hroom
  · have hmem : row ∈ flowRows rows row.flowType row.hour :=
      List.mem_filter.mpr ⟨hrow, decide_eq_true ⟨rfl, rfl⟩⟩
    exact List.ne_nil_of_mem (List.mem_map_of_mem hmem)
  · obtain ⟨row', hrow', rfl⟩ := List.mem_map.mp hv
    exact h.values row' (List.mem_filter.mp hrow').1

/-- What an hour receives or sends is the total of its row, or zero without one. -/
theorem MarketDay.total_of_flow (h : MarketDay rows)
    (hroom : ∀ hour, |hourTotal rows flow hour| < 10 ^ 20) {hour : Option ℤ} (hhour : hour ≠ none) :
    (∃ d ∈ buildMarketFlowHourly rows date, d.hour = hour ∧ d.flowType = flow ∧
        d.totalEth = some (Decimal.roundHalfUp 4 (hourTotal rows flow hour))) ∨
      (∀ d ∈ buildMarketFlowHourly rows date, d.hour = hour → d.flowType ≠ flow) ∧
        Decimal.roundHalfUp 4 (hourTotal rows flow hour) = 0 := by
  by_cases hsome : ∃ row ∈ rows, row.hour = hour ∧ row.flowType = flow
  · obtain ⟨row, hrow, rfl, rfl⟩ := hsome
    exact .inl ⟨hourRow rows date row, (mem_buildMarketFlowHourly hhour).mpr ⟨row, hrow, rfl⟩,
      rfl, rfl, h.totalEth_hourRow hrow (hroom _)⟩
  · refine .inr ⟨fun d hd hsame htype => ?_, ?_⟩
    · obtain ⟨row, hrow, rfl⟩ := (mem_buildMarketFlowHourly (hsame.trans_ne hhour)).mp hd
      exact hsome ⟨row, hrow, hsame, htype⟩
    · have hpart : flowRows rows flow hour = [] :=
        List.filter_eq_nil_iff.mpr fun row hrow hboth =>
          hsome ⟨row, hrow, of_decide_eq_true hboth⟩
      rw [hourTotal, hpart]
      exact Decimal.roundHalfUp_intCast 4 0

end amounts

/-! ### The ratio -/

section ratio

/-- The quotient of two amounts, rounded three times. -/
def roundedQuotient (deposit withdrawal : ℚ) : ℚ :=
  Decimal.roundHalfUp 4 (Decimal.roundHalfUp 13 (Decimal.roundHalfUp 38 (deposit / withdrawal)))

theorem abs_div_le {d w : ℚ} (hd : |d| ≤ 10 ^ 20) (hw : 1 / 10 ^ 4 ≤ |w|) :
    |d / w| ≤ (10 ^ 24 : ℕ) := by
  have hpos : 0 < |w| := lt_of_lt_of_le (by norm_num) hw
  rw [abs_div, div_le_iff₀ hpos]
  push_cast
  calc |d| ≤ 10 ^ 24 * (1 / 10 ^ 4) := hd.trans_eq (by norm_num)
    _ ≤ 10 ^ 24 * |w| := by gcongr

/-- **The ratio has room** where the amounts have. -/
theorem ratio_of_room {d w : ℚ} (hd : |d| ≤ 10 ^ 20) (hw : 1 / 10 ^ 4 ≤ |w|) :
    depositWithdrawalRatio (some d) (some w) = some (Binary64.nearest (roundedQuotient d w)) := by
  have hne : w ≠ 0 := by
    rintro rfl
    norm_num at hw
  have h38 := Decimal.abs_roundHalfUp_le (s := 38) (abs_div_le hd hw)
  have hdivide : Decimal.divide roundedType roundedType d w =
      some (Decimal.roundHalfUp 13 (Decimal.roundHalfUp 38 (d / w))) := by
    rw [Decimal.divide, if_neg hne]
    exact Decimal.cast_of_abs_le (t := Decimal.divType roundedType roundedType) h38 (by decide)
  have hround : Decimal.round (Decimal.divType roundedType roundedType) 4
      (Decimal.roundHalfUp 13 (Decimal.roundHalfUp 38 (d / w))) = some (roundedQuotient d w) :=
    Decimal.cast_of_abs_le
      (t := Decimal.roundType (Decimal.divType roundedType roundedType) 4)
      (Decimal.abs_roundHalfUp_le (s := 13) h38) (by decide)
  rw [depositWithdrawalRatio, if_neg (by simpa using hne)]
  show (Decimal.divide roundedType roundedType d w).bind _ = _
  rw [hdivide, Option.bind_some, hround]
  rfl

/-- A sum that has room, rounded. -/
theorem abs_roundHalfUp_le_room {q : ℚ} (h : |q| < 10 ^ 20) :
    |Decimal.roundHalfUp 4 q| ≤ 10 ^ 20 := by
  have hle : |q| ≤ (10 ^ 20 : ℕ) := by
    push_cast
    exact h.le
  have hround := Decimal.abs_roundHalfUp_le (s := 4) hle
  push_cast at hround
  exact hround

/-- An amount with four digits that is not zero. -/
theorem le_abs_roundHalfUp {q : ℚ} (h : Decimal.roundHalfUp 4 q ≠ 0) :
    1 / 10 ^ 4 ≤ |Decimal.roundHalfUp 4 q| := by
  obtain ⟨n, hn⟩ := Decimal.roundHalfUp_exact 4 q
  have hvalue : Decimal.roundHalfUp 4 q = n / 10 ^ 4 := by rw [← hn]; field_simp
  have hne : n ≠ 0 := by
    rintro rfl
    rw [hvalue] at h
    norm_num at h
  have hone : (1 : ℚ) ≤ |(n : ℚ)| := by exact_mod_cast Int.one_le_abs hne
  rw [hvalue, abs_div, abs_of_pos (by norm_num : (0 : ℚ) < 10 ^ 4)]
  gcongr

end ratio

/-! ### The rows of an hour agree -/

section consistent

variable {rows : List WhaleRow} {date : ℤ} {r : MarketRow}

def sellLabels : List String := ["STRONG_SELL_PRESSURE", "MILD_SELL_PRESSURE"]

def buyLabels : List String := ["STRONG_BUY_PRESSURE", "MILD_BUY_PRESSURE"]

theorem pressureLabel_mem (deposit withdrawal ratio : Option ℚ) :
    pressureLabel deposit withdrawal ratio ∈ "NEUTRAL" :: sellLabels ++ buyLabels := by
  unfold pressureLabel
  split_ifs <;> decide

/-- What the rows of an hour have in common, and what their columns are. -/
structure HoursConsistent (rows : List WhaleRow) (table : List MarketRow) : Prop where
  oneRow : (table.map fun r => (r.hour, r.flowType)).Nodup
  occurs : ∀ hour flow, (∃ r ∈ table, r.hour = hour ∧ r.flowType = flow) ↔
    ∃ row ∈ rows, row.hour = hour ∧ row.flowType = flow
  sameHour : ∀ r ∈ table, ∀ r' ∈ table, r.hour = r'.hour →
    r.cexDepositEth = r'.cexDepositEth ∧ r.cexWithdrawalEth = r'.cexWithdrawalEth ∧
      r.depositWithdrawalRatio = r'.depositWithdrawalRatio ∧ r.pressureLabel = r'.pressureLabel
  deposit : ∀ r ∈ table,
    (∃ d ∈ table, d.hour = r.hour ∧ d.flowType = "CEX_DEPOSIT" ∧
        d.totalEth = some r.cexDepositEth) ∨
      (∀ d ∈ table, d.hour = r.hour → d.flowType ≠ "CEX_DEPOSIT") ∧ r.cexDepositEth = 0
  withdrawal : ∀ r ∈ table,
    (∃ d ∈ table, d.hour = r.hour ∧ d.flowType = "CEX_WITHDRAWAL" ∧
        d.totalEth = some r.cexWithdrawalEth) ∨
      (∀ d ∈ table, d.hour = r.hour → d.flowType ≠ "CEX_WITHDRAWAL") ∧ r.cexWithdrawalEth = 0
  ratio : ∀ r ∈ table, r.depositWithdrawalRatio = none ↔ r.cexWithdrawalEth = 0
  label : ∀ r ∈ table, r.pressureLabel ∈ "NEUTRAL" :: sellLabels ++ buyLabels

/-- The columns of an hour, from its sums. -/
theorem HourRoom.columns (h : HourRoom rows r.hour) (hr : r ∈ buildMarketFlowHourly rows date)
    (hhour : r.hour ≠ none) :
    r.depositWithdrawalRatio =
        depositWithdrawalRatio (some r.cexDepositEth) (some r.cexWithdrawalEth) ∧
      r.pressureLabel = pressureLabel (some r.cexDepositEth) (some r.cexWithdrawalEth)
        (depositWithdrawalRatio (some r.cexDepositEth) (some r.cexWithdrawalEth)) := by
  have hdeposit := h.cexDepositEth hr hhour
  have hwithdrawal := h.cexWithdrawalEth hr hhour
  obtain ⟨row, hrow, rfl⟩ := (mem_buildMarketFlowHourly hhour).mp hr
  change HourRoom rows row.hour at h
  by_cases hne : cexRows rows row.hour = []
  · -- nothing flows in this hour
    rw [hdeposit, hwithdrawal, show (hourRow rows date row).hour = row.hour from rfl,
      hourTotal_of_empty isCex_deposit hne, hourTotal_of_empty isCex_withdrawal hne,
      show (0 : ℚ) = ((0 : ℤ) : ℚ) from rfl, Decimal.roundHalfUp_intCast, hourRow, hne]
    exact ⟨rfl, rfl⟩
  · rw [hdeposit, hwithdrawal, hourRow, marketRow]
    dsimp only [pivotOf, Option.bind_some, Option.map_some, Option.getD_some, flowTotal]
    rw [h.roundedSum_cexRows isCex_deposit h.deposits hne,
      h.roundedSum_cexRows isCex_withdrawal h.withdrawals hne]
    exact ⟨rfl, rfl⟩

theorem hour_ne_none (hhours : ∀ row ∈ rows, row.hour ≠ none)
    (hr : r ∈ buildMarketFlowHourly rows date) : r.hour ≠ none := by
  obtain ⟨⟨t, y⟩, hmem, rfl⟩ := List.mem_map.mp hr
  obtain ⟨row, hrow, rfl⟩ := mem_agg.mp (Join.mem_left.mp hmem).1
  exact hhours row hrow

/-- **The rows of an hour agree**, and say of the exchanges what their own rows say. -/
theorem hours_consistent (h : MarketDay rows) (hhours : ∀ row ∈ rows, row.hour ≠ none) (date : ℤ) :
    HoursConsistent rows (buildMarketFlowHourly rows date) := by
  have hhour : ∀ r ∈ buildMarketFlowHourly rows date, r.hour ≠ none :=
    fun _ => hour_ne_none hhours
  refine ⟨nodup_hour_flowType, fun hour flow => ?_, fun r hr r' hr' hsame => ?_, fun r hr => ?_,
    fun r hr => ?_, fun r hr => ?_, fun r hr => ?_⟩
  · constructor
    · rintro ⟨r, hr, rfl, rfl⟩
      obtain ⟨row, hrow, rfl⟩ := (mem_buildMarketFlowHourly (hhour r hr)).mp hr
      exact ⟨row, hrow, rfl, rfl⟩
    · rintro ⟨row, hrow, rfl, rfl⟩
      exact ⟨hourRow rows date row,
        (mem_buildMarketFlowHourly (hhours row hrow)).mpr ⟨row, hrow, rfl⟩, rfl, rfl⟩
  · have hdeposit : r.cexDepositEth = r'.cexDepositEth := by
      rw [(h.hourRoom _).cexDepositEth hr (hhour r hr),
        (h.hourRoom _).cexDepositEth hr' (hhour r' hr'), hsame]
    have hwithdrawal : r.cexWithdrawalEth = r'.cexWithdrawalEth := by
      rw [(h.hourRoom _).cexWithdrawalEth hr (hhour r hr),
        (h.hourRoom _).cexWithdrawalEth hr' (hhour r' hr'), hsame]
    obtain ⟨hratio, hlabel⟩ := (h.hourRoom _).columns hr (hhour r hr)
    obtain ⟨hratio', hlabel'⟩ := (h.hourRoom _).columns hr' (hhour r' hr')
    rw [hratio, hlabel, hratio', hlabel', hdeposit, hwithdrawal]
    exact ⟨rfl, rfl, rfl, rfl⟩
  · rw [(h.hourRoom _).cexDepositEth hr (hhour r hr)]
    exact h.total_of_flow h.deposits (hhour r hr)
  · rw [(h.hourRoom _).cexWithdrawalEth hr (hhour r hr)]
    exact h.total_of_flow h.withdrawals (hhour r hr)
  · rw [((h.hourRoom _).columns hr (hhour r hr)).1]
    constructor
    · intro hnone
      by_contra hne
      have hd : |r.cexDepositEth| ≤ 10 ^ 20 := by
        rw [(h.hourRoom _).cexDepositEth hr (hhour r hr)]
        exact abs_roundHalfUp_le_room (h.deposits _)
      have hw : 1 / 10 ^ 4 ≤ |r.cexWithdrawalEth| := by
        rw [(h.hourRoom _).cexWithdrawalEth hr (hhour r hr)] at hne ⊢
        exact le_abs_roundHalfUp hne
      rw [ratio_of_room hd hw] at hnone
      cases hnone
    · intro hzero
      rw [hzero]
      rfl
  · rw [((h.hourRoom _).columns hr (hhour r hr)).2]
    exact pressureLabel_mem ..

end consistent

/-! ### Days of a few rows -/

/-- It is enough that all amounts together have room. -/
theorem MarketDay.of_total {rows : List WhaleRow} (hamounts : ∀ row ∈ rows, Amount row.valueEth)
    (hroom : totalEth (rows.map (·.valueEth)) < 10 ^ 20) : MarketDay rows := by
  have hpart : ∀ flow hour, |hourTotal rows flow hour| < 10 ^ 20 := by
    intro flow hour
    have hamount : ∀ v ∈ rows.map (·.valueEth), Amount v := by
      intro v hv
      obtain ⟨row, hrow, rfl⟩ := List.mem_map.mp hv
      exact hamounts row hrow
    have hsub : ((flowRows rows flow hour).map (·.valueEth)).Sublist (rows.map (·.valueEth)) :=
      List.filter_sublist.map _
    have hpos : 0 ≤ hourTotal rows flow hour :=
      totalEth_nonneg fun v hv => hamount v (hsub.subset hv)
    rw [abs_of_nonneg hpos]
    exact (totalEth_sublist hsub hamount).trans_lt hroom
  refine ⟨fun row hrow => ?_, hpart _, hpart _⟩
  obtain ⟨q, hq, hfits, -⟩ := hamounts row hrow
  exact ⟨q, hq, hfits⟩

/-- A whale of the first hour. -/
def whaleOf (flow : String) (eth : ℕ) : WhaleRow where
  hash := some "0x1"
  blockTimestamp := some 1780531200
  hour := some 0
  dt := some 20608
  fromAddress := some "0xa"
  fromLabel := "Unknown"
  fromEntity := "Unknown"
  fromCategory := "Unknown"
  toAddress := some "0xb"
  toLabel := "Unknown"
  toEntity := "Unknown"
  toCategory := "Unknown"
  valueEth := some eth
  cumulSentEth := some eth
  cumulTxCount := 1
  cumulRecvEth := some eth
  whaleTier := "Shark"
  flowType := flow
  isPrivateTransaction := false
  flagHighFreq := some false

theorem amount_whaleOf (flow : String) {eth : ℕ} (hpos : 0 < eth) (heth : eth < 10 ^ 20) :
    Amount (whaleOf flow eth).valueEth := by
  refine ⟨eth, rfl, Decimal.fits_natCast ?_, by exact_mod_cast hpos⟩
  calc eth * 10 ^ 18 < 10 ^ 20 * 10 ^ 18 := by gcongr
    _ = 10 ^ 38 := by norm_num

/-- Deposits, a withdrawal and a swap in one hour. -/
def marketHour : List WhaleRow :=
  [whaleOf "CEX_DEPOSIT" 150, whaleOf "CEX_WITHDRAWAL" 200, whaleOf "DEX_TRADE" 300,
    whaleOf "CEX_DEPOSIT" 120]

theorem amount_marketHour : ∀ row ∈ marketHour, Amount row.valueEth := by
  simp only [marketHour, List.forall_mem_cons]
  refine ⟨?_, ?_, ?_, ?_, by simp⟩ <;> exact amount_whaleOf _ (by norm_num) (by norm_num)

theorem marketDay_marketHour : MarketDay marketHour :=
  MarketDay.of_total amount_marketHour (by decide +kernel)

theorem marketHour_consistent :
    HoursConsistent marketHour (buildMarketFlowHourly marketHour 20608) :=
  hours_consistent marketDay_marketHour (by decide) 20608

/-- Deposits that have no room together. -/
def overflowHour : List WhaleRow :=
  [whaleOf "CEX_DEPOSIT" (6 * 10 ^ 19), whaleOf "CEX_DEPOSIT" (6 * 10 ^ 19),
    whaleOf "CEX_WITHDRAWAL" 200]

/-- **A sum without room** is null in its row and zero in the columns of the hour. -/
theorem overflowHour_inconsistent :
    (∀ row ∈ overflowHour, row.hour ≠ none ∧ Amount row.valueEth) ∧
      ¬ HoursConsistent overflowHour (buildMarketFlowHourly overflowHour 20608) := by
  constructor
  · simp only [overflowHour, List.forall_mem_cons]
    refine ⟨⟨?_, ?_⟩, ⟨?_, ?_⟩, ⟨?_, ?_⟩, by simp⟩
    all_goals first | exact amount_whaleOf _ (by norm_num) (by norm_num) | decide
  · intro h
    obtain ⟨r, hr, hratio, hwithdrawal⟩ : ∃ r ∈ buildMarketFlowHourly overflowHour 20608,
        r.depositWithdrawalRatio = none ∧ r.cexWithdrawalEth = 200 := by decide +kernel
    have hzero := (h.ratio r hr).mp hratio
    rw [hwithdrawal] at hzero
    norm_num at hzero

end Gold

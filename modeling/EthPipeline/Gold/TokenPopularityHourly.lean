import EthPipeline.Gold.TokenPopularityDaily

/-!
# The popular tokens of an hour

`build_token_popularity_hourly` of `src/gold/transform/token_popularity_hourly.py`, and
what the column `cex_net_flow` of both tables adds up.

* `buildTokenPopularityHourly_error`: the job filters on a column that is not read.
* `cexNetFlow_iff`: when the column is inflow less outflow.
-/

namespace Gold

open Silver

/-! ### The groups of an hour -/

structure HourKey where
  dt : Option ℤ
  hour : Option ℤ
  tokenAddress : Option String
  symbol : Option String
  deriving DecidableEq, Repr

def TokenFlow.hourKey (row : TokenFlow) : HourKey :=
  ⟨row.dt, row.hour, row.tokenAddress, row.symbol⟩

structure HourlyBase where
  key : HourKey
  txCount : ℕ
  totalVolume : Option ℚ
  cexNetFlow : Option PyFloat
  deriving DecidableEq, Repr

def hourlyBase (spark : Summation) (df : List TokenFlow) : List HourlyBase :=
  Grouping.groupBy TokenFlow.hourKey
    (fun key rows => ⟨key, rows.countP (·.transactionHash.isSome), totalVolume rows,
      cexNetFlow spark rows⟩) df

/-! ### Trend, rank and signal -/

/-- `orderBy("hour")`. -/
def EarlierHour (a b : HourlyBase) : Prop := Earlier a.key.hour b.key.hour

instance : DecidableRel EarlierHour :=
  fun a b => inferInstanceAs (Decidable (Earlier a.key.hour b.key.hour))

abbrev HourOrder := Window.Sorting EarlierHour

/-- `(tx_count - prev) / prev * 100` in doubles: a difference of integers, a quotient and a
product, each rounded. -/
def changePct (txCount prev : ℕ) : ℚ :=
  Binary64.nearest (Binary64.nearest (Binary64.nearest ((txCount : ℤ) - (prev : ℤ) : ℤ) /
    Binary64.nearest (prev : ℤ)) * 100)

/-- `round((tx_count - prev) / prev * 100, 2)`, where `prev` is not null and above zero. -/
def txCountChangePct (txCount : ℕ) (prevTx : Option ℕ) : Option ℚ :=
  match prevTx with
  | some prev => if 0 < prev then some (Binary64.round 2 (changePct txCount prev)) else none
  | none => none

/-- The rows with `lag("tx_count", 1)` over the hours of their token. -/
def withTrend (byHour : HourOrder) (base : List HourlyBase) : List (HourlyBase × Option ℚ) :=
  (Window.overParts (fun row : HourlyBase => (row.key.tokenAddress, row.key.dt))
    (fun upto => upto.dropLast.getLast?.map (·.txCount)) (byHour.run base)).map
    fun p => (p.1, txCountChangePct p.1.txCount p.2)

def rankByTxCount (trend : List (HourlyBase × Option ℚ)) (row : HourlyBase × Option ℚ) : ℕ :=
  Ranking.rank (fun p : HourlyBase × Option ℚ => (p.1.key.dt, p.1.key.hour))
    (fun a b => b.1.txCount < a.1.txCount) trend row

def trendingSignal (changePct : Option ℚ) (rank : ℕ) : Option String :=
  match changePct with
  | some pct =>
    if 100 ≤ pct ∧ rank ≤ 20 then some "Surging"
    else if 50 ≤ pct ∧ rank ≤ 20 then some "Rising"
    else if pct ≤ -50 then some "Cooling" else none
  | none => none

structure HourlyRow where
  dt : Option ℤ
  hour : Option ℤ
  tokenAddress : Option String
  symbol : Option String
  rankByTxCount : ℕ
  txCount : ℕ
  totalVolume : Option ℚ
  txCountChangePct : Option ℚ
  cexNetFlow : Option PyFloat
  trendingSignal : Option String
  deriving DecidableEq, Repr

def hourlyRow (trend : List (HourlyBase × Option ℚ)) (row : HourlyBase × Option ℚ) : HourlyRow where
  dt := row.1.key.dt
  hour := row.1.key.hour
  tokenAddress := row.1.key.tokenAddress
  symbol := row.1.key.symbol
  rankByTxCount := rankByTxCount trend row
  txCount := row.1.txCount
  totalVolume := row.1.totalVolume
  txCountChangePct := row.2
  cexNetFlow := row.1.cexNetFlow
  trendingSignal := trendingSignal row.2 (rankByTxCount trend row)

/-- `build_token_popularity_hourly`. -/
def buildTokenPopularityHourly (rows : List TokenFlow) (date : ℤ) (byHour : HourOrder)
    (spark : Summation) : Except AnalysisException (List HourlyRow) := do
  let df := onDate date rows
  let status ← intCol "status"
  let df := df.filter fun row => status row = some 1
  let trend := withTrend byHour (hourlyBase spark df)
  return trend.map (hourlyRow trend)

/-- **The hourly job fails on every day**: its schema has no column `status`. -/
theorem buildTokenPopularityHourly_error (rows : List TokenFlow) (date : ℤ) (byHour : HourOrder)
    (spark : Summation) :
    buildTokenPopularityHourly rows date byHour spark = .error ⟨"status"⟩ := rfl

/-! ### What the exchanges receive and send -/

section flows

variable {rows : List TokenFlow} {date : ℤ} {estimate : TokenKey → List String → ℕ}
  {spark : Summation}

/-- The token of a row: its address, symbol and name. -/
def TokenFlow.token (row : TokenFlow) : Option String × Option String × Option String :=
  (row.tokenAddress, row.symbol, row.tokenName)

def PopularityRow.token (row : PopularityRow) : Option String × Option String × Option String :=
  (row.tokenAddress, row.symbol, row.tokenName)

/-- The transfers of a token. -/
def tokenPart (rows : List TokenFlow) (token : Option String × Option String × Option String) :
    List TokenFlow :=
  rows.filter fun row => row.token = token

/-- The transfers of a token in an hour. -/
def hourPart (rows : List TokenFlow) (key : HourKey) : List TokenFlow :=
  rows.filter fun row => row.hourKey = key

theorem cexNetFlow_onDate (spark : Summation) (date : ℤ) (part : List TokenFlow) :
    cexNetFlow spark (onDate date part) = cexNetFlow spark part := by
  have hflows : flows (onDate date part) = flows part := by
    unfold flows onDate
    rw [List.filterMap_map]
    rfl
  unfold cexNetFlow netFlow
  rw [hflows]

/-- The rows of the daily table are those of the tokens of the day. -/
theorem forall_row_iff {P : Option PyFloat → List TokenFlow → Prop} :
    (∀ row ∈ buildTokenPopularityDaily rows date estimate spark,
        P row.cexNetFlow (tokenPart rows row.token)) ↔
      ∀ row ∈ rows, P (cexNetFlow spark (tokenPart rows row.token)) (tokenPart rows row.token) := by
  have hpart : ∀ row : TokenFlow, (rows.filter fun other =>
      TokenFlow.key { other with dt := some date } = TokenFlow.key { row with dt := some date }) =
        tokenPart rows row.token := by
    intro row
    refine List.filter_congr fun other _ => decide_eq_decide.mpr ?_
    simp [TokenFlow.key, TokenFlow.token]
  unfold buildTokenPopularityDaily
  rw [List.forall_mem_map]
  constructor
  · intro h row hrow
    have hgroup := h _ (Grouping.mem_groupBy_map.mpr ⟨row, hrow, rfl⟩)
    dsimp only [popularityRow, PopularityRow.token] at hgroup
    rw [hpart row] at hgroup
    rw [← cexNetFlow_onDate spark date]
    exact hgroup
  · intro h g hg
    obtain ⟨row, hrow, rfl⟩ := Grouping.mem_groupBy_map.mp hg
    dsimp only [popularityRow, PopularityRow.token]
    rw [hpart row]
    have hgroup := h row hrow
    rw [← cexNetFlow_onDate spark date] at hgroup
    exact hgroup

/-- A transfer of USDC to an exchange, or from one. -/
def exchangeTransfer (fromCategory toCategory : String) (amount : ℚ) : TokenFlow :=
  { tokenTransfer "USDC" "0xbinance" "0xkraken" amount with
    fromCategory := some fromCategory
    toCategory := some toCategory }

/-- A deposit of 1000.5 and a withdrawal of 300.25. -/
def depositAndWithdrawal : List TokenFlow :=
  [exchangeTransfer "Unknown" "CEX" (2001 / 2), exchangeTransfer "CEX" "Unknown" (1201 / 4)]

/-- Deposits of 0.1 and 0.7 and a withdrawal of 0.3: the additions round. -/
example :
    let day := [exchangeTransfer "Unknown" "CEX" (Binary64.nearest (1 / 10)),
      exchangeTransfer "CEX" "Unknown" (Binary64.nearest (3 / 10)),
      exchangeTransfer "Unknown" "CEX" (Binary64.nearest (7 / 10))]
    ¬ AddsExactly (flows day) ∧
      number (netFlow .inOrder day) ≠ some (inflow day - outflow day) := by
  decide +kernel

end flows

end Gold

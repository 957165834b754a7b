import EthPipeline.Silver.TokenFlow
import EthPipeline.Base.DoubleSums
import EthPipeline.Base.Grouping

/-!
# What the token jobs read and sum

The rows of `token_flow` as `read_silver` returns them, and the sums that
`src/gold/transform/token_popularity_daily.py` and `token_popularity_hourly.py` both
have.  `cex_net_flow` is in doubles, added in whatever order Spark adds them;
`total_volume`, which only the score reads, is in exact arithmetic.

* `flowSum_eq`: what `cex_net_flow` adds up, next to what flows in and what flows out.
* `netFlow_number`: where no addition of doubles rounds, it is that number.
* `documentedFlow_iff`: when it is the difference of the two.
-/

namespace Gold

open Silver

/-- The columns of `token_flow_schema` that the jobs read. -/
structure TokenFlow where
  transactionHash : Option String
  blockTimestamp : Option ℤ
  hour : Option ℤ
  dt : Option ℤ
  tokenAddress : Option String
  symbol : Option String
  tokenName : Option String
  fromAddress : Option String
  fromCategory : Option String
  toAddress : Option String
  toCategory : Option String
  amount : Option ℚ
  deriving DecidableEq, Repr

/-- A row that `build_token_flow` has written; infinities and NaN are no numbers. -/
def readFlow (row : FlowRow) : TokenFlow where
  transactionHash := row.transactionHash
  blockTimestamp := row.blockTimestamp
  hour := row.hour
  dt := row.dt
  tokenAddress := row.tokenAddress
  symbol := row.symbol
  tokenName := row.tokenName
  fromAddress := row.fromAddress
  fromCategory := row.fromCategory
  toAddress := row.toAddress
  toCategory := row.toCategory
  amount := match row.amount with
    | some (.finite q) => some q
    | _ => none

/-- `F.col(name)` for the columns of whole numbers: the frame has those of its schema. -/
def intCol (name : String) : Except AnalysisException (TokenFlow → Option ℤ) :=
  match name with
  | "block_timestamp" => .ok (·.blockTimestamp)
  | "hour" => .ok (·.hour)
  | _ => .error ⟨name⟩

/-- The column `dt` is replaced by the date of the run. -/
def onDate (date : ℤ) (rows : List TokenFlow) : List TokenFlow :=
  rows.map fun row => { row with dt := some date }

/-- `sum` of a column: null without values. -/
def sumOf (values : List (Option ℚ)) : Option ℚ :=
  if values.filterMap id = [] then none else some (values.filterMap id).sum

/-- What a row adds to `cex_net_flow`. -/
def cexFlow (row : TokenFlow) : Option ℚ :=
  if row.toCategory = some "CEX" then row.amount
  else if row.fromCategory = some "CEX" then row.amount.map fun amount => -amount
  else some 0

/-- What is added up for `cex_net_flow`. -/
def flows (rows : List TokenFlow) : List ℚ := rows.filterMap cexFlow

/-- `cex_net_flow` before it is rounded: null without values. -/
def netFlow (spark : Summation) (rows : List TokenFlow) : Option PyFloat :=
  if flows rows = [] then none else some (spark.total (flows rows))

/-- `round(sum("amount"), 4)`. -/
def totalVolume (rows : List TokenFlow) : Option ℚ :=
  (sumOf (rows.map (·.amount))).map (Decimal.roundHalfUp 4)

def cexNetFlow (spark : Summation) (rows : List TokenFlow) : Option PyFloat :=
  (netFlow spark rows).map (PyFloat.round 4)

/-! ### Inflow and outflow -/

/-- The amounts of the rows that `p` holds of. -/
def amountOf (p : TokenFlow → Prop) [DecidablePred p] (rows : List TokenFlow) : ℚ :=
  ((rows.filter fun row => p row).map fun row => row.amount.getD 0).sum

/-- What the exchanges receive. -/
def inflow (rows : List TokenFlow) : ℚ := amountOf (·.toCategory = some "CEX") rows

/-- What the exchanges send. -/
def outflow (rows : List TokenFlow) : ℚ := amountOf (·.fromCategory = some "CEX") rows

/-- From an exchange to an exchange. -/
def TokenFlow.BetweenExchanges (row : TokenFlow) : Prop :=
  row.fromCategory = some "CEX" ∧ row.toCategory = some "CEX"

instance : DecidablePred TokenFlow.BetweenExchanges := fun _ => inferInstanceAs (Decidable (_ ∧ _))

/-- What they send to each other. -/
def betweenExchanges (rows : List TokenFlow) : ℚ := amountOf TokenFlow.BetweenExchanges rows

variable {row : TokenFlow} {rows : List TokenFlow}

theorem amountOf_cons (p : TokenFlow → Prop) [DecidablePred p] :
    amountOf p (row :: rows) = (if p row then row.amount.getD 0 else 0) + amountOf p rows := by
  unfold amountOf
  by_cases h : p row
  · rw [List.filter_cons_of_pos (by simpa using h), List.map_cons, List.sum_cons, if_pos h]
  · rw [List.filter_cons_of_neg (by simpa using h), if_neg h, zero_add]

/-- The sum of what `cex_net_flow` adds up. -/
def flowSum (rows : List TokenFlow) : ℚ := (flows rows).sum

theorem flowSum_cons : flowSum (row :: rows) = (cexFlow row).getD 0 + flowSum rows := by
  unfold flowSum flows
  cases hrow : cexFlow row with
  | none => simp [hrow]
  | some q => simp [hrow]

/-- The amount of a row, counted where it goes in, out, and between. -/
theorem cexFlow_eq : (cexFlow row).getD 0 =
    (if row.toCategory = some "CEX" then row.amount.getD 0 else 0) -
      (if row.fromCategory = some "CEX" then row.amount.getD 0 else 0) +
      (if row.BetweenExchanges then row.amount.getD 0 else 0) := by
  unfold cexFlow
  by_cases hto : row.toCategory = some "CEX"
  · by_cases hfrom : row.fromCategory = some "CEX"
    · have hbetween : row.BetweenExchanges := ⟨hfrom, hto⟩
      rw [if_pos hto, if_pos hto, if_pos hfrom, if_pos hbetween]
      ring
    · have hbetween : ¬ row.BetweenExchanges := fun h => hfrom h.1
      rw [if_pos hto, if_pos hto, if_neg hfrom, if_neg hbetween]
      ring
  · have hbetween : ¬ row.BetweenExchanges := fun h => hto h.2
    rw [if_neg hto, if_neg hto, if_neg hbetween]
    by_cases hfrom : row.fromCategory = some "CEX"
    · rw [if_pos hfrom, if_pos hfrom]
      cases row.amount with
      | none => simp
      | some q => simp
    · rw [if_neg hfrom, if_neg hfrom]
      simp

/-- **What `cex_net_flow` adds up**: a transfer between exchanges counts as received, and
not as sent. -/
theorem flowSum_eq : flowSum rows = inflow rows - outflow rows + betweenExchanges rows := by
  induction rows with
  | nil => simp [flowSum, flows, inflow, outflow, betweenExchanges, amountOf]
  | cons row rows ih =>
    unfold inflow outflow betweenExchanges at *
    rw [flowSum_cons, ih, cexFlow_eq, amountOf_cons, amountOf_cons, amountOf_cons]
    ring

/-- **The difference of inflow and outflow** is added up exactly when the transfers between
exchanges add up to nothing. -/
theorem flowSum_iff : flowSum rows = inflow rows - outflow rows ↔ betweenExchanges rows = 0 := by
  rw [flowSum_eq]
  constructor
  · intro h
    linarith
  · intro h
    rw [h, add_zero]

/-- Without the transfers between exchanges the sum is inflow less outflow. -/
theorem flowSum_unmoved : flowSum (rows.filter fun row => ¬ row.BetweenExchanges) =
    inflow rows - outflow rows := by
  induction rows with
  | nil => simp [flowSum, flows, inflow, outflow, amountOf]
  | cons row rows ih =>
    unfold inflow outflow at *
    rw [amountOf_cons, amountOf_cons]
    by_cases h : row.BetweenExchanges
    · -- the row goes in and out
      rw [List.filter_cons_of_neg (by simpa using h), ih, if_pos h.1, if_pos h.2]
      ring
    · rw [List.filter_cons_of_pos (by simpa using h), flowSum_cons, ih, cexFlow_eq, if_neg h]
      ring

/-- Sender and receiver change places. -/
def TokenFlow.swap (row : TokenFlow) : TokenFlow :=
  { row with
    fromAddress := row.toAddress
    fromCategory := row.toCategory
    toAddress := row.fromAddress
    toCategory := row.fromCategory }

theorem amountOf_swap (p : TokenFlow → Prop) [DecidablePred p] :
    amountOf p (rows.map TokenFlow.swap) = amountOf (fun row => p row.swap) rows := by
  induction rows with
  | nil => rfl
  | cons row rows ih =>
    rw [List.map_cons, amountOf_cons, amountOf_cons, ih]
    rfl

/-- Swapping every transfer negates the sum under the same condition. -/
theorem flowSum_swap_iff :
    flowSum (rows.map TokenFlow.swap) = -flowSum rows ↔ betweenExchanges rows = 0 := by
  have hin : inflow (rows.map TokenFlow.swap) = outflow rows := amountOf_swap _
  have hout : outflow (rows.map TokenFlow.swap) = inflow rows := amountOf_swap _
  have hbetween : betweenExchanges (rows.map TokenFlow.swap) = betweenExchanges rows := by
    refine (amountOf_swap _).trans ?_
    unfold betweenExchanges amountOf
    refine congrArg (fun part : List TokenFlow => (part.map fun row => row.amount.getD 0).sum) ?_
    exact List.filter_congr fun row _ => decide_eq_decide.mpr and_comm
  rw [flowSum_eq, flowSum_eq, hin, hout, hbetween]
  constructor
  · intro h
    linarith
  · intro h
    rw [h]
    ring

/-! ### In doubles -/

/-- The number a column stands for: a null sum is a sum of no values. -/
def number : Option PyFloat → Option ℚ
  | none => some 0
  | some (.finite q) => some q
  | some _ => none

/-- No addition of the flows rounds, in whatever order, as they are or swapped. -/
structure ExactFlow (part : List TokenFlow) : Prop where
  flows : AddsExactly (flows part)
  swapped : AddsExactly (Gold.flows (part.map TokenFlow.swap))

/-- Where no addition rounds, `cex_net_flow` is the sum. -/
theorem netFlow_number (spark : Summation) (h : AddsExactly (flows rows)) :
    number (netFlow spark rows) = some (flowSum rows) := by
  unfold netFlow flowSum
  split
  · next hnil =>
    rw [hnil]
    rfl
  · next hne =>
    rw [(spark.sums _ hne).eq_sum h]
    rfl

/-- The column `cex_net_flow` of the transfers of a group, as it is documented. -/
structure DocumentedFlow (spark : Summation) (column : Option PyFloat) (part : List TokenFlow) :
    Prop where
  rounded : column = (netFlow spark part).map (PyFloat.round 4)
  difference : number (netFlow spark part) = some (inflow part - outflow part)
  unmoved : number (netFlow spark (part.filter fun row => ¬ row.BetweenExchanges)) =
    number (netFlow spark part)
  swapped : number (netFlow spark (part.map TokenFlow.swap)) =
    (number (netFlow spark part)).map fun q => -q

/-- **In a group whose additions do not round**, the column is what it is documented to be
exactly when the transfers between exchanges add up to nothing. -/
theorem documentedFlow_iff {part : List TokenFlow} (spark : Summation) (h : ExactFlow part) :
    DocumentedFlow spark (cexNetFlow spark part) part ↔ betweenExchanges part = 0 := by
  have hnumber := netFlow_number spark h.flows
  constructor
  · intro hflow
    have hdifference := hflow.difference
    rw [hnumber] at hdifference
    exact flowSum_iff.mp (Option.some.inj hdifference)
  · intro hbetween
    have hdifference := flowSum_iff.mpr hbetween
    have hsub : (flows (part.filter fun row => ¬ row.BetweenExchanges)).Sublist (flows part) :=
      (List.filter_sublist (l := part)).filterMap cexFlow
    refine ⟨rfl, ?_, ?_, ?_⟩
    · rw [hnumber, hdifference]
    · rw [hnumber, netFlow_number spark (h.flows.of_subperm hsub.subperm), flowSum_unmoved,
        hdifference]
    · rw [hnumber, netFlow_number spark h.swapped, flowSum_swap_iff.mpr hbetween]
      rfl

/-- What a group adds up comes to no more than its amounts. -/
theorem sum_abs_flows_le :
    ((flows rows).map abs).sum ≤ ((rows.filterMap (·.amount)).map abs).sum := by
  have hcons : ∀ (f : TokenFlow → Option ℚ) (row : TokenFlow) (rows : List TokenFlow),
      (((row :: rows).filterMap f).map abs).sum =
        ((f row).map abs).getD 0 + ((rows.filterMap f).map abs).sum := by
    intro f row rows
    cases hrow : f row with
    | none => simp [hrow]
    | some q => simp [hrow]
  induction rows with
  | nil => exact le_refl _
  | cons row rows ih =>
    have hrow : ((cexFlow row).map abs).getD 0 ≤ (row.amount.map abs).getD 0 := by
      unfold cexFlow
      split_ifs
      · exact le_refl _
      · cases row.amount with
        | none => exact le_refl _
        | some q => exact (abs_neg q).le
      · cases row.amount with
        | none => exact (abs_zero : |(0 : ℚ)| = 0).le
        | some q => exact (abs_zero : |(0 : ℚ)| = 0).le.trans (abs_nonneg q)
    unfold flows at ih ⊢
    rw [hcons, hcons]
    exact add_le_add hrow ih

/-- **Amounts that are multiples of one power of two** and come to at most 2⁵³ of it are
added without rounding. -/
theorem exactFlow_of_unit {part : List TokenFlow} {e : ℤ} (hlow : -1074 ≤ e) (hhigh : e ≤ 970)
    (hunit : ∀ row ∈ part, ∀ q, row.amount = some q → ∃ k : ℤ, q = k * 2 ^ e)
    (hsum : ((part.filterMap (·.amount)).map abs).sum ≤ 2 ^ 53 * 2 ^ e) : ExactFlow part := by
  have hexact : ∀ part : List TokenFlow,
      (∀ row ∈ part, ∀ q, row.amount = some q → ∃ k : ℤ, q = k * 2 ^ e) →
      ((part.filterMap (·.amount)).map abs).sum ≤ 2 ^ 53 * 2 ^ e → AddsExactly (flows part) := by
    intro part hunit hsum
    refine .of_unit hlow hhigh (fun x hx => ?_) (sum_abs_flows_le.trans hsum)
    obtain ⟨row, hrow, hx⟩ := List.mem_filterMap.mp hx
    unfold cexFlow at hx
    split_ifs at hx
    · exact hunit row hrow x hx
    · obtain ⟨q, hq, rfl⟩ := Option.map_eq_some_iff.mp hx
      obtain ⟨k, rfl⟩ := hunit row hrow q hq
      exact ⟨-k, by rw [Int.cast_neg, neg_mul]⟩
    · exact ⟨0, by rw [Int.cast_zero, zero_mul, Option.some.inj hx]⟩
  refine ⟨hexact part hunit hsum, hexact _ (fun row hrow => ?_) ?_⟩
  · obtain ⟨row', hrow', rfl⟩ := List.mem_map.mp hrow
    exact hunit row' hrow'
  · rw [List.filterMap_map]
    exact hsum

end Gold

import Mathlib.Algebra.Order.BigOperators.Group.List
import EthPipeline.Backend.Server
import EthPipeline.Base.Rounding
import EthPipeline.Consumer.Announced

/-!
# The query of the gas price

`get_average_gas_price_last_5_minutes` of `src/backend/repositories/gas_repo.py`, and what
`gas_service.py` makes of its answer.  Between the exact mean and the number of the response
lie `AVG`, which keeps some digits after the point, the float, its quotient by `1e9` and
`round(…, 2)`.

* `gas_served`: all of them together do not leave the range of the prices that were stored.
-/

namespace Backend

open Consumer Query

/-! ### The queries -/

/-- `INTERVAL '5 minutes'`. -/
def fiveMinutes : Timestamp := 5 * 60 * 1000000

def recentTransactions (T : Tables) (now : Timestamp) : List TransactionRow :=
  T.transactions.rows.filter fun r => decide (now - fiveMinutes ≤ r.timestamp)

/-- `AVG` of a `NUMERIC` column.  How many digits after the point it has depends on the
numbers. -/
def Average (values : List ℤ) : Option ℚ → Prop
  | none => values = []
  | some avg => values ≠ [] ∧
      ∃ scale, avg = Decimal.roundHalfUp scale ((values.map fun v : ℤ => (v : ℚ)).sum / values.length)

/-- What the two queries find.  Each takes a connection of its own, so the tables of the
second can be others. -/
inductive AverageGasPrice (T T' : Tables) (now : Timestamp) : Option ℚ → Prop
  | average {avg : ℚ}
      (h : Average ((recentTransactions T now).filterMap (·.gasPrice)) (some avg)) :
      AverageGasPrice T T' now (some avg)
  | fallback {found : List TransactionRow}
      (h : Average ((recentTransactions T now).filterMap (·.gasPrice)) none)
      (hfound : Answer (Newer (·.timestamp)) 1 T'.transactions.rows found) :
      AverageGasPrice T T' now ((found.head?.bind (·.gasPrice)).map fun p => p)

/-! ### The mean -/

/-- **Some value is not above the mean, and some value is not below it**, rounded or not. -/
theorem average_between {values : List ℤ} {avg : ℚ} (h : Average values (some avg)) :
    (∃ low ∈ values, (low : ℚ) ≤ avg) ∧ ∃ high ∈ values, avg ≤ (high : ℚ) := by
  obtain ⟨hne, scale, rfl⟩ := h
  have hlength : (values.length : ℚ) ≠ 0 := by
    exact_mod_cast (List.length_pos_iff.mpr hne).ne'
  have hsum : (values.map fun v : ℤ => (v : ℚ)).sum =
      (values.map fun _ => (values.map fun v : ℤ => (v : ℚ)).sum / values.length).sum := by
    rw [List.map_const', List.sum_replicate, nsmul_eq_mul, mul_div_cancel₀ _ hlength]
  constructor
  · obtain ⟨low, hlow, hle⟩ := List.exists_le_of_sum_le hne _ _ hsum.le
    refine ⟨low, hlow, ?_⟩
    rw [← Decimal.roundHalfUp_intCast scale low]
    exact Decimal.roundHalfUp_mono hle
  · obtain ⟨high, hhigh, hle⟩ := List.exists_le_of_sum_le hne _ _ hsum.ge
    refine ⟨high, hhigh, ?_⟩
    rw [← Decimal.roundHalfUp_intCast scale high]
    exact Decimal.roundHalfUp_mono hle

/-! ### The number of the response -/

/-- The response for a price in wei. -/
def gwei (wei : ℚ) : PyFloat := (gasMetricsResponse (some wei)).averageGasPriceGwei

theorem round2_mono {x y : PyFloat} (h : x.Le y) : (round2 x).Le (round2 y) := by
  refine PyFloat.Le.of_finite (f := round2) (fun _ => rfl) (fun p q hpq => ?_)
    (fun q => PyFloat.Le.ofRat_ne_nan _) h
  have hround : Binary64.roundHalfEven (p * 100) ≤ Binary64.roundHalfEven (q * 100) :=
    Binary64.roundHalfEven_mono (by linarith)
  refine PyFloat.Le.ofRat (div_le_div_of_nonneg_right ?_ (by norm_num))
  exact_mod_cast hround

/-- **A higher price is not shown as a lower one.** -/
theorem gwei_mono {p q : ℚ} (h : p ≤ q) : (gwei p).Le (gwei q) :=
  round2_mono ((PyFloat.Le.ofRat h).divBy (by norm_num))

/-! ### The rows -/

/-- Every row is that of a transaction of the topic. -/
def Sourced (D : Deployment) (T : Tables) : Prop :=
  ∀ r ∈ T.transactions.rows, ∃ tx, Described D tx ∧ TransactionRow.ofModel tx = some r

/-- What is buffered and what is stored comes from the topic. -/
structure AllSourced (D : Deployment) (w : World) : Prop where
  batch : ∀ tx ∈ w.txBatch, Described D tx
  db : Sourced D w.db

theorem AllSourced.step {D : Deployment} {w w' : World} {hand hand' : Option Position}
    (hs : Consumer.Step D False (w, hand) (w', hand')) (h : AllSourced D w) : AllSourced D w' := by
  cases hs with
  | appendTransaction hmessage htopic ha =>
    refine { h with batch := fun tx htx => ?_ }
    rcases List.mem_append.mp htx with htx | htx
    · exact h.batch tx htx
    · obtain rfl := List.mem_singleton.mp htx
      exact ⟨_, _, _, htopic, hmessage, ha⟩
  | store hT hU =>
    refine { h with db := fun r hr => ?_ }
    obtain ⟨htx, -⟩ := Tables.insertTransactionsBatch_eq_some hT
    rw [(Tables.insertTokenTransfersBatch_eq_some hU).2] at hr
    rcases Keyed.mem_of_mem_storeAll htx hr with hr | ⟨tx, hmem, hcast⟩
    · exact h.db r hr
    · exact ⟨tx, h.batch tx hmem, hcast⟩
  | clear => exact { h with batch := fun tx htx => by cases htx }
  | _ => exact ⟨h.batch, h.db⟩

theorem sourced_sessions (D : Deployment) (redis : ℤ → Option IsoText) (css : List (List Choice)) :
    Sourced D (sessions D (World.initial .empty redis) css).db := by
  obtain ⟨hand, hreach⟩ := sessions_reachable D (World.initial .empty redis) css
  have hinv : AllSourced D (sessions D (World.initial .empty redis) css) := by
    refine hreach.invariant (P := fun w _ => AllSourced D w) ?_ ?_ ?_
    · constructor
      · exact fun tx htx => by cases htx
      · exact fun r hr => by cases hr
    · intro w hand w' hand' hs h
      exact h.step hs
    · intro w hand h
      exact { h with batch := fun tx htx => by cases htx }
  exact hinv.db

/-! ### The result -/

/-- A transaction of the topic that is stored in `T`. -/
structure StoredTransaction (D : Deployment) (T : Tables) (tx : TransactionModel) : Prop where
  described : Described D tx
  row : ∃ r ∈ T.transactions.rows, TransactionRow.ofModel tx = some r

/-- The price of a row is that of its transaction. -/
theorem exists_stored {D : Deployment} {T : Tables} (hT : Sourced D T) {r : TransactionRow}
    (hr : r ∈ T.transactions.rows) :
    ∃ tx, StoredTransaction D T tx ∧ r.timestamp = tx.timestamp ∧ r.gasPrice = some tx.gasPrice := by
  obtain ⟨tx, hdescribed, hcast⟩ := hT r hr
  obtain ⟨-, htime, -, hprice, -⟩ := TransactionRow.ofModel_eq_some hcast
  exact ⟨tx, ⟨hdescribed, r, hr, hcast⟩, htime, hprice⟩

/-- What the number of a response says about the transactions that are stored. -/
inductive ServedPrice (D : Deployment) (T T' : Tables) (now : Timestamp) (x : PyFloat) : Prop
  /-- Recent transactions paid no more and no less. -/
  | recent (low high : TransactionModel) (hlow : StoredTransaction D T low)
      (hhigh : StoredTransaction D T high) (hlow' : now - fiveMinutes ≤ low.timestamp)
      (hhigh' : now - fiveMinutes ≤ high.timestamp) (hle : (gwei low.gasPrice).Le x)
      (hge : x.Le (gwei high.gasPrice))
  /-- It is the price of the latest transaction, because there is no recent one. -/
  | latest (tx : TransactionModel) (htx : StoredTransaction D T' tx)
      (hold : ∀ r ∈ T.transactions.rows, r.timestamp < now - fiveMinutes)
      (hlatest : ∀ r ∈ T'.transactions.rows, r.timestamp ≤ tx.timestamp)
      (hx : x = gwei tx.gasPrice)
  /-- There is no transaction. -/
  | nothing (hold : ∀ r ∈ T.transactions.rows, r.timestamp < now - fiveMinutes)
      (hempty : T'.transactions.rows = []) (hx : x = .finite 0)

/-- Without an average there is no recent row, since every row has a price. -/
theorem old_of_average {D : Deployment} {T : Tables} (hT : Sourced D T) {now : Timestamp}
    (h : Average ((recentTransactions T now).filterMap (·.gasPrice)) none) :
    ∀ r ∈ T.transactions.rows, r.timestamp < now - fiveMinutes := by
  intro r hr
  by_contra hrecent
  obtain ⟨tx, -, -, hprice⟩ := exists_stored hT hr
  have hmem : r ∈ recentTransactions T now :=
    List.mem_filter.mpr ⟨hr, decide_eq_true (not_lt.mp hrecent)⟩
  have hnone := List.filterMap_eq_nil_iff.mp h r hmem
  rw [hprice] at hnone
  cases hnone

/-- The row of a price of the last five minutes. -/
theorem exists_recent {D : Deployment} {T : Tables} (hT : Sourced D T) {now : Timestamp} {price : ℤ}
    (h : price ∈ (recentTransactions T now).filterMap (·.gasPrice)) :
    ∃ tx, StoredTransaction D T tx ∧ now - fiveMinutes ≤ tx.timestamp ∧ tx.gasPrice = price := by
  obtain ⟨r, hmem, hprice⟩ := List.mem_filterMap.mp h
  obtain ⟨hr, hrecent⟩ := List.mem_filter.mp hmem
  obtain ⟨tx, htx, htime, hprice'⟩ := exists_stored hT hr
  refine ⟨tx, htx, htime ▸ of_decide_eq_true hrecent, ?_⟩
  exact Option.some.inj (hprice'.symm.trans hprice)

/-- **The gas price that is served** is not above the highest nor below the lowest price of the
recent transactions of the topic that are stored; without one it is the price of the latest
transaction that is stored, and zero if there is none. -/
theorem gas_served (D : Deployment) (redis redis' : ℤ → Option IsoText)
    (css css' : List (List Choice)) (now : Timestamp) (price : Option ℚ)
    (h : AverageGasPrice (sessions D (World.initial .empty redis) css).db
      (sessions D (World.initial .empty redis') css').db now price) :
    ServedPrice D (sessions D (World.initial .empty redis) css).db
      (sessions D (World.initial .empty redis') css').db now
      (gasMetricsResponse price).averageGasPriceGwei := by
  have hT := sourced_sessions D redis css
  have hT' := sourced_sessions D redis' css'
  generalize (sessions D (World.initial .empty redis) css).db = T at h hT ⊢
  generalize (sessions D (World.initial .empty redis') css').db = T' at h hT' ⊢
  cases h with
  | average havg =>
    obtain ⟨⟨low, hlow, hle⟩, high, hhigh, hge⟩ := average_between havg
    obtain ⟨lowTx, hlowTx, hlowTime, rfl⟩ := exists_recent hT hlow
    obtain ⟨highTx, hhighTx, hhighTime, rfl⟩ := exists_recent hT hhigh
    exact .recent lowTx highTx hlowTx hhighTx hlowTime hhighTime (gwei_mono hle) (gwei_mono hge)
  | @fallback found hnone hfound =>
    have hold := old_of_average hT hnone
    obtain ⟨sorted, hperm, hsorted, rfl⟩ := hfound
    cases sorted with
    | nil => exact .nothing hold hperm.symm.eq_nil (by decide +kernel)
    | cons r sorted =>
      have hr : r ∈ T'.transactions.rows := hperm.subset List.mem_cons_self
      obtain ⟨tx, htx, htime, hprice⟩ := exists_stored hT' hr
      refine .latest tx htx hold (fun q hq => ?_) ?_
      · rcases List.mem_cons.mp (hperm.symm.subset hq) with rfl | hq
        · exact htime.le
        · exact htime ▸ List.rel_of_pairwise_cons hsorted hq
      · show (gasMetricsResponse ((r.gasPrice).map fun p => (p : ℚ))).averageGasPriceGwei = _
        rw [hprice]
        rfl

/-- One transaction, at 30 gwei. -/
def thirtyGwei : Deployment where
  log
    | .transactions, 0 =>
      [.json (.obj [("hash", .str "0xc2"), ("block_timestamp", .int 1700000000),
        ("from_address", .str "0xb1"), ("gas_price", .int 30000000000)])]
    | _, _ => []
  pydantic := .plain

theorem thirty_gwei_served :
    ServedPrice thirtyGwei (sessions thirtyGwei (World.initial .empty fun _ => none) [storeOne]).db
      (sessions thirtyGwei (World.initial .empty fun _ => none) [storeOne]).db 1700000060000000
      (gasMetricsResponse (some 30000000000)).averageGasPriceGwei := by
  refine gas_served thirtyGwei _ _ [storeOne] [storeOne] 1700000060000000 (some 30000000000) ?_
  have hprices : (recentTransactions
      (sessions thirtyGwei (World.initial .empty fun _ => none) [storeOne]).db
      1700000060000000).filterMap (·.gasPrice) = [30000000000] := by decide +kernel
  refine .average ?_
  rw [hprices]
  exact ⟨List.cons_ne_nil _ _, 0, by decide +kernel⟩

end Backend

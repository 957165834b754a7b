import EthPipeline.Gold.ChainLedger
import EthPipeline.Gold.MarketFlowHourly
import EthPipeline.Silver.WhaleOrder

/-!
# The market flow of a day of the chain

What `market_flow_hourly` says about the blocks of a date.  The kind of a flow is that of the
labels which the Silver job has read for the two sides.

* `market_of_chain`: the rows of an hour have what the whales of the hour move.
-/

namespace Gold

open Silver Storage.Etl

/-- The category of an address. -/
def categoryOf (labels : List Label) (address : Option String) : String :=
  orUnknown ((labelOf labels address).bind (·.labelCategory))

/-- The kind of flow of a transaction. -/
def chainFlow (fromLabels toLabels : List Label) (t : BronzeTransaction) : String :=
  flowType (categoryOf fromLabels t.fromAddress) (categoryOf toLabels t.toAddress)

/-- The whales of an hour with a kind of flow. -/
def hourWhales (flowOf : BronzeTransaction → String) (whales : List BronzeTransaction)
    (flow : String) (hour : Option ℤ) : List BronzeTransaction :=
  whales.filter fun t => t.blockTimestamp.map Silver.hour = hour ∧ flowOf t = flow

/-- An amount of Gold: half a millionth for each whale, and half a digit for the sum. -/
def Near (whales : List BronzeTransaction) (q : ℚ) : Prop :=
  |q - movedEth whales| ≤ whales.length / (2 * 10 ^ 6) + 1 / (2 * 10 ^ 4)

/-- The rows of Gold have what the whales of their hours move. -/
structure ChainMarket (flowOf : BronzeTransaction → String) (whales : List BronzeTransaction)
    (table : List MarketRow) : Prop where
  oneRow : (table.map fun r => (r.hour, r.flowType)).Nodup
  occurs : ∀ hour flow, (∃ r ∈ table, r.hour = hour ∧ r.flowType = flow) ↔
    hourWhales flowOf whales flow hour ≠ []
  total : ∀ r ∈ table, ∃ q, r.totalEth = some q ∧ Near (hourWhales flowOf whales r.flowType r.hour) q
  deposit : ∀ r ∈ table, Near (hourWhales flowOf whales "CEX_DEPOSIT" r.hour) r.cexDepositEth
  withdrawal : ∀ r ∈ table,
    Near (hourWhales flowOf whales "CEX_WITHDRAWAL" r.hour) r.cexWithdrawalEth

section silver

variable {node : Node} {date : ℤ} {blocks : List ℕ} {day : BronzeDay}
  {file : Option (List Label)} {fromLabels toLabels : KnownLabels file} {byFrom : SenderOrder}
  {byTo : ReceiverOrder} {stored : List WhaleRow}

/-- The kind of a flow belongs to the addresses, and the hour to the time. -/
theorem hour_flowType_of_stored {txns : List SilverTransaction} {threshold : PyFloat}
    (hstored : stored.Perm (buildWhaleTxns txns date threshold fromLabels toLabels byFrom byTo))
    {row : WhaleRow} (hrow : row ∈ stored) :
    row.hour = row.blockTimestamp.map Silver.hour ∧
      row.flowType = flowType (categoryOf fromLabels.rows row.fromAddress)
        (categoryOf toLabels.rows row.toAddress) := by
  have hmem := hstored.mem_iff.mp hrow
  rw [buildWhaleTxns_eq] at hmem
  obtain ⟨p, -, rfl⟩ := List.mem_map.mp hmem
  exact ⟨rfl, rfl⟩

/-- **Hours, flows and amounts** of the table are those of the whales. -/
theorem map_hour_flowType (h : ChainDay node date blocks day)
    (hstored : stored.Perm (buildWhaleTxns (readTxnEnriched (buildTxnEnriched day) date) date
      (.finite 100) fromLabels toLabels byFrom byTo)) :
    (stored.map fun row => ((row.hour, row.flowType), row.valueEth)).Perm
      ((chainWhales node blocks).map fun t => ((t.blockTimestamp.map Silver.hour,
        chainFlow fromLabels.rows toLabels.rows t), valueEth t.value)) := by
  have hcolumns := (map_stored_chain hstored h
    (fun row => (row.blockTimestamp, row.fromAddress, row.toAddress, row.valueEth))
    (fun t => (t.blockTimestamp, t.fromAddress, t.toAddress, t.valueEth)) fun _ _ => rfl).map
    fun columns => ((columns.1.map Silver.hour, flowType (categoryOf fromLabels.rows columns.2.1)
      (categoryOf toLabels.rows columns.2.2.1)), columns.2.2.2)
  rw [List.map_map, List.map_map] at hcolumns
  refine (List.Perm.of_eq (List.map_congr_left fun row hrow => ?_)).trans hcolumns
  obtain ⟨hhour, hflow⟩ := hour_flowType_of_stored hstored hrow
  rw [hhour, hflow]
  rfl

end silver

/-! ### The amounts of an hour -/

section market

variable {flowOf : BronzeTransaction → String} {whales : List BronzeTransaction}
  {rows : List WhaleRow}

theorem perm_hourWhales
    (hperm : (rows.map fun row => ((row.hour, row.flowType), row.valueEth)).Perm
      (whales.map fun t => ((t.blockTimestamp.map Silver.hour, flowOf t), valueEth t.value)))
    (flow : String) (hour : Option ℤ) :
    ((flowRows rows flow hour).map (·.valueEth)).Perm
      ((hourWhales flowOf whales flow hour).map fun t => valueEth t.value) := by
  have hpart := Grouping.perm_part hperm (hour, flow)
  have hrows : (rows.filter fun row => (row.hour, row.flowType) = (hour, flow)) =
      flowRows rows flow hour :=
    List.filter_congr fun row _ => decide_eq_decide.mpr (Prod.mk.injEq ..).to_iff
  have hwhales : (whales.filter fun t =>
      (t.blockTimestamp.map Silver.hour, flowOf t) = (hour, flow)) =
        hourWhales flowOf whales flow hour :=
    List.filter_congr fun t _ => decide_eq_decide.mpr (Prod.mk.injEq ..).to_iff
  rwa [hrows, hwhales] at hpart

theorem near_of_perm {flow : String} {hour : Option ℤ} (hsized : ∀ t ∈ whales, Sized t)
    (hpart : ((flowRows rows flow hour).map (·.valueEth)).Perm
      ((hourWhales flowOf whales flow hour).map fun t => valueEth t.value)) :
    Near (hourWhales flowOf whales flow hour)
      (Decimal.roundHalfUp 4 (hourTotal rows flow hour)) := by
  have hpart' : ∀ t ∈ hourWhales flowOf whales flow hour, Sized t :=
    fun t ht => hsized t (List.mem_filter.mp ht).1
  have hexact := abs_totalEth_sub_le hpart'
  have hround := Decimal.abs_roundHalfUp_sub_le 4 (hourTotal rows flow hour)
  unfold Near
  rw [hourTotal, totalEth_perm hpart] at hround ⊢
  have hsplit := abs_sub_le (Decimal.roundHalfUp 4
    (totalEth ((hourWhales flowOf whales flow hour).map fun t => valueEth t.value)))
    (totalEth ((hourWhales flowOf whales flow hour).map fun t => valueEth t.value))
    (movedEth (hourWhales flowOf whales flow hour))
  linarith

end market

section chain

variable {node : Node} {date : ℤ} {blocks : List ℕ} {day : BronzeDay}
  {file : Option (List Label)} {fromLabels toLabels : KnownLabels file} {byFrom : SenderOrder}
  {byTo : ReceiverOrder} {stored : List WhaleRow}

/-- No sum of an hour is too large. -/
theorem hourTotal_room (h : ChainDay node date blocks day) (hblocks : LedgerBlocks node date)
    (hstored : stored.Perm (buildWhaleTxns (readTxnEnriched (buildTxnEnriched day) date) date
      (.finite 100) fromLabels toLabels byFrom byTo)) (flow : String) (hour : Option ℤ) :
    |hourTotal stored flow hour| < 10 ^ 20 := by
  have hamounts : ∀ v ∈ stored.map (·.valueEth), Amount v := by
    have hall := (ledgerDay_of_chain h hblocks).amount_stored hstored (p := fun _ => true)
    rwa [List.filter_true] at hall
  have hpart : ((flowRows stored flow hour).map (·.valueEth)).Sublist (stored.map (·.valueEth)) :=
    List.filter_sublist.map _
  have hnonneg : 0 ≤ hourTotal stored flow hour :=
    totalEth_nonneg fun v hv => hamounts v (hpart.subset hv)
  have hall := totalEth_perm (map_stored_transaction hstored (·.valueEth) (·.valueEth) fun _ _ => rfl)
  rw [abs_of_nonneg hnonneg]
  calc hourTotal stored flow hour ≤ totalEth (stored.map (·.valueEth)) := totalEth_sublist hpart hamounts
    _ < 10 ^ 20 := hall ▸ totalEth_of_chain h hblocks

theorem marketDay_of_chain (h : ChainDay node date blocks day) (hblocks : LedgerBlocks node date)
    (hstored : stored.Perm (buildWhaleTxns (readTxnEnriched (buildTxnEnriched day) date) date
      (.finite 100) fromLabels toLabels byFrom byTo)) : MarketDay stored := by
  refine ⟨fun row hrow => ?_, hourTotal_room h hblocks hstored _, hourTotal_room h hblocks hstored _⟩
  obtain ⟨q, hq, hfits, -⟩ := (ledgerDay_of_chain h hblocks).amount_stored hstored
    (p := fun _ => true) row.valueEth
    (List.mem_map_of_mem (List.mem_filter.mpr ⟨hrow, rfl⟩))
  exact ⟨q, hq, hfits⟩

/-- **The market flow of the chain.** -/
theorem market_of_chain (h : ChainDay node date blocks day) (hblocks : LedgerBlocks node date)
    (hstored : stored.Perm (buildWhaleTxns (readTxnEnriched (buildTxnEnriched day) date) date
      (.finite 100) fromLabels toLabels byFrom byTo)) :
    ChainMarket (chainFlow fromLabels.rows toLabels.rows) (chainWhales node blocks)
      (buildMarketFlowHourly stored date) := by
  have hday := marketDay_of_chain h hblocks hstored
  have hroom := hourTotal_room h hblocks hstored
  have hsized : ∀ t ∈ chainWhales node blocks, Sized t := fun _ => sized_of_whale
  have hpart := perm_hourWhales (map_hour_flowType h hstored)
  have hhours : ∀ row ∈ stored, row.hour ≠ none := by
    intro row hrow hnone
    obtain ⟨t, ht, hhour⟩ := (Grouping.exists_mem_iff (map_hour_flowType h hstored)
      fun column => column.1.1 = none).mp ⟨row, hrow, hnone⟩
    obtain ⟨n, -, hn⟩ := List.mem_flatMap.mp (List.mem_filter.mp ht).1
    rw [node.stamped n t hn] at hhour
    cases hhour
  have hne : ∀ r ∈ buildMarketFlowHourly stored date, r.hour ≠ none :=
    fun _ => hour_ne_none hhours
  refine ⟨nodup_hour_flowType, fun hour flow => ?_, fun r hr => ?_, fun r hr => ?_, fun r hr => ?_⟩
  · have hempty : hourWhales (chainFlow fromLabels.rows toLabels.rows) (chainWhales node blocks)
        flow hour = [] ↔ flowRows stored flow hour = [] := by
      have hlength := (hpart flow hour).length_eq
      rw [List.length_map, List.length_map] at hlength
      rw [← List.length_eq_zero_iff, ← List.length_eq_zero_iff, hlength]
    rw [Ne, hempty]
    constructor
    · rintro ⟨r, hr, rfl, rfl⟩
      obtain ⟨row, hrow, rfl⟩ := (mem_buildMarketFlowHourly (hne r hr)).mp hr
      exact List.ne_nil_of_mem (List.mem_filter.mpr ⟨hrow, decide_eq_true ⟨rfl, rfl⟩⟩)
    · intro hsome
      obtain ⟨row, hmem⟩ := List.exists_mem_of_ne_nil _ hsome
      obtain ⟨hrow, hboth⟩ := List.mem_filter.mp hmem
      obtain ⟨rfl, rfl⟩ := of_decide_eq_true hboth
      exact ⟨hourRow stored date row,
        (mem_buildMarketFlowHourly (hhours row hrow)).mpr ⟨row, hrow, rfl⟩, rfl, rfl⟩
  · obtain ⟨row, hrow, rfl⟩ := (mem_buildMarketFlowHourly (hne r hr)).mp hr
    exact ⟨_, hday.totalEth_hourRow hrow (hroom _ _), near_of_perm hsized (hpart _ _)⟩
  · rw [(hday.hourRoom _).cexDepositEth hr (hne r hr)]
    exact near_of_perm hsized (hpart _ _)
  · rw [(hday.hourRoom _).cexWithdrawalEth hr (hne r hr)]
    exact near_of_perm hsized (hpart _ _)

end chain

end Gold

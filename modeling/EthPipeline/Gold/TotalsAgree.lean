import EthPipeline.Silver.WhaleTotals
import EthPipeline.Gold.TopWhalesDaily

/-!
# The totals of Silver and of Gold

`whale_txns` carries running totals over an order that Spark may choose, and
`top_whales_daily` groups the same rows.

* `silver_totals_agree`: the last running totals are the grouped ones, as long as
  these have room in `decimal(38,18)`.
* `ledgerDay_of_bronze`: what the Silver job reads is such a day.
* `totals_disagree`: a sum without room is null, and zero in Gold.
-/

namespace Gold

open Silver

/-- `threshold >= n`. -/
def ThresholdFrom (n : ℕ) : PyFloat → Prop
  | .finite t => (n : ℚ) ≤ t
  | .inf negative => negative = false
  | .nan => False

/-- The table `txn_enriched` of a date: amounts are of the type of their column, and
the whales that are selected have a sender. -/
structure LedgerDay (txns : List SilverTransaction) (date : ℤ) (threshold : PyFloat) : Prop where
  from100 : ThresholdFrom 100 threshold
  values : ∀ t ∈ txns, ∀ q, t.valueEth = some q → Decimal.Fits ethType q
  senders : ∀ t ∈ whaleTransactions txns date threshold, t.fromAddress ≠ none

/-- What an address sends, and what it receives, has room in the type of a sum. -/
structure SumsFit (txns : List SilverTransaction) (date : ℤ) (threshold : PyFloat) : Prop where
  sent : ∀ a, totalEth (((whaleTransactions txns date threshold).filter
    fun t => t.fromAddress = a).map (·.valueEth)) < 10 ^ 20
  received : ∀ a, totalEth (((whaleTransactions txns date threshold).filter
    fun t => t.toAddress = a).map (·.valueEth)) < 10 ^ 20

/-- The last running totals of Silver are the totals of Gold; `counted` says which rows
are transactions. -/
structure TotalsAgree (counted : WhaleRow → Bool) (stored : List WhaleRow)
    (top : List TopWhaleRow) : Prop where
  sender : ∀ row ∈ stored, ∃ g ∈ top, g.address = row.fromAddress
  receiver : ∀ row ∈ stored, ∃ g ∈ top, g.address = row.toAddress
  txCount : ∀ g ∈ top, (∃ row ∈ stored, row.fromAddress = g.address) →
    IsGreatest {n | ∃ row ∈ stored, row.fromAddress = g.address ∧ row.cumulTxCount = n}
      g.txCountAsSender
  sentEth : ∀ g ∈ top, (∃ row ∈ stored, row.fromAddress = g.address) →
    IsGreatest {q | ∃ row ∈ stored, row.fromAddress = g.address ∧ row.cumulSentEth = some q}
      g.totalSentEth
  recvEth : ∀ g ∈ top, (∃ row ∈ stored, row.toAddress = g.address) →
    IsGreatest {q | ∃ row ∈ stored, row.toAddress = g.address ∧ row.cumulRecvEth = some q}
      g.totalRecvEth
  highFreq : ∀ g ∈ top, g.flagHighFreq = true ↔
    5 ≤ (stored.filter fun row => row.fromAddress = g.address).countP counted ∧
      500 ≤ totalEth ((stored.filter fun row => row.fromAddress = g.address).map (·.valueEth))

/-! ### The totals agree -/

section totals

variable {txns : List SilverTransaction} {date : ℤ} {threshold : PyFloat}

theorem ThresholdFrom.amount_pos (h : ThresholdFrom 100 threshold) {q : ℚ}
    (hq : atLeast threshold (some q) = some true) : 0 < q := by
  rw [atLeast, Option.map_some, Option.some.injEq] at hq
  cases threshold with
  | finite t =>
    by_contra hle
    have hnearest := Binary64.nearest_nonpos (not_lt.mp hle)
    have hfrom : ((100 : ℕ) : ℚ) ≤ t := h
    have hle' : t ≤ Binary64.nearest q := of_decide_eq_true hq
    norm_num at hfrom
    linarith
  | inf negative =>
    have hfalse : negative = false := h
    rw [hfalse] at hq
    cases hq
  | nan => cases hq

/-- The amounts of the whales are above zero. -/
theorem LedgerDay.amount (h : LedgerDay txns date threshold) :
    ∀ t ∈ whaleTransactions txns date threshold, Amount t.valueEth := by
  intro t ht
  obtain ⟨hmem, hpass⟩ := List.mem_filter.mp ht
  obtain ⟨t', ht', rfl⟩ := List.mem_map.mp hmem
  obtain ⟨hatLeast, -⟩ := of_decide_eq_true hpass
  cases hvalue : t'.valueEth with
  | none =>
    rw [hvalue] at hatLeast
    cases hatLeast
  | some q =>
    rw [hvalue] at hatLeast
    exact ⟨q, rfl, h.values t' ht' q hvalue, h.from100.amount_pos hatLeast⟩

/-- What `build_txn_enriched` has written is such a table, if its whales have senders. -/
theorem ledgerDay_of_bronze (day : BronzeDay) (hfrom : ThresholdFrom 100 threshold)
    (hsenders : ∀ t ∈ whaleTransactions (readTxnEnriched (buildTxnEnriched day) date) date threshold,
      t.fromAddress ≠ none) :
    LedgerDay (readTxnEnriched (buildTxnEnriched day) date) date threshold := by
  refine ⟨hfrom, fun t ht q hq => ?_, hsenders⟩
  obtain ⟨row, hrow, rfl⟩ := List.mem_map.mp ht
  obtain ⟨p, -, rfl⟩ := List.mem_map.mp (List.mem_filter.mp hrow).1
  exact fits_valueEth hq

/-- It is enough that all amounts together have room. -/
theorem SumsFit.of_total (h : LedgerDay txns date threshold)
    (hroom : totalEth ((whaleTransactions txns date threshold).map (·.valueEth)) < 10 ^ 20) :
    SumsFit txns date threshold := by
  have hle : ∀ p : SilverTransaction → Bool,
      totalEth (((whaleTransactions txns date threshold).filter p).map (·.valueEth)) ≤
        totalEth ((whaleTransactions txns date threshold).map (·.valueEth)) := by
    intro p
    refine totalEth_sublist (List.filter_sublist.map _) fun v hv => ?_
    obtain ⟨t, ht, rfl⟩ := List.mem_map.mp hv
    exact h.amount t ht
  exact ⟨fun a => (hle _).trans_lt hroom, fun a => (hle _).trans_lt hroom⟩

variable {file : Option (List Label)} {fromLabels toLabels : KnownLabels file}
  {byFrom : SenderOrder} {byTo : ReceiverOrder} {stored : List WhaleRow}

theorem LedgerDay.sender_ne_none (h : LedgerDay txns date threshold)
    (hstored : stored.Perm (buildWhaleTxns txns date threshold fromLabels toLabels byFrom byTo)) :
    ∀ row ∈ stored, row.fromAddress ≠ none := by
  intro row hrow hnone
  obtain ⟨t, ht, hsender⟩ := (Grouping.exists_mem_iff (map_stored_transaction hstored
    (·.fromAddress) (·.fromAddress) fun _ _ => rfl) (· = none)).mp ⟨row, hrow, hnone⟩
  exact h.senders t ht hsender

theorem SumsFit.room (h : SumsFit txns date threshold)
    (hstored : stored.Perm (buildWhaleTxns txns date threshold fromLabels toLabels byFrom byTo))
    (a : Option String) :
    totalEth ((stored.filter fun row => row.fromAddress = a).map (·.valueEth)) < 10 ^ 20 ∧
      totalEth ((stored.filter fun row => row.toAddress = a).map (·.valueEth)) < 10 ^ 20 := by
  have hsent := totalEth_perm (Grouping.perm_part (map_stored_transaction hstored
    (fun row => (row.fromAddress, row.valueEth)) (fun t => (t.fromAddress, t.valueEth))
    fun _ _ => rfl) a)
  have hreceived := totalEth_perm (Grouping.perm_part (map_stored_transaction hstored
    (fun row => (row.toAddress, row.valueEth)) (fun t => (t.toAddress, t.valueEth))
    fun _ _ => rfl) a)
  rw [hsent, hreceived]
  exact ⟨h.sent a, h.received a⟩

theorem LedgerDay.amount_stored (h : LedgerDay txns date threshold)
    (hstored : stored.Perm (buildWhaleTxns txns date threshold fromLabels toLabels byFrom byTo))
    {p : WhaleRow → Bool} : ∀ v ∈ (stored.filter p).map (·.valueEth), Amount v := by
  intro v hv
  obtain ⟨row, hrow, rfl⟩ := List.mem_map.mp hv
  obtain ⟨t, ht, hvalue⟩ := (Grouping.exists_mem_iff (map_stored_transaction hstored
    (·.valueEth) (·.valueEth) fun _ _ => rfl) (· = row.valueEth)).mp
    ⟨row, (List.mem_filter.mp hrow).1, rfl⟩
  exact hvalue ▸ h.amount t ht

end totals

/-- **The totals agree.**  Whatever order the rows of one time are given, the greatest
running totals of an address in `whale_txns` are its totals in `top_whales_daily`, as long
as these are below `10 ^ 20` ETH; and an address is flagged exactly when it has sent five
transactions with a hash, and 500 ETH. -/
theorem silver_totals_agree (txns : List SilverTransaction) (date : ℤ) (threshold : PyFloat)
    (file : Option (List Label)) (fromLabels toLabels : KnownLabels file) (byFrom : SenderOrder)
    (byTo : ReceiverOrder) (byEntity : EntityOrder) (stored : List WhaleRow)
    (hstored : stored.Perm (buildWhaleTxns txns date threshold fromLabels toLabels byFrom byTo))
    (hday : LedgerDay txns date threshold) (hfit : SumsFit txns date threshold) :
    TotalsAgree (·.hash.isSome) stored (buildTopWhalesDaily stored date byEntity) := by
  have hnull := hday.sender_ne_none hstored
  have hamount := hday.amount
  have hsum : ∀ p : WhaleRow → Bool, (∃ row ∈ stored, p row = true) →
      totalEth ((stored.filter p).map (·.valueEth)) < 10 ^ 20 →
      (sumEth ((stored.filter p).map (·.valueEth))).getD 0 =
        totalEth ((stored.filter p).map (·.valueEth)) := by
    rintro p ⟨row, hrow, hp⟩ hroom
    have hne : (stored.filter p).map (·.valueEth) ≠ [] :=
      List.ne_nil_of_mem (List.mem_map_of_mem (List.mem_filter.mpr ⟨hrow, hp⟩))
    rw [sumEth_eq_totalEth hne (hday.amount_stored hstored) hroom, Option.getD_some]
  refine ⟨fun row hrow => exists_row_of_sender hnull hrow,
    fun row hrow => exists_row_of_receiver hrow, fun g hg hsome => ?_, fun g hg hsome => ?_,
    fun g hg hsome => ?_, fun g hg => ?_⟩
  · rw [txCountAsSender_of_mem hnull hg]
    exact isGreatest_cumulTxCount hstored hsome
  · have hroom := (hfit.room hstored g.address).1
    have heq := hsum (fun row => row.fromAddress = g.address) (by simpa using hsome) hroom
    rw [totalSentEth_of_mem hnull hg, heq]
    exact isGreatest_cumulSentEth hstored hamount hsome hroom
  · have hroom := (hfit.room hstored g.address).2
    have heq := hsum (fun row => row.toAddress = g.address) (by simpa using hsome) hroom
    rw [totalRecvEth_of_mem hnull hg, heq]
    exact isGreatest_cumulRecvEth hstored hamount hsome hroom
  · rw [flagHighFreq_iff hnull hg]
    by_cases hsome : ∃ row ∈ stored, row.fromAddress = g.address
    · exact exists_flagHighFreq_iff hstored hamount hsome (hfit.room hstored g.address).1
    · -- an address that only receives has no row here
      have hpart : stored.filter (fun row => decide (row.fromAddress = g.address)) = [] :=
        List.filter_eq_nil_iff.mpr fun row hrow => by simpa using fun h => hsome ⟨row, hrow, h⟩
      constructor
      · rintro ⟨row, hrow, haddress, -⟩
        exact absurd ⟨row, hrow, haddress⟩ hsome
      · rintro ⟨hcount, -⟩
        rw [hpart] at hcount
        exact absurd hcount (by decide)

/-! ### A day that is flagged, and days that disagree -/

/-- A transfer of whole ETH from one address to another. -/
def transfer (hash : Option String) (eth : ℕ) : SilverTransaction :=
  ⟨hash, some 1, some 1780531200, some "0xa", some "0xb", some eth, some true, none⟩

theorem ledgerDay_transfers {hashes : List (Option String)} {eth : ℕ} (heth : eth < 10 ^ 20) :
    LedgerDay (hashes.map fun hash => transfer hash eth) 20608 (.finite 100) where
  from100 := by
    change ((100 : ℕ) : ℚ) ≤ 100
    norm_num
  values := by
    intro t ht q hq
    obtain ⟨hash, -, rfl⟩ := List.mem_map.mp ht
    cases hq
    refine Decimal.fits_natCast ?_
    calc eth * 10 ^ 18 < 10 ^ 20 * 10 ^ 18 := by gcongr
      _ = 10 ^ ethType.precision := by norm_num [ethType]
  senders := by
    intro t ht
    obtain ⟨hmem, -⟩ := List.mem_filter.mp ht
    obtain ⟨t', ht', rfl⟩ := List.mem_map.mp hmem
    obtain ⟨hash, -, rfl⟩ := List.mem_map.mp ht'
    exact Option.some_ne_none _

/-- What the Silver job writes for such a day, with an order that can be run. -/
def silverOf (txns : List SilverTransaction) : List WhaleRow :=
  buildWhaleTxns txns 20608 (.finite 100) (⟨manualLabels, rfl⟩ : KnownLabels none)
    ⟨manualLabels, rfl⟩ insertionSenderOrder insertionReceiverOrder

def goldOf (txns : List SilverTransaction) : List TopWhaleRow :=
  buildTopWhalesDaily (silverOf txns) 20608 insertionEntityOrder

def flaggedDay : List SilverTransaction :=
  [some "0x1", some "0x2", some "0x3", some "0x4", some "0x5"].map fun hash => transfer hash 100

theorem flaggedDay_totals_agree :
    TotalsAgree (·.hash.isSome) (silverOf flaggedDay) (goldOf flaggedDay) :=
  silver_totals_agree flaggedDay 20608 (.finite 100) none ⟨manualLabels, rfl⟩ ⟨manualLabels, rfl⟩
    _ _ _ _ (List.Perm.refl _) (ledgerDay_transfers (by norm_num))
    (SumsFit.of_total (ledgerDay_transfers (by norm_num)) (by decide +kernel))

/-- Two amounts that have no room together. -/
def overflowDay : List SilverTransaction :=
  [some "0x1", some "0x2"].map fun hash => transfer hash (6 * 10 ^ 19)

/-- Five transactions that have lost their hash. -/
def unhashedDay : List SilverTransaction :=
  [none, none, none, none, none].map fun hash => transfer hash 100

/-- **Totals that disagree**: a sum without room is zero in Gold, and transactions
without a hash are not counted. -/
theorem totals_disagree :
    (LedgerDay overflowDay 20608 (.finite 100) ∧
      ¬ TotalsAgree (fun _ => true) (silverOf overflowDay) (goldOf overflowDay)) ∧
    (LedgerDay unhashedDay 20608 (.finite 100) ∧
      ¬ TotalsAgree (fun _ => true) (silverOf unhashedDay) (goldOf unhashedDay)) := by
  refine ⟨⟨ledgerDay_transfers (by norm_num), fun h => ?_⟩,
    ⟨ledgerDay_transfers (by norm_num), fun h => ?_⟩⟩
  · obtain ⟨g, hg, haddress, hzero⟩ : ∃ g ∈ goldOf overflowDay, g.address = some "0xa" ∧
        g.totalSentEth = 0 := by decide +kernel
    obtain ⟨row, hrow, hsender, hsent⟩ : ∃ row ∈ silverOf overflowDay,
        row.fromAddress = some "0xa" ∧ row.cumulSentEth = some (6 * 10 ^ 19) := by decide +kernel
    have hsender : row.fromAddress = g.address := hsender.trans haddress.symm
    have hle := (h.sentEth g hg ⟨row, hrow, hsender⟩).2 ⟨row, hrow, hsender, hsent⟩
    rw [hzero] at hle
    norm_num at hle
  · obtain ⟨g, hg, haddress, hflag⟩ : ∃ g ∈ goldOf unhashedDay, g.address = some "0xa" ∧
        g.flagHighFreq = false := by decide +kernel
    have hsent : 5 ≤ ((silverOf unhashedDay).filter fun row =>
        row.fromAddress = some "0xa").countP (fun _ => true) ∧
        500 ≤ totalEth (((silverOf unhashedDay).filter fun row =>
          row.fromAddress = some "0xa").map (·.valueEth)) := by decide +kernel
    have htrue := (h.highFreq g hg).mpr (by rw [haddress]; exact hsent)
    rw [hflag] at htrue
    cases htrue

end Gold

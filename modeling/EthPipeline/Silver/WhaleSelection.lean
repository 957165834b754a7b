import EthPipeline.Silver.WhaleTxns

/-!
# The selection of whales across the layers

The receipts of a day are fetched for the transactions that
`_extract_tx_hashes` of `src/storage/etl/receipts.py` selects by their wei value;
the Silver layer selects again, by a rounded decimal compared as a double and by the
status of the receipt.

* `whale_selection`: both together select by the wei value and the status.
-/

namespace Storage

open Silver

/-- `_extract_tx_hashes`: a missing value counts as zero, and a selected row without
`hash` is a `KeyError`. -/
def extractTxHashes (minEth : ℕ) (rows : List BronzeTransaction) : Option (List String) :=
  (rows.filter fun t => minEth * 10 ^ 18 ≤ t.value.getD 0).mapM (·.hash)

theorem map_some_of_mapM {α β : Type} {f : α → Option β} {xs : List α} {ys : List β}
    (h : xs.mapM f = some ys) : xs.map f = ys.map some := by
  induction xs generalizing ys with
  | nil =>
    cases h
    rfl
  | cons x xs ih =>
    rw [List.mapM_cons] at h
    obtain ⟨y, hy, h⟩ := Option.bind_eq_some_iff.mp h
    obtain ⟨ys', hys, h⟩ := Option.bind_eq_some_iff.mp h
    cases h
    rw [List.map_cons, List.map_cons, hy, ih hys]

end Storage

namespace Silver

open Storage

/-- The day as the Bronze jobs leave it: there is a receipt for each selected hash, and
none else. -/
structure WhaleDay (day : BronzeDay) (date : ℤ) : Prop where
  hashes : ((readBronze day.transactions).map BronzeTransaction.hash).Nodup
  values : ∀ t ∈ readBronze day.transactions, ∀ wei, t.value = some wei → wei < 10 ^ 37
  dates : ∀ t ∈ readBronze day.transactions, t.blockTimestamp.map toDate = some date
  receipts : ∃ selected, extractTxHashes 100 (readBronze day.transactions) = some selected ∧
    ((readBronze day.receipts).map BronzeReceipt.transactionHash).Perm (selected.map some)

/-- 100 ETH or more, in wei, and a receipt with status 1. -/
def MovedByWhale (receipts : List BronzeReceipt) (t : BronzeTransaction) : Prop :=
  100 * weiPerEth ≤ t.value.getD 0 ∧
    ∃ r ∈ receipts, r.transactionHash = t.hash ∧ r.status = some 1

instance (receipts : List BronzeReceipt) (t : BronzeTransaction) :
    Decidable (MovedByWhale receipts t) :=
  inferInstanceAs (Decidable (_ ∧ ∃ r ∈ receipts, _))

namespace WhaleDay

variable {day : BronzeDay} {date : ℤ} {t : BronzeTransaction} {r : BronzeReceipt}

/-- A receipt belongs to a transaction of the day that was selected. -/
theorem selected (h : WhaleDay day date) (hr : r ∈ readBronze day.receipts) :
    ∃ t ∈ readBronze day.transactions, 100 * weiPerEth ≤ t.value.getD 0 ∧
      t.hash = r.transactionHash ∧ r.transactionHash ≠ none := by
  obtain ⟨hashes, hextract, hperm⟩ := h.receipts
  have hmem := hperm.mem_iff.mp (List.mem_map_of_mem hr)
  obtain ⟨hash, -, hhash⟩ := List.mem_map.mp hmem
  rw [← map_some_of_mapM hextract] at hmem
  obtain ⟨t, ht, heq⟩ := List.mem_map.mp hmem
  obtain ⟨ht, hvalue⟩ := List.mem_filter.mp ht
  exact ⟨t, ht, of_decide_eq_true hvalue, heq, by simp [← hhash]⟩

/-- No transaction finds two receipts. -/
theorem found_le_one (h : WhaleDay day date) (t : BronzeTransaction) :
    (Join.found BronzeTransaction.hash BronzeReceipt.transactionHash
      (readBronze day.receipts) t).length ≤ 1 := by
  obtain ⟨hashes, hextract, hperm⟩ := h.receipts
  refine Join.length_found_le_one (hperm.nodup_iff.mpr ?_) t
  rw [← map_some_of_mapM hextract]
  exact h.hashes.sublist (List.filter_sublist.map _)

/-- The status the join puts beside a transaction is 1 exactly when it has a receipt
with that status. -/
theorem isSuccess_iff (h : WhaleDay day date) :
    Sql.eq ((Join.found BronzeTransaction.hash BronzeReceipt.transactionHash
        (readBronze day.receipts) t).head?.bind (·.status)) (some 1) = some true ↔
      ∃ r ∈ readBronze day.receipts, r.transactionHash = t.hash ∧ r.status = some 1 := by
  have hmem : ∀ r, r ∈ Join.found BronzeTransaction.hash BronzeReceipt.transactionHash
      (readBronze day.receipts) t ↔ r ∈ readBronze day.receipts ∧ r.transactionHash = t.hash := by
    intro r
    unfold Join.found
    cases hhash : t.hash with
    | none =>
      constructor
      · intro hr
        cases hr
      · rintro ⟨hr, hnone⟩
        obtain ⟨-, -, -, -, hsome⟩ := h.selected hr
        exact absurd hnone hsome
    | some hash => simp
  match hfound : Join.found BronzeTransaction.hash BronzeReceipt.transactionHash
      (readBronze day.receipts) t with
  | [] =>
    constructor
    · intro hnull
      cases hnull
    · rintro ⟨r, hr, hhash, -⟩
      have := (hmem r).mpr ⟨hr, hhash⟩
      rw [hfound] at this
      cases this
  | [r] =>
    have hiff : ∀ r', r' ∈ readBronze day.receipts ∧ r'.transactionHash = t.hash ↔ r' = r := by
      intro r'
      rw [← hmem r', hfound, List.mem_singleton]
    have heq : Sql.eq ([r].head?.bind (·.status)) (some 1) = some true ↔ r.status = some 1 := by
      rw [List.head?_cons, Option.bind_some]
      cases r.status <;> simp [Sql.eq]
    rw [heq]
    constructor
    · intro hstatus
      obtain ⟨hr, hhash⟩ := (hiff r).mpr rfl
      exact ⟨r, hr, hhash, hstatus⟩
    · rintro ⟨r', hr', hhash, hstatus⟩
      cases (hiff r').mp ⟨hr', hhash⟩
      exact hstatus
  | _ :: _ :: _ =>
    have hone := h.found_le_one t
    rw [hfound] at hone
    simp at hone

/-- **What passes both filters of the Silver layer.** -/
theorem passes_iff (h : WhaleDay day date) (ht : t ∈ readBronze day.transactions) :
    (atLeast (.finite 100) (valueEth t.value) = some true ∧
        Sql.eq ((Join.found BronzeTransaction.hash BronzeReceipt.transactionHash
          (readBronze day.receipts) t).head?.bind (·.status)) (some 1) = some true) ↔
      MovedByWhale (readBronze day.receipts) t := by
  rw [h.isSuccess_iff]
  refine and_congr_left fun hreceipt => ?_
  constructor
  · -- the receipt is there because the transaction was selected by its wei value
    intro _
    obtain ⟨r, hr, hhash, -⟩ := hreceipt
    obtain ⟨t', ht', hvalue, hhash', -⟩ := h.selected hr
    cases List.inj_on_of_nodup_map h.hashes ht' ht (hhash'.trans hhash)
    exact hvalue
  · intro hvalue
    cases hwei : t.value with
    | none =>
      rw [hwei] at hvalue
      exact absurd hvalue (by decide)
    | some wei =>
      rw [hwei, Option.getD_some] at hvalue
      obtain ⟨q, hq, hle⟩ := valueEth_of_le hvalue (h.values t ht wei hwei)
      rw [hq, atLeast, Option.map_some]
      have hdouble := Binary64.le_nearest (by norm_num) hle
      simpa using hdouble

end WhaleDay

/-- **The selection of whales.**  On a day whose receipts are those of the selected
hashes, `whale_txns` has one row for each transaction of 100 ETH or more, in wei, whose
receipt has status 1, and no other row. -/
theorem whale_selection (day : BronzeDay) (date : ℤ) (file : Option (List Label))
    (fromLabels toLabels : KnownLabels file) (byFrom : SenderOrder) (byTo : ReceiverOrder)
    (h : WhaleDay day date) :
    ((buildWhaleTxns (readTxnEnriched (buildTxnEnriched day) date) date (.finite 100) fromLabels
        toLabels byFrom byTo).map (·.hash)).Perm
      (((readBronze day.transactions).filter
        (MovedByWhale (readBronze day.receipts))).map (·.hash)) := by
  refine (map_hash_buildWhaleTxns _ _ _ _ _ _ _).trans (List.Perm.of_eq ?_)
  have hread : readTxnEnriched (buildTxnEnriched day) date = (readBronze day.transactions).map
      fun t => (enrichedRow (t, (Join.found BronzeTransaction.hash BronzeReceipt.transactionHash
        (readBronze day.receipts) t).head?)).read := by
    unfold readTxnEnriched buildTxnEnriched
    rw [Join.left_eq_map fun t _ => h.found_le_one t, List.filter_eq_self.mpr, List.map_map,
      List.map_map]
    · rfl
    · intro row hrow
      rw [List.map_map] at hrow
      obtain ⟨t, ht, rfl⟩ := List.mem_map.mp hrow
      exact decide_eq_true (h.dates t ht)
  unfold whaleTransactions
  rw [hread, List.map_map, List.filter_map, List.map_map]
  refine congrArg (List.map _) (List.filter_congr fun t ht => ?_)
  exact decide_eq_decide.mpr (h.passes_iff ht)

/-- A transaction of 100 ETH, and one that lacks a wei and is rounded to 100 ETH. -/
def boundaryDay : BronzeDay where
  transactions := [[⟨some "0x1", some 100, some 1780531200, some "0xa", some "0xb", some (10 ^ 20),
      some "0x"⟩,
    ⟨some "0x2", some 100, some 1780531200, some "0xa", some "0xc", some (10 ^ 20 - 1), some "0x"⟩]]
  receipts := [[⟨some "0x1", some 21000, some 1, some 1⟩]]
  blocks := []
  tokenTransfers := []

theorem boundaryDay_selection :
    ((buildWhaleTxns (readTxnEnriched (buildTxnEnriched boundaryDay) 20608) 20608 (.finite 100)
        (⟨manualLabels, rfl⟩ : KnownLabels none) ⟨manualLabels, rfl⟩ stableSenderOrder
        stableReceiverOrder).map (·.hash)).Perm
      (((readBronze boundaryDay.transactions).filter
        (MovedByWhale (readBronze boundaryDay.receipts))).map (·.hash)) :=
  whale_selection boundaryDay 20608 none ⟨manualLabels, rfl⟩ ⟨manualLabels, rfl⟩
    stableSenderOrder stableReceiverOrder
    ⟨by decide, by decide, by decide, ["0x1"], by decide, List.Perm.refl _⟩

example : atLeast (.finite 100) (valueEth (some (10 ^ 20 - 1))) = some true := by decide +kernel

end Silver

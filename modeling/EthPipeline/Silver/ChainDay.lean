import EthPipeline.Storage.BlockRange
import EthPipeline.Storage.ChainFiles
import EthPipeline.Silver.TokenFlow

/-!
# The Silver tables of a day of the chain

What `build_txn_enriched`, `build_whale_txns` and `build_token_flow` make of Bronze folders
that have the rows of the blocks of a date: the joins then find what belongs together on the
chain.

* `ChainDay.enriched`: each transaction once, with its receipt if it moves 100 ETH.
* `ChainDay.whales`: the successful transactions of 100 ETH or more.
* `ChainDay.flow`: each transfer of a known token once, at the time of its block.
-/

namespace Silver

open Storage Storage.Etl

/-- The blocks of a date. -/
structure DayBlocks (chain : Timeline) (date : ℤ) (blocks : List ℕ) : Prop where
  nodup : blocks.Nodup
  mem : ∀ n, n ∈ blocks ↔ InDay chain date n

/-- The Bronze folders of a date have the rows of its blocks. -/
structure ChainDay (node : Node) (date : ℤ) (blocks : List ℕ) (day : BronzeDay) : Prop where
  ofDay : DayBlocks node.chain date blocks
  hasBlocks : (readBronze day.blocks).Perm (blocks.map node.block)
  hasTransactions : (readBronze day.transactions).Perm (blocks.flatMap node.transactions)
  hasReceipts : ∃ hashes, Storage.extractTxHashes 100 (readBronze day.transactions) = some hashes ∧
    (readBronze day.receipts).Perm (hashes.map node.receipt)
  hasTransfers : (readBronze day.tokenTransfers).Perm (blocks.flatMap node.transfers)

/-- The receipt that is fetched for a transaction. -/
def fetchedReceipt (node : Node) (t : BronzeTransaction) : Option BronzeReceipt :=
  if 100 * weiPerEth ≤ t.value.getD 0 then t.hash.map node.receipt else none

/-- 100 ETH or more are moved. -/
def IsWhale (node : Node) (t : BronzeTransaction) : Prop :=
  100 * weiPerEth ≤ t.value.getD 0 ∧ (t.hash.bind fun hash => (node.receipt hash).status) = some 1

instance (node : Node) (t : BronzeTransaction) : Decidable (IsWhale node t) :=
  inferInstanceAs (Decidable (_ ∧ _))

/-- The whales in some blocks. -/
def chainWhales (node : Node) (blocks : List ℕ) : List BronzeTransaction :=
  (blocks.flatMap node.transactions).filter (IsWhale node)

/-- A whale as the Silver job reads it. -/
def readWhale (node : Node) (date : ℤ) (t : BronzeTransaction) : SilverTransaction :=
  { (enrichedRow (t, fetchedReceipt node t)).read with dt := some date }

/-- The metadata of the token of a transfer. -/
def tokenOf (tokens : List TokenMeta) (t : BronzeTokenTransfer) : Option TokenMeta :=
  (Join.found BronzeTokenTransfer.tokenAddress TokenMeta.tokenAddress tokens t).head?

/-- A row without what the labels give. -/
def FlowRow.withoutLabels (row : FlowRow) : FlowRow :=
  { row with fromLabel := "", fromCategory := "", toLabel := "", toCategory := "" }

/-- The row of a transfer of the `n`-th block. -/
def chainRow (pow : ℤ → PyFloat) (node : Node) (n : ℕ) (t : BronzeTokenTransfer)
    (token : TokenMeta) : FlowRow :=
  (flowRow pow ((((t, token), some (node.block n)), none), none)).withoutLabels

theorem toDate_of_inDay {chain : Timeline} {date : ℤ} {n : ℕ} (h : InDay chain date n) :
    toDate (chain.time n) = date := by
  obtain ⟨hlow, hhigh⟩ := h
  unfold midnight at hlow hhigh
  unfold toDate
  omega

namespace ChainDay

variable {node : Node} {date : ℤ} {blocks : List ℕ} {day : BronzeDay}

/-! ### Hashes -/

theorem mem_transactions (h : ChainDay node date blocks day) {t : BronzeTransaction} :
    t ∈ readBronze day.transactions ↔ ∃ n ∈ blocks, t ∈ node.transactions n := by
  rw [h.hasTransactions.mem_iff, List.mem_flatMap]

theorem dates (h : ChainDay node date blocks day) {t : BronzeTransaction}
    (ht : t ∈ readBronze day.transactions) : t.blockTimestamp.map toDate = some date := by
  obtain ⟨n, hn, ht⟩ := h.mem_transactions.mp ht
  rw [node.stamped n t ht, Option.map_some, toDate_of_inDay ((h.ofDay.mem n).mp hn)]

/-- **No two transactions share a hash.** -/
theorem nodup_hashes (h : ChainDay node date blocks day) :
    ((readBronze day.transactions).map BronzeTransaction.hash).Nodup := by
  rw [(h.hasTransactions.map _).nodup_iff, List.map_flatMap, List.nodup_flatMap]
  refine ⟨fun n _ => node.once n, h.ofDay.nodup.imp fun {m n} hne => ?_⟩
  intro hash hm hn
  obtain ⟨t, ht, rfl⟩ := List.mem_map.mp hm
  obtain ⟨u, hu, heq⟩ := List.mem_map.mp hn
  exact node.apart m n hne t ht u hu heq.symm

theorem exists_hash (h : ChainDay node date blocks day) {t : BronzeTransaction}
    (ht : t ∈ readBronze day.transactions) : ∃ hash, t.hash = some hash := by
  obtain ⟨n, -, ht⟩ := h.mem_transactions.mp ht
  exact Option.ne_none_iff_exists'.mp (node.named n t ht)

/-- The selected hashes are those of the transactions from the threshold on. -/
theorem selected_iff (h : ChainDay node date blocks day) {hashes : List String}
    (hselected : Storage.extractTxHashes 100 (readBronze day.transactions) = some hashes)
    {t : BronzeTransaction} (ht : t ∈ readBronze day.transactions) {hash : String}
    (hhash : t.hash = some hash) : hash ∈ hashes ↔ 100 * weiPerEth ≤ t.value.getD 0 := by
  have hmap := map_some_of_mapM hselected
  have hmem : hash ∈ hashes ↔ some hash ∈ hashes.map some := by simp
  rw [hmem, ← hmap, List.mem_map]
  constructor
  · rintro ⟨u, hu, heq⟩
    obtain ⟨hu, hvalue⟩ := List.mem_filter.mp hu
    obtain rfl := List.inj_on_of_nodup_map h.nodup_hashes hu ht (heq.trans hhash.symm)
    exact of_decide_eq_true hvalue
  · intro hvalue
    exact ⟨t, List.mem_filter.mpr ⟨ht, decide_eq_true hvalue⟩, hhash⟩

/-! ### Transactions and receipts -/

/-- **What a transaction finds** is its own receipt, if that was fetched. -/
theorem found_receipt (h : ChainDay node date blocks day) {t : BronzeTransaction}
    (ht : t ∈ readBronze day.transactions) :
    Join.found BronzeTransaction.hash BronzeReceipt.transactionHash (readBronze day.receipts) t =
      (fetchedReceipt node t).toList := by
  obtain ⟨hashes, hselected, hreceipts⟩ := h.hasReceipts
  obtain ⟨hash, hhash⟩ := h.exists_hash ht
  have hkeys : (hashes.map node.receipt).map BronzeReceipt.transactionHash = hashes.map some := by
    rw [List.map_map]
    exact List.map_congr_left fun hash _ => node.receipt_hash hash
  have hone : (Join.found BronzeTransaction.hash BronzeReceipt.transactionHash
      (readBronze day.receipts) t).length ≤ 1 := by
    refine Join.length_found_le_one ?_ t
    rw [(hreceipts.map _).nodup_iff, hkeys, ← map_some_of_mapM hselected]
    exact h.nodup_hashes.sublist (List.filter_sublist.map _)
  have hmem : ∀ r, r ∈ Join.found BronzeTransaction.hash BronzeReceipt.transactionHash
      (readBronze day.receipts) t ↔ hash ∈ hashes ∧ r = node.receipt hash := by
    intro r
    rw [Join.mem_found, hreceipts.mem_iff, List.mem_map, hhash]
    constructor
    · rintro ⟨⟨other, hother, rfl⟩, heq, -⟩
      rw [node.receipt_hash] at heq
      obtain rfl := Option.some.inj heq
      exact ⟨hother, rfl⟩
    · rintro ⟨hhash', rfl⟩
      exact ⟨⟨hash, hhash', rfl⟩, (node.receipt_hash hash).symm, Option.some_ne_none _⟩
  unfold fetchedReceipt
  by_cases hvalue : 100 * weiPerEth ≤ t.value.getD 0
  · have hthere := (h.selected_iff hselected ht hhash).mpr hvalue
    rw [if_pos hvalue, hhash, Option.map_some, Option.toList_some]
    have hin := (hmem (node.receipt hash)).mpr ⟨hthere, rfl⟩
    obtain ⟨r, hr⟩ := List.length_eq_one_iff.mp (Nat.le_antisymm hone (List.length_pos_of_mem hin))
    rw [hr] at hin ⊢
    rw [List.mem_singleton.mp hin]
  · rw [if_neg hvalue, Option.toList_none, List.eq_nil_iff_forall_not_mem]
    intro r hr
    exact hvalue ((h.selected_iff hselected ht hhash).mp ((hmem r).mp hr).1)

/-- **`txn_enriched` is the day of the chain.** -/
theorem enriched (h : ChainDay node date blocks day) :
    (buildTxnEnriched day).Perm
      ((blocks.flatMap node.transactions).map fun t => enrichedRow (t, fetchedReceipt node t)) := by
  have hjoin : Join.left BronzeTransaction.hash BronzeReceipt.transactionHash
      (readBronze day.transactions) (readBronze day.receipts) =
        (readBronze day.transactions).map fun t => (t, fetchedReceipt node t) := by
    rw [Join.left_eq_map]
    · refine List.map_congr_left fun t ht => ?_
      rw [h.found_receipt ht, Option.head?_toList]
    · intro t ht
      rw [h.found_receipt ht]
      cases fetchedReceipt node t <;> simp
  unfold buildTxnEnriched
  rw [hjoin, List.map_map]
  exact h.hasTransactions.map _

/-- What the Silver layer takes for a whale is one. -/
theorem passes_iff {t : BronzeTransaction} (hsupply : ∀ wei, t.value = some wei → wei < 10 ^ 37) :
    (atLeast (.finite 100) (enrichedRow (t, fetchedReceipt node t)).valueEth = some true ∧
        (enrichedRow (t, fetchedReceipt node t)).isSuccess = some true) ↔ IsWhale node t := by
  show (atLeast (.finite 100) (valueEth t.value) = some true ∧
    Sql.eq ((fetchedReceipt node t).bind (·.status)) (some 1) = some true) ↔ _
  unfold fetchedReceipt IsWhale
  by_cases hvalue : 100 * weiPerEth ≤ t.value.getD 0
  · have hstatus : ∀ status : Option ℤ, Sql.eq status (some 1) = some true ↔ status = some 1 := by
      intro status
      cases status <;> simp [Sql.eq]
    rw [if_pos hvalue, Option.bind_map, hstatus]
    refine and_congr_left fun _ => iff_of_true ?_ hvalue
    cases hwei : t.value with
    | none =>
      rw [hwei] at hvalue
      exact absurd hvalue (by decide)
    | some wei =>
      rw [hwei, Option.getD_some] at hvalue
      obtain ⟨q, hq, hle⟩ := valueEth_of_le hvalue (hsupply wei hwei)
      rw [hq, atLeast, Option.map_some]
      have hdouble := Binary64.le_nearest (by norm_num) hle
      simpa using hdouble
  · -- without a receipt there is no success
    rw [if_neg hvalue]
    refine iff_of_false (fun hpasses => ?_) fun hwhale => hvalue hwhale.1
    cases hpasses.2

/-- **The whales that Silver selects** are those of the chain. -/
theorem whaleTransactions (h : ChainDay node date blocks day) :
    (Silver.whaleTransactions (readTxnEnriched (buildTxnEnriched day) date) date (.finite 100)).Perm
      ((chainWhales node blocks).map (readWhale node date)) := by
  have hread : (readTxnEnriched (buildTxnEnriched day) date).Perm
      ((blocks.flatMap node.transactions).map fun t =>
        (enrichedRow (t, fetchedReceipt node t)).read) := by
    unfold readTxnEnriched
    refine ((h.enriched.filter _).map _).trans (List.Perm.of_eq ?_)
    rw [List.filter_eq_self.mpr, List.map_map]
    · rfl
    · intro row hrow
      obtain ⟨t, ht, rfl⟩ := List.mem_map.mp hrow
      exact decide_eq_true (h.dates (h.hasTransactions.mem_iff.mpr ht))
  unfold Silver.whaleTransactions chainWhales
  refine ((hread.map _).filter _).trans (List.Perm.of_eq ?_)
  rw [List.map_map, List.filter_map]
  refine congrArg (List.map _) (List.filter_congr fun t ht => ?_)
  obtain ⟨n, -, ht⟩ := List.mem_flatMap.mp ht
  exact decide_eq_decide.mpr (passes_iff (node.supply n t ht))

/-- **`whale_txns` has the whales of the chain**, whatever the labels and the orders are. -/
theorem whales (h : ChainDay node date blocks day) {file : Option (List Label)}
    (fromLabels toLabels : KnownLabels file) (byFrom : SenderOrder) (byTo : ReceiverOrder) :
    ((buildWhaleTxns (readTxnEnriched (buildTxnEnriched day) date) date (.finite 100) fromLabels
        toLabels byFrom byTo).map (·.hash)).Perm
      ((chainWhales node blocks).map (·.hash)) := by
  refine (map_hash_buildWhaleTxns _ _ _ _ _ _ _).trans ((h.whaleTransactions.map _).trans ?_)
  rw [List.map_map]
  rfl

/-! ### Transfers -/

/-- The block that a transfer finds. -/
theorem found_block (h : ChainDay node date blocks day) {n : ℕ} (hn : n ∈ blocks)
    {row : BronzeTokenTransfer × TokenMeta} (hrow : row.1 ∈ node.transfers n) :
    Join.found (fun row : BronzeTokenTransfer × TokenMeta => row.1.blockNumber) BronzeBlock.number
      (readBronze day.blocks) row = [node.block n] := by
  have hkeys : (blocks.map node.block).map BronzeBlock.number =
      blocks.map fun n : ℕ => some (n : ℤ) := by
    rw [List.map_map]
    rfl
  have hone : (Join.found (fun row : BronzeTokenTransfer × TokenMeta => row.1.blockNumber)
      BronzeBlock.number (readBronze day.blocks) row).length ≤ 1 := by
    refine Join.length_found_le_one ?_ row
    rw [(h.hasBlocks.map _).nodup_iff, hkeys]
    exact h.ofDay.nodup.map fun m n heq => by simpa using heq
  have hin : node.block n ∈ Join.found (fun row : BronzeTokenTransfer × TokenMeta =>
      row.1.blockNumber) BronzeBlock.number (readBronze day.blocks) row := by
    rw [Join.mem_found, h.hasBlocks.mem_iff, node.numbered n row.1 hrow]
    exact ⟨List.mem_map_of_mem hn, rfl, Option.some_ne_none _⟩
  obtain ⟨b, hb⟩ := List.length_eq_one_iff.mp (Nat.le_antisymm hone (List.length_pos_of_mem hin))
  rw [hb] at hin ⊢
  rw [List.mem_singleton.mp hin]

/-- The rows without what the labels give. -/
theorem withoutLabels_buildTokenFlow {pow : ℤ → PyFloat} {file : Option (List Label)}
    {fromLabels toLabels : KnownLabels file} {tokens : List TokenMeta} {rows : List FlowRow}
    (h : buildTokenFlow pow day fromLabels toLabels (some tokens) = .ok rows) :
    rows.map FlowRow.withoutLabels = (transfersWithBlocks day tokens).map fun row =>
      (flowRow pow ((row, none), none)).withoutLabels := by
  cases h
  rw [Join.left_eq_map fun row _ => Join.length_found_le_one toLabels.nodup row,
    Join.left_eq_map fun row _ => Join.length_found_le_one fromLabels.nodup row]
  simp only [List.map_map]
  rfl

/-- The transfers of known tokens, with their tokens. -/
def knownTransfers (tokens : List TokenMeta) (transfers : List BronzeTokenTransfer) :
    List (BronzeTokenTransfer × TokenMeta) :=
  transfers.filterMap fun t => (tokenOf tokens t).map fun token => (t, token)

/-- **`token_flow` has the transfers of the chain**: those of known tokens, each with its
token and at the time of its block, in the folder of the date. -/
theorem flow (h : ChainDay node date blocks day) (pow : ℤ → PyFloat) {file : Option (List Label)}
    (fromLabels toLabels : KnownLabels file) {tokens : List TokenMeta}
    (htokens : (tokens.map TokenMeta.tokenAddress).Nodup) :
    ∃ rows, buildTokenFlow pow day fromLabels toLabels (some tokens) = .ok rows ∧
      (rows.map FlowRow.withoutLabels).Perm (blocks.flatMap fun n =>
        (knownTransfers tokens (node.transfers n)).map fun row =>
          chainRow pow node n row.1 row.2) ∧
      ∀ row ∈ rows, row.dt = some date := by
  have hknown : Join.inner BronzeTokenTransfer.tokenAddress TokenMeta.tokenAddress
      (readBronze day.tokenTransfers) tokens = knownTransfers tokens (readBronze day.tokenTransfers) :=
    Join.inner_eq_filterMap fun t _ => Join.length_found_le_one htokens t
  have hperm : (knownTransfers tokens (readBronze day.tokenTransfers)).Perm
      (blocks.flatMap fun n => knownTransfers tokens (node.transfers n)) := by
    refine (h.hasTransfers.filterMap _).trans (List.Perm.of_eq ?_)
    rw [List.filterMap_flatMap]
    rfl
  have hflow : (transfersWithBlocks day tokens).Perm (blocks.flatMap fun n =>
      (knownTransfers tokens (node.transfers n)).map fun row => (row, some (node.block n))) := by
    unfold transfersWithBlocks
    rw [hknown]
    refine (hperm.flatMap_right _).trans (List.Perm.of_eq ?_)
    rw [List.flatMap_assoc]
    refine List.flatMap_congr fun n hn => ?_
    refine (Join.left_eq_map fun row hrow => ?_).trans (List.map_congr_left fun row hrow => ?_)
    all_goals
      obtain ⟨t, ht, hrow⟩ := List.mem_filterMap.mp hrow
      obtain ⟨token, -, rfl⟩ := Option.map_eq_some_iff.mp hrow
      rw [h.found_block hn ht]
      rfl
  obtain ⟨rows, hrows⟩ : ∃ rows, buildTokenFlow pow day fromLabels toLabels (some tokens) =
      .ok rows := ⟨_, rfl⟩
  have hall : (rows.map FlowRow.withoutLabels).Perm (blocks.flatMap fun n =>
      (knownTransfers tokens (node.transfers n)).map fun row =>
        chainRow pow node n row.1 row.2) := by
    rw [withoutLabels_buildTokenFlow hrows]
    refine (hflow.map _).trans (List.Perm.of_eq ?_)
    rw [List.map_flatMap]
    refine List.flatMap_congr fun n _ => ?_
    rw [List.map_map]
    rfl
  refine ⟨rows, hrows, hall, fun row hrow => ?_⟩
  obtain ⟨n, hn, hmem⟩ := List.mem_flatMap.mp (hall.subset (List.mem_map_of_mem hrow))
  obtain ⟨known, -, heq⟩ := List.mem_map.mp hmem
  have hdt : row.dt = some (toDate (node.chain.time n)) :=
    (congrArg FlowRow.dt heq).symm
  rw [hdt, toDate_of_inDay ((h.ofDay.mem n).mp hn)]

end ChainDay

end Silver

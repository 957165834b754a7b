import EthPipeline.Airflow.SilverOfChain
import EthPipeline.Gold.ChainLedger
import EthPipeline.Gold.ChainMarket
import EthPipeline.Gold.ChainTokens

/-!
# From the chain to the Gold tables

What the three Gold jobs that succeed compute of a published date, over the tables that the
Silver jobs have written for it.  The rows of a table may be read in any order.

* `top_whales_of_chain`: `top_whales_daily`.
* `hourly_flow_of_chain`: `market_flow_hourly`.
* `daily_tokens_of_chain`: `token_popularity_daily`.
-/

namespace Airflow

open Storage Storage.Etl Silver

/-- The rows of `whale_txns` of a date, in some order. -/
def WhaleTable {file : Option (List Label)} (day : BronzeDay) (date : ℤ)
    (fromLabels toLabels : KnownLabels file) (byFrom : SenderOrder) (byTo : ReceiverOrder)
    (stored : List WhaleRow) : Prop :=
  stored.Perm (Silver.buildWhaleTxns (readTxnEnriched (Silver.buildTxnEnriched day) date) date
    (.finite 100) fromLabels toLabels byFrom byTo)

/-- The rows of `token_flow`, in some order. -/
def FlowTable {file : Option (List Label)} (pow : ℤ → PyFloat) (day : BronzeDay)
    (fromLabels toLabels : KnownLabels file) (tokens : List TokenMeta)
    (flow : List Gold.TokenFlow) : Prop :=
  ∃ rows, Silver.buildTokenFlow pow day fromLabels toLabels (some tokens) = .ok rows ∧
    flow.Perm (rows.map Gold.readFlow)

/-! ### The blocks of the second day -/

theorem perm_smallBlocks {blocks : List ℕ} (h : DayBlocks twiceADay 1 blocks) :
    blocks.Perm [2, 3] := by
  refine (List.perm_ext_iff_of_nodup h.nodup (by decide)).mpr fun n => ?_
  rw [h.mem]
  simp only [InDay, midnight, twiceADay, List.mem_cons, List.not_mem_nil, or_false]
  omega

theorem small_ledgerBlocks : Gold.LedgerBlocks smallNode 1 where
  senders := by
    intro n _ t ht
    rcases mem_smallTransactions ht with ⟨rfl, rfl | rfl⟩ | ⟨rfl, rfl⟩ <;>
      exact Option.some_ne_none _
  room := by
    intro blocks hblocks
    have hperm : (chainWhales smallNode blocks).Perm (chainWhales smallNode [2, 3]) :=
      ((perm_smallBlocks hblocks).flatMap_right _).filter _
    have hwei := (hperm.map fun t => t.value.getD 0).sum_eq
    have hmoved : Gold.movedEth (chainWhales smallNode blocks) =
        Gold.movedEth (chainWhales smallNode [2, 3]) := by
      unfold Gold.movedEth
      rw [hwei]
    rw [hmoved]
    decide +kernel

/-! ### The Gold tables -/

/-- **`top_whales_daily` of a published date** is the ledger of its whales: every address that
sends or receives one has one row, with their number, what they move, up to half a millionth of
an ETH each, its activity, its net flow and its rank. -/
theorem top_whales_of_chain (node : Node) (reader : Reader) (dag : PodDag)
    (before later : List BronzeRun) (run : BronzeRun) (day : BronzeDay)
    (h : PublishedDay node reader dag before later run day)
    (hblocks : Gold.LedgerBlocks node (run.date dag).day) (file : Option (List Label))
    (fromLabels toLabels : KnownLabels file) (byFrom : SenderOrder) (byTo : ReceiverOrder)
    (stored : List WhaleRow)
    (hstored : WhaleTable day (run.date dag).day fromLabels toLabels byFrom byTo stored)
    (byEntity : Gold.EntityOrder) :
    ∃ blocks, DayBlocks node.chain (run.date dag).day blocks ∧
      Gold.ChainLedger (chainWhales node blocks)
        (Gold.buildTopWhalesDaily stored (run.date dag).day byEntity) := by
  obtain ⟨blocks, hchain⟩ := chainDay_of_published h.toPublished h.read
  exact ⟨blocks, hchain.ofDay, Gold.ledger_of_chain byEntity hchain hblocks hstored⟩

theorem small_top_whales : ∃ day blocks, DayBlocks twiceADay 1 blocks ∧
    Gold.ChainLedger (chainWhales smallNode blocks)
      (Gold.buildTopWhalesDaily
        (Silver.buildWhaleTxns (readTxnEnriched (Silver.buildTxnEnriched day) 1) 1 (.finite 100)
          (⟨manualLabels, rfl⟩ : KnownLabels none) ⟨manualLabels, rfl⟩ stableSenderOrder
          stableReceiverOrder) 1 Gold.insertionEntityOrder) := by
  obtain ⟨day, hday⟩ := exists_smallDay
  obtain ⟨blocks, hblocks, hledger⟩ :=
    top_whales_of_chain smallNode smallReader .k8s [] [] smallRun day hday small_ledgerBlocks none
      ⟨manualLabels, rfl⟩ ⟨manualLabels, rfl⟩ stableSenderOrder stableReceiverOrder _
      (List.Perm.refl _) Gold.insertionEntityOrder
  exact ⟨day, blocks, hblocks, hledger⟩

/-- **`market_flow_hourly` of a published date**: an hour and a kind of flow have a row just
when a whale of that hour is of that kind, and its amounts are what these whales move. -/
theorem hourly_flow_of_chain (node : Node) (reader : Reader) (dag : PodDag)
    (before later : List BronzeRun) (run : BronzeRun) (day : BronzeDay)
    (h : PublishedDay node reader dag before later run day)
    (hblocks : Gold.LedgerBlocks node (run.date dag).day) (file : Option (List Label))
    (fromLabels toLabels : KnownLabels file) (byFrom : SenderOrder) (byTo : ReceiverOrder)
    (stored : List WhaleRow)
    (hstored : WhaleTable day (run.date dag).day fromLabels toLabels byFrom byTo stored) :
    ∃ blocks, DayBlocks node.chain (run.date dag).day blocks ∧
      Gold.ChainMarket (Gold.chainFlow fromLabels.rows toLabels.rows) (chainWhales node blocks)
        (Gold.buildMarketFlowHourly stored (run.date dag).day) := by
  obtain ⟨blocks, hchain⟩ := chainDay_of_published h.toPublished h.read
  exact ⟨blocks, hchain.ofDay, Gold.market_of_chain hchain hblocks hstored⟩

theorem small_hourly_flow : ∃ day blocks, DayBlocks twiceADay 1 blocks ∧
    Gold.ChainMarket (Gold.chainFlow manualLabels manualLabels) (chainWhales smallNode blocks)
      (Gold.buildMarketFlowHourly
        (Silver.buildWhaleTxns (readTxnEnriched (Silver.buildTxnEnriched day) 1) 1 (.finite 100)
          (⟨manualLabels, rfl⟩ : KnownLabels none) ⟨manualLabels, rfl⟩ stableSenderOrder
          stableReceiverOrder) 1) := by
  obtain ⟨day, hday⟩ := exists_smallDay
  obtain ⟨blocks, hblocks, hmarket⟩ :=
    hourly_flow_of_chain smallNode smallReader .k8s [] [] smallRun day hday small_ledgerBlocks none
      ⟨manualLabels, rfl⟩ ⟨manualLabels, rfl⟩ stableSenderOrder stableReceiverOrder _
      (List.Perm.refl _)
  exact ⟨day, blocks, hblocks, hmarket⟩

/-- **`token_popularity_daily` of a published date** has the known tokens with a transfer in
the blocks of the date, each once, and counts their transfers. -/
theorem daily_tokens_of_chain (node : Node) (reader : Reader) (dag : PodDag)
    (before later : List BronzeRun) (run : BronzeRun) (day : BronzeDay)
    (h : PublishedDay node reader dag before later run day)
    (hhashes : ∀ n, InDay node.chain (run.date dag).day n → ∀ t ∈ node.transfers n,
      t.transactionHash ≠ none)
    (pow : ℤ → PyFloat) (file : Option (List Label)) (fromLabels toLabels : KnownLabels file)
    (tokens : List TokenMeta) (htokens : (tokens.map TokenMeta.tokenAddress).Nodup)
    (flow : List Gold.TokenFlow) (hflow : FlowTable pow day fromLabels toLabels tokens flow)
    (estimate : Gold.TokenKey → List String → ℕ) (spark : Summation) :
    ∃ blocks, DayBlocks node.chain (run.date dag).day blocks ∧
      Gold.ChainPopularity tokens (blocks.flatMap node.transfers)
        (Gold.buildTokenPopularityDaily flow (run.date dag).day estimate spark) := by
  obtain ⟨blocks, hchain⟩ := chainDay_of_published h.toPublished h.read
  obtain ⟨rows, hrows, hperm⟩ := hflow
  exact ⟨blocks, hchain.ofDay,
    Gold.popularity_of_chain estimate spark hchain htokens hhashes hrows hperm⟩

def smallToken : TokenMeta := ⟨some "0xc", some "T", some "Token", some 0⟩

theorem small_daily_tokens : ∃ day blocks rows, DayBlocks twiceADay 1 blocks ∧
    Silver.buildTokenFlow (fun _ => .finite 1) day (⟨manualLabels, rfl⟩ : KnownLabels none)
      ⟨manualLabels, rfl⟩ (some [smallToken]) = .ok rows ∧
    Gold.ChainPopularity [smallToken] (blocks.flatMap smallNode.transfers)
      (Gold.buildTokenPopularityDaily (rows.map Gold.readFlow) 1 (fun _ paths => paths.length)
        .inOrder) := by
  obtain ⟨day, hday⟩ := exists_smallDay
  obtain ⟨rows, hrows⟩ : ∃ rows, Silver.buildTokenFlow (fun _ => .finite 1) day
      (⟨manualLabels, rfl⟩ : KnownLabels none) ⟨manualLabels, rfl⟩ (some [smallToken]) = .ok rows :=
    ⟨_, rfl⟩
  have hhashes : ∀ n, InDay twiceADay 1 n → ∀ t ∈ smallNode.transfers n,
      t.transactionHash ≠ none := by
    intro n _ t ht
    rcases mem_smallTransfers ht with ⟨rfl, rfl⟩ | ⟨rfl, rfl⟩ <;> exact Option.some_ne_none _
  obtain ⟨blocks, hblocks, hpopularity⟩ :=
    daily_tokens_of_chain smallNode smallReader .k8s [] [] smallRun day hday hhashes
      (fun _ => .finite 1) none ⟨manualLabels, rfl⟩ ⟨manualLabels, rfl⟩ [smallToken]
      (List.nodup_singleton _) (rows.map Gold.readFlow) ⟨rows, hrows, List.Perm.refl _⟩
      (fun _ paths => paths.length) .inOrder
  exact ⟨day, blocks, rows, hblocks, hrows, hpopularity⟩

end Airflow

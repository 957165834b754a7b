import EthPipeline.Airflow.BronzeFolders
import EthPipeline.Silver.ChainDay

/-!
# From the chain to the Silver tables

A published date, from the blocks of the chain over the extraction with its retries, the
bucket and `read_bronze` to what the Silver jobs compute.  What is assumed is only about
others: Etherscan, the commands of `ethereumetl` that exit with 0, and Spark's reader.

* `chainDay_of_published`: the folders of a published date have the rows of its blocks.
* `enriched_of_chain`, `whales_of_chain`, `flow_of_chain`: the three Silver tables.
-/

namespace Airflow

open Storage Storage.Etl Silver

/-! ### Reading the folders -/

/-- `read_bronze`: the rows of the files of a folder, in some order of the files. -/
def ReadsFolder {α : Type} (bucket : GcsPath → Option File) (folder : Kind) (dateStr : String)
    (read : File → List α) (files : List (List α)) : Prop :=
  ∃ paths : List GcsPath, paths.Nodup ∧ (∀ path, path ∈ paths ↔ Reads bucket folder dateStr path) ∧
    files = paths.filterMap fun path => (bucket path).map read

/-- The folders of a date as the Silver jobs read them. -/
structure ReadsDay (reader : Reader) (bucket : GcsPath → Option File) (dateStr : String)
    (day : BronzeDay) : Prop where
  transactions : ReadsFolder bucket .transactions dateStr reader.transactions day.transactions
  receipts : ReadsFolder bucket .receipts dateStr reader.receipts day.receipts
  blocks : ReadsFolder bucket .blocks dateStr reader.blocks day.blocks
  tokenTransfers : ReadsFolder bucket .tokenTransfers dateStr reader.tokenTransfers
    day.tokenTransfers

section folder

variable {α : Type} {bucket : GcsPath → Option File} {folder : Kind} {dateStr : String}
  {place : GcsPath} {content : File}

/-- A folder with one file. -/
theorem readsFolder_iff (read : File → List α) (files : List (List α))
    (hreads : ∀ path, Reads bucket folder dateStr path ↔ path = place)
    (hplace : bucket place = some content) :
    ReadsFolder bucket folder dateStr read files ↔ files = [read content] := by
  constructor
  · rintro ⟨paths, hnodup, hmem, rfl⟩
    have hpaths : paths = [place] := by
      refine List.perm_singleton.mp ((List.perm_ext_iff_of_nodup hnodup (List.nodup_singleton _)).mpr
        fun path => ?_)
      rw [hmem, hreads, List.mem_singleton]
    rw [hpaths, List.filterMap_cons, hplace]
    rfl
  · rintro rfl
    refine ⟨[place], List.nodup_singleton _, fun path => ?_, ?_⟩
    · rw [hreads, List.mem_singleton]
    · rw [List.filterMap_cons, hplace]
      rfl

end folder

/-! ### A date that was published -/

/-- A pod with an empty disk, whose commands write what the node has. -/
structure FreshPod (node : Node) (reader : Reader) (pod : Pod) : Prop where
  faithful : Faithful node reader pod.env
  disk : pod.disk = fun _ => none

/-- A run has published its date.  The runs before it may do anything, those after it are
for other dates; every lookup of a range is on time. -/
structure Published (node : Node) (reader : Reader) (dag : PodDag) (before later : List BronzeRun)
    (run : BronzeRun) : Prop where
  times : ∀ other ∈ before ++ run :: later, other.OnTime node.chain dag
  dates : ∀ other ∈ before ++ run :: later, 0 ≤ (other.date dag).day
  pods : ∀ e ∈ run.attempts, FreshPod node reader e.2
  success : (run.after dag (bucketAfter dag (fun _ => none) before)).status .publishBronzeAsset =
    .success
  others : ∀ other ∈ later, other.date dag ≠ run.date dag

/-- The range is that of the date, and the files have what the node has. -/
def chainDemands (node : Node) (reader : Reader) : Demands where
  range := OfDay node.chain
  extracted r := HasChain node reader r.startBlock r.endBlock
  transferred r transfers := (reader.tokenTransfers transfers).Perm
    ((numbers r.startBlock r.endBlock).flatMap node.transfers)

section published

variable {node : Node} {reader : Reader} {dag : PodDag} {before later : List BronzeRun}
  {run : BronzeRun} {day : BronzeDay}

theorem obeys_chain (h : Published node reader dag before later run) :
    run.Obeys (chainDemands node reader) dag := by
  intro e he
  obtain ⟨hfaithful, hdisk⟩ := h.pods e he
  have hrun : run ∈ before ++ run :: later := List.mem_append_right _ List.mem_cons_self
  constructor
  · exact fun hcalculate r hr => range_of_onTime (h.times run hrun) he hcalculate hr
  · intro _ r bucket stats w' cs' hextract blocks txs receipts hblocks htxs hreceipts
    have hfresh : e.2.disk ((rangeData r).file .receipts) = none := by rw [hdisk]
    exact extract_faithful hfaithful hfresh hextract hblocks htxs hreceipts
  · intro _ r bucket stats w' cs' hextract transfers htransfers
    exact transfers_faithful hfaithful hextract htransfers

/-- What is in the folders of the date, and only there. -/
theorem folders_of_published (h : Published node reader dag before later run) :
    ∃ r, OfDay node.chain r ∧ r.dateStr = run.date dag ∧ ∃ blocks txs receipts transfers,
      HasChain node reader r.startBlock r.endBlock blocks txs receipts ∧
      (reader.tokenTransfers transfers).Perm
        ((numbers r.startBlock r.endBlock).flatMap node.transfers) ∧
      ∀ day, ReadsDay reader (bucketAfter dag (fun _ => none) (before ++ run :: later))
          (dateText (run.date dag).day) day ↔
        day = ⟨[reader.transactions txs], [reader.receipts receipts], [reader.blocks blocks],
          [reader.tokenTransfers transfers]⟩ := by
  have hasked : ∀ r, (chainDemands node reader).range r → OfDay node.chain r := fun _ hr => hr
  obtain ⟨r, hr, hdate, ⟨blocks, txs, receipts, transfers, hcomplete, hchain, htransfers⟩, hreads⟩ :=
    read_published hasked (obeys_chain h) h.times h.dates h.success h.others
  refine ⟨r, hr, hdate, blocks, txs, receipts, transfers, hchain, htransfers, fun day => ?_⟩
  have htxs := readsFolder_iff reader.transactions day.transactions (hreads .transactions)
    hcomplete.hasTransactions
  have hreceipts := readsFolder_iff reader.receipts day.receipts (hreads .receipts)
    hcomplete.hasReceipts
  have hblocks := readsFolder_iff reader.blocks day.blocks (hreads .blocks)
    hcomplete.hasBlocks
  have htransfers := readsFolder_iff reader.tokenTransfers day.tokenTransfers (hreads .tokenTransfers)
    hcomplete.hasTransfers
  constructor
  · rintro ⟨h₁, h₂, h₃, h₄⟩
    cases day
    rw [BronzeDay.mk.injEq]
    exact ⟨htxs.mp h₁, hreceipts.mp h₂, hblocks.mp h₃, htransfers.mp h₄⟩
  · rintro rfl
    exact ⟨htxs.mpr rfl, hreceipts.mpr rfl, hblocks.mpr rfl, htransfers.mpr rfl⟩

/-- The folders of a published date can be read. -/
theorem exists_readsDay (h : Published node reader dag before later run) :
    ∃ day, ReadsDay reader (bucketAfter dag (fun _ => none) (before ++ run :: later))
      (dateText (run.date dag).day) day := by
  obtain ⟨r, -, -, blocks, txs, receipts, transfers, -, -, hread⟩ := folders_of_published h
  exact ⟨_, (hread _).mpr rfl⟩

/-- **The folders of a published date** have the rows of its blocks, each once. -/
theorem chainDay_of_published (h : Published node reader dag before later run)
    (hday : ReadsDay reader (bucketAfter dag (fun _ => none) (before ++ run :: later))
      (dateText (run.date dag).day) day) :
    ∃ blocks, ChainDay node (run.date dag).day blocks day := by
  obtain ⟨r, hr, hdate, blocks, txs, receipts, transfers, hchain, htransfers, hread⟩ :=
    folders_of_published h
  obtain rfl := (hread day).mp hday
  have hone : ∀ {α : Type} (rows : List α), readBronze [rows] = rows := fun _ => List.append_nil _
  refine ⟨numbers r.startBlock r.endBlock, ⟨nodup_numbers _ _, fun n => ?_⟩, ?_, ?_, ?_, ?_⟩
  · rw [mem_numbers, ← hdate]
    exact hr.exact n
  · rw [hone]
    exact hchain.blocks
  · rw [hone]
    exact hchain.transactions
  · rw [hone, hone]
    exact hchain.receipts
  · rw [hone]
    exact htransfers

end published

/-! ### A small chain -/

/-- Two blocks a day. -/
def twiceADay : Timeline where
  time n := 43200 * n
  increasing := by
    intro m n h
    show (43200 * m : ℤ) < 43200 * n
    omega

theorem isFirst_twiceADay (n : ℕ) : twiceADay.IsFirst (43200 * n) n := by
  refine ⟨le_rfl, fun m hm => ?_⟩
  have hm : (43200 * n : ℤ) ≤ 43200 * m := hm
  omega

/-- 150 ETH. -/
def largeTransaction : BronzeTransaction :=
  ⟨some "0x1", some 2, some 86400, some "0xa", some "0xb", some (150 * 10 ^ 18), some "0x"⟩

/-- 1 ETH. -/
def smallTransaction : BronzeTransaction :=
  ⟨some "0x2", some 2, some 86400, some "0xb", some "0xa", some (10 ^ 18), some "0x"⟩

/-- 200 ETH that are not moved. -/
def failedTransaction : BronzeTransaction :=
  ⟨some "0x3", some 3, some 129600, some "0xa", some "0xb", some (200 * 10 ^ 18), some "0x"⟩

def knownTransfer : BronzeTokenTransfer :=
  ⟨some "0xc", some "0xa", some "0xb", some 5, some "0x2", some 2⟩

/-- Of a token that the metadata does not have. -/
def unknownTransfer : BronzeTokenTransfer :=
  ⟨some "0xd", some "0xb", some "0xa", some 7, some "0x2", some 3⟩

/-- The transactions of the second day. -/
def smallTransactions : ℕ → List BronzeTransaction
  | 2 => [largeTransaction, smallTransaction]
  | 3 => [failedTransaction]
  | _ => []

def smallTransfers : ℕ → List BronzeTokenTransfer
  | 2 => [knownTransfer]
  | 3 => [unknownTransfer]
  | _ => []

theorem mem_smallTransactions {n : ℕ} {t : BronzeTransaction} (h : t ∈ smallTransactions n) :
    n = 2 ∧ (t = largeTransaction ∨ t = smallTransaction) ∨ n = 3 ∧ t = failedTransaction := by
  unfold smallTransactions at h
  split at h
  · exact .inl ⟨rfl, by simpa using h⟩
  · exact .inr ⟨rfl, List.mem_singleton.mp h⟩
  · cases h

theorem mem_smallTransfers {n : ℕ} {t : BronzeTokenTransfer} (h : t ∈ smallTransfers n) :
    n = 2 ∧ t = knownTransfer ∨ n = 3 ∧ t = unknownTransfer := by
  unfold smallTransfers at h
  split at h
  · exact .inl ⟨rfl, List.mem_singleton.mp h⟩
  · exact .inr ⟨rfl, List.mem_singleton.mp h⟩
  · cases h

def smallNode : Node where
  chain := twiceADay
  transactions := smallTransactions
  receipt hash := ⟨some hash, some 21000, some (if hash = "0x3" then 0 else 1), some 1⟩
  transfers := smallTransfers
  stamped := by
    intro n t ht
    rcases mem_smallTransactions ht with ⟨rfl, rfl | rfl⟩ | ⟨rfl, rfl⟩ <;> rfl
  named := by
    intro n t ht
    rcases mem_smallTransactions ht with ⟨rfl, rfl | rfl⟩ | ⟨rfl, rfl⟩ <;>
      exact Option.some_ne_none _
  once := by
    intro n
    unfold smallTransactions
    split <;> decide
  apart := by
    intro m n hne t ht u hu
    rcases mem_smallTransactions ht with ⟨rfl, rfl | rfl⟩ | ⟨rfl, rfl⟩ <;>
      rcases mem_smallTransactions hu with ⟨rfl, rfl | rfl⟩ | ⟨rfl, rfl⟩ <;>
        first | exact absurd rfl hne | decide
  supply := by
    intro n t ht wei hwei
    rcases mem_smallTransactions ht with ⟨rfl, rfl | rfl⟩ | ⟨rfl, rfl⟩ <;>
      obtain rfl := Option.some.inj hwei <;> norm_num
  receipt_hash _ := rfl
  numbered := by
    intro n t ht
    rcases mem_smallTransfers ht with ⟨rfl, rfl⟩ | ⟨rfl, rfl⟩ <;> rfl

/-- A reader that tells the files by their sizes. -/
def smallReader : Reader where
  blocks file := if file.size = 500 then [smallNode.block 2, smallNode.block 3] else []
  transactions file :=
    if file.size = 120 then [largeTransaction, smallTransaction, failedTransaction] else []
  receipts file := if file.size = 80 then [smallNode.receipt "0x1", smallNode.receipt "0x3"] else []
  tokenTransfers file := if file.size = 60 then [knownTransfer, unknownTransfer] else []
  receipts_empty := rfl

/-- The files of the two blocks. -/
def smallBlocksFile : File := ⟨[.json ⟨some 2, none, none⟩, .json ⟨some 1, none, none⟩], 500⟩

def smallTxFile : File :=
  ⟨[lineOf largeTransaction, lineOf smallTransaction, lineOf failedTransaction], 120⟩

/-- Commands that fail for every other range, and for other hashes. -/
def smallEnv : Env :=
  { quietEnv with
    shell := fun command disk =>
      match command with
      | .exportBlocksAndTransactions s e output _ =>
        ⟨fun file => some (if file = output then smallBlocksFile else smallTxFile), s = 2 ∧ e = 3⟩
      | .exportReceiptsAndLogs hashFile _ =>
        ⟨fun _ => some ⟨[.text "0x1", .text "0x3"], 80⟩,
          disk hashFile = some (.ofTexts ["0x1", "0x3"])⟩
      | .exportTokenTransfers s e _ =>
        ⟨fun _ => some ⟨[.text "0xc", .text "0xd"], 60⟩, s = 2 ∧ e = 3⟩ }

theorem smallEnv_faithful : Faithful smallNode smallReader smallEnv where
  blocks := by
    intro s e output txOutput disk hne hzero
    obtain ⟨rfl, rfl⟩ : s = 2 ∧ e = 3 := of_decide_eq_true hzero
    refine ⟨smallBlocksFile, smallTxFile, ?_, ?_, ?_, ?_, rfl⟩
    · exact congrArg some (if_pos rfl)
    · exact congrArg some (if_neg hne.symm)
    · exact List.Perm.of_eq (by decide)
    · exact List.Perm.of_eq (by decide)
  receipts := by
    intro hashFile output disk hashes hhashes hzero
    have hsame : disk hashFile = some (.ofTexts ["0x1", "0x3"]) := of_decide_eq_true hzero
    have hlines := congrArg File.lines (Option.some.inj (hhashes.symm.trans hsame))
    have hinj : Function.Injective Line.text := fun _ _ heq => Line.text.inj heq
    obtain rfl : hashes = ["0x1", "0x3"] := List.map_injective_iff.mpr hinj hlines
    exact ⟨_, rfl, List.Perm.refl _⟩
  transfers := by
    intro s e output disk hzero
    obtain ⟨rfl, rfl⟩ : s = 2 ∧ e = 3 := of_decide_eq_true hzero
    exact ⟨_, rfl, List.Perm.of_eq (by decide)⟩

/-- Etherscan about the two midnights. -/
def smallEtherscan : Etherscan
  | ⟨86400, .after, _⟩ => some ⟨"1", "OK", "2"⟩
  | ⟨172800, .after, _⟩ => some ⟨"1", "OK", "4"⟩
  | _ => none

theorem smallEtherscan_answers : Answers twiceADay smallEtherscan where
  after := by
    intro t key data n hdata _ hn
    unfold smallEtherscan at hdata
    split at hdata
    · next heq =>
      obtain ⟨rfl, -⟩ := Request.mk.inj heq
      obtain rfl := Option.some.inj hdata
      have hblock : n = 2 := Option.some.inj (hn.symm.trans (by decide +kernel))
      exact hblock ▸ isFirst_twiceADay _
    · next heq =>
      obtain ⟨rfl, -⟩ := Request.mk.inj heq
      obtain rfl := Option.some.inj hdata
      have hblock : n = 4 := Option.some.inj (hn.symm.trans (by decide +kernel))
      exact hblock ▸ isFirst_twiceADay _
    · cases hdata
  before := by
    intro t key data n hdata _ hn
    unfold smallEtherscan at hdata
    split at hdata
    · next heq => simp at heq
    · next heq => simp at heq
    · cases hdata

/-- Ten minutes into the third day. -/
def smallNow : Timestamp := (172800 + 600) * 1000000

def smallPod : Pod where
  etherscan := smallEtherscan
  apiKey := some "key"
  now₁ := smallNow
  now₂ := smallNow
  env := smallEnv
  disk := fun _ => none
  reports := true

/-- The second extraction is the first that is uploaded. -/
def smallRun : BronzeRun where
  logicalDate := smallNow
  attempts := [(.calculateBlockRange, smallPod),
    (.extractBlocksTxAndReceipts,
      { smallPod with env := { smallEnv with upload := noUploadEnv.upload } }),
    (.extractBlocksTxAndReceipts, smallPod), (.extractTokenTransfers, smallPod),
    (.qualityCheck, smallPod), (.sendSummaryReport, smallPod), (.publishBronzeAsset, smallPod)]

theorem smallRun_published : Published smallNode smallReader .k8s [] [] smallRun where
  times := by
    intro other hother e he _
    obtain rfl := List.mem_singleton.mp hother
    have hpod : e.2.etherscan = smallEtherscan ∧ e.2.now₁ = smallNow ∧ e.2.now₂ = smallNow := by
      simp only [smallRun, List.mem_cons, List.not_mem_nil, or_false] at he
      rcases he with rfl | rfl | rfl | rfl | rfl | rfl | rfl <;> exact ⟨rfl, rfl, rfl⟩
    obtain ⟨hetherscan, hnow₁, hnow₂⟩ := hpod
    refine OnTime.k8s (hetherscan ▸ smallEtherscan_answers) ?_ ?_
    · exact hnow₁ ▸ le_refl smallNow
    · exact hnow₂ ▸ le_refl smallNow
  dates := by decide +kernel
  pods := by
    intro e he
    have hupload : Faithful smallNode smallReader { smallEnv with upload := noUploadEnv.upload } :=
      ⟨smallEnv_faithful.blocks, smallEnv_faithful.receipts, smallEnv_faithful.transfers⟩
    simp only [smallRun, List.mem_cons, List.not_mem_nil, or_false] at he
    rcases he with rfl | rfl | rfl | rfl | rfl | rfl | rfl
    · exact ⟨smallEnv_faithful, rfl⟩
    · exact ⟨hupload, rfl⟩
    all_goals exact ⟨smallEnv_faithful, rfl⟩
  success := by decide +kernel
  others := nofun

/-! ### The Silver tables -/

/-- The folders of a published date, as the Silver jobs read them. -/
structure PublishedDay (node : Node) (reader : Reader) (dag : PodDag)
    (before later : List BronzeRun) (run : BronzeRun) (day : BronzeDay) : Prop extends
    Published node reader dag before later run where
  read : ReadsDay reader (bucketAfter dag (fun _ => none) (before ++ run :: later))
    (dateText (run.date dag).day) day

theorem exists_smallDay : ∃ day, PublishedDay smallNode smallReader .k8s [] [] smallRun day := by
  obtain ⟨day, hday⟩ := exists_readsDay smallRun_published
  exact ⟨day, smallRun_published, hday⟩

/-- **`txn_enriched` of a published date**: the transactions in the blocks of the date, each
once, and with its receipt if it moves 100 ETH or more. -/
theorem enriched_of_chain (node : Node) (reader : Reader) (dag : PodDag)
    (before later : List BronzeRun) (run : BronzeRun) (day : BronzeDay)
    (h : PublishedDay node reader dag before later run day) :
    ∃ blocks, DayBlocks node.chain (run.date dag).day blocks ∧
      (Silver.buildTxnEnriched day).Perm
        ((blocks.flatMap node.transactions).map fun t =>
          enrichedRow (t, fetchedReceipt node t)) := by
  obtain ⟨blocks, hchain⟩ := chainDay_of_published h.toPublished h.read
  exact ⟨blocks, hchain.ofDay, hchain.enriched⟩

theorem small_enriched : ∃ day blocks, DayBlocks twiceADay 1 blocks ∧
    (Silver.buildTxnEnriched day).Perm
      ((blocks.flatMap smallNode.transactions).map fun t =>
        enrichedRow (t, fetchedReceipt smallNode t)) := by
  obtain ⟨day, hday⟩ := exists_smallDay
  obtain ⟨blocks, hblocks, hperm⟩ :=
    enriched_of_chain smallNode smallReader .k8s [] [] smallRun day hday
  exact ⟨day, blocks, hblocks, hperm⟩

/-- **`whale_txns` of a published date**: the successful transactions in its blocks that move
100 ETH or more, whatever the labels are and however Spark orders the rows. -/
theorem whales_of_chain (node : Node) (reader : Reader) (dag : PodDag)
    (before later : List BronzeRun) (run : BronzeRun) (day : BronzeDay)
    (h : PublishedDay node reader dag before later run day) (file : Option (List Label))
    (fromLabels toLabels : KnownLabels file) (byFrom : SenderOrder) (byTo : ReceiverOrder) :
    ∃ blocks, DayBlocks node.chain (run.date dag).day blocks ∧
      ((Silver.buildWhaleTxns (readTxnEnriched (Silver.buildTxnEnriched day) (run.date dag).day)
          (run.date dag).day (.finite 100) fromLabels toLabels byFrom byTo).map (·.hash)).Perm
        (((blocks.flatMap node.transactions).filter (IsWhale node)).map (·.hash)) := by
  obtain ⟨blocks, hchain⟩ := chainDay_of_published h.toPublished h.read
  exact ⟨blocks, hchain.ofDay, hchain.whales fromLabels toLabels byFrom byTo⟩

theorem small_whales : ∃ day blocks, DayBlocks twiceADay 1 blocks ∧
    ((Silver.buildWhaleTxns (readTxnEnriched (Silver.buildTxnEnriched day) 1) 1 (.finite 100)
        (⟨manualLabels, rfl⟩ : KnownLabels none) ⟨manualLabels, rfl⟩ stableSenderOrder
        stableReceiverOrder).map (·.hash)).Perm
      (((blocks.flatMap smallNode.transactions).filter (IsWhale smallNode)).map (·.hash)) := by
  obtain ⟨day, hday⟩ := exists_smallDay
  obtain ⟨blocks, hblocks, hperm⟩ :=
    whales_of_chain smallNode smallReader .k8s [] [] smallRun day hday none ⟨manualLabels, rfl⟩
      ⟨manualLabels, rfl⟩ stableSenderOrder stableReceiverOrder
  exact ⟨day, blocks, hblocks, hperm⟩

/-- **`token_flow` of a published date**: the transfers of known tokens in its blocks, each
once, at the time of its block, and all in the folder of the date. -/
theorem flow_of_chain (node : Node) (reader : Reader) (dag : PodDag)
    (before later : List BronzeRun) (run : BronzeRun) (day : BronzeDay)
    (h : PublishedDay node reader dag before later run day) (pow : ℤ → PyFloat)
    (file : Option (List Label)) (fromLabels toLabels : KnownLabels file) (tokens : List TokenMeta)
    (htokens : (tokens.map TokenMeta.tokenAddress).Nodup) :
    ∃ blocks rows, DayBlocks node.chain (run.date dag).day blocks ∧
      Silver.buildTokenFlow pow day fromLabels toLabels (some tokens) = .ok rows ∧
      (rows.map FlowRow.withoutLabels).Perm (blocks.flatMap fun n =>
        (ChainDay.knownTransfers tokens (node.transfers n)).map fun row =>
          chainRow pow node n row.1 row.2) ∧
      ∀ row ∈ rows, row.dt = some (run.date dag).day := by
  obtain ⟨blocks, hchain⟩ := chainDay_of_published h.toPublished h.read
  obtain ⟨rows, hrows, hflow, hdates⟩ := hchain.flow pow fromLabels toLabels htokens
  exact ⟨blocks, rows, hchain.ofDay, hrows, hflow, hdates⟩

theorem small_flow : ∃ day blocks rows, DayBlocks twiceADay 1 blocks ∧
    Silver.buildTokenFlow (fun _ => .finite 1) day (⟨manualLabels, rfl⟩ : KnownLabels none)
      ⟨manualLabels, rfl⟩ (some [⟨some "0xc", some "T", some "Token", some 0⟩]) = .ok rows ∧
    (rows.map FlowRow.withoutLabels).Perm (blocks.flatMap fun n =>
      (ChainDay.knownTransfers [⟨some "0xc", some "T", some "Token", some 0⟩]
        (smallNode.transfers n)).map fun row =>
          chainRow (fun _ => .finite 1) smallNode n row.1 row.2) ∧
    ∀ row ∈ rows, row.dt = some 1 := by
  obtain ⟨day, hday⟩ := exists_smallDay
  obtain ⟨blocks, rows, hblocks, hrows⟩ :=
    flow_of_chain smallNode smallReader .k8s [] [] smallRun day hday (fun _ => .finite 1) none
      ⟨manualLabels, rfl⟩ ⟨manualLabels, rfl⟩ [⟨some "0xc", some "T", some "Token", some 0⟩]
      (List.nodup_singleton _)
  exact ⟨day, blocks, rows, hblocks, hrows⟩

end Airflow

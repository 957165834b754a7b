import EthPipeline.Base.Timeline
import EthPipeline.Storage.BronzeGate

/-!
# The files of a range and the chain

What an extraction uploads if `ethereumetl` writes what its node has whenever it exits
with 0: `export_blocks_and_transactions`, `export_receipts_and_logs` and
`export_token_transfers` of `src/storage/etl`.

* `extract_faithful`: the blocks, the transactions and the receipts of the selected hashes.
* `transfers_faithful`: the transfers.
-/

namespace Storage.Etl

open Exec Silver

/-- The chain, as a node shows it. -/
structure Node where
  chain : Timeline
  transactions : ℕ → List BronzeTransaction
  receipt : String → BronzeReceipt
  transfers : ℕ → List BronzeTokenTransfer
  stamped : ∀ n, ∀ t ∈ transactions n, t.blockTimestamp = some (chain.time n)
  named : ∀ n, ∀ t ∈ transactions n, t.hash ≠ none
  once : ∀ n, ((transactions n).map (·.hash)).Nodup
  apart : ∀ m n, m ≠ n → ∀ t ∈ transactions m, ∀ u ∈ transactions n, t.hash ≠ u.hash
  /-- There are not so many wei. -/
  supply : ∀ n, ∀ t ∈ transactions n, ∀ wei, t.value = some wei → wei < 10 ^ 37
  receipt_hash : ∀ hash, (receipt hash).transactionHash = some hash
  numbered : ∀ n, ∀ t ∈ transfers n, t.blockNumber = some (n : ℤ)

/-- The row of a block. -/
def Node.block (node : Node) (n : ℕ) : BronzeBlock := ⟨some n, some (node.chain.time n)⟩

/-- `--start-block` to `--end-block`. -/
def numbers (startBlock endBlock : ℤ) : List ℕ :=
  (List.range (endBlock + 1).toNat).filter fun n => startBlock ≤ n

theorem mem_numbers {s e : ℤ} {n : ℕ} : n ∈ numbers s e ↔ s ≤ n ∧ n ≤ e := by
  rw [numbers, List.mem_filter, List.mem_range, decide_eq_true_eq]
  omega

theorem nodup_numbers (s e : ℤ) : (numbers s e).Nodup := List.nodup_range.filter _

/-- How Spark reads a file of JSON lines, by the schema of its folder. -/
structure Reader where
  blocks : File → List BronzeBlock
  transactions : File → List BronzeTransaction
  receipts : File → List BronzeReceipt
  tokenTransfers : File → List BronzeTokenTransfer
  receipts_empty : receipts .empty = []

/-- A command that exits with 0 has written what the node has; of a transaction, Python
reads what Spark reads. -/
structure Faithful (node : Node) (reader : Reader) (env : Env) : Prop where
  blocks : ∀ s e blockFile txFile disk, blockFile ≠ txFile →
    (env.shell (.exportBlocksAndTransactions s e blockFile txFile) disk).exitsZero →
    ∃ blocks txs,
      (env.shell (.exportBlocksAndTransactions s e blockFile txFile) disk).written blockFile =
        some blocks ∧
      (env.shell (.exportBlocksAndTransactions s e blockFile txFile) disk).written txFile =
        some txs ∧
      (reader.blocks blocks).Perm ((numbers s e).map node.block) ∧
      (reader.transactions txs).Perm ((numbers s e).flatMap node.transactions) ∧
      txs.lines = (reader.transactions txs).map lineOf
  receipts : ∀ hashFile receiptFile disk hashes, disk hashFile = some (.ofTexts hashes) →
    (env.shell (.exportReceiptsAndLogs hashFile receiptFile) disk).exitsZero →
    ∃ receipts,
      (env.shell (.exportReceiptsAndLogs hashFile receiptFile) disk).written receiptFile =
        some receipts ∧
      (reader.receipts receipts).Perm (hashes.map node.receipt)
  transfers : ∀ s e file disk, (env.shell (.exportTokenTransfers s e file) disk).exitsZero →
    ∃ transfers,
      (env.shell (.exportTokenTransfers s e file) disk).written file = some transfers ∧
      (reader.tokenTransfers transfers).Perm ((numbers s e).flatMap node.transfers)

/-- The files of an extraction have what the node has: of the receipts, those that
`_extract_tx_hashes` asks for. -/
structure HasChain (node : Node) (reader : Reader) (s e : ℤ) (blocks txs receipts : File) :
    Prop where
  blocks : (reader.blocks blocks).Perm ((numbers s e).map node.block)
  transactions : (reader.transactions txs).Perm ((numbers s e).flatMap node.transactions)
  receipts : ∃ hashes, Storage.extractTxHashes 100 (reader.transactions txs) = some hashes ∧
    (reader.receipts receipts).Perm (hashes.map node.receipt)

/-! ### The calls, one after the other -/

section calls

variable {env : Env} {range : RangeData} {txFile : FileName} {w w' : Worker} {cs cs' : List Empty}

/-- What is uploaded is what the command has left on the disk. -/
theorem exportBlocks_ran {stats : BlocksStats}
    (h : exportBlocksAndTransactions env range w cs = ⟨.ok stats, w', cs'⟩) :
    stats.txFile = range.file .transactions ∧ ∃ left cs₁,
      runShell env (.exportBlocksAndTransactions range.startBlock range.endBlock
        (range.file .blocks) (range.file .transactions)) w cs = ⟨.ok (), left, cs₁⟩ ∧
      w'.bucket (range.path .blocks) = left.disk (range.file .blocks) ∧
      w'.bucket (range.path .transactions) = left.disk (range.file .transactions) := by
  obtain ⟨w₁, cs₁, hcatch, hcleanup⟩ := tryFinally_eq_ok.mp h
  have hbody := tryCatch_eq_ok.mp hcatch
  obtain ⟨_, left, cs₂, hshell, h₁⟩ := bind_eq_ok.mp hbody
  obtain ⟨_, _, _, hthere, h₂⟩ := bind_eq_ok.mp h₁
  obtain ⟨-, rfl, -⟩ := fileExists_eq_ok.mp hthere
  obtain ⟨_, _, _, hthere', h₃⟩ := bind_eq_ok.mp h₂
  obtain ⟨-, rfl, -⟩ := fileExists_eq_ok.mp hthere'
  obtain ⟨_, _, _, hcheck, h₄⟩ := bind_eq_ok.mp h₃
  obtain ⟨-, rfl, -⟩ := when_raise_eq_ok.mp hcheck
  obtain ⟨_, _, _, hread, h₅⟩ := bind_eq_ok.mp h₄
  obtain ⟨-, -, rfl, -⟩ := readFile_eq_ok.mp hread
  obtain ⟨_, _, _, hsum, h₆⟩ := bind_eq_ok.mp h₅
  obtain ⟨-, rfl, -⟩ := ofExcept_eq_ok.mp hsum
  obtain ⟨_, _, _, hstat, h₇⟩ := bind_eq_ok.mp h₆
  obtain ⟨-, -, rfl, -⟩ := statSize_eq_ok.mp hstat
  obtain ⟨_, _, _, hstat', h₈⟩ := bind_eq_ok.mp h₇
  obtain ⟨-, -, rfl, -⟩ := statSize_eq_ok.mp hstat'
  obtain ⟨_, _, _, hupload, h₉⟩ := bind_eq_ok.mp h₈
  obtain ⟨blocks, hblocks, -, rfl, -⟩ := uploadToGcs_eq_ok.mp hupload
  obtain ⟨_, _, _, hupload', hpure⟩ := bind_eq_ok.mp h₉
  obtain ⟨txs, htxs, -, rfl, -⟩ := uploadToGcs_eq_ok.mp hupload'
  obtain ⟨rfl, rfl, -⟩ := pure_eq_ok.mp hpure
  refine ⟨rfl, _, _, hshell, ?_, ?_⟩
  · rw [bucket_cleanup hcleanup, Worker.bucket_store_of_ne _ (by simp), Worker.bucket_store,
      hblocks]
  · rw [bucket_cleanup hcleanup, Worker.bucket_store]
    exact htxs.symm

/-- Either there is nothing to fetch, or the command has fetched the receipts of the hashes
that are on the disk. -/
theorem exportReceipts_ran {stats : ReceiptsStats}
    (h : exportReceiptsAndLogs env txFile range w cs = ⟨.ok stats, w', cs'⟩) :
    ∃ txs hashes, w.disk txFile = some txs ∧ collectHashes weiThreshold txs.lines = .ok hashes ∧
      ((hashes = [] ∧ w'.bucket (range.path .receipts) =
          some (((w.write txFile.whaleHashes (some (.ofTexts hashes))).disk
            (range.file .receipts)).getD .empty)) ∨
        ∃ before left cs₁, before.disk txFile.whaleHashes = some (.ofTexts hashes) ∧
          runShell env (.exportReceiptsAndLogs txFile.whaleHashes (range.file .receipts)) before cs
            = ⟨.ok (), left, cs₁⟩ ∧
          w'.bucket (range.path .receipts) = left.disk (range.file .receipts)) := by
  obtain ⟨_, w₁, cs₁, hset, hrest⟩ := bind_eq_ok.mp h
  cases hset
  obtain ⟨w₂, cs₂, hbody, hdelete⟩ := tryFinally_eq_ok.mp hrest
  obtain ⟨found, w₃, cs₃, hextract, h₁⟩ := bind_eq_ok.mp hbody
  obtain ⟨txs, hashes, htxs, -, hhashes, -, rfl, rfl, rfl⟩ := extractTxHashes_eq_ok.mp hextract
  obtain ⟨_, w₄, cs₄, hset, h₂⟩ := bind_eq_ok.mp h₁
  cases hset
  obtain ⟨counts, w₅, cs₅, hfind, h₃⟩ := bind_eq_ok.mp h₂
  obtain ⟨_, w₆, cs₆, hupload, hpure⟩ := bind_eq_ok.mp h₃
  obtain ⟨receipts, hreceipts, -, rfl, -⟩ := uploadToGcs_eq_ok.mp hupload
  obtain ⟨rfl, rfl, -⟩ := pure_eq_ok.mp hpure
  have hbucket : w'.bucket (range.path .receipts) = w₅.disk (range.file .receipts) := by
    rw [bucket_deleteFiles hdelete, Worker.bucket_store, hreceipts]
  refine ⟨txs, hashes, htxs, hhashes, ?_⟩
  unfold findReceipts at hfind
  split at hfind
  · next hzero =>
    obtain ⟨-, -, rfl, -⟩ := noReceipts_eq_ok.mp hfind
    exact .inl ⟨List.length_eq_zero_iff.mp hzero, hbucket.trans (Worker.disk_write _)⟩
  · obtain ⟨hshell, -⟩ := fetchReceipts_eq_ok.mp hfind
    refine .inr ⟨_, w₅, cs₅, ?_, hshell, hbucket⟩
    exact Worker.disk_write _

theorem transfers_ran {stats : TransfersStats}
    (h : extractTokenTransfers range env w cs = ⟨.ok stats, w', cs'⟩) :
    ∃ left cs₁, runShell env (.exportTokenTransfers range.startBlock range.endBlock
        (range.file .tokenTransfers)) w cs = ⟨.ok (), left, cs₁⟩ ∧
      w'.bucket (range.path .tokenTransfers) = left.disk (range.file .tokenTransfers) := by
  have hbody := tryCatch_eq_ok.mp h
  obtain ⟨_, left, cs₁, hshell, h₁⟩ := bind_eq_ok.mp hbody
  obtain ⟨_, _, _, hthere, h₂⟩ := bind_eq_ok.mp h₁
  obtain ⟨-, rfl, -⟩ := fileExists_eq_ok.mp hthere
  obtain ⟨_, _, _, hcheck, h₃⟩ := bind_eq_ok.mp h₂
  obtain ⟨-, rfl, -⟩ := when_raise_eq_ok.mp hcheck
  obtain ⟨_, _, _, hupload, h₄⟩ := bind_eq_ok.mp h₃
  obtain ⟨transfers, htransfers, -, rfl, -⟩ := uploadToGcs_eq_ok.mp hupload
  obtain ⟨_, _, _, hstat, hpure⟩ := bind_eq_ok.mp h₄
  obtain ⟨-, -, rfl, -⟩ := statSize_eq_ok.mp hstat
  obtain ⟨-, rfl, -⟩ := pure_eq_ok.mp hpure
  exact ⟨_, _, hshell, (Worker.bucket_store _).trans htransfers.symm⟩

end calls

/-! ### The disk after a command -/

theorem disk_writeOutput {w : Worker} {written : FileName → Option File} {file : FileName}
    {content : File} (h : written file = some content) :
    (w.writeOutput written file).disk file = some content := by
  rw [Worker.writeOutput, h]
  exact Worker.disk_write _

theorem disk_writeOutput_of_ne {w : Worker} {written : FileName → Option File}
    {file other : FileName} (h : other ≠ file) :
    (w.writeOutput written file).disk other = w.disk other := by
  unfold Worker.writeOutput
  cases written file with
  | none => rfl
  | some content => exact w.disk_write_of_ne h

/-! ### What is uploaded -/

section faithful

variable {node : Node} {reader : Reader} {env : Env} {range : RangeData} {w w' : Worker}
  {cs cs' : List Empty}

theorem extractTxHashes_of_collect {rows : List BronzeTransaction} {hashes : List String}
    (h : collectHashes weiThreshold (rows.map lineOf) = .ok hashes) :
    Storage.extractTxHashes 100 rows = some hashes := by
  rw [collectHashes_lineOf] at h
  cases hfound : Storage.extractTxHashes 100 rows with
  | none =>
    rw [hfound] at h
    cases h
  | some found =>
    rw [hfound] at h
    exact congrArg some (Except.ok.inj h)

/-- **The extraction of a range**, on a disk without receipts. -/
theorem extract_faithful (hfaithful : Faithful node reader env) {stats : ExtractStats}
    (hfresh : w.disk (range.file .receipts) = none)
    (h : extractBlocksTxAndReceipts range env w cs = ⟨.ok stats, w', cs'⟩)
    {blocks txs receipts : File} (hblocks : w'.bucket (range.path .blocks) = some blocks)
    (htxs : w'.bucket (range.path .transactions) = some txs)
    (hreceipts : w'.bucket (range.path .receipts) = some receipts) :
    HasChain node reader range.startBlock range.endBlock blocks txs receipts := by
  obtain ⟨blocksStats, w₁, cs₁, hblocksRun, h₁⟩ := bind_eq_ok.mp h
  obtain ⟨receiptsStats, w₂, cs₂, hreceiptsRun, hpure⟩ := bind_eq_ok.mp h₁
  obtain ⟨rfl, rfl, rfl⟩ := pure_eq_ok.mp hpure
  rw [bucket_exportReceipts hreceiptsRun (by simp)] at hblocks htxs
  -- the first command
  obtain ⟨htxFile, left, cs₃, hshell, hblocks', htxs'⟩ := exportBlocks_ran hblocksRun
  obtain ⟨-, -, stored, -, hstored, hdisk, -⟩ := exportBlocks_ok hblocksRun
  obtain ⟨hzero, rfl, -⟩ := runShell_eq_ok.mp hshell
  obtain ⟨file, file', hwritten, hwritten', hrows, hrows', hlines⟩ :=
    hfaithful.blocks _ _ _ _ _ (by simp) hzero
  obtain rfl : file = blocks := by
    refine Option.some.inj (Eq.trans ?_ (hblocks'.symm.trans hblocks))
    exact ((disk_writeOutput_of_ne (by simp)).trans (disk_writeOutput hwritten)).symm
  obtain rfl : file' = txs := by
    refine Option.some.inj (Eq.trans ?_ (htxs'.symm.trans htxs))
    exact (disk_writeOutput hwritten').symm
  obtain rfl : stored = file' := Option.some.inj (hstored.symm.trans htxs)
  -- the second one
  have hfresh' : w₁.disk (range.file .receipts) = none := by
    have hkeeps : Keeps (fun w : Worker => w.disk (range.file .receipts) = none)
        (exportBlocksAndTransactions env range) fun _ => False :=
      keeps_exportBlocks (writesKeep_disk (by simp) _)
    exact hkeeps.of_ok hfresh hblocksRun
  rw [htxFile] at hreceiptsRun
  obtain ⟨read, hashes, hread, hcollect, hfound⟩ := exportReceipts_ran hreceiptsRun
  obtain rfl : stored = read := Option.some.inj (hdisk.symm.trans hread)
  rw [hlines] at hcollect
  refine ⟨hrows, hrows', hashes, extractTxHashes_of_collect hcollect, ?_⟩
  rcases hfound with ⟨rfl, hnone⟩ | ⟨before, after, cs₄, hhashes, hshell', hafter⟩
  · rw [Worker.disk_write_of_ne _ (by simp), hfresh'] at hnone
    obtain rfl := Option.some.inj (hnone.symm.trans hreceipts)
    rw [Option.getD_none, reader.receipts_empty, List.map_nil]
  · obtain ⟨hzero', rfl, -⟩ := runShell_eq_ok.mp hshell'
    obtain ⟨fetched, hfetched, hrows''⟩ := hfaithful.receipts _ _ _ hashes hhashes hzero'
    obtain rfl : fetched = receipts := by
      refine Option.some.inj (Eq.trans ?_ (hafter.symm.trans hreceipts))
      exact (disk_writeOutput hfetched).symm
    exact hrows''

theorem transfers_faithful (hfaithful : Faithful node reader env) {stats : TransfersStats}
    (h : extractTokenTransfers range env w cs = ⟨.ok stats, w', cs'⟩) {transfers : File}
    (htransfers : w'.bucket (range.path .tokenTransfers) = some transfers) :
    (reader.tokenTransfers transfers).Perm
      ((numbers range.startBlock range.endBlock).flatMap node.transfers) := by
  obtain ⟨left, cs₁, hshell, hbucket⟩ := transfers_ran h
  obtain ⟨hzero, rfl, -⟩ := runShell_eq_ok.mp hshell
  obtain ⟨file, hwritten, hrows⟩ := hfaithful.transfers _ _ _ _ hzero
  obtain rfl : file = transfers := by
    refine Option.some.inj (Eq.trans ?_ (hbucket.symm.trans htransfers))
    exact (disk_writeOutput hwritten).symm
  exact hrows

end faithful

end Storage.Etl

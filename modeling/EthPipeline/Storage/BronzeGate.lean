import EthPipeline.Storage.TempFiles
import EthPipeline.Silver.WhaleSelection

/-!
# The gate of the Bronze layer

What `quality_check_task` says about the files that an extraction has uploaded.

* `collectHashes_lineOf`: the hashes are those that the Bronze tables select.
* `gate_sound_iff`: what has to hold of the files for the gate to be right.
* `truncated_passes`: a transactions file that was cut off.
-/

namespace Storage.Etl

open Exec

/-- The line of a transaction. -/
def lineOf (t : Silver.BronzeTransaction) : Line :=
  .json ⟨none, t.value.map fun wei => some (wei : ℤ), t.hash⟩

theorem valueOf_lineOf (t : Silver.BronzeTransaction) :
    valueOf ⟨none, t.value.map fun wei => some (wei : ℤ), t.hash⟩ = .ok (t.value.getD 0 : ℕ) := by
  cases hvalue : t.value with
  | none => rfl
  | some wei => rfl

/-- **The file and the table select the same hashes**. -/
theorem collectHashes_lineOf (rows : List Silver.BronzeTransaction) :
    collectHashes weiThreshold (rows.map lineOf) =
      (Storage.extractTxHashes 100 rows).elim (.error .keyError) .ok := by
  induction rows with
  | nil => rfl
  | cons t rows ih =>
    have hle : weiThreshold ≤ (t.value.getD 0 : ℕ) ↔ 100 * 10 ^ 18 ≤ t.value.getD 0 := by
      unfold weiThreshold
      omega
    have hstep : collectHashes weiThreshold ((t :: rows).map lineOf) =
        if 100 * 10 ^ 18 ≤ t.value.getD 0 then
          t.hash.elim (.error .keyError) fun hash =>
            (collectHashes weiThreshold (rows.map lineOf)).map (hash :: ·)
        else collectHashes weiThreshold (rows.map lineOf) := by
      rw [List.map_cons, lineOf, collectHashes_json, valueOf_lineOf]
      exact if_congr hle rfl rfl
    rw [hstep, ih]
    unfold Storage.extractTxHashes
    by_cases hwhale : 100 * 10 ^ 18 ≤ t.value.getD 0
    · rw [if_pos hwhale, List.filter_cons_of_pos (by simpa using hwhale), List.mapM_cons]
      cases t.hash with
      | none => rfl
      | some hash =>
        generalize List.mapM (·.hash) (rows.filter fun t => 100 * 10 ^ 18 ≤ t.value.getD 0) = found
        cases found <;> rfl
    · rw [if_neg hwhale, List.filter_cons_of_neg (by simpa using hwhale)]

/-- As many rows as the blocks have transactions, and a receipt for each transaction of
at least 100 ETH. -/
structure Consistent (blocks txs receipts : File) : Prop where
  rows : totalTxInBlocks blocks.lines = .ok txs.rows
  receipts : receipts.rows = (whaleRows txs.lines).length

/-- What the gate looks for: an empty file, or a count of receipts that is off. -/
def GateSees (blocks txs receipts : File) (transferFileSize : ℕ) : Prop :=
  txs.size = 0 ∨ blocks.size = 0 ∨ transferFileSize = 0 ∨
    whaleRows txs.lines ≠ [] ∧ receipts.rows ≠ (whaleRows txs.lines).length

section gate

variable {env : Env} {range : RangeData} {w w' : Worker} {cs cs' : List Empty}

/-- The receipts function uploads to its own place. -/
theorem bucket_exportReceipts {txFile : FileName} {stats : ReceiptsStats} {path : GcsPath}
    (h : exportReceiptsAndLogs env txFile range w cs = ⟨.ok stats, w', cs'⟩)
    (hpath : path ≠ range.path .receipts) : w'.bucket path = w.bucket path := by
  obtain ⟨_, w₁, cs₁, hset, hrest⟩ := bind_eq_ok.mp h
  cases hset
  obtain ⟨w₂, cs₂, hbody, hdelete⟩ := tryFinally_eq_ok.mp hrest
  have hkeeps : Keeps (fun s => s.bucket path = w.bucket path) (extractReceipts env txFile range)
      (fun _ => False) :=
    keeps_extractReceipts (writesKeep_bucket (by simpa using hpath) _)
  rw [bucket_deleteFiles hdelete]
  refine hkeeps.of_ok ?_ hbody
  rfl

/-- **An extraction**: what it reports of the files that are in the bucket. -/
theorem extract_ok {stats : ExtractStats}
    (h : extractBlocksTxAndReceipts range env w cs = ⟨.ok stats, w', cs'⟩) :
    ∃ blocksStats receiptsStats, stats = ⟨some blocksStats, some receiptsStats⟩ ∧
      ∃ blocks txs receipts : File, w'.bucket (range.path .blocks) = some blocks ∧
        w'.bucket (range.path .transactions) = some txs ∧
        w'.bucket (range.path .receipts) = some receipts ∧
        totalTxInBlocks blocks.lines = .ok blocksStats.totalTxInBlocks ∧
        blocksStats.txFileSize = txs.size ∧ blocksStats.blockFileSize = blocks.size ∧
        receiptsStats.whaleCount = (whaleRows txs.lines).length ∧
        receiptsStats.receiptCount = if whaleRows txs.lines = [] then 0 else receipts.rows := by
  obtain ⟨blocksStats, w₁, cs₁, hblocksRun, h₁⟩ := bind_eq_ok.mp h
  obtain ⟨receiptsStats, w₂, cs₂, hreceiptsRun, hpure⟩ := bind_eq_ok.mp h₁
  obtain ⟨rfl, rfl, rfl⟩ := pure_eq_ok.mp hpure
  obtain ⟨htxFile, blocks, txs, hblocks, htxs, hdisk, htotal, htxSize, hblockSize⟩ :=
    exportBlocks_ok hblocksRun
  obtain ⟨txs', hashes, receipts, hdisk', hhashes, hreceipts, hwhales, hcount⟩ :=
    exportReceipts_ok hreceiptsRun
  rw [htxFile] at hdisk'
  obtain rfl : txs = txs' := Option.some.inj (hdisk.symm.trans hdisk')
  have hrows := collectHashes_eq_ok hhashes
  have hlength : (whaleRows txs.lines).length = hashes.length := by
    simpa using congrArg List.length hrows
  have hnil : whaleRows txs.lines = [] ↔ hashes = [] := by
    rw [← List.length_eq_zero_iff, hlength, List.length_eq_zero_iff]
  refine ⟨blocksStats, receiptsStats, rfl, blocks, txs, receipts, ?_, ?_, hreceipts, htotal,
    htxSize, hblockSize, hwhales.trans hlength.symm, ?_⟩
  · rw [bucket_exportReceipts hreceiptsRun (by simp), hblocks]
  · rw [bucket_exportReceipts hreceiptsRun (by simp), htxs]
  · rw [hcount]
    exact if_congr hnil.symm rfl rfl

/-- **The Bronze gate.**  That it passes means consistent files exactly when it sees
something, or when the transactions are complete and no old receipts were uploaded
without whales: it does not compare the transactions with the blocks. -/
theorem gate_sound_iff (range : RangeData) (env : Env) (w w' : Worker) (cs' : List Empty)
    (stats : ExtractStats) (transfers : TransfersStats) (blocks txs receipts : File)
    (hrun : extractBlocksTxAndReceipts range env w [] = ⟨.ok stats, w', cs'⟩)
    (hblocks : w'.bucket (range.path .blocks) = some blocks)
    (htxs : w'.bucket (range.path .transactions) = some txs)
    (hreceipts : w'.bucket (range.path .receipts) = some receipts) :
    (qualityCheck (some range) (some stats) (some transfers) = .ok true →
        Consistent blocks txs receipts) ↔
      GateSees blocks txs receipts transfers.transferFileSize ∨
        totalTxInBlocks blocks.lines = .ok txs.rows ∧
          (whaleRows txs.lines = [] → receipts.rows = 0) := by
  obtain ⟨blocksStats, receiptsStats, rfl, blocks', txs', receipts', hblocks', htxs', hreceipts',
    htotal, htxSize, hblockSize, hwhales, hcount⟩ := extract_ok hrun
  obtain rfl : blocks = blocks' := Option.some.inj (hblocks.symm.trans hblocks')
  obtain rfl : txs = txs' := Option.some.inj (htxs.symm.trans htxs')
  obtain rfl : receipts = receipts' := Option.some.inj (hreceipts.symm.trans hreceipts')
  rw [qualityCheck_eq_ok_iff, hwhales, hcount, htxSize, hblockSize]
  constructor
  · intro hsound
    by_cases hsees : GateSees blocks txs receipts transfers.transferFileSize
    · exact .inl hsees
    · unfold GateSees at hsees
      simp only [not_or, not_and, not_not] at hsees
      obtain ⟨htx, hblock, htransfer, hreceiptRows⟩ := hsees
      have hcounts : (whaleRows txs.lines).length =
          if whaleRows txs.lines = [] then 0 else receipts.rows := by
        split
        · next hnil => rw [hnil, List.length_nil]
        · next hwhale => exact (hreceiptRows hwhale).symm
      obtain ⟨hrows, hsame⟩ := hsound ⟨hcounts, htx, hblock, htransfer⟩
      exact .inr ⟨hrows, fun hnil => by rw [hsame, hnil, List.length_nil]⟩
  · rintro (hsees | ⟨hrows, hold⟩) ⟨hcounts, htx, hblock, htransfer⟩
    · rcases hsees with h | h | h | ⟨hwhale, hne⟩
      · exact absurd h htx
      · exact absurd h hblock
      · exact absurd h htransfer
      · rw [if_neg hwhale] at hcounts
        exact absurd hcounts.symm hne
    · refine ⟨hrows, ?_⟩
      by_cases hnil : whaleRows txs.lines = []
      · rw [hold hnil, hnil, List.length_nil]
      · rw [hcounts, if_neg hnil]

end gate

/-! ### A complete file, and one that was cut off -/

/-- An attempt in which nothing fails, with the files that the commands leave. -/
def leavingEnv (blocks txs receipts : File) : Env :=
  { quietEnv with
    shell := fun command _ =>
      ⟨fun file => match command, file.kind with
        | .exportBlocksAndTransactions .., .blocks => some blocks
        | .exportBlocksAndTransactions .., _ => some txs
        | _, _ => some receipts, true⟩ }

/-- A block with `n` transactions. -/
def blockFile (n : ℤ) : File := ⟨[.json ⟨some n, none, none⟩], 500⟩

/-- One transaction, of 150 ETH. -/
def txFile : File := ⟨[.json ⟨none, some (some (150 * 10 ^ 18)), some "0x1"⟩], 120⟩

def receiptFile : File := ⟨[.text "0x1"], 80⟩

/-- What is reported of a block with `n` transactions. -/
def reported (n : ℤ) : ExtractStats :=
  ⟨some ⟨oneRange.file .transactions, n, 120, 500, 1, 20⟩, some ⟨1, 1, 80⟩⟩

def reportedTransfers : TransfersStats := ⟨oneRange.file .tokenTransfers, 10⟩

theorem complete_sound :
    qualityCheck (some oneRange) (some (reported 1)) (some reportedTransfers) = .ok true ∧
      Consistent (blockFile 1) txFile receiptFile :=
  ⟨rfl, (gate_sound_iff oneRange (leavingEnv (blockFile 1) txFile receiptFile) freshWorker _ [] _
    reportedTransfers _ _ _ rfl rfl rfl rfl).mpr
      (.inr ⟨rfl, fun h => absurd h (by decide)⟩) rfl⟩

/-- **A transactions file that was cut off after a row** passes: the blocks have two
transactions, the file has one. -/
theorem truncated_passes :
    ∃ w', extractBlocksTxAndReceipts oneRange (leavingEnv (blockFile 2) txFile receiptFile)
        freshWorker [] = ⟨.ok (reported 2), w', []⟩ ∧
      w'.bucket (oneRange.path .blocks) = some (blockFile 2) ∧
      w'.bucket (oneRange.path .transactions) = some txFile ∧
      w'.bucket (oneRange.path .receipts) = some receiptFile ∧
      qualityCheck (some oneRange) (some (reported 2)) (some reportedTransfers) = .ok true ∧
      ¬ Consistent (blockFile 2) txFile receiptFile := by
  refine ⟨_, rfl, rfl, rfl, rfl, rfl, fun h => ?_⟩
  have hrows : (Except.ok 2 : Except EtlError ℤ) = .ok 1 := h.rows
  cases hrows

end Storage.Etl

import EthPipeline.Storage.Worker

/-!
# The extraction of a date

`export_blocks_and_transactions`, `export_receipts_and_logs` and `export_token_transfers`
of `src/storage/etl`, and the extraction tasks and the gate of `dags/eth_etl_dag_gke.py`.
Handlers that only write to the log are left out.

* `collectHashes_eq_ok`: the hashes are those of the transactions from the threshold on.
* `keeps_exportBlocks`, `keeps_exportReceipts`, `keeps_exportTransfers`: a function keeps
  what writes to its own files keep.
* `qualityCheck_eq_ok_iff`: what the gate compares.
-/

namespace Storage.Etl

open Exec

/-! ### Blocks and transactions -/

/-- What `calculate_block_range` returns. -/
structure RangeData where
  startBlock : ℤ
  endBlock : ℤ
  dateStr : String
  deriving DecidableEq, Repr

def RangeData.file (range : RangeData) (kind : Kind) : FileName :=
  ⟨kind, range.startBlock, range.endBlock, .json⟩

/-- Where a file is uploaded. -/
def RangeData.path (range : RangeData) (kind : Kind) : GcsPath :=
  ⟨kind, range.dateStr, range.file kind⟩

/-- The file that the hashes of its whales are written to. -/
abbrev RangeData.hashFile (range : RangeData) : FileName :=
  (range.file .transactions).whaleHashes

def loads : Line → Except EtlError Row
  | .json row => .ok row
  | _ => .error .valueError

/-- The sum of `transaction_count` over the rows. -/
def totalTxInBlocks : List Line → Except EtlError ℤ
  | [] => .ok 0
  | .blank :: lines => totalTxInBlocks lines
  | line :: lines => do
    let row ← loads line
    let total ← totalTxInBlocks lines
    return row.transactionCount.getD 0 + total

structure BlocksStats where
  txFile : FileName
  totalTxInBlocks : ℤ
  txFileSize : ℕ
  blockFileSize : ℕ
  startBlock : ℤ
  endBlock : ℤ
  deriving DecidableEq, Repr

section blocks

variable (env : Env) (range : RangeData)

/-- The `try` block of `export_blocks_and_transactions`. -/
def extractBlocks : Etl BlocksStats := do
  let blockFile := range.file .blocks
  let txFile := range.file .transactions
  runShell env (.exportBlocksAndTransactions range.startBlock range.endBlock blockFile txFile)
  let blocksThere ← fileExists blockFile
  let txsThere ← fileExists txFile
  when (¬ blocksThere ∨ ¬ txsThere) (raise .fileNotFoundError)
  let blocks ← readFile env blockFile
  let total ← ofExcept (totalTxInBlocks blocks.lines)
  let txFileSize ← statSize env txFile
  let blockFileSize ← statSize env blockFile
  uploadToGcs env blockFile (range.path .blocks)
  uploadToGcs env txFile (range.path .transactions)
  return ⟨txFile, total, txFileSize, blockFileSize, range.startBlock, range.endBlock⟩

/-- `export_blocks_and_transactions`. -/
def exportBlocksAndTransactions : Etl BlocksStats :=
  tryFinally
    (tryCatch (extractBlocks env range) fun e => do
      cleanup env (range.file .transactions)
      raise e)
    (cleanup env (range.file .blocks))

end blocks

/-! ### Receipts -/

/-- `int(tx_data.get("value", "0"))`. -/
def valueOf (row : Row) : Except EtlError ℤ :=
  match row.value with
  | none => .ok 0
  | some none => .error .valueError
  | some (some value) => .ok value

/-- The hashes of the rows from the threshold on. -/
def collectHashes (weiThreshold : ℤ) : List Line → Except EtlError (List String)
  | [] => .ok []
  | .blank :: lines => collectHashes weiThreshold lines
  | line :: lines => do
    let row ← loads line
    let value ← valueOf row
    if weiThreshold ≤ value then
      match row.hash with
      | none => throw .keyError
      | some hash => do
        let hashes ← collectHashes weiThreshold lines
        return hash :: hashes
    else collectHashes weiThreshold lines

/-- 100 ETH, in wei. -/
def weiThreshold : ℤ := 100 * 10 ^ 18

structure ReceiptsStats where
  whaleCount : ℕ
  receiptCount : ℕ
  receiptFileSize : ℕ
  deriving DecidableEq, Repr

section receipts

variable (env : Env) (txFile : FileName) (range : RangeData)

/-- `_extract_tx_hashes`. -/
def extractTxHashes : Etl (FileName × ℕ) := do
  let hashFile := txFile.whaleHashes
  let txs ← readFile env txFile
  let hashes ← ofExcept (collectHashes weiThreshold txs.lines)
  writeFile env hashFile (.ofTexts hashes)
  return (hashFile, hashes.length)

/-- `hash_file = ...`. -/
def setHashFile (hashFile : Option FileName) : Etl Unit :=
  modifyState fun w => { w with hashFile := hashFile }

/-- The receipts of some hashes: how many there are, and the size of their file. -/
def fetchReceipts (hashFile : FileName) : Etl (ℕ × ℕ) := do
  let receiptFile := range.file .receipts
  runShell env (.exportReceiptsAndLogs hashFile receiptFile)
  let there ← fileExists receiptFile
  when (¬ there) (raise .fileNotFoundError)
  let receipts ← readFile env receiptFile
  let receiptFileSize ← statSize env receiptFile
  return (receipts.rows, receiptFileSize)

/-- Without whales there is nothing to fetch. -/
def noReceipts : Etl (ℕ × ℕ) := do
  touch env (range.file .receipts)
  return (0, 0)

def findReceipts (hashFile : FileName) (whaleCount : ℕ) : Etl (ℕ × ℕ) :=
  if whaleCount = 0 then noReceipts env range else fetchReceipts env range hashFile

/-- The `try` block of `export_receipts_and_logs`. -/
def extractReceipts : Etl ReceiptsStats := do
  let (hashFile, whaleCount) ← extractTxHashes env txFile
  setHashFile (some hashFile)
  let (receiptCount, receiptFileSize) ← findReceipts env range hashFile whaleCount
  uploadToGcs env (range.file .receipts) (range.path .receipts)
  return ⟨whaleCount, receiptCount, receiptFileSize⟩

/-- `if f_path: _cleanup(f_path)`. -/
def cleanupPath : Option FileName → Etl Unit
  | some file => cleanup env file
  | none => pure ()

/-- The `finally` block. -/
def deleteFiles : Etl Unit := do
  let w ← getState
  forEach [some txFile, w.hashFile, some (range.file .receipts)] (cleanupPath env)

/-- `export_receipts_and_logs`. -/
def exportReceiptsAndLogs : Etl ReceiptsStats := do
  setHashFile none
  tryFinally (extractReceipts env txFile range) (deleteFiles env txFile range)

end receipts

/-! ### Token transfers -/

structure TransfersStats where
  transferFile : FileName
  transferFileSize : ℕ
  deriving DecidableEq, Repr

section transfers

variable (env : Env) (range : RangeData)

/-- The `try` block of `export_token_transfers`. -/
def extractTransfers : Etl TransfersStats := do
  let transferFile := range.file .tokenTransfers
  runShell env (.exportTokenTransfers range.startBlock range.endBlock transferFile)
  let there ← fileExists transferFile
  when (¬ there) (raise .fileNotFoundError)
  uploadToGcs env transferFile (range.path .tokenTransfers)
  let transferFileSize ← statSize env transferFile
  return ⟨transferFile, transferFileSize⟩

/-- `export_token_transfers`. -/
def exportTokenTransfers : Etl TransfersStats :=
  tryCatch (extractTransfers env range) fun e => do
    cleanup env (range.file .tokenTransfers)
    raise e

end transfers

/-! ### The tasks -/

structure ExtractStats where
  blocksStats : Option BlocksStats
  receiptsStats : Option ReceiptsStats
  deriving DecidableEq, Repr

/-- `extract_blocks_tx_and_receipts_task`. -/
def extractBlocksTxAndReceipts (range : RangeData) (env : Env) : Etl ExtractStats := do
  let blocksStats ← exportBlocksAndTransactions env range
  let receiptsStats ← exportReceiptsAndLogs env blocksStats.txFile range
  return ⟨some blocksStats, some receiptsStats⟩

/-- `extract_token_transfers_task`. -/
def extractTokenTransfers (range : RangeData) (env : Env) : Etl TransfersStats :=
  exportTokenTransfers env range

/-- The attempts of a task: the first, and a retry after each that fails, as long as
there are any. -/
def withRetries {α : Type} (task : Env → Etl α) (env : Env) : List Env → Etl α
  | [] => task env
  | retry :: retries => tryCatch (task env) fun _ => withRetries task retry retries

/-- The two extraction tasks of the DAG, the second after the first has succeeded. -/
def extractionRun (range : RangeData) (first : Env) (retries : List Env) (first' : Env)
    (retries' : List Env) : Etl (ExtractStats × TransfersStats) := do
  let extractStats ← withRetries (extractBlocksTxAndReceipts range) first retries
  let transfersStats ← withRetries (extractTokenTransfers range) first' retries'
  return (extractStats, transfersStats)

/-! ### The gate -/

/-- The message of an `AirflowFailException`. -/
abbrev FailMessage := String

def zeroByteFiles (blocksStats : BlocksStats) (transfersStats : Option TransfersStats) :
    List String :=
  (if blocksStats.txFileSize = 0 then ["transactions"] else []) ++
    (if blocksStats.blockFileSize = 0 then ["blocks"] else []) ++
      if transfersStats.map (·.transferFileSize) = some 0 then ["token_transfers"] else []

def issues (blocksStats : BlocksStats) (receiptsStats : ReceiptsStats)
    (transfersStats : Option TransfersStats) : List String :=
  let zeroByte := zeroByteFiles blocksStats transfersStats
  (if receiptsStats.whaleCount ≠ receiptsStats.receiptCount then
    ["Consistency Mismatch: Whale Hashes (" ++ toString receiptsStats.whaleCount ++
      ") != Receipts Count (" ++ toString receiptsStats.receiptCount ++ ")"] else []) ++
    if zeroByte ≠ [] then ["Zero-byte Files Detected: " ++ String.intercalate ", " zeroByte] else []

/-- `quality_check_task`. -/
def qualityCheck (rangeData : Option RangeData) (extractStats : Option ExtractStats)
    (transfersStats : Option TransfersStats) : Except FailMessage Bool := do
  let some range := rangeData | throw "❌ Quality Check Failed: 'range_data' is None."
  let some stats := extractStats | throw "❌ Quality Check Failed: 'extract_stats' is None."
  let some blocksStats := stats.blocksStats
    | throw "❌ Quality Check Failed: 'blocks_stats' XCom을 찾을 수 없습니다."
  let some receiptsStats := stats.receiptsStats
    | throw "❌ Quality Check Failed: 'receipts_stats' XCom을 찾을 수 없습니다."
  let found := issues blocksStats receiptsStats transfersStats
  if found ≠ [] then
    throw ("⚠️ Quality Check Failed (" ++ range.dateStr ++ "): " ++ String.intercalate " | " found)
  return true

/-! ### The hashes -/

/-- A row from the threshold on. -/
def isWhale (row : Row) : Bool :=
  match valueOf row with
  | .ok value => weiThreshold ≤ value
  | .error _ => false

def rowOf : Line → Option Row
  | .json row => some row
  | _ => none

/-- The transactions of at least 100 ETH. -/
def whaleRows (lines : List Line) : List Row := (lines.filterMap rowOf).filter isWhale

theorem collectHashes_json (row : Row) (lines : List Line) :
    collectHashes weiThreshold (.json row :: lines) = (valueOf row).bind fun value =>
      if weiThreshold ≤ value then
        row.hash.elim (.error .keyError) fun hash =>
          (collectHashes weiThreshold lines).map (hash :: ·)
      else collectHashes weiThreshold lines := by
  show (valueOf row).bind _ = (valueOf row).bind _
  congr
  funext value
  cases row.hash with
  | none => rfl
  | some hash =>
    split
    · show (collectHashes weiThreshold lines >>= fun hashes => pure (hash :: hashes)) =
        (collectHashes weiThreshold lines).map (hash :: ·)
      cases collectHashes weiThreshold lines <;> rfl
    · rfl

/-- **The hashes are those of the transactions from the threshold on**. -/
theorem collectHashes_eq_ok {lines : List Line} {hashes : List String}
    (h : collectHashes weiThreshold lines = .ok hashes) :
    (whaleRows lines).map (·.hash) = hashes.map some := by
  induction lines generalizing hashes with
  | nil =>
    cases h
    rfl
  | cons line lines ih =>
    cases line with
    | blank => exact ih h
    | text s => cases h
    | json row =>
      rw [collectHashes_json] at h
      show (List.filter isWhale (row :: lines.filterMap rowOf)).map (·.hash) = _
      cases hvalue : valueOf row with
      | error e =>
        rw [hvalue] at h
        cases h
      | ok value =>
        rw [hvalue] at h
        replace h : (if weiThreshold ≤ value then _ else _) = Except.ok hashes := h
        have hwhale : isWhale row = decide (weiThreshold ≤ value) := by rw [isWhale, hvalue]
        by_cases hle : weiThreshold ≤ value
        · rw [if_pos hle] at h
          rw [List.filter_cons_of_pos (by simpa [hwhale] using hle), List.map_cons]
          cases hhash : row.hash with
          | none =>
            rw [hhash] at h
            cases h
          | some hash =>
            rw [hhash] at h
            cases hrest : collectHashes weiThreshold lines with
            | error e =>
              rw [hrest] at h
              cases h
            | ok rest =>
              rw [hrest] at h
              cases h
              exact congrArg (some hash :: ·) (ih hrest)
        · rw [if_neg hle] at h
          rw [List.filter_cons_of_neg (by simpa [hwhale] using hle)]
          exact ih h

/-! ### Files -/

@[simp] theorem file_inj (range : RangeData) {kind kind' : Kind} :
    range.file kind = range.file kind' ↔ kind = kind' := by
  simp [RangeData.file]

@[simp] theorem path_inj (range : RangeData) {kind kind' : Kind} :
    range.path kind = range.path kind' ↔ kind = kind' := by
  simp [RangeData.path]

@[simp] theorem file_ne_whaleHashes (range : RangeData) (kind kind' : Kind) :
    range.file kind ≠ (range.file kind').whaleHashes := by
  simp [RangeData.file, FileName.whaleHashes]

@[simp] theorem whaleHashes_ne_file (range : RangeData) (kind kind' : Kind) :
    (range.file kind').whaleHashes ≠ range.file kind :=
  (file_ne_whaleHashes range kind kind').symm

/-- Writes to some files and to some places of the bucket keep `J`. -/
structure WritesKeep (J : Worker → Prop) (files : List FileName) (paths : List GcsPath) : Prop where
  write : ∀ file ∈ files, ∀ w content, J w → J (w.write file content)
  store : ∀ path ∈ paths, ∀ w content, J w → J (w.store path content)
  hashFile : ∀ w file, J w → J { w with hashFile := file }

/-- Other files stay as they are. -/
theorem writesKeep_disk {file : FileName} {content : Option File} {files : List FileName}
    (h : file ∉ files) (paths : List GcsPath) :
    WritesKeep (fun w => w.disk file = content) files paths where
  write := by
    intro written hwritten w stored hw
    have hne : file ≠ written := by
      rintro rfl
      exact h hwritten
    exact (w.disk_write_of_ne hne).trans hw
  store := fun _ _ _ _ hw => hw
  hashFile := fun _ _ hw => hw

/-- Other places of the bucket stay as they are. -/
theorem writesKeep_bucket {path : GcsPath} {content : Option File} {paths : List GcsPath}
    (h : path ∉ paths) (files : List FileName) :
    WritesKeep (fun w => w.bucket path = content) files paths where
  write := fun _ _ _ _ hw => hw
  store := by
    intro written hwritten w stored hw
    have hne : path ≠ written := by
      rintro rfl
      exact h hwritten
    exact (w.bucket_store_of_ne hne).trans hw
  hashFile := fun _ _ hw => hw

/-- Any writes keep what always holds. -/
theorem writesKeep_true (files : List FileName) (paths : List GcsPath) :
    WritesKeep (fun _ => True) files paths :=
  ⟨fun _ _ _ _ _ => trivial, fun _ _ _ _ _ => trivial, fun _ _ _ => trivial⟩

section keeps

variable {env : Env} {range : RangeData} {txFile : FileName} {J I : Worker → Prop}

theorem keeps_extractBlocks
    (h : WritesKeep J [range.file .blocks, range.file .transactions]
      [range.path .blocks, range.path .transactions]) : Keeps J (extractBlocks env range) I := by
  have hshell : Keeps J (runShell env (.exportBlocksAndTransactions range.startBlock
      range.endBlock (range.file .blocks) (range.file .transactions))) I := keeps_runShell h.write
  refine hshell.bind fun _ => keeps_fileExists.bind fun _ => keeps_fileExists.bind fun _ =>
    (Keeps.when (Keeps.raise _)).bind fun _ => keeps_readFile.bind fun _ =>
    (Keeps.ofExcept _).bind fun _ => keeps_statSize.bind fun _ => keeps_statSize.bind fun _ => ?_
  refine (keeps_uploadToGcs (h.store _ (by simp))).bind fun _ => ?_
  exact (keeps_uploadToGcs (h.store _ (by simp))).bind fun _ => Keeps.pure _

theorem keeps_exportBlocks
    (h : WritesKeep J [range.file .blocks, range.file .transactions]
      [range.path .blocks, range.path .transactions]) :
    Keeps J (exportBlocksAndTransactions env range) I := by
  refine Keeps.tryFinally (Keeps.tryCatch (keeps_extractBlocks h) fun e => ?_) ?_
  · exact (keeps_cleanup (h.write _ (by simp))).bind fun _ => Keeps.raise _
  · exact keeps_cleanup (h.write _ (by simp))

theorem keeps_findReceipts (h : ∀ w content, J w → J (w.write (range.file .receipts) content))
    (hashFile : FileName) (whaleCount : ℕ) :
    Keeps J (findReceipts env range hashFile whaleCount) I := by
  have hnone : Keeps J (noReceipts env range) I := (keeps_touch h).bind fun _ => Keeps.pure _
  have hshell : Keeps J (runShell env (.exportReceiptsAndLogs hashFile (range.file .receipts))) I :=
    keeps_runShell fun file hfile => List.mem_singleton.mp hfile ▸ h
  refine Keeps.ite hnone (hshell.bind fun _ => keeps_fileExists.bind fun _ => ?_)
  exact (Keeps.when (Keeps.raise _)).bind fun _ => keeps_readFile.bind fun _ =>
    keeps_statSize.bind fun _ => Keeps.pure _

theorem keeps_extractReceipts
    (h : WritesKeep J [txFile.whaleHashes, range.file .receipts] [range.path .receipts]) :
    Keeps J (extractReceipts env txFile range) I := by
  have hhashes : Keeps J (extractTxHashes env txFile) I :=
    keeps_readFile.bind fun _ => (Keeps.ofExcept _).bind fun _ =>
      (keeps_writeFile (h.write _ (by simp))).bind fun _ => Keeps.pure _
  refine hhashes.bind fun found => (Keeps.modifyState fun w => h.hashFile w _).bind fun _ => ?_
  refine (keeps_findReceipts (h.write _ (by simp)) _ _).bind fun _ => ?_
  exact (keeps_uploadToGcs (h.store _ (by simp))).bind fun _ => Keeps.pure _

theorem keeps_extractTransfers
    (h : WritesKeep J [range.file .tokenTransfers] [range.path .tokenTransfers]) :
    Keeps J (extractTransfers env range) I := by
  have hshell : Keeps J (runShell env (.exportTokenTransfers range.startBlock range.endBlock
      (range.file .tokenTransfers))) I := keeps_runShell h.write
  refine hshell.bind fun _ => keeps_fileExists.bind fun _ =>
    (Keeps.when (Keeps.raise _)).bind fun _ => ?_
  exact (keeps_uploadToGcs (h.store _ (by simp))).bind fun _ => keeps_statSize.bind fun _ =>
    Keeps.pure _

theorem keeps_exportTransfers
    (h : WritesKeep J [range.file .tokenTransfers] [range.path .tokenTransfers]) :
    Keeps J (exportTokenTransfers env range) I :=
  Keeps.tryCatch (keeps_extractTransfers h) fun _ =>
    (keeps_cleanup (h.write _ (by simp))).bind fun _ => Keeps.raise _

end keeps

/-! ### What a success has done -/

section succeed

variable {env : Env} {range : RangeData} {txFile : FileName} {w w' : Worker}
  {cs cs' : List Empty}

/-- Deleting local files leaves the bucket alone. -/
theorem bucket_cleanup {file : FileName} (h : cleanup env file w cs = ⟨.ok (), w', cs'⟩) :
    w'.bucket = w.bucket := by
  have hkeeps : Keeps (fun s : Worker => s.bucket = w.bucket) (cleanup env file) fun _ => False :=
    keeps_cleanup fun _ _ hs => hs
  exact hkeeps.of_ok rfl h

theorem bucket_deleteFiles (h : deleteFiles env txFile range w cs = ⟨.ok (), w', cs'⟩) :
    w'.bucket = w.bucket := by
  have hpath : ∀ path, Keeps (fun s : Worker => s.bucket = w.bucket) (cleanupPath env path)
      fun _ => False := by
    intro path
    cases path with
    | none => exact Keeps.pure ()
    | some file => exact keeps_cleanup fun _ _ hs => hs
  have hkeeps : Keeps (fun s : Worker => s.bucket = w.bucket) (deleteFiles env txFile range)
      fun _ => False :=
    Keeps.getState.bind fun _ => (hpath _).bind fun _ => (hpath _).bind fun _ => (hpath _).bind
      fun _ => Keeps.pure ()
  exact hkeeps.of_ok rfl h

/-- **Blocks and transactions**: both files are in the bucket, and the transactions file
is still on the disk. -/
theorem exportBlocks_ok {stats : BlocksStats}
    (h : exportBlocksAndTransactions env range w cs = ⟨.ok stats, w', cs'⟩) :
    stats.txFile = range.file .transactions ∧
      ∃ blocks txs : File, w'.bucket (range.path .blocks) = some blocks ∧
        w'.bucket (range.path .transactions) = some txs ∧
        w'.disk (range.file .transactions) = some txs ∧
        totalTxInBlocks blocks.lines = .ok stats.totalTxInBlocks ∧
        stats.txFileSize = txs.size ∧ stats.blockFileSize = blocks.size := by
  obtain ⟨w₁, cs₁, hcatch, hcleanup⟩ := tryFinally_eq_ok.mp h
  have hbody := tryCatch_eq_ok.mp hcatch
  obtain ⟨_, w₂, _, -, h₁⟩ := bind_eq_ok.mp hbody
  obtain ⟨_, _, _, hthere, h₂⟩ := bind_eq_ok.mp h₁
  obtain ⟨-, rfl, -⟩ := fileExists_eq_ok.mp hthere
  obtain ⟨_, _, _, hthere', h₃⟩ := bind_eq_ok.mp h₂
  obtain ⟨-, rfl, -⟩ := fileExists_eq_ok.mp hthere'
  obtain ⟨_, _, _, hcheck, h₄⟩ := bind_eq_ok.mp h₃
  obtain ⟨-, rfl, -⟩ := when_raise_eq_ok.mp hcheck
  obtain ⟨blocks, _, _, hread, h₅⟩ := bind_eq_ok.mp h₄
  obtain ⟨hblocks, -, rfl, -⟩ := readFile_eq_ok.mp hread
  obtain ⟨total, _, _, hsum, h₆⟩ := bind_eq_ok.mp h₅
  obtain ⟨htotal, rfl, -⟩ := ofExcept_eq_ok.mp hsum
  obtain ⟨_, _, _, hstat, h₇⟩ := bind_eq_ok.mp h₆
  obtain ⟨⟨txs, htxs, rfl⟩, -, rfl, -⟩ := statSize_eq_ok.mp hstat
  obtain ⟨_, _, _, hstat', h₈⟩ := bind_eq_ok.mp h₇
  obtain ⟨⟨blocks', hblocks', rfl⟩, -, rfl, -⟩ := statSize_eq_ok.mp hstat'
  obtain ⟨_, w₃, _, hupload, h₉⟩ := bind_eq_ok.mp h₈
  obtain ⟨stored, hstored, -, rfl, -⟩ := uploadToGcs_eq_ok.mp hupload
  obtain ⟨_, w₄, _, hupload', hpure⟩ := bind_eq_ok.mp h₉
  obtain ⟨stored', hstored', -, rfl, -⟩ := uploadToGcs_eq_ok.mp hupload'
  obtain ⟨rfl, rfl, -⟩ := pure_eq_ok.mp hpure
  obtain rfl : blocks = blocks' := Option.some.inj (hblocks.symm.trans hblocks')
  obtain rfl : blocks = stored := Option.some.inj (hblocks.symm.trans hstored)
  obtain rfl : txs = stored' := Option.some.inj (htxs.symm.trans hstored')
  refine ⟨rfl, blocks, txs, ?_, ?_, ?_, htotal, rfl, rfl⟩
  · rw [bucket_cleanup hcleanup, Worker.bucket_store_of_ne _ (by simp), Worker.bucket_store]
  · rw [bucket_cleanup hcleanup, Worker.bucket_store]
  · have hkeeps : Keeps (fun w : Worker => w.disk (range.file .transactions) = some txs)
        (cleanup env (range.file .blocks)) fun _ => False :=
      keeps_cleanup fun w _ hw => (w.disk_write_of_ne (by simp)).trans hw
    refine hkeeps.of_ok ?_ hcleanup
    exact htxs

theorem extractTxHashes_eq_ok {found : FileName × ℕ} :
    extractTxHashes env txFile w cs = ⟨.ok found, w', cs'⟩ ↔
      ∃ txs hashes, w.disk txFile = some txs ∧ env.openFails txFile = false ∧
        collectHashes weiThreshold txs.lines = .ok hashes ∧
        env.write txFile.whaleHashes = .ok ∧ found = (txFile.whaleHashes, hashes.length) ∧
        w' = w.write txFile.whaleHashes (some (.ofTexts hashes)) ∧ cs' = cs := by
  constructor
  · intro h
    obtain ⟨txs, _, _, hread, h₁⟩ := bind_eq_ok.mp h
    obtain ⟨htxs, hopen, rfl, rfl⟩ := readFile_eq_ok.mp hread
    obtain ⟨hashes, _, _, hcollect, h₂⟩ := bind_eq_ok.mp h₁
    obtain ⟨hhashes, rfl, rfl⟩ := ofExcept_eq_ok.mp hcollect
    obtain ⟨_, _, _, hwrite, hpure⟩ := bind_eq_ok.mp h₂
    obtain ⟨hok, rfl, rfl⟩ := writeFile_eq_ok.mp hwrite
    obtain ⟨rfl, rfl, rfl⟩ := pure_eq_ok.mp hpure
    exact ⟨txs, hashes, htxs, hopen, hhashes, hok, rfl, rfl, rfl⟩
  · rintro ⟨txs, hashes, htxs, hopen, hhashes, hok, rfl, rfl, rfl⟩
    refine bind_eq_ok.mpr ⟨txs, _, _, readFile_eq_ok.mpr ⟨htxs, hopen, rfl, rfl⟩, ?_⟩
    refine bind_eq_ok.mpr ⟨hashes, _, _, ofExcept_eq_ok.mpr ⟨hhashes, rfl, rfl⟩, ?_⟩
    exact bind_eq_ok.mpr ⟨(), _, _, writeFile_eq_ok.mpr ⟨hok, rfl, rfl⟩, rfl⟩

theorem noReceipts_eq_ok {counts : ℕ × ℕ} :
    noReceipts env range w cs = ⟨.ok counts, w', cs'⟩ ↔
      env.touchFails (range.file .receipts) = false ∧ counts = (0, 0) ∧
        w' = w.write (range.file .receipts)
          (some ((w.disk (range.file .receipts)).getD .empty)) ∧ cs' = cs := by
  constructor
  · intro h
    obtain ⟨_, _, _, htouch, hpure⟩ := bind_eq_ok.mp h
    obtain ⟨hok, rfl, rfl⟩ := touch_eq_ok.mp htouch
    obtain ⟨rfl, rfl, rfl⟩ := pure_eq_ok.mp hpure
    exact ⟨hok, rfl, rfl, rfl⟩
  · rintro ⟨hok, rfl, rfl, rfl⟩
    exact bind_eq_ok.mpr ⟨(), _, _, touch_eq_ok.mpr ⟨hok, rfl, rfl⟩, rfl⟩

/-- The command exits with 0, and its output is on the disk and can be read. -/
theorem fetchReceipts_eq_ok {hashFile : FileName} {counts : ℕ × ℕ} :
    fetchReceipts env range hashFile w cs = ⟨.ok counts, w', cs'⟩ ↔
      (runShell env (.exportReceiptsAndLogs hashFile (range.file .receipts)) w cs =
        ⟨.ok (), w', cs'⟩) ∧ ∃ receipts, w'.disk (range.file .receipts) = some receipts ∧
          env.openFails (range.file .receipts) = false ∧
          env.statFails (range.file .receipts) = false ∧
          counts = (receipts.rows, receipts.size) := by
  constructor
  · intro h
    obtain ⟨_, _, _, hshell, h₁⟩ := bind_eq_ok.mp h
    obtain ⟨_, _, _, hthere, h₂⟩ := bind_eq_ok.mp h₁
    obtain ⟨-, rfl, rfl⟩ := fileExists_eq_ok.mp hthere
    obtain ⟨_, _, _, hcheck, h₃⟩ := bind_eq_ok.mp h₂
    obtain ⟨-, rfl, rfl⟩ := when_raise_eq_ok.mp hcheck
    obtain ⟨receipts, _, _, hread, h₄⟩ := bind_eq_ok.mp h₃
    obtain ⟨hreceipts, hopen, rfl, rfl⟩ := readFile_eq_ok.mp hread
    obtain ⟨_, _, _, hstat, hpure⟩ := bind_eq_ok.mp h₄
    obtain ⟨⟨receipts', hreceipts', rfl⟩, hok, rfl, rfl⟩ := statSize_eq_ok.mp hstat
    obtain rfl : receipts = receipts' := Option.some.inj (hreceipts.symm.trans hreceipts')
    obtain ⟨rfl, rfl, rfl⟩ := pure_eq_ok.mp hpure
    exact ⟨hshell, receipts, hreceipts, hopen, hok, rfl⟩
  · rintro ⟨hshell, receipts, hreceipts, hopen, hok, rfl⟩
    refine bind_eq_ok.mpr ⟨(), _, _, hshell, ?_⟩
    refine bind_eq_ok.mpr ⟨true, _, _, fileExists_eq_ok.mpr ⟨by rw [hreceipts]; rfl, rfl, rfl⟩, ?_⟩
    refine bind_eq_ok.mpr ⟨(), _, _, when_raise_eq_ok.mpr ⟨by simp, rfl, rfl⟩, ?_⟩
    refine bind_eq_ok.mpr ⟨receipts, _, _, readFile_eq_ok.mpr ⟨hreceipts, hopen, rfl, rfl⟩, ?_⟩
    exact bind_eq_ok.mpr ⟨receipts.size, _, _,
      statSize_eq_ok.mpr ⟨⟨receipts, hreceipts, rfl⟩, hok, rfl, rfl⟩, rfl⟩

/-- **Receipts**: their file is in the bucket, and the whales are those of the
transactions file that was on the disk. -/
theorem exportReceipts_ok {stats : ReceiptsStats}
    (h : exportReceiptsAndLogs env txFile range w cs = ⟨.ok stats, w', cs'⟩) :
    ∃ (txs : File) (hashes : List String) (receipts : File), w.disk txFile = some txs ∧
      collectHashes weiThreshold txs.lines = .ok hashes ∧
      w'.bucket (range.path .receipts) = some receipts ∧ stats.whaleCount = hashes.length ∧
      stats.receiptCount = if hashes = [] then 0 else receipts.rows := by
  obtain ⟨_, w₁, cs₁, hset, hrest⟩ := bind_eq_ok.mp h
  cases hset
  obtain ⟨w₂, cs₂, hbody, hdelete⟩ := tryFinally_eq_ok.mp hrest
  obtain ⟨found, w₃, cs₃, hextract, h₁⟩ := bind_eq_ok.mp hbody
  obtain ⟨txs, hashes, htxs, -, hhashes, -, rfl, rfl, rfl⟩ := extractTxHashes_eq_ok.mp hextract
  obtain ⟨_, w₄, cs₄, hset, h₂⟩ := bind_eq_ok.mp h₁
  cases hset
  obtain ⟨counts, w₅, cs₅, hfind, h₃⟩ := bind_eq_ok.mp h₂
  obtain ⟨_, w₆, cs₆, hupload, hpure⟩ := bind_eq_ok.mp h₃
  obtain ⟨receipts, hreceipts, -, rfl, -⟩ := uploadToGcs_eq_ok.mp hupload
  obtain ⟨rfl, rfl, -⟩ := pure_eq_ok.mp hpure
  refine ⟨txs, hashes, receipts, htxs, hhashes, ?_, rfl, ?_⟩
  · rw [bucket_deleteFiles hdelete, Worker.bucket_store]
  · unfold findReceipts at hfind
    split at hfind
    · next hzero =>
      obtain ⟨-, rfl, -⟩ := noReceipts_eq_ok.mp hfind
      rw [if_pos (List.length_eq_zero_iff.mp hzero)]
    · next hwhales =>
      obtain ⟨-, receipts', hreceipts', -, -, rfl⟩ := fetchReceipts_eq_ok.mp hfind
      obtain rfl : receipts = receipts' := Option.some.inj (hreceipts.symm.trans hreceipts')
      rw [if_neg fun hnil => hwhales (by rw [hnil]; rfl)]

end succeed

/-! ### What the gate compares -/

/-- **The gate** compares the whales with the receipts that were counted, and looks for
files of zero bytes. -/
theorem qualityCheck_eq_ok_iff {range : RangeData} {blocksStats : BlocksStats}
    {receiptsStats : ReceiptsStats} {transfersStats : TransfersStats} :
    qualityCheck (some range) (some ⟨some blocksStats, some receiptsStats⟩) (some transfersStats) =
        .ok true ↔
      receiptsStats.whaleCount = receiptsStats.receiptCount ∧ blocksStats.txFileSize ≠ 0 ∧
        blocksStats.blockFileSize ≠ 0 ∧ transfersStats.transferFileSize ≠ 0 := by
  have hgate : qualityCheck (some range) (some ⟨some blocksStats, some receiptsStats⟩)
      (some transfersStats) = .ok true ↔
        issues blocksStats receiptsStats (some transfersStats) = [] := by
    show (if issues blocksStats receiptsStats (some transfersStats) ≠ [] then _ else _) =
      (Except.ok true : Except FailMessage Bool) ↔ _
    by_cases hnil : issues blocksStats receiptsStats (some transfersStats) = []
    · rw [if_neg (not_not.mpr hnil)]
      exact iff_of_true rfl hnil
    · rw [if_pos hnil]
      refine iff_of_false (fun h => ?_) hnil
      cases h
  rw [hgate]
  unfold issues zeroByteFiles
  by_cases hcount : receiptsStats.whaleCount = receiptsStats.receiptCount
  · by_cases htx : blocksStats.txFileSize = 0
    · simp [hcount, htx]
    · by_cases hblock : blocksStats.blockFileSize = 0
      · simp [hcount, htx, hblock]
      · by_cases htransfers : transfersStats.transferFileSize = 0
        · simp [hcount, htx, hblock, htransfers]
        · simp [hcount, htx, hblock, htransfers]
  · simp [hcount]

end Storage.Etl

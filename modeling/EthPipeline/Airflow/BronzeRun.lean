import EthPipeline.Base.TaskGraph
import EthPipeline.Data.DateText
import EthPipeline.Storage.BlockRange
import EthPipeline.Storage.BronzeGate

/-!
# A run of the Bronze DAG

The tasks of `dags/eth_etl_dag_gke.py` and `eth_etl_dag_k8s.py`, each in a pod of its
own, over one bucket.  A call of an attempt may fail, a pod may end without a report, and
an attempt may find anything on its disk.

* `standing_of_success`, `standing_stable`: what the tasks have established, and that
  only the tasks below them undo it.
* `after_keeps`: a run writes to the places of the ranges it has computed.
* `published_complete`: a date is published only with all its files in the bucket, as the
  gate wants them, and no run for another date takes them away.
-/

namespace Airflow

open Storage Storage.Etl Exec Run

/-- The DAGs whose extraction is one task. -/
inductive PodDag where
  | gke
  | k8s
  deriving DecidableEq, Repr

def PodDag.dag : PodDag → Dag
  | .gke => .gke
  | .k8s => .k8s

/-- What the tasks have returned, and the bucket. -/
structure BronzeWorld where
  range : Option BlockRange
  extractStats : Option ExtractStats
  transfersStats : Option TransfersStats
  bucket : GcsPath → Option File

/-- The circumstances of an attempt: what Etherscan answers and when, how the calls in the
pod go and what is on its disk, and whether the pod gets to report. -/
structure Pod where
  etherscan : Etherscan
  apiKey : Option String
  now₁ : Timestamp
  now₂ : Timestamp
  env : Env
  disk : FileName → Option File
  reports : Bool

inductive BronzeTask where
  | calculateBlockRange
  | extractBlocksTxAndReceipts
  | extractTokenTransfers
  | qualityCheck
  | sendSummaryReport
  | publishBronzeAsset
  deriving DecidableEq, Repr

namespace BronzeTask

def upstream : BronzeTask → List BronzeTask
  | .calculateBlockRange => []
  | .extractBlocksTxAndReceipts => [.calculateBlockRange]
  | .extractTokenTransfers => [.calculateBlockRange, .extractBlocksTxAndReceipts]
  | .qualityCheck => [.calculateBlockRange, .extractBlocksTxAndReceipts, .extractTokenTransfers]
  | .sendSummaryReport =>
    [.calculateBlockRange, .extractBlocksTxAndReceipts, .extractTokenTransfers, .qualityCheck]
  | .publishBronzeAsset => [.calculateBlockRange, .sendSummaryReport]

end BronzeTask

def rangeData (r : BlockRange) : RangeData := ⟨r.startBlock, r.endBlock, dateText r.dateStr.day⟩

/-- What a task that works in its pod returns, and the bucket that it leaves. -/
def inPod {α : Type} (pod : Pod) (bucket : GcsPath → Option File) (task : Etl α) :
    Option α × (GcsPath → Option File) :=
  let r := task ⟨pod.disk, bucket, none⟩ []
  (match r.outcome with
    | .ok a => if pod.reports then some a else none
    | _ => none, r.state.bucket)

/-- An attempt of a task; nothing is returned by one that fails. -/
def attempt (dag : PodDag) (logicalDate : Timestamp) :
    BronzeTask → Pod → BronzeWorld → Bool × BronzeWorld
  | .calculateBlockRange, pod, w =>
    match dag.dag.calculateBlockRange pod.etherscan pod.apiKey logicalDate pod.now₁ pod.now₂ with
    | .ok r => if pod.reports then (true, { w with range := some r }) else (false, w)
    | .error _ => (false, w)
  | .extractBlocksTxAndReceipts, pod, w =>
    match w.range with
    | none => (false, w)
    | some r =>
      let left := inPod pod w.bucket (Etl.extractBlocksTxAndReceipts (rangeData r) pod.env)
      (left.1.isSome, { w with extractStats := left.1, bucket := left.2 })
  | .extractTokenTransfers, pod, w =>
    match w.range with
    | none => (false, w)
    | some r =>
      let left := inPod pod w.bucket (Etl.extractTokenTransfers (rangeData r) pod.env)
      (left.1.isSome, { w with transfersStats := left.1, bucket := left.2 })
  | .qualityCheck, pod, w =>
    match Etl.qualityCheck (w.range.map rangeData) w.extractStats w.transfersStats with
    | .ok _ => (pod.reports, w)
    | .error _ => (false, w)
  | .sendSummaryReport, pod, w => (pod.reports, w)
  | .publishBronzeAsset, pod, w => (w.range.isSome && pod.reports, w)

/-- The wiring.  Every task may be attempted again, also after an `AirflowFailException`,
where Airflow would not. -/
def bronzeDag (dag : PodDag) (logicalDate : Timestamp) : TaskGraph BronzeTask Pod BronzeWorld where
  upstream := BronzeTask.upstream
  retries := 5
  attempt := attempt dag logicalDate

/-- A run for a logical date, with the attempts of its tasks. -/
structure BronzeRun where
  logicalDate : Timestamp
  attempts : List (BronzeTask × Pod)

/-- What a run leaves. -/
def BronzeRun.after (dag : PodDag) (run : BronzeRun) (bucket : GcsPath → Option File) :
    TaskGraph.State BronzeTask BronzeWorld :=
  runs (bronzeDag dag run.logicalDate).step (TaskGraph.State.init ⟨none, none, none, bucket⟩)
    run.attempts

/-- The bucket after some runs; a DAG has one at a time. -/
def bucketAfter (dag : PodDag) (bucket : GcsPath → Option File) (history : List BronzeRun) :
    GcsPath → Option File :=
  history.foldl (fun bucket run => (run.after dag bucket).world.bucket) bucket

/-- The date of a run. -/
def BronzeRun.date (dag : PodDag) (run : BronzeRun) : DateText :=
  strftime (dag.dag.targetDate run.logicalDate)

/-- The files of a date, as the gate wants them. -/
structure Complete (range : RangeData) (bucket : GcsPath → Option File)
    (blocks txs receipts transfers : File) : Prop where
  hasBlocks : bucket (range.path .blocks) = some blocks
  hasTransactions : bucket (range.path .transactions) = some txs
  hasReceipts : bucket (range.path .receipts) = some receipts
  hasTransfers : bucket (range.path .tokenTransfers) = some transfers
  filled : blocks.size ≠ 0 ∧ txs.size ≠ 0 ∧ transfers.size ≠ 0
  counted : ∃ total, totalTxInBlocks blocks.lines = .ok total
  matched : whaleRows txs.lines ≠ [] → receipts.rows = (whaleRows txs.lines).length

/-! ### What a pod does to the bucket -/

section pod

variable {pod : Pod} {bucket : GcsPath → Option File} {range : RangeData} {path : GcsPath}
  {content : Option File} {env : Env}

theorem keeps_deleteFiles {txFile : FileName} :
    Keeps (fun w : Worker => w.bucket path = content) (deleteFiles env txFile range)
      (fun w => w.bucket path = content) := by
  have hpath : ∀ file, Keeps (fun w : Worker => w.bucket path = content) (cleanupPath env file)
      (fun w => w.bucket path = content) := by
    intro file
    cases file with
    | none => exact Keeps.pure ()
    | some file => exact keeps_cleanup fun _ _ hw => hw
  exact Keeps.getState.bind fun _ => (hpath _).bind fun _ => (hpath _).bind fun _ =>
    (hpath _).bind fun _ => Keeps.pure ()

theorem keeps_exportReceipts {txFile : FileName} (hpath : path ≠ range.path .receipts) :
    Keeps (fun w : Worker => w.bucket path = content) (exportReceiptsAndLogs env txFile range)
      (fun w => w.bucket path = content) := by
  have hset : Keeps (fun w : Worker => w.bucket path = content) (setHashFile none)
      (fun w => w.bucket path = content) := Keeps.modifyState fun _ hw => hw
  refine hset.bind fun _ => Keeps.tryFinally ?_ keeps_deleteFiles
  exact keeps_extractReceipts (writesKeep_bucket (by simpa using hpath) _)

/-- The extraction writes to three places only. -/
theorem keeps_extraction (hblocks : path ≠ range.path .blocks)
    (htxs : path ≠ range.path .transactions) (hreceipts : path ≠ range.path .receipts) :
    Keeps (fun w : Worker => w.bucket path = content)
      (Etl.extractBlocksTxAndReceipts range env) (fun w => w.bucket path = content) := by
  refine (keeps_exportBlocks (writesKeep_bucket (by simp [hblocks, htxs]) _)).bind fun stats => ?_
  exact (keeps_exportReceipts hreceipts).bind fun _ => Keeps.pure _

theorem keeps_transfers (hpath : path ≠ range.path .tokenTransfers) :
    Keeps (fun w : Worker => w.bucket path = content) (Etl.extractTokenTransfers range env)
      (fun w => w.bucket path = content) :=
  keeps_exportTransfers (writesKeep_bucket (by simp [hpath]) _)

theorem inPod_keeps {α : Type} {task : Etl α}
    (h : Keeps (fun w : Worker => w.bucket path = content) task
      (fun w => w.bucket path = content)) (hbucket : bucket path = content) :
    (inPod pod bucket task).2 path = content := by
  have hstart : (⟨pod.disk, bucket, none⟩ : Worker).bucket path = content := hbucket
  exact Triple.state h hstart fun _ _ => trivial

/-- A task that returns has run to its end. -/
theorem inPod_eq_some {α : Type} {task : Etl α} {a : α} (h : (inPod pod bucket task).1 = some a) :
    ∃ w' cs', task ⟨pod.disk, bucket, none⟩ [] = ⟨.ok a, w', cs'⟩ ∧
      (inPod pod bucket task).2 = w'.bucket := by
  unfold inPod at h ⊢
  rcases hrun : task ⟨pod.disk, bucket, none⟩ [] with ⟨outcome, w', cs'⟩
  rw [hrun] at h
  cases outcome with
  | ok b =>
    have hb : (if pod.reports then some b else none) = some a := h
    split at hb
    · obtain rfl := Option.some.inj hb
      exact ⟨w', cs', rfl, rfl⟩
    · cases hb
  | raised e => cases h
  | cut => cases h

/-- **Token transfers**: the file is in the bucket, and the size is its own. -/
theorem transfers_ok {w w' : Worker} {cs cs' : List Empty} {stats : TransfersStats}
    (h : Etl.extractTokenTransfers range env w cs = ⟨.ok stats, w', cs'⟩) :
    ∃ transfers, w'.bucket (range.path .tokenTransfers) = some transfers ∧
      stats.transferFileSize = transfers.size := by
  have hbody := tryCatch_eq_ok.mp h
  obtain ⟨_, w₁, _, -, h₁⟩ := bind_eq_ok.mp hbody
  obtain ⟨_, _, _, hthere, h₂⟩ := bind_eq_ok.mp h₁
  obtain ⟨-, rfl, -⟩ := fileExists_eq_ok.mp hthere
  obtain ⟨_, _, _, hcheck, h₃⟩ := bind_eq_ok.mp h₂
  obtain ⟨-, rfl, -⟩ := when_raise_eq_ok.mp hcheck
  obtain ⟨_, w₂, _, hupload, h₄⟩ := bind_eq_ok.mp h₃
  obtain ⟨stored, hstored, -, rfl, -⟩ := uploadToGcs_eq_ok.mp hupload
  obtain ⟨size, _, _, hstat, hpure⟩ := bind_eq_ok.mp h₄
  obtain ⟨⟨content, hcontent, rfl⟩, -, rfl, -⟩ := statSize_eq_ok.mp hstat
  obtain ⟨rfl, rfl, -⟩ := pure_eq_ok.mp hpure
  obtain rfl : stored = content := Option.some.inj (hstored.symm.trans hcontent)
  exact ⟨stored, Worker.bucket_store _, rfl⟩

end pod

/-! ### What the tasks have established -/

/-- What is asked of a range, and of the files that are extracted for it. -/
structure Demands where
  range : BlockRange → Prop
  extracted : BlockRange → File → File → File → Prop
  transferred : BlockRange → File → Prop

/-- An attempt that succeeds does what is asked. -/
structure Obeys (asked : Demands) (dag : PodDag) (logicalDate : Timestamp) (t : BronzeTask)
    (pod : Pod) : Prop where
  range : t = .calculateBlockRange → ∀ r,
    dag.dag.calculateBlockRange pod.etherscan pod.apiKey logicalDate pod.now₁ pod.now₂ = .ok r →
      asked.range r
  extracted : t = .extractBlocksTxAndReceipts → ∀ r bucket stats w' cs',
    Etl.extractBlocksTxAndReceipts (rangeData r) pod.env ⟨pod.disk, bucket, none⟩ [] =
        ⟨.ok stats, w', cs'⟩ →
      ∀ blocks txs receipts, w'.bucket ((rangeData r).path .blocks) = some blocks →
        w'.bucket ((rangeData r).path .transactions) = some txs →
        w'.bucket ((rangeData r).path .receipts) = some receipts →
          asked.extracted r blocks txs receipts
  transferred : t = .extractTokenTransfers → ∀ r bucket stats w' cs',
    Etl.extractTokenTransfers (rangeData r) pod.env ⟨pod.disk, bucket, none⟩ [] =
        ⟨.ok stats, w', cs'⟩ →
      ∀ transfers, w'.bucket ((rangeData r).path .tokenTransfers) = some transfers →
        asked.transferred r transfers

/-- What an extraction has returned is about the files that are in the bucket. -/
def Extracted (asked : Demands) (r : BlockRange) (w : BronzeWorld) : Prop :=
  ∃ blocksStats receiptsStats, w.extractStats = some ⟨some blocksStats, some receiptsStats⟩ ∧
    ∃ blocks txs receipts : File, w.bucket ((rangeData r).path .blocks) = some blocks ∧
      w.bucket ((rangeData r).path .transactions) = some txs ∧
      w.bucket ((rangeData r).path .receipts) = some receipts ∧
      asked.extracted r blocks txs receipts ∧
      totalTxInBlocks blocks.lines = .ok blocksStats.totalTxInBlocks ∧
      blocksStats.txFileSize = txs.size ∧ blocksStats.blockFileSize = blocks.size ∧
      receiptsStats.whaleCount = (whaleRows txs.lines).length ∧
      receiptsStats.receiptCount = if whaleRows txs.lines = [] then 0 else receipts.rows

def Transferred (asked : Demands) (r : BlockRange) (w : BronzeWorld) : Prop :=
  ∃ stats transfers, w.transfersStats = some stats ∧
    w.bucket ((rangeData r).path .tokenTransfers) = some transfers ∧
    asked.transferred r transfers ∧ stats.transferFileSize = transfers.size

/-- The gate has seen the files. -/
def Passed (asked : Demands) (r : BlockRange) (w : BronzeWorld) : Prop :=
  ∃ blocks txs receipts transfers, Complete (rangeData r) w.bucket blocks txs receipts transfers ∧
    asked.extracted r blocks txs receipts ∧ asked.transferred r transfers

/-- What a task adds to the range. -/
def Result (asked : Demands) (r : BlockRange) (w : BronzeWorld) : BronzeTask → Prop
  | .extractBlocksTxAndReceipts => Extracted asked r w
  | .extractTokenTransfers => Transferred asked r w
  | .qualityCheck => Passed asked r w
  | _ => True

def Standing (asked : Demands) (t : BronzeTask) (w : BronzeWorld) : Prop :=
  ∃ r, w.range = some r ∧ asked.range r ∧ Result asked r w t

section tasks

variable {dag : PodDag} {logicalDate : Timestamp} {pod : Pod} {w : BronzeWorld} {r : BlockRange}
  {asked : Demands}

/-- What an attempt of the first task can do. -/
theorem calculate_cases (dag : PodDag) (logicalDate : Timestamp) (pod : Pod) (w : BronzeWorld) :
    (∃ r, dag.dag.calculateBlockRange pod.etherscan pod.apiKey logicalDate pod.now₁ pod.now₂ =
        .ok r ∧
      attempt dag logicalDate .calculateBlockRange pod w = (true, { w with range := some r })) ∨
      attempt dag logicalDate .calculateBlockRange pod w = (false, w) := by
  unfold attempt
  dsimp only
  split
  · next r hr =>
    split
    · exact .inl ⟨r, hr, rfl⟩
    · exact .inr rfl
  · exact .inr rfl

theorem attempt_extract (hr : w.range = some r) :
    attempt dag logicalDate .extractBlocksTxAndReceipts pod w =
      ((inPod pod w.bucket (Etl.extractBlocksTxAndReceipts (rangeData r) pod.env)).1.isSome,
        { w with
          extractStats :=
            (inPod pod w.bucket (Etl.extractBlocksTxAndReceipts (rangeData r) pod.env)).1
          bucket :=
            (inPod pod w.bucket (Etl.extractBlocksTxAndReceipts (rangeData r) pod.env)).2 }) := by
  simp only [attempt, hr]

theorem attempt_transfers (hr : w.range = some r) :
    attempt dag logicalDate .extractTokenTransfers pod w =
      ((inPod pod w.bucket (Etl.extractTokenTransfers (rangeData r) pod.env)).1.isSome,
        { w with
          transfersStats := (inPod pod w.bucket (Etl.extractTokenTransfers (rangeData r) pod.env)).1
          bucket := (inPod pod w.bucket (Etl.extractTokenTransfers (rangeData r) pod.env)).2 }) := by
  simp only [attempt, hr]

theorem extract_success (hr : w.range = some r)
    (hobeys : Obeys asked dag logicalDate .extractBlocksTxAndReceipts pod)
    (h : (attempt dag logicalDate .extractBlocksTxAndReceipts pod w).1 = true) :
    Extracted asked r (attempt dag logicalDate .extractBlocksTxAndReceipts pod w).2 := by
  rw [attempt_extract hr] at h ⊢
  obtain ⟨stats, hstats⟩ := Option.isSome_iff_exists.mp h
  obtain ⟨w', cs', hrun, hbucket⟩ := inPod_eq_some hstats
  obtain ⟨blocksStats, receiptsStats, rfl, blocks, txs, receipts, hblocks, htxs, hreceipts, hrest⟩ :=
    extract_ok hrun
  have hasked := hobeys.extracted rfl r _ _ _ _ hrun blocks txs receipts hblocks htxs hreceipts
  refine ⟨blocksStats, receiptsStats, hstats, blocks, txs, receipts, ?_, ?_, ?_, hasked, hrest⟩
  · exact (congrFun hbucket _).trans hblocks
  · exact (congrFun hbucket _).trans htxs
  · exact (congrFun hbucket _).trans hreceipts

theorem transfers_success (hr : w.range = some r)
    (hobeys : Obeys asked dag logicalDate .extractTokenTransfers pod)
    (h : (attempt dag logicalDate .extractTokenTransfers pod w).1 = true) :
    Transferred asked r (attempt dag logicalDate .extractTokenTransfers pod w).2 := by
  rw [attempt_transfers hr] at h ⊢
  obtain ⟨stats, hstats⟩ := Option.isSome_iff_exists.mp h
  obtain ⟨w', cs', hrun, hbucket⟩ := inPod_eq_some hstats
  obtain ⟨transfers, htransfers, hsize⟩ := transfers_ok hrun
  have hasked := hobeys.transferred rfl r _ _ _ _ hrun transfers htransfers
  exact ⟨stats, transfers, hstats, (congrFun hbucket _).trans htransfers, hasked, hsize⟩

/-- The gate does not answer `False`. -/
theorem qualityCheck_true {range : Option RangeData} {extractStats : Option ExtractStats}
    {transfersStats : Option TransfersStats} {passed : Bool}
    (h : Etl.qualityCheck range extractStats transfersStats = .ok passed) : passed = true := by
  unfold Etl.qualityCheck at h
  split at h
  · split at h
    · split at h
      · split at h
        · dsimp only at h
          split at h
          · cases h
          · exact (Except.ok.inj h).symm
        · cases h
      · cases h
    · cases h
  · cases h

/-- **The gate**: what it compares, it compares of the files in the bucket. -/
theorem quality_success (hextracted : Extracted asked r w) (htransferred : Transferred asked r w)
    (hr : w.range = some r) (h : (attempt dag logicalDate .qualityCheck pod w).1 = true) :
    Passed asked r w := by
  obtain ⟨blocksStats, receiptsStats, hstats, blocks, txs, receipts, hblocks, htxs, hreceipts,
    hfiles, htotal, htxSize, hblockSize, hwhales, hcount⟩ := hextracted
  obtain ⟨stats, transfers, htransfersStats, htransfers, hfile, hsize⟩ := htransferred
  have hgate : Etl.qualityCheck (some (rangeData r)) (some ⟨some blocksStats, some receiptsStats⟩)
      (some stats) = .ok true := by
    unfold attempt at h
    dsimp only at h
    rw [hr, hstats, htransfersStats] at h
    split at h
    · next passed hpassed =>
      rwa [qualityCheck_true hpassed] at hpassed
    · cases h
  rw [qualityCheck_eq_ok_iff, hwhales, hcount, htxSize, hblockSize, hsize] at hgate
  obtain ⟨hmatched, htx, hblock, htransfer⟩ := hgate
  refine ⟨blocks, txs, receipts, transfers, ⟨hblocks, htxs, hreceipts, htransfers,
    ⟨hblock, htx, htransfer⟩, ⟨_, htotal⟩, fun hwhale => ?_⟩, hfiles, hfile⟩
  rw [if_neg hwhale] at hmatched
  exact hmatched.symm

theorem world_qualityCheck : (attempt dag logicalDate .qualityCheck pod w).2 = w := by
  unfold attempt
  dsimp only
  split <;> rfl

/-- The transfers go to a place of their own. -/
theorem extracted_transfers (hr : w.range = some r) (h : Extracted asked r w) :
    Extracted asked r (attempt dag logicalDate .extractTokenTransfers pod w).2 := by
  have hbucket : ∀ kind, kind ≠ .tokenTransfers → ∀ file,
      w.bucket ((rangeData r).path kind) = some file →
        (inPod pod w.bucket (Etl.extractTokenTransfers (rangeData r) pod.env)).2
          ((rangeData r).path kind) = some file := by
    intro kind hkind file hfile
    exact inPod_keeps (keeps_transfers (by simpa using hkind)) hfile
  obtain ⟨blocksStats, receiptsStats, hstats, blocks, txs, receipts, hblocks, htxs, hreceipts,
    hrest⟩ := h
  rw [attempt_transfers hr]
  exact ⟨blocksStats, receiptsStats, hstats, blocks, txs, receipts,
    hbucket .blocks (by decide) _ hblocks, hbucket .transactions (by decide) _ htxs,
    hbucket .receipts (by decide) _ hreceipts, hrest⟩

/-- A successful attempt, after everything above it. -/
theorem standing_of_success {t : BronzeTask} (hobeys : Obeys asked dag logicalDate t pod)
    (habove : ∀ u, (bronzeDag dag logicalDate).Above u t → Standing asked u w)
    (h : (attempt dag logicalDate t pod w).1 = true) :
    Standing asked t (attempt dag logicalDate t pod w).2 := by
  have hupstream : ∀ u ∈ t.upstream, Standing asked u w := fun u hu => habove u (.single hu)
  cases t with
  | calculateBlockRange =>
    rcases calculate_cases dag logicalDate pod w with ⟨r, hr, heq⟩ | heq
    · rw [heq]
      exact ⟨r, rfl, hobeys.range rfl r hr, trivial⟩
    · rw [heq] at h
      cases h
  | extractBlocksTxAndReceipts =>
    obtain ⟨r, hr, hP, -⟩ := hupstream .calculateBlockRange (by decide)
    refine ⟨r, ?_, hP, extract_success hr hobeys h⟩
    rw [attempt_extract hr]
    exact hr
  | extractTokenTransfers =>
    obtain ⟨r, hr, hP, -⟩ := hupstream .calculateBlockRange (by decide)
    refine ⟨r, ?_, hP, transfers_success hr hobeys h⟩
    rw [attempt_transfers hr]
    exact hr
  | qualityCheck =>
    obtain ⟨r, hr, hP, hextracted⟩ := hupstream .extractBlocksTxAndReceipts (by decide)
    obtain ⟨r', hr', -, htransferred⟩ := hupstream .extractTokenTransfers (by decide)
    obtain rfl : r = r' := Option.some.inj (hr.symm.trans hr')
    have hpassed := quality_success hextracted htransferred hr h
    rw [world_qualityCheck]
    exact ⟨r, hr, hP, hpassed⟩
  | sendSummaryReport =>
    obtain ⟨r, hr, hP, -⟩ := hupstream .calculateBlockRange (by decide)
    exact ⟨r, hr, hP, trivial⟩
  | publishBronzeAsset =>
    obtain ⟨r, hr, hP, -⟩ := hupstream .calculateBlockRange (by decide)
    exact ⟨r, hr, hP, trivial⟩

/-- The asset comes after the report, and so after all that the report waits for. -/
theorem above_publish {t : BronzeTask} (h : t ∈ BronzeTask.upstream .sendSummaryReport) :
    (bronzeDag dag logicalDate).Above t .publishBronzeAsset := by
  have hsummary : (bronzeDag dag logicalDate).Above t .sendSummaryReport := .single h
  have hlast : .sendSummaryReport ∈ BronzeTask.upstream .publishBronzeAsset := by decide
  exact hsummary.tail hlast

/-- An attempt undoes only what is below it. -/
theorem standing_stable {t u : BronzeTask} (hne : u ≠ t)
    (hnot : ¬(bronzeDag dag logicalDate).Above t u) (h : Standing asked u w) :
    Standing asked u (attempt dag logicalDate t pod w).2 := by
  have hdirect : t ∉ u.upstream := fun hmem => hnot (.single hmem)
  have hpublish : u = .publishBronzeAsset → t ∉ BronzeTask.upstream .sendSummaryReport := by
    rintro rfl hmem
    exact hnot (above_publish hmem)
  obtain ⟨r, hr, hP, hresult⟩ := h
  cases t with
  | calculateBlockRange => cases u <;> simp [BronzeTask.upstream] at hne hdirect
  | extractBlocksTxAndReceipts =>
    have hu : u = .calculateBlockRange := by
      cases u <;> simp [BronzeTask.upstream] at hne hdirect hpublish ⊢
    subst hu
    refine ⟨r, ?_, hP, trivial⟩
    rw [attempt_extract hr]
    exact hr
  | extractTokenTransfers =>
    have hu : u = .calculateBlockRange ∨ u = .extractBlocksTxAndReceipts := by
      cases u <;> simp [BronzeTask.upstream] at hne hdirect hpublish ⊢
    refine ⟨r, ?_, hP, ?_⟩
    · rw [attempt_transfers hr]
      exact hr
    · rcases hu with rfl | rfl
      · exact trivial
      · exact extracted_transfers hr hresult
  | qualityCheck =>
    rw [world_qualityCheck]
    exact ⟨r, hr, hP, hresult⟩
  | sendSummaryReport => exact ⟨r, hr, hP, hresult⟩
  | publishBronzeAsset => exact ⟨r, hr, hP, hresult⟩

end tasks

/-! ### Whole runs -/

section run

variable {dag : PodDag} {run : BronzeRun} {bucket : GcsPath → Option File}
  {P : BlockRange → Prop} {asked : Demands} {path : GcsPath}

/-- Every attempt of the run does what is asked. -/
def BronzeRun.Obeys (asked : Demands) (dag : PodDag) (run : BronzeRun) : Prop :=
  ∀ e ∈ run.attempts, Airflow.Obeys asked dag run.logicalDate e.1 e.2

theorem after_settled (hobeys : run.Obeys asked dag) :
    TaskGraph.Settled (bronzeDag dag run.logicalDate) (Standing asked) (run.after dag bucket) :=
  TaskGraph.runs_settled
    (fun _ _ _ hC habove hok => standing_of_success hC habove hok)
    (fun _ _ _ _ hne hnot h => standing_stable hne hnot h) (meets_of_forall hobeys _)

theorem dateStr_of_ok {E : Etherscan} {apiKey : Option String} {logicalDate now₁ now₂ : Timestamp}
    {r : BlockRange}
    (h : dag.dag.calculateBlockRange E apiKey logicalDate now₁ now₂ = .ok r) :
    r.dateStr = strftime (dag.dag.targetDate logicalDate) := by
  obtain ⟨_, _, _, rfl, -, -⟩ := calculateBlockRange_eq_ok h
  rfl

/-- An attempt writes to the places of the range. -/
theorem attempt_bucket {logicalDate : Timestamp} {pod : Pod} {w : BronzeWorld} {t : BronzeTask}
    (hpath : ∀ r, w.range = some r → ∀ kind, path ≠ (rangeData r).path kind) :
    (attempt dag logicalDate t pod w).2.bucket path = w.bucket path := by
  cases t with
  | calculateBlockRange =>
    rcases calculate_cases dag logicalDate pod w with ⟨r, -, heq⟩ | heq <;> rw [heq]
  | extractBlocksTxAndReceipts =>
    cases hr : w.range with
    | none => simp only [attempt, hr]
    | some r =>
      rw [attempt_extract hr]
      exact inPod_keeps (keeps_extraction (hpath r hr _) (hpath r hr _) (hpath r hr _)) rfl
  | extractTokenTransfers =>
    cases hr : w.range with
    | none => simp only [attempt, hr]
    | some r =>
      rw [attempt_transfers hr]
      exact inPod_keeps (keeps_transfers (hpath r hr _)) rfl
  | qualityCheck => rw [world_qualityCheck]
  | sendSummaryReport => rfl
  | publishBronzeAsset => rfl

/-- The range is the one that was computed last. -/
theorem attempt_range {logicalDate : Timestamp} {pod : Pod} {w : BronzeWorld} {t : BronzeTask}
    {r : BlockRange} (h : (attempt dag logicalDate t pod w).2.range = some r) :
    w.range = some r ∨ t = .calculateBlockRange ∧
      dag.dag.calculateBlockRange pod.etherscan pod.apiKey logicalDate pod.now₁ pod.now₂ =
        .ok r := by
  cases t with
  | calculateBlockRange =>
    rcases calculate_cases dag logicalDate pod w with ⟨r', hr', heq⟩ | heq
    · rw [heq] at h
      obtain rfl : r' = r := Option.some.inj h
      exact .inr ⟨rfl, hr'⟩
    · rw [heq] at h
      exact .inl h
  | extractBlocksTxAndReceipts =>
    cases hr : w.range with
    | none => simp [attempt, hr] at h
    | some r' =>
      rw [attempt_extract hr] at h
      exact .inl (hr.symm.trans h)
  | extractTokenTransfers =>
    cases hr : w.range with
    | none => simp [attempt, hr] at h
    | some r' =>
      rw [attempt_transfers hr] at h
      exact .inl (hr.symm.trans h)
  | qualityCheck =>
    rw [world_qualityCheck] at h
    exact .inl h
  | sendSummaryReport => exact .inl h
  | publishBronzeAsset => exact .inl h

/-- **What a run keeps**: all that writes to the places of its ranges keep. -/
theorem after_keeps {J : (GcsPath → Option File) → Prop}
    (hP : ∀ e ∈ run.attempts, e.1 = .calculateBlockRange → ∀ r,
      dag.dag.calculateBlockRange e.2.etherscan e.2.apiKey run.logicalDate e.2.now₁ e.2.now₂ =
        .ok r → P r)
    (hJ : ∀ before after : GcsPath → Option File,
      (∀ path, (∀ r, P r → ∀ kind, path ≠ (rangeData r).path kind) → after path = before path) →
        J before → J after)
    (h : J bucket) : J (run.after dag bucket).world.bucket := by
  refine (runs_invariant_of_meets (P := fun s : TaskGraph.State BronzeTask BronzeWorld =>
    (∀ r, s.world.range = some r → P r) ∧ J s.world.bucket) ?_ (meets_of_forall hP _) ?_).2
  · rintro s ⟨t, pod⟩ s' hstep hcalculate ⟨hrange, hbucket⟩
    obtain ⟨_, -, -, rfl⟩ := TaskGraph.step_cases _ hstep
    refine ⟨fun r hr => ?_, hJ s.world.bucket _ (fun path hpath => ?_) hbucket⟩
    · rcases attempt_range hr with hr | ⟨ht, hr⟩
      · exact hrange r hr
      · exact hcalculate ht r hr
    · exact attempt_bucket fun r hr kind => hpath r (hrange r hr) kind
  · exact ⟨fun r hr => (by cases hr), h⟩

/-- **A run leaves the files of other dates alone.** -/
theorem after_frame (hpath : path.dateStr ≠ dateText (run.date dag).day) :
    (run.after dag bucket).world.bucket path = bucket path := by
  refine after_keeps (P := fun r => r.dateStr = run.date dag)
    (J := fun after => after path = bucket path) (fun _ _ _ r hr => dateStr_of_ok hr) ?_ rfl
  intro before after hother hbefore
  refine (hother path fun r hr kind heq => hpath ?_).trans hbefore
  rw [heq, ← hr]
  rfl

theorem bucketAfter_frame {later : List BronzeRun}
    (hlater : ∀ other ∈ later, path.dateStr ≠ dateText (other.date dag).day) :
    bucketAfter dag bucket later path = bucket path := by
  induction later generalizing bucket with
  | nil => rfl
  | cons other later ih =>
    have hrest : bucketAfter dag (other.after dag bucket).world.bucket later path =
        (other.after dag bucket).world.bucket path :=
      ih fun run hrun => hlater run (List.mem_cons_of_mem _ hrun)
    exact hrest.trans (after_frame (hlater other List.mem_cons_self))

theorem bucketAfter_append (before later : List BronzeRun) :
    bucketAfter dag bucket (before ++ run :: later) =
      bucketAfter dag (run.after dag (bucketAfter dag bucket before)).world.bucket later :=
  List.foldl_append

/-- The files that the gate has seen stay, whatever is run for other dates. -/
theorem published_files {before later : List BronzeRun} (hobeys : run.Obeys asked dag)
    (hpublished : (run.after dag (bucketAfter dag bucket before)).status .publishBronzeAsset =
      .success)
    (hdates : ∀ other ∈ run :: later, 0 ≤ (other.date dag).day)
    (hlater : ∀ other ∈ later, other.date dag ≠ run.date dag) :
    ∃ r, asked.range r ∧ r.dateStr = run.date dag ∧ ∃ blocks txs receipts transfers,
      Complete (rangeData r) (bucketAfter dag bucket (before ++ run :: later)) blocks txs receipts
        transfers ∧ asked.extracted r blocks txs receipts ∧ asked.transferred r transfers := by
  have hsettled : TaskGraph.Settled (bronzeDag dag run.logicalDate)
      (Standing { asked with range := fun r => asked.range r ∧ r.dateStr = run.date dag })
      (run.after dag (bucketAfter dag bucket before)) := by
    refine after_settled fun e he => { hobeys e he with range := fun hcalculate r hr => ?_ }
    exact ⟨(hobeys e he).range hcalculate r hr, dateStr_of_ok hr⟩
  have hgate : (bronzeDag dag run.logicalDate).Above .qualityCheck .publishBronzeAsset :=
    above_publish (by decide)
  obtain ⟨r, -, ⟨hr, hdate⟩, blocks, txs, receipts, transfers, hcomplete, hfiles⟩ :=
    hsettled.post .qualityCheck (hsettled.above _ hpublished _ hgate)
  have hkept : ∀ kind, bucketAfter dag bucket (before ++ run :: later) ((rangeData r).path kind) =
      (run.after dag (bucketAfter dag bucket before)).world.bucket ((rangeData r).path kind) := by
    intro kind
    rw [bucketAfter_append]
    refine bucketAfter_frame fun other hother heq => hlater other hother ?_
    have hday : dateText r.dateStr.day = dateText (other.date dag).day := heq
    rw [hdate] at hday
    have hsame := dateText_injective (hdates run List.mem_cons_self)
      (hdates other (List.mem_cons_of_mem _ hother)) hday
    exact congrArg DateText.mk hsame.symm
  refine ⟨r, hr, hdate, blocks, txs, receipts, transfers, ?_, hfiles⟩
  exact {
    hasBlocks := (hkept _).trans hcomplete.hasBlocks
    hasTransactions := (hkept _).trans hcomplete.hasTransactions
    hasReceipts := (hkept _).trans hcomplete.hasReceipts
    hasTransfers := (hkept _).trans hcomplete.hasTransfers
    filled := hcomplete.filled
    counted := hcomplete.counted
    matched := hcomplete.matched }

end run

/-- **A published date**: in every history of runs, whatever fails and is tried again, the
bucket has the files of a date that was published, as the gate wants them, also after any
runs for other dates. -/
theorem published_complete (dag : PodDag) (bucket : GcsPath → Option File)
    (before later : List BronzeRun) (run : BronzeRun)
    (hpublished : (run.after dag (bucketAfter dag bucket before)).status .publishBronzeAsset =
      .success)
    (hdates : ∀ other ∈ run :: later, 0 ≤ (other.date dag).day)
    (hlater : ∀ other ∈ later, other.date dag ≠ run.date dag) :
    ∃ r : BlockRange, r.dateStr = run.date dag ∧ ∃ blocks txs receipts transfers,
      Complete (rangeData r) (bucketAfter dag bucket (before ++ run :: later)) blocks txs receipts
        transfers := by
  have hobeys : run.Obeys ⟨fun _ => True, fun _ _ _ _ => True, fun _ _ => True⟩ dag :=
    fun _ _ => ⟨fun _ _ _ => trivial, by intros; trivial, by intros; trivial⟩
  obtain ⟨r, -, hdate, blocks, txs, receipts, transfers, hcomplete, -⟩ :=
    published_files hobeys hpublished hdates hlater
  exact ⟨r, hdate, blocks, txs, receipts, transfers, hcomplete⟩

/-- A pod in which nothing fails, ten minutes after midnight. -/
def morningPod : Pod where
  etherscan := thatMorning
  apiKey := some "key"
  now₁ := tenPastMidnight
  now₂ := tenPastMidnight
  env := leavingEnv (blockFile 1) txFile receiptFile
  disk := fun _ => none
  reports := true

/-- The tasks one after the other; the extraction at the second attempt. -/
def morningRun : BronzeRun where
  logicalDate := tenPastMidnight
  attempts := [(.calculateBlockRange, morningPod),
    (.extractBlocksTxAndReceipts, { morningPod with env := noUploadEnv }),
    (.extractBlocksTxAndReceipts, morningPod), (.extractTokenTransfers, morningPod),
    (.qualityCheck, morningPod), (.sendSummaryReport, morningPod),
    (.publishBronzeAsset, morningPod)]

/-- The run for the next date, with the same attempts. -/
def nextRun : BronzeRun := { morningRun with logicalDate := tenPastMidnight + dayMicros }

theorem morning_published :
    ∃ r : BlockRange, r.dateStr = ⟨19999⟩ ∧ ∃ blocks txs receipts transfers,
      Complete (rangeData r) (bucketAfter .k8s (fun _ => none) ([] ++ morningRun :: [nextRun]))
        blocks txs receipts transfers :=
  published_complete .k8s (fun _ => none) [] [nextRun] morningRun (by decide +kernel)
    (by decide +kernel) (by decide +kernel)

end Airflow

import EthPipeline.Storage.Cleanup

/-!
# Temporary files

What a run of the two extraction tasks, with their retries, leaves on the disk.

* `temp_file_left_iff`: the token transfers file after a success, and nothing else.
* `success_leaves_transfers`: a run in which nothing fails.
-/

namespace Storage.Etl

open Exec

/-- The files that the extraction functions create. -/
def RangeData.localFiles (range : RangeData) : List FileName :=
  [range.file .blocks, range.file .transactions, range.hashFile, range.file .receipts,
    range.file .tokenTransfers]

/-- The attempt can remove the file; and if it is that of the hashes, writing it does not
break off. -/
structure Removes (range : RangeData) (file : FileName) (env : Env) : Prop where
  removes : env.removeFails file = false
  whole : file = range.hashFile → ∀ left, env.write file ≠ .breaksOff left

section runs

variable {range : RangeData} {file : FileName} {first first' : Env} {retries retries' : List Env}

/-- The two functions of the first task, one after the other. -/
theorem triple_extractBlocksTxAndReceipts {env : Env} {P M Q : Worker → Prop}
    (hblocks : Triple (fun _ => True) P (exportBlocksAndTransactions env range) (fun _ => M)
      (fun _ => Q) (fun _ => False))
    (hreceipts : Triple (fun _ => True) M
      (exportReceiptsAndLogs env (range.file .transactions) range) (fun _ => Q) (fun _ => Q)
      (fun _ => False)) :
    Triple (fun _ => True) P (extractBlocksTxAndReceipts range env) (fun _ => Q) (fun _ => Q)
      (fun _ => False) := by
  have htxFile : Triple (fun _ => True) P (exportBlocksAndTransactions env range)
      (fun stats _ => stats.txFile = range.file .transactions) (fun _ => Q) (fun _ => False) :=
    Triple.of_ok (hblocks.conseq (fun _ hw => hw) (fun _ _ _ => trivial) fun _ _ hw => hw)
      fun _ _ _ _ _ _ hrun => (exportBlocks_ok hrun).1
  have hboth := (htxFile.and hblocks).conseq (P := P) (fun _ hw => ⟨hw, hw⟩) (fun _ _ hw => hw)
    fun _ _ hw => hw.2
  refine (hboth).bind fun stats => Triple.given fun hstats => ?_
  rw [hstats]
  exact hreceipts.bind fun _ => Triple.pure fun _ hw => hw

/-- An attempt at the first task leaves no file that was not there. -/
theorem keeps_absent_extract {env : Env} (hfile : file ∈ range.localFiles)
    (h : Removes range file env) :
    Triple (fun _ => True) (fun w => w.disk file = none) (extractBlocksTxAndReceipts range env)
      (fun _ w => w.disk file = none) (fun _ w => w.disk file = none) (fun _ => False) := by
  have hblocks : file ≠ range.file .blocks → file ≠ range.file .transactions →
      Triple (fun _ => True) (fun w => w.disk file = none) (exportBlocksAndTransactions env range)
        (fun _ w => w.disk file = none) (fun _ w => w.disk file = none) (fun _ => False) :=
    fun hb ht => keeps_exportBlocks (writesKeep_disk (by simp [hb, ht]) _)
  simp only [RangeData.localFiles, List.mem_cons, List.not_mem_nil, or_false] at hfile
  rcases hfile with rfl | rfl | rfl | rfl | rfl
  · refine triple_extractBlocksTxAndReceipts
      ((triple_exportBlocks_blocks h.removes).pre fun _ _ => trivial) ?_
    exact triple_exportReceipts_other (by simp) (by simp) (by simp)
  · refine triple_extractBlocksTxAndReceipts
      ((triple_exportBlocks_raised h.removes).pre fun _ _ => trivial) ?_
    refine (Triple.of_exists (B := fun content w => w.disk (range.file .transactions) = content)
      fun content => ?_).pre fun w _ => ⟨_, rfl⟩
    have hnone : cleaned env (range.file .transactions) content = none :=
      cleaned_of_removes h.removes
    rw [← hnone]
    exact triple_exportReceipts_transactions
  · exact triple_extractBlocksTxAndReceipts
      (hblocks (whaleHashes_ne_file _ _ _) (whaleHashes_ne_file _ _ _))
      (triple_exportReceipts_hashes h.removes (h.whole rfl))
  · exact triple_extractBlocksTxAndReceipts (hblocks (by simp) (by simp))
      ((triple_exportReceipts_receipts h.removes).pre fun _ _ => trivial)
  · exact triple_extractBlocksTxAndReceipts (hblocks (by simp) (by simp))
      (triple_exportReceipts_other (by simp) (by simp) (by simp))

/-- What holds after an attempt, if a failed one leaves what a retry starts from. -/
theorem triple_withRetries {α : Type} {task : Env → Etl α} {P F : Worker → Prop}
    {Q : α → Worker → Prop}
    (h : ∀ env ∈ first :: retries, Triple (fun _ => True) P (task env) Q (fun _ => F)
      (fun _ => False)) (hretry : ∀ w, F w → P w) :
    Triple (fun _ => True) P (withRetries task first retries) Q (fun _ => F) (fun _ => False) := by
  induction retries generalizing first with
  | nil => exact h first List.mem_cons_self
  | cons retry retries ih =>
    refine Triple.tryCatch (h first List.mem_cons_self) fun _ => ?_
    exact (ih fun env henv => h env (List.mem_cons_of_mem _ henv)).pre hretry

/-- The first task and its retries. -/
theorem keeps_absent_retries (hfile : file ∈ range.localFiles)
    (h : ∀ env ∈ first :: retries, Removes range file env) :
    Triple (fun _ => True) (fun w => w.disk file = none)
      (withRetries (extractBlocksTxAndReceipts range) first retries)
      (fun _ w => w.disk file = none) (fun _ w => w.disk file = none) (fun _ => False) :=
  triple_withRetries (fun env henv => keeps_absent_extract hfile (h env henv)) fun _ hw => hw

/-- The second task and its retries. -/
theorem triple_transfers_retries (h : ∀ env ∈ first :: retries, Removes range file env) :
    Triple (fun _ => True) (fun w => w.disk file = none)
      (withRetries (extractTokenTransfers range) first retries)
      (fun _ w => w.disk file ≠ none ↔ file = range.file .tokenTransfers)
      (fun _ w => w.disk file = none) (fun _ => False) := by
  refine triple_withRetries (fun env henv => ?_) fun _ hw => hw
  by_cases hfile : file = range.file .tokenTransfers
  · subst hfile
    exact (triple_exportTransfers (h env henv).removes).conseq (fun _ _ => trivial)
      (fun _ _ hw => iff_of_true hw rfl) fun _ _ hw => hw
  · have hkeeps : Keeps (fun w : Worker => w.disk file = none) (exportTokenTransfers env range)
        (fun _ => False) :=
      keeps_exportTransfers (writesKeep_disk (by simp [hfile]) _)
    exact (hkeeps).post fun _ w hw =>
      iff_of_false (not_not.mpr hw) hfile

end runs

/-- **Temporary files.**  After a run of the two extraction tasks with their retries, a
file whose removals succeed, and that was not there before, is on the disk exactly if it
is the token transfers file and its task has succeeded. -/
theorem temp_file_left_iff (range : RangeData) (first first' : Env) (retries retries' : List Env)
    (w : Worker) (file : FileName) (hfile : file ∈ range.localFiles) (hfresh : w.disk file = none)
    (hextract : ∀ env ∈ first :: retries, Removes range file env)
    (htransfers : ∀ env ∈ first' :: retries', Removes range file env) :
    (extractionRun range first retries first' retries' w []).state.disk file ≠ none ↔
      file = range.file .tokenTransfers ∧
        ∃ stats, (extractionRun range first retries first' retries' w []).outcome = .ok stats := by
  have hrun : Triple (fun _ => True) (fun w => w.disk file = none)
      (extractionRun range first retries first' retries')
      (fun _ w => w.disk file ≠ none ↔ file = range.file .tokenTransfers)
      (fun _ w => w.disk file = none) (fun _ => False) :=
    (keeps_absent_retries hfile hextract).bind fun _ =>
      (triple_transfers_retries htransfers).bind fun _ => Triple.pure fun _ hw => hw
  have hend := (hrun w [] hfresh fun _ h => absurd h List.not_mem_nil).2
  rcases hr : extractionRun range first retries first' retries' w [] with ⟨o, w', cs'⟩
  rw [hr] at hend
  cases o with
  | ok stats =>
    refine hend.trans ⟨fun h => ⟨h, stats, rfl⟩, And.left⟩
  | raised e =>
    refine iff_of_false (not_not.mpr hend) ?_
    rintro ⟨-, stats, hstats⟩
    cases hstats
  | cut => exact hend.elim

/-! ### A run with a retry, and a run in which nothing fails -/

/-- Every call succeeds, and every command leaves empty files. -/
def quietEnv : Env where
  shell := fun _ _ => ⟨fun _ => some .empty, true⟩
  openFails := fun _ => false
  write := fun _ => .ok
  touchFails := fun _ => false
  statFails := fun _ => false
  upload := fun _ => .ok
  removeFails := fun _ => false

/-- The bucket does not answer. -/
def noUploadEnv : Env := { quietEnv with upload := fun _ => .fails false }

def freshWorker : Worker := ⟨fun _ => none, fun _ => none, none⟩

def oneRange : RangeData := ⟨1, 20, "2026-06-04"⟩

theorem retried_run_cleans :
    (extractionRun oneRange noUploadEnv [quietEnv] noUploadEnv [quietEnv] freshWorker []).state.disk
      (oneRange.file .transactions) = none := by
  have hremoves : ∀ env ∈ [noUploadEnv, quietEnv],
      Removes oneRange (oneRange.file .transactions) env := by
    intro env henv
    simp only [List.mem_cons, List.not_mem_nil, or_false] at henv
    rcases henv with rfl | rfl
    · exact ⟨rfl, fun h => absurd h (by decide)⟩
    · exact ⟨rfl, fun h => absurd h (by decide)⟩
  have hleft := temp_file_left_iff oneRange noUploadEnv noUploadEnv [quietEnv] [quietEnv]
    freshWorker (oneRange.file .transactions) (by decide) rfl hremoves hremoves
  exact not_not.mp fun h => absurd (hleft.mp h).1 (by decide)

/-- **Nothing fails**, and a file stays: that of the token transfers, which no task of
the DAG takes over. -/
theorem success_leaves_transfers :
    (∀ file, freshWorker.disk file = none) ∧
      (∃ stats, (extractionRun oneRange quietEnv [] quietEnv [] freshWorker []).outcome =
        .ok stats) ∧
      ∃ file ∈ oneRange.localFiles,
        (extractionRun oneRange quietEnv [] quietEnv [] freshWorker []).state.disk file ≠ none :=
  ⟨fun _ => rfl, ⟨_, rfl⟩, oneRange.file .tokenTransfers, by decide, by decide⟩

end Storage.Etl

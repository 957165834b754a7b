import EthPipeline.Storage.TempFiles

/-!
# Retries of the receipts task

`export_receipts_task` of `dags/eth_etl_dag.py` is retried with the arguments of the
attempt that failed, over the transactions file that an earlier task has left.

* `retryable_iff`: which failed attempts can be retried.
* `failed_upload_not_retryable`: one that cannot.
-/

namespace Storage.Etl

open Exec

/-- Every call of the attempt succeeds; the command writes a receipt for each hash of its
file, in some order. -/
structure Healthy (receiptOf : String → Line) (env : Env) : Prop where
  shell : ∀ hashFile receiptFile disk hashes, disk hashFile = some (.ofTexts hashes) →
    (env.shell (.exportReceiptsAndLogs hashFile receiptFile) disk).exitsZero ∧
      ∃ receipts,
        (env.shell (.exportReceiptsAndLogs hashFile receiptFile) disk).written receiptFile =
          some receipts ∧ receipts.lines.Perm (hashes.map receiptOf)
  opens : ∀ file, env.openFails file = false
  writes : ∀ file, env.write file = .ok
  touches : ∀ file, env.touchFails file = false
  stats : ∀ file, env.statFails file = false
  uploads : ∀ file, env.upload file = .ok

/-- What a failed attempt should leave: the transactions file as it was, and a healthy
retry then uploads the receipts of its whales. -/
structure Retryable (receiptOf : String → Line) (range : RangeData) (txs : File) (w : Worker) :
    Prop where
  kept : w.disk (range.file .transactions) = some txs
  recovers : ∀ hashes, collectHashes weiThreshold txs.lines = .ok hashes →
    ∀ env, Healthy receiptOf env → ∃ stats w' receipts,
      exportReceiptsAndLogs env (range.file .transactions) range w [] = ⟨.ok stats, w', []⟩ ∧
        w'.bucket (range.path .receipts) = some receipts ∧
        receipts.lines.Perm (hashes.map receiptOf)

/-- Receipts of an earlier run that stay on the disk; `touch` leaves them there. -/
def StaleReceipts (env : Env) (range : RangeData) (txs : File) (w : Worker) : Prop :=
  collectHashes weiThreshold txs.lines = .ok [] ∧ env.removeFails (range.file .receipts) ∧
    ∃ receipts, w.disk (range.file .receipts) = some receipts ∧ receipts.lines ≠ []

section retry

variable {receiptOf : String → Line} {env : Env} {range : RangeData} {txs : File} {w w' : Worker}

/-- Deleting the files ends with a value. -/
theorem exists_deleteFiles (env : Env) (range : RangeData) (w : Worker) :
    ∃ w', deleteFiles env (range.file .transactions) range w [] = ⟨.ok (), w', []⟩ := by
  have hdelete : Triple (fun _ => True) (fun w' => w'.hashFile = w.hashFile ∧
        w'.disk (range.file .transactions) = w.disk (range.file .transactions))
      (deleteFiles env (range.file .transactions) range) _ (fun _ _ => False) (fun _ => False) :=
    triple_deleteFiles
  obtain ⟨_, w', cs', hrun, -⟩ := hdelete.exists_ok ⟨rfl, rfl⟩ fun _ h => absurd h List.not_mem_nil
  cases cs' with
  | nil => exact ⟨w', hrun⟩
  | cons e _ => exact e.elim

/-- What a healthy attempt uploads. -/
theorem healthy_attempt (henv : Healthy receiptOf env)
    (htxs : w.disk (range.file .transactions) = some txs) {hashes : List String}
    (hhashes : collectHashes weiThreshold txs.lines = .ok hashes) :
    ∃ stats w' receipts,
      exportReceiptsAndLogs env (range.file .transactions) range w [] = ⟨.ok stats, w', []⟩ ∧
        w'.bucket (range.path .receipts) = some receipts ∧
        if hashes = [] then receipts = (w.disk (range.file .receipts)).getD .empty
        else receipts.lines.Perm (hashes.map receiptOf) := by
  let w₁ : Worker := { w with hashFile := none }.write range.hashFile (some (.ofTexts hashes))
  let w₂ : Worker := { w₁ with hashFile := some range.hashFile }
  have hextract : extractTxHashes env (range.file .transactions) { w with hashFile := none } [] =
      ⟨.ok (range.hashFile, hashes.length), w₁, []⟩ :=
    extractTxHashes_eq_ok.mpr ⟨txs, hashes, htxs, henv.opens _, hhashes, henv.writes _, rfl, rfl, rfl⟩
  have hkept : w₂.disk (range.file .receipts) = w.disk (range.file .receipts) :=
    Function.update_of_ne (file_ne_whaleHashes range .receipts .transactions)
      (some (File.ofTexts hashes)) w.disk
  -- the receipts are found, and are on the disk
  obtain ⟨counts, w₃, receipts, hfind, hreceipts, hcase⟩ : ∃ counts w₃ receipts,
      findReceipts env range range.hashFile hashes.length w₂ [] = ⟨.ok counts, w₃, []⟩ ∧
        w₃.disk (range.file .receipts) = some receipts ∧
        if hashes = [] then receipts = (w.disk (range.file .receipts)).getD .empty
        else receipts.lines.Perm (hashes.map receiptOf) := by
    by_cases hnil : hashes = []
    · refine ⟨(0, 0), w₂.write (range.file .receipts)
        (some ((w₂.disk (range.file .receipts)).getD .empty)),
        (w.disk (range.file .receipts)).getD .empty, ?_, ?_, ?_⟩
      · unfold findReceipts
        rw [if_pos (by rw [hnil]; rfl)]
        exact noReceipts_eq_ok.mpr ⟨henv.touches _, rfl, rfl, rfl⟩
      · rw [Worker.disk_write, hkept]
      · rw [if_pos hnil]
    · obtain ⟨hzero, receipts, hwritten, hperm⟩ := henv.shell range.hashFile (range.file .receipts)
        w₂.disk hashes (Worker.disk_write _)
      refine ⟨(receipts.rows, receipts.size), w₂.write (range.file .receipts) (some receipts),
        receipts, ?_, Worker.disk_write _, ?_⟩
      · unfold findReceipts
        rw [if_neg fun h => hnil (List.length_eq_zero_iff.mp h)]
        refine fetchReceipts_eq_ok.mpr ⟨runShell_eq_ok.mpr ⟨hzero, ?_, rfl⟩, receipts,
          Worker.disk_write _, henv.opens _, henv.stats _, rfl⟩
        show _ = Worker.writeOutput _ w₂ (range.file .receipts)
        unfold Worker.writeOutput
        rw [hwritten]
      · rwa [if_neg hnil]
  have hbody : extractReceipts env (range.file .transactions) range { w with hashFile := none } [] =
      ⟨.ok ⟨hashes.length, counts.1, counts.2⟩, w₃.store (range.path .receipts) receipts, []⟩ := by
    refine bind_eq_ok.mpr ⟨_, _, _, hextract, ?_⟩
    refine bind_eq_ok.mpr ⟨(), w₂, [], rfl, ?_⟩
    refine bind_eq_ok.mpr ⟨counts, w₃, [], hfind, ?_⟩
    exact bind_eq_ok.mpr ⟨(), _, _, uploadToGcs_eq_ok.mpr ⟨receipts, hreceipts, henv.uploads _,
      rfl, rfl⟩, rfl⟩
  obtain ⟨w₄, hdelete⟩ := exists_deleteFiles env range (w₃.store (range.path .receipts) receipts)
  refine ⟨⟨hashes.length, counts.1, counts.2⟩, w₄, receipts, ?_, ?_, hcase⟩
  · refine bind_eq_ok.mpr ⟨(), { w with hashFile := none }, [], rfl, ?_⟩
    exact tryFinally_eq_ok.mpr ⟨_, _, hbody, hdelete⟩
  · rw [bucket_deleteFiles hdelete, Worker.bucket_store]

/-- What an upload of the receipts file would store after a `touch`. -/
def touched (range : RangeData) (w : Worker) : File :=
  (w.disk (range.file .receipts)).getD .empty

/-- Without whales the attempt does not change it. -/
theorem keeps_touched {content : File} (hhashes : collectHashes weiThreshold txs.lines = .ok []) :
    Triple (fun _ => True)
      (fun w => w.disk (range.file .transactions) = some txs ∧ touched range w = content)
      (extractReceipts env (range.file .transactions) range)
      (fun _ w => touched range w = content) (fun _ w => touched range w = content)
      (fun _ => False) := by
  have hwrite : ∀ file, range.file .receipts ≠ file → ∀ (w : Worker) stored,
      touched range w = content → touched range (w.write file stored) = content := by
    intro file hne w stored hw
    unfold touched
    rwa [w.disk_write_of_ne hne]
  have hextract : Keeps (fun w => touched range w = content)
      (extractTxHashes env (range.file .transactions)) (fun _ => False) :=
    keeps_readFile.bind fun _ => (Keeps.ofExcept _).bind fun _ =>
      (keeps_writeFile (hwrite _ (by simp))).bind fun _ => Keeps.pure _
  have hnone : Triple (fun _ => True)
      (fun w => w.disk (range.file .transactions) = some txs ∧ touched range w = content)
      (extractTxHashes env (range.file .transactions)) (fun found _ => found.2 = 0)
      (fun _ w => touched range w = content) (fun _ => False) := by
    refine Triple.of_ok (hextract.conseq (fun _ hw => hw.2) (fun _ _ _ => trivial)
      fun _ _ hw => hw) fun w cs found w' cs' hw hrun => ?_
    obtain ⟨txs', hashes, htxs', -, hhashes', -, rfl, -, -⟩ := extractTxHashes_eq_ok.mp hrun
    obtain rfl : txs = txs' := Option.some.inj (hw.1.symm.trans htxs')
    obtain rfl : [] = hashes := Except.ok.inj (hhashes.symm.trans hhashes')
    rfl
  have hboth : Triple (fun _ => True)
      (fun w => w.disk (range.file .transactions) = some txs ∧ touched range w = content)
      (extractTxHashes env (range.file .transactions))
      (fun found w => found.2 = 0 ∧ touched range w = content)
      (fun _ w => touched range w = content) (fun _ => False) :=
    (hnone.and hextract).conseq (fun _ hw => ⟨hw, hw.2⟩) (fun _ _ hw => hw) fun _ _ hw => hw.2
  refine hboth.bind fun found => Triple.given fun hzero => ?_
  refine Keeps.bind (Keeps.modifyState fun _ hw => hw) fun _ => ?_
  have htouch : Keeps (fun w => touched range w = content) (touch env (range.file .receipts))
      (fun _ => False) := by
    refine Keeps.ite (Keeps.raise _) (Keeps.modifyState fun w hw => ?_)
    unfold touched
    rw [Worker.disk_write]
    exact hw
  have hfind : Keeps (fun w => touched range w = content)
      (findReceipts env range found.1 found.2) (fun _ => False) := by
    unfold findReceipts
    rw [if_pos hzero]
    exact htouch.bind fun _ => Keeps.pure _
  exact hfind.bind fun _ => (keeps_uploadToGcs fun _ _ hw => hw).bind fun _ => Keeps.pure _

/-- What a failed attempt without whales leaves of it. -/
theorem touched_of_raised {e : EtlError}
    (htxs : w.disk (range.file .transactions) = some txs)
    (hhashes : collectHashes weiThreshold txs.lines = .ok [])
    (hraised : (exportReceiptsAndLogs env (range.file .transactions) range w []).outcome =
      .raised e) :
    touched range (exportReceiptsAndLogs env (range.file .transactions) range w []).state =
      if env.removeFails (range.file .receipts) then touched range w else .empty := by
  have hlast : Triple (fun _ => True) (fun s => touched range s = touched range w)
      (deleteFiles env (range.file .transactions) range)
      (fun _ s => touched range s =
        if env.removeFails (range.file .receipts) then touched range w else .empty)
      (fun _ s => touched range s =
        if env.removeFails (range.file .receipts) then touched range w else .empty)
      (fun _ => False) := by
    refine (Triple.of_exists (B := fun content s => content.getD .empty = touched range w ∧
      s.disk (range.file .receipts) = content) fun content => Triple.given fun hcontent => ?_).pre
        fun s hs => ⟨s.disk (range.file .receipts), hs, rfl⟩
    refine (triple_deleteFiles_always (.inr rfl)).post fun _ s hs => ?_
    unfold touched at hcontent ⊢
    rw [hs, ← hcontent]
    unfold cleaned
    split <;> rfl
  have hcall : Triple (fun _ => True) (fun s => s.disk (range.file .transactions) = some txs ∧
      touched range s = touched range w)
      (exportReceiptsAndLogs env (range.file .transactions) range)
      (fun _ s => touched range s =
        if env.removeFails (range.file .receipts) then touched range w else .empty)
      (fun _ s => touched range s =
        if env.removeFails (range.file .receipts) then touched range w else .empty)
      (fun _ => False) := by
    refine Triple.bind (Triple.modifyState (Q := fun _ s =>
      s.disk (range.file .transactions) = some txs ∧ touched range s = touched range w)
      fun s hs => hs) fun _ => ?_
    exact Triple.tryFinally (keeps_touched hhashes) (fun _ => hlast) fun _ => hlast
  exact hcall.of_raised ⟨htxs, rfl⟩ (fun _ h => absurd h List.not_mem_nil) hraised

/-- The texts of a file, one a line. -/
def textOf : Line → Option String
  | .text s => some s
  | _ => none

/-- An attempt in which nothing fails. -/
def healthyEnv (receiptOf : String → Line) : Env where
  shell := fun command disk =>
    match command with
    | .exportReceiptsAndLogs hashFile _ =>
      ⟨fun _ => (disk hashFile).map fun hashes =>
        ⟨(hashes.lines.filterMap textOf).map receiptOf, hashes.size⟩, true⟩
    | _ => ⟨fun _ => some .empty, true⟩
  openFails := fun _ => false
  write := fun _ => .ok
  touchFails := fun _ => false
  statFails := fun _ => false
  upload := fun _ => .ok
  removeFails := fun _ => false

theorem filterMap_textOf (texts : List String) : (texts.map Line.text).filterMap textOf = texts := by
  rw [List.filterMap_map]
  exact List.filterMap_some

theorem healthy_healthyEnv (receiptOf : String → Line) : Healthy receiptOf (healthyEnv receiptOf) where
  shell := by
    intro hashFile receiptFile disk hashes hdisk
    refine ⟨rfl, ⟨hashes.map receiptOf, (File.ofTexts hashes).size⟩, ?_, List.Perm.refl _⟩
    show (disk hashFile).map _ = _
    rw [hdisk, Option.map_some]
    exact congrArg (fun texts => some (⟨texts.map receiptOf, _⟩ : File)) (filterMap_textOf hashes)
  opens := fun _ => rfl
  writes := fun _ => rfl
  touches := fun _ => rfl
  stats := fun _ => rfl
  uploads := fun _ => rfl

theorem touched_of_disk {receipts : File} (h : w.disk (range.file .receipts) = some receipts) :
    touched range w = receipts := by
  unfold touched
  rw [h]
  rfl

/-- Without stale receipts there is nothing for `touch` to keep. -/
theorem lines_touched (hhashes : collectHashes weiThreshold txs.lines = .ok [])
    (hstays : env.removeFails (range.file .receipts)) (hstale : ¬ StaleReceipts env range txs w) :
    (touched range w).lines = [] := by
  by_contra hne
  cases hreceipts : w.disk (range.file .receipts) with
  | none =>
    unfold touched at hne
    rw [hreceipts] at hne
    exact hne rfl
  | some stale =>
    rw [touched_of_disk hreceipts] at hne
    exact hstale ⟨hhashes, hstays, stale, hreceipts, hne⟩

/-- **Retries of a failed attempt.**  The transactions file is there for the next attempt
exactly if removing it has failed; and then a healthy retry uploads the receipts of its
whales, unless it has none and an old receipts file is left. -/
theorem retryable_iff (receiptOf : String → Line) (env : Env) (range : RangeData) (txs : File)
    (w : Worker) (e : EtlError) (htxs : w.disk (range.file .transactions) = some txs)
    (hraised : (exportReceiptsAndLogs env (range.file .transactions) range w []).outcome =
      .raised e) :
    Retryable receiptOf range txs
        (exportReceiptsAndLogs env (range.file .transactions) range w []).state ↔
      env.removeFails (range.file .transactions) ∧ ¬ StaleReceipts env range txs w := by
  have hdisk := triple_exportReceipts_transactions.of_raised htxs
    (fun _ h => absurd h List.not_mem_nil) hraised
  constructor
  · rintro ⟨hkept, hrecovers⟩
    refine ⟨?_, ?_⟩
    · by_contra hremoved
      rw [hdisk, cleaned, if_neg hremoved] at hkept
      cases hkept
    · rintro ⟨hhashes, hstays, stale, hstale, hne⟩
      have henv := healthy_healthyEnv receiptOf
      obtain ⟨stats, w', receipts, hrun, hbucket, hperm⟩ := hrecovers [] hhashes _ henv
      obtain ⟨stats', w'', receipts', hrun', hbucket', hcase⟩ := healthy_attempt henv hkept hhashes
      rw [hrun] at hrun'
      cases hrun'
      obtain rfl : receipts = receipts' := Option.some.inj (hbucket.symm.trans hbucket')
      -- what is uploaded are the old receipts
      have hold := touched_of_raised htxs hhashes hraised
      rw [if_pos hstays] at hold
      rw [if_pos rfl] at hcase
      have hsame : receipts = stale := hcase.trans (hold.trans (touched_of_disk hstale))
      rw [hsame] at hperm
      exact hne hperm.eq_nil
  · rintro ⟨hremove, hstale⟩
    have hkept : (exportReceiptsAndLogs env (range.file .transactions) range w []).state.disk
        (range.file .transactions) = some txs := by
      rw [hdisk, cleaned, if_pos hremove]
    refine ⟨hkept, fun hashes hhashes env' henv' => ?_⟩
    obtain ⟨stats, w', receipts, hrun, hbucket, hcase⟩ := healthy_attempt henv' hkept hhashes
    refine ⟨stats, w', receipts, hrun, hbucket, ?_⟩
    by_cases hnil : hashes = []
    · rw [if_pos hnil] at hcase
      subst hnil
      have hold : receipts = if env.removeFails (range.file .receipts) then touched range w
          else .empty := hcase.trans (touched_of_raised htxs hhashes hraised)
      have hlines : receipts.lines = [] := by
        rw [hold]
        split
        · next hstays => exact lines_touched hhashes hstays hstale
        · rfl
      rw [hlines]
      exact List.Perm.nil
    · rwa [if_neg hnil] at hcase

end retry

/-! ### An upload that fails -/

/-- A transaction of 150 ETH. -/
def oneWhale : File := ⟨[.json ⟨none, some (some (150 * 10 ^ 18)), some "0x1"⟩], 120⟩

/-- The worker after the earlier task. -/
def extractedWorker : Worker :=
  ⟨fun file => if file = oneRange.file .transactions then some oneWhale else none, fun _ => none,
    none⟩

/-- The bucket does not take the receipts; the removals succeed or fail. -/
def uploadFails (removeFails : Bool) : Env :=
  { healthyEnv .text with upload := fun _ => .fails false, removeFails := fun _ => removeFails }

/-- What the failed attempt leaves. -/
def afterFailure (removeFails : Bool) : Worker :=
  (exportReceiptsAndLogs (uploadFails removeFails) (oneRange.file .transactions) oneRange
    extractedWorker []).state

theorem undeleted_retryable : Retryable .text oneRange oneWhale (afterFailure true) := by
  refine (retryable_iff .text (uploadFails true) oneRange oneWhale extractedWorker
    .googleCloudError rfl rfl).mpr ⟨rfl, ?_⟩
  rintro ⟨hhashes, -⟩
  exact absurd hhashes (by decide +kernel)

/-- **A failed upload** deletes the transactions file, and no retry can find it. -/
theorem failed_upload_not_retryable :
    (exportReceiptsAndLogs (uploadFails false) (oneRange.file .transactions) oneRange
        extractedWorker []).outcome = .raised .googleCloudError ∧
      ¬ Retryable .text oneRange oneWhale (afterFailure false) ∧
      (exportReceiptsAndLogs (healthyEnv .text) (oneRange.file .transactions) oneRange
        (afterFailure false) []).outcome = .raised .fileNotFoundError := by
  refine ⟨rfl, fun h => ?_, rfl⟩
  have hkept := h.kept
  rw [show (afterFailure false).disk (oneRange.file .transactions) = none from rfl] at hkept
  cases hkept

end Storage.Etl

import EthPipeline.Storage.Extract

/-!
# What the extraction functions leave on the disk

* `triple_exportBlocks_blocks`, `triple_exportBlocks_raised`: the two files of
  `export_blocks_and_transactions`.
* `triple_exportReceipts_transactions`, `triple_exportReceipts_receipts`,
  `triple_exportReceipts_hashes`: the three files that `export_receipts_and_logs` deletes.
* `triple_exportTransfers`: the file of `export_token_transfers` stays after a success.
-/

namespace Storage.Etl

open Exec

/-- What `_cleanup` makes of the content of a file. -/
def cleaned (env : Env) (file : FileName) (content : Option File) : Option File :=
  if env.removeFails file then content else none

section cleanup

variable {env : Env} {range : RangeData} {txFile file : FileName} {content : Option File}
  {E : EtlError → Worker → Prop} {I : Worker → Prop}

theorem cleaned_of_removes (h : env.removeFails file = false) : cleaned env file content = none := by
  simp [cleaned, h]

theorem cleaned_cleaned : cleaned env file (cleaned env file content) = cleaned env file content := by
  unfold cleaned
  split <;> rfl

theorem triple_cleanup_of_ne {other : FileName} (h : file ≠ other) :
    Triple (fun _ => True) (fun w => w.disk file = content) (cleanup env other)
      (fun _ w => w.disk file = content) E I :=
  triple_cleanup_keeps fun w _ hw => (w.disk_write_of_ne h).trans hw

/-- **What a list of deletions leaves** of a file. -/
theorem triple_forEach_cleanup (paths : List (Option FileName)) :
    Triple (fun _ => True) (fun w => w.disk file = content) (forEach paths (cleanupPath env))
      (fun _ w => w.disk file = if some file ∈ paths then cleaned env file content else content)
      E I := by
  induction paths generalizing content with
  | nil => exact Triple.pure fun w hw => by simpa using hw
  | cons path paths ih =>
    cases path with
    | none =>
      refine Triple.bind (Triple.pure fun w hw => hw) fun _ => ih.post fun _ w hw => ?_
      simpa using hw
    | some other =>
      by_cases hother : file = other
      · subst hother
        refine Triple.bind triple_cleanup fun _ => ih.post fun _ w hw => ?_
        rw [if_pos List.mem_cons_self, hw]
        split
        · exact cleaned_cleaned
        · rfl
      · refine Triple.bind (triple_cleanup_of_ne hother) fun _ => ih.post fun _ w hw => ?_
        simpa [hother] using hw

theorem triple_deleteFiles {hashFile : Option FileName} :
    Triple (fun _ => True) (fun w => w.hashFile = hashFile ∧ w.disk file = content)
      (deleteFiles env txFile range)
      (fun _ w => w.disk file =
        if some file ∈ [some txFile, hashFile, some (range.file .receipts)] then
          cleaned env file content else content) E I := by
  refine Triple.bind (Triple.getState (Q := fun a w => a.hashFile = hashFile ∧
    w.disk file = content) fun w hw => hw) fun a => Triple.given fun ha => ?_
  rw [ha]
  exact triple_forEach_cleanup _

/-- The first and the last file are deleted whatever the variable `hash_file` is. -/
theorem triple_deleteFiles_always (h : file = txFile ∨ file = range.file .receipts) :
    Triple (fun _ => True) (fun w => w.disk file = content) (deleteFiles env txFile range)
      (fun _ w => w.disk file = cleaned env file content) E I := by
  refine (Triple.of_exists (B := fun hashFile w => w.hashFile = hashFile ∧ w.disk file = content)
    fun hashFile => triple_deleteFiles.post fun _ w hw => ?_).pre fun w hw => ⟨w.hashFile, rfl, hw⟩
  rwa [if_pos (by rcases h with rfl | rfl <;> simp)] at hw

end cleanup

/-! ### Blocks and transactions -/

section functions

variable {env : Env} {range : RangeData} {file : FileName} {content : Option File}
  {E : EtlError → Worker → Prop} {I : Worker → Prop}

theorem triple_cleanup_absent (h : env.removeFails file = false) :
    Triple (fun _ => True) (fun _ => True) (cleanup env file) (fun _ w => w.disk file = none) E
      I := by
  refine (Triple.of_exists (B := fun content w => w.disk file = content) fun content =>
    triple_cleanup.post fun _ w hw => ?_).pre fun w _ => ⟨w.disk file, rfl⟩
  rw [hw, h]
  rfl

/-- The block file does not outlive the call. -/
theorem triple_exportBlocks_blocks (h : env.removeFails (range.file .blocks) = false) :
    Triple (fun _ => True) (fun _ => True) (exportBlocksAndTransactions env range)
      (fun _ w => w.disk (range.file .blocks) = none)
      (fun _ w => w.disk (range.file .blocks) = none) (fun _ => False) :=
  Triple.tryFinally (B := fun _ _ => True) (F := fun _ _ => True)
    (Keeps.tryCatch (keeps_extractBlocks (writesKeep_true _ _)) fun _ =>
      (keeps_cleanup fun _ _ _ => trivial).bind fun _ => Keeps.raise _)
    (fun _ => triple_cleanup_absent h) fun _ => triple_cleanup_absent h

/-- The transactions file stays for the receipts, unless the call raises. -/
theorem triple_exportBlocks_raised (h : env.removeFails (range.file .transactions) = false) :
    Triple (fun _ => True) (fun _ => True) (exportBlocksAndTransactions env range)
      (fun _ _ => True) (fun _ w => w.disk (range.file .transactions) = none) (fun _ => False) := by
  have hcatch : Triple (fun _ => True) (fun _ => True)
      (tryCatch (extractBlocks env range) fun e => do
        cleanup env (range.file .transactions)
        raise e)
      (fun _ _ => True) (fun _ w => w.disk (range.file .transactions) = none) (fun _ => False) :=
    Triple.tryCatch (keeps_extractBlocks (writesKeep_true _ _)) fun e =>
      (triple_cleanup_absent h).bind fun _ => Triple.raise fun _ hw => hw
  refine Triple.tryFinally hcatch (fun stats => ?_) fun e => ?_
  · exact triple_cleanup_keeps fun w content hw => hw
  · exact triple_cleanup_of_ne (by simp)

/-! ### Receipts -/

/-- After a success `hash_file` names the file of the hashes; after a failure it may not
be set yet. -/
theorem triple_extractReceipts {J : Worker → Prop}
    (hJ : ∀ w left, env.write range.hashFile = .breaksOff left → J w →
      J (w.write range.hashFile (some left))) :
    Triple (fun _ => True) (fun w => w.hashFile = none ∧ J w)
      (extractReceipts env (range.file .transactions) range)
      (fun _ w => w.hashFile = some range.hashFile)
      (fun _ w => w.hashFile = some range.hashFile ∨ w.hashFile = none ∧ J w) (fun _ => False) := by
  have hwrite : ∀ hashes, Triple (fun _ => True) (fun w => w.hashFile = none ∧ J w)
      (writeFile env range.hashFile (.ofTexts hashes)) (fun _ _ => True)
      (fun _ w => w.hashFile = none ∧ J w) (fun _ => False) := by
    intro hashes
    unfold writeFile
    cases hcase : env.write range.hashFile with
    | ok => exact Triple.modifyState fun _ _ => trivial
    | cannotOpen => exact Triple.raise fun _ hw => hw
    | breaksOff left =>
      refine Triple.bind (Triple.modifyState (Q := fun _ w => w.hashFile = none ∧ J w)
        fun w hw => ⟨hw.1, hJ w left hcase hw.2⟩) fun _ => Triple.raise fun _ hw => hw
  have hextract : Triple (fun _ => True) (fun w => w.hashFile = none ∧ J w)
      (extractTxHashes env (range.file .transactions))
      (fun found _ => found.1 = range.hashFile)
      (fun _ w => w.hashFile = some range.hashFile ∨ w.hashFile = none ∧ J w)
      (fun _ => False) := by
    refine Triple.bind ((keeps_readFile).conseq (fun _ hw => hw)
      (fun _ _ hw => hw) fun _ _ hw => .inr hw) fun txs => ?_
    refine Triple.bind (((Keeps.ofExcept _)).conseq (fun _ hw => hw)
      (fun _ _ hw => hw) fun _ _ hw => .inr hw) fun hashes => ?_
    exact ((hwrite hashes).conseq (fun _ hw => hw) (fun _ _ hw => hw) fun _ _ hw => .inr hw).bind
      fun _ => Triple.pure fun _ _ => rfl
  -- from here on the variable is set
  have hset : ∀ {α : Type} {c : Etl α},
      Keeps (fun w => w.hashFile = some range.hashFile) c (fun _ => False) →
      Triple (fun _ => True) (fun w => w.hashFile = some range.hashFile) c
        (fun _ w => w.hashFile = some range.hashFile)
        (fun _ w => w.hashFile = some range.hashFile ∨ w.hashFile = none ∧ J w)
        (fun _ => False) := fun h =>
    h.conseq (fun _ hw => hw) (fun _ _ hw => hw) fun _ _ hw => .inl hw
  refine hextract.bind fun found => ?_
  refine Triple.bind (Triple.modifyState (Q := fun _ w => w.hashFile = some range.hashFile)
    fun w hw => congrArg some hw) fun _ => ?_
  refine (hset (keeps_findReceipts (fun _ _ hw => hw) _ _)).bind fun _ => ?_
  exact (hset (keeps_uploadToGcs fun _ _ hw => hw)).bind fun _ => Triple.pure fun _ hw => hw

/-- A file that is not one of the call's stays as it is. -/
theorem triple_exportReceipts_other (htxs : file ≠ range.file .transactions)
    (hhashes : file ≠ range.hashFile) (hreceipts : file ≠ range.file .receipts) :
    Triple (fun _ => True) (fun w => w.disk file = content)
      (exportReceiptsAndLogs env (range.file .transactions) range)
      (fun _ w => w.disk file = content) (fun _ w => w.disk file = content) (fun _ => False) := by
  have hvariable : Triple (fun _ => True) (fun w : Worker => w.hashFile = none ∧ True)
      (extractReceipts env (range.file .transactions) range)
      (fun _ w => w.hashFile = some range.hashFile)
      (fun _ w => w.hashFile = some range.hashFile ∨ w.hashFile = none ∧ True) (fun _ => False) :=
    triple_extractReceipts fun _ _ _ _ => trivial
  have hdisk : Keeps (fun w : Worker => w.disk file = content)
      (extractReceipts env (range.file .transactions) range) (fun _ => False) :=
    keeps_extractReceipts (writesKeep_disk (by simp [hhashes, hreceipts]) _)
  have hlast : ∀ hashFile, hashFile ≠ some file →
      Triple (fun _ => True) (fun w => w.hashFile = hashFile ∧ w.disk file = content)
        (deleteFiles env (range.file .transactions) range) (fun _ w => w.disk file = content)
        (fun _ w => w.disk file = content) (fun _ => False) := by
    intro hashFile hne
    refine triple_deleteFiles.post fun _ w hw => ?_
    rwa [if_neg (by simp [htxs, hreceipts, hne.symm])] at hw
  have hset : some range.hashFile ≠ some file := fun h => hhashes (Option.some.inj h).symm
  refine Triple.bind (Triple.modifyState (Q := fun _ w => (w.hashFile = none ∧ True) ∧
    w.disk file = content) fun w hw => ⟨⟨rfl, trivial⟩, hw⟩) fun _ => ?_
  refine Triple.tryFinally (hvariable.and hdisk)
    (fun _ => hlast _ hset) fun _ => ?_
  rintro w cs ⟨hfound | ⟨hnone, -⟩, hw⟩ hH
  · exact hlast _ hset w cs ⟨hfound, hw⟩ hH
  · exact hlast none (by simp) w cs ⟨hnone, hw⟩ hH

/-- **The transactions file is deleted**, whatever has happened. -/
theorem triple_exportReceipts_transactions :
    Triple (fun _ => True) (fun w => w.disk (range.file .transactions) = content)
      (exportReceiptsAndLogs env (range.file .transactions) range)
      (fun _ w => w.disk (range.file .transactions) =
        cleaned env (range.file .transactions) content)
      (fun _ w => w.disk (range.file .transactions) =
        cleaned env (range.file .transactions) content) (fun _ => False) := by
  have hbody : Keeps (fun w => w.disk (range.file .transactions) = content)
      (extractReceipts env (range.file .transactions) range) (fun _ => False) :=
    keeps_extractReceipts (writesKeep_disk (by simp) _)
  have hlast : Triple (fun _ => True) (fun w => w.disk (range.file .transactions) = content)
      (deleteFiles env (range.file .transactions) range)
      (fun _ w => w.disk (range.file .transactions) =
        cleaned env (range.file .transactions) content)
      (fun _ w => w.disk (range.file .transactions) =
        cleaned env (range.file .transactions) content) (fun _ => False) :=
    triple_deleteFiles_always (.inl rfl)
  refine Triple.bind (Triple.modifyState (Q := fun _ w =>
    w.disk (range.file .transactions) = content) fun w hw => hw) fun _ => ?_
  exact Triple.tryFinally hbody (fun _ => hlast) fun _ => hlast

/-- So is the receipts file. -/
theorem triple_exportReceipts_receipts (h : env.removeFails (range.file .receipts) = false) :
    Triple (fun _ => True) (fun _ => True)
      (exportReceiptsAndLogs env (range.file .transactions) range)
      (fun _ w => w.disk (range.file .receipts) = none)
      (fun _ w => w.disk (range.file .receipts) = none) (fun _ => False) := by
  have hlast : Triple (fun _ => True) (fun _ => True)
      (deleteFiles env (range.file .transactions) range)
      (fun _ w => w.disk (range.file .receipts) = none)
      (fun _ w => w.disk (range.file .receipts) = none) (fun _ => False) := by
    refine (Triple.of_exists (B := fun content w => w.disk (range.file .receipts) = content)
      fun content => (triple_deleteFiles_always (.inr rfl)).post fun _ w hw => ?_).pre
        fun w _ => ⟨_, rfl⟩
    rw [hw, cleaned_of_removes h]
  refine Triple.bind (Triple.modifyState (Q := fun _ _ => True) fun w _ => trivial) fun _ => ?_
  exact Triple.tryFinally (keeps_extractReceipts (writesKeep_true _ _)) (fun _ => hlast)
    fun _ => hlast

/-- **The file of the hashes is deleted**, if writing it has not broken off: its name is
known only after that. -/
theorem triple_exportReceipts_hashes (h : env.removeFails range.hashFile = false)
    (hwrite : ∀ left, env.write range.hashFile ≠ .breaksOff left) :
    Triple (fun _ => True) (fun w => w.disk range.hashFile = none)
      (exportReceiptsAndLogs env (range.file .transactions) range)
      (fun _ w => w.disk range.hashFile = none) (fun _ w => w.disk range.hashFile = none)
      (fun _ => False) := by
  have hbody : Triple (fun _ => True)
      (fun w => w.hashFile = none ∧ w.disk range.hashFile = none)
      (extractReceipts env (range.file .transactions) range)
      (fun _ w => w.hashFile = some range.hashFile)
      (fun _ w => w.hashFile = some range.hashFile ∨
        w.hashFile = none ∧ w.disk range.hashFile = none) (fun _ => False) :=
    triple_extractReceipts fun w left hleft _ => absurd hleft (hwrite left)
  have hset : Triple (fun _ => True) (fun w : Worker => w.hashFile = some range.hashFile)
      (deleteFiles env (range.file .transactions) range)
      (fun _ w => w.disk range.hashFile = none) (fun _ w => w.disk range.hashFile = none)
      (fun _ => False) := by
    refine (Triple.of_exists (B := fun content w => w.hashFile = some range.hashFile ∧
      w.disk range.hashFile = content) fun content => triple_deleteFiles.post fun _ w hw => ?_).pre
        fun w hw => ⟨_, hw, rfl⟩
    rw [hw, if_pos (by simp), cleaned_of_removes h]
  refine Triple.bind (Triple.modifyState (Q := fun _ w => w.hashFile = none ∧
    w.disk range.hashFile = none) fun w hw => ⟨rfl, hw⟩) fun _ => ?_
  refine Triple.tryFinally hbody (fun _ => hset) fun _ => ?_
  rintro w cs (hfound | ⟨hnone, hw⟩) hH
  · exact hset w cs hfound hH
  · refine (triple_deleteFiles.post fun _ w hw => ?_) w cs ⟨hnone, hw⟩ hH
    rw [hw, cleaned_of_removes h, ite_self]

/-! ### Token transfers -/

/-- **The token transfers file** is deleted after a failure, and stays after a success. -/
theorem triple_exportTransfers (h : env.removeFails (range.file .tokenTransfers) = false) :
    Triple (fun _ => True) (fun _ => True) (exportTokenTransfers env range)
      (fun _ w => w.disk (range.file .tokenTransfers) ≠ none)
      (fun _ w => w.disk (range.file .tokenTransfers) = none) (fun _ => False) := by
  refine Triple.tryCatch (Triple.of_ok (keeps_extractTransfers (writesKeep_true _ _))
    fun w cs stats w' cs' _ hrun => ?_) fun e =>
      (triple_cleanup_absent h).bind fun _ => Triple.raise fun _ hw => hw
  obtain ⟨_, w₁, cs₁, -, h₁⟩ := bind_eq_ok.mp hrun
  obtain ⟨_, w₂, cs₂, -, h₂⟩ := bind_eq_ok.mp h₁
  obtain ⟨_, w₃, cs₃, -, h₃⟩ := bind_eq_ok.mp h₂
  obtain ⟨_, w₄, cs₄, -, h₄⟩ := bind_eq_ok.mp h₃
  obtain ⟨size, w₅, cs₅, hstat, hpure⟩ := bind_eq_ok.mp h₄
  obtain ⟨⟨content, hcontent, -⟩, -, rfl, -⟩ := statSize_eq_ok.mp hstat
  obtain ⟨-, rfl, -⟩ := pure_eq_ok.mp hpure
  rw [hcontent]
  exact Option.some_ne_none content

end functions

end Storage.Etl

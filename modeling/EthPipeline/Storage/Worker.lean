import EthPipeline.Base.Exec
import Mathlib.Algebra.Ring.Int.Defs
import Mathlib.Logic.Function.Basic

/-!
# The worker of the extraction tasks

The local disk, the bucket and the commands that the functions of `src/storage/etl`
work with: `run_shell` and `_cleanup` of `src/storage/utils/shell.py`, `upload_to_gcs`
of `src/storage/utils/gcs.py`, `open`, `Path.exists`, `Path.touch` and `Path.stat`.
How each call of an attempt goes is in its `Env`.

* `keeps_runShell`, `keeps_writeFile`, `keeps_touch`, `keeps_uploadToGcs`,
  `keeps_cleanup`: what a call keeps is what its writes keep.
* `triple_cleanup`: what `_cleanup` leaves.
-/

namespace Storage

/-! ### Files -/

/-- What a file holds rows of; also the folder in the bucket. -/
inductive Kind where
  | blocks
  | transactions
  | receipts
  | tokenTransfers
  deriving DecidableEq, Repr

def Kind.text : Kind → String
  | blocks => "blocks"
  | transactions => "transactions"
  | receipts => "receipts"
  | tokenTransfers => "token_transfers"

inductive Suffix where
  | json
  | whaleHashes
  deriving DecidableEq, Repr

def Suffix.text : Suffix → String
  | json => ".json"
  | whaleHashes => "_whale_hashes.txt"

/-- The name of a local file. -/
structure FileName where
  kind : Kind
  startBlock : ℤ
  endBlock : ℤ
  suffix : Suffix
  deriving DecidableEq, Repr

namespace FileName

def text (file : FileName) : String :=
  file.kind.text ++ "_" ++ toString file.startBlock ++ "_" ++ toString file.endBlock ++
    file.suffix.text

/-- `tx_file.replace(".json", "_whale_hashes.txt")`. -/
def whaleHashes (file : FileName) : FileName := { file with suffix := .whaleHashes }

end FileName

example : (FileName.whaleHashes ⟨.transactions, 1, 20, .json⟩).text =
    "transactions_1_20_whale_hashes.txt" := by decide +kernel

/-- The fields of a row that are read.  `value` is what `int` makes of the field, if it
is there and if `int` accepts it. -/
structure Row where
  transactionCount : Option ℤ
  value : Option (Option ℤ)
  hash : Option String
  deriving DecidableEq, Repr

/-- A line: white space, a text that `json.loads` or the access to a field rejects, or a
row. -/
inductive Line where
  | blank
  | text (s : String)
  | json (row : Row)
  deriving DecidableEq, Repr

/-- A file, and `st_size`. -/
structure File where
  lines : List Line
  size : ℕ
  deriving DecidableEq, Repr

namespace File

def empty : File := ⟨[], 0⟩

/-- `"\\n".join(texts)`. -/
def ofTexts (texts : List String) : File where
  lines := texts.map .text
  size := (String.intercalate "\n" texts).utf8ByteSize

/-- The lines that are not blank. -/
def rows (file : File) : ℕ := file.lines.countP (· ≠ .blank)

end File

/-- A place in the bucket: `{prefix}/{folder}/dt={date_str}/{file}`. -/
structure GcsPath where
  folder : Kind
  dateStr : String
  file : FileName
  deriving DecidableEq, Repr

/-! ### The worker and how its calls go -/

inductive EtlError where
  | calledProcessError
  | fileNotFoundError
  | osError
  | valueError
  | keyError
  | googleCloudError
  deriving DecidableEq, Repr

/-- The disk and the bucket, and the local variable `hash_file` of
`export_receipts_and_logs`. -/
structure Worker where
  disk : FileName → Option File
  bucket : GcsPath → Option File
  hashFile : Option FileName

def Worker.write (w : Worker) (file : FileName) (content : Option File) : Worker :=
  { w with disk := Function.update w.disk file content }

def Worker.writeOutput (written : FileName → Option File) (w : Worker) (file : FileName) : Worker :=
  match written file with
  | some content => w.write file (some content)
  | none => w

def Worker.store (w : Worker) (path : GcsPath) (content : File) : Worker :=
  { w with bucket := Function.update w.bucket path (some content) }

/-- The commands of `ethereumetl`, with the files they are given. -/
inductive Command where
  | exportBlocksAndTransactions (startBlock endBlock : ℤ) (blocksOutput transactionsOutput : FileName)
  | exportReceiptsAndLogs (transactionHashes receiptsOutput : FileName)
  | exportTokenTransfers (startBlock endBlock : ℤ) (output : FileName)
  deriving DecidableEq, Repr

def Command.outputs : Command → List FileName
  | exportBlocksAndTransactions _ _ blocks transactions => [blocks, transactions]
  | exportReceiptsAndLogs _ receipts => [receipts]
  | exportTokenTransfers _ _ transfers => [transfers]

/-- What a command has written into its outputs, if it got to them, and whether it exits
with 0. -/
structure ShellRun where
  written : FileName → Option File
  exitsZero : Bool

/-- How writing a file goes. -/
inductive Write where
  | ok
  | cannotOpen
  | breaksOff (left : File)
  deriving DecidableEq, Repr

/-- How an upload goes; one that fails may have stored the file. -/
inductive Upload where
  | ok
  | fails (stored : Bool)
  deriving DecidableEq, Repr

/-- How the calls of an attempt go.  No call is made twice with one file in an attempt. -/
structure Env where
  shell : Command → (FileName → Option File) → ShellRun
  openFails : FileName → Bool
  write : FileName → Write
  touchFails : FileName → Bool
  statFails : FileName → Bool
  upload : FileName → Upload
  removeFails : FileName → Bool

abbrev Etl (α : Type) := Exec Worker Empty EtlError α

open Exec

section calls

variable (env : Env) (file : FileName)

/-- `run_shell`. -/
def runShell (command : Command) : Etl Unit := do
  let w ← getState
  let run := env.shell command w.disk
  modifyState fun w => command.outputs.foldl (Worker.writeOutput run.written) w
  if run.exitsZero then pure () else raise .calledProcessError

/-- `Path.exists`. -/
def fileExists : Etl Bool := do
  let w ← getState
  pure (w.disk file).isSome

/-- `open(file)` and its lines. -/
def readFile : Etl File := do
  let w ← getState
  match w.disk file with
  | none => raise .fileNotFoundError
  | some content => if env.openFails file then raise .osError else pure content

/-- `open(file, "w")` and `write`. -/
def writeFile (content : File) : Etl Unit :=
  match env.write file with
  | .ok => modifyState fun w => w.write file (some content)
  | .cannotOpen => raise .osError
  | .breaksOff left => do
    modifyState fun w => w.write file (some left)
    raise .osError

/-- `Path.touch`: a file that is there stays as it is. -/
def touch : Etl Unit :=
  if env.touchFails file then raise .osError
  else modifyState fun w => w.write file (some ((w.disk file).getD .empty))

/-- `Path.stat().st_size`. -/
def statSize : Etl ℕ := do
  let w ← getState
  match w.disk file with
  | none => raise .fileNotFoundError
  | some content => if env.statFails file then raise .osError else pure content.size

/-- `upload_to_gcs`. -/
def uploadToGcs (path : GcsPath) : Etl Unit := do
  let w ← getState
  match w.disk file with
  | none => raise .fileNotFoundError
  | some content =>
    match env.upload file with
    | .ok => modifyState fun w => w.store path content
    | .fails stored => do
      when stored (modifyState fun w => w.store path content)
      raise .googleCloudError

/-- `_cleanup`: a failed removal is logged. -/
def cleanup : Etl Unit := do
  let there ← fileExists file
  when (there ∧ ¬ env.removeFails file) (modifyState fun w => w.write file none)

end calls

/-! ### Writes -/

namespace Worker

variable (w : Worker) {file other : FileName} {path place : GcsPath} {stored : File}
  {content : Option File}

@[simp] theorem disk_write : (w.write file content).disk file = content := Function.update_self ..

theorem disk_write_of_ne (h : other ≠ file) : (w.write file content).disk other = w.disk other :=
  Function.update_of_ne h ..

@[simp] theorem bucket_write : (w.write file content).bucket = w.bucket := rfl

@[simp] theorem hashFile_write : (w.write file content).hashFile = w.hashFile := rfl

@[simp] theorem disk_store : (w.store path stored).disk = w.disk := rfl

@[simp] theorem bucket_store : (w.store path stored).bucket path = some stored :=
  Function.update_self ..

theorem bucket_store_of_ne (h : place ≠ path) :
    (w.store path stored).bucket place = w.bucket place :=
  Function.update_of_ne h ..

@[simp] theorem hashFile_store : (w.store path stored).hashFile = w.hashFile := rfl

end Worker

/-! ### What the calls keep -/

section keeps

variable {env : Env} {file : FileName} {J I : Worker → Prop}

theorem keeps_runShell {command : Command}
    (h : ∀ file ∈ command.outputs, ∀ w content, J w → J (w.write file content)) :
    Keeps J (runShell env command) I := by
  have hwrites : ∀ (written : FileName → Option File) (outputs : List FileName),
      (∀ file ∈ outputs, ∀ w content, J w → J (w.write file content)) → ∀ w, J w →
        J (outputs.foldl (Worker.writeOutput written) w) := by
    intro written outputs
    induction outputs with
    | nil => exact fun _ _ hw => hw
    | cons file outputs ih =>
      intro h w hw
      refine ih (fun file hfile => h file (List.mem_cons_of_mem _ hfile)) _ ?_
      unfold Worker.writeOutput
      cases written file with
      | none => exact hw
      | some content => exact h file List.mem_cons_self w content hw
  refine Keeps.getState.bind fun w => ?_
  refine (Keeps.modifyState (hwrites _ _ h)).bind fun _ => ?_
  exact Keeps.ite (Keeps.pure ()) (Keeps.raise _)

theorem keeps_fileExists : Keeps J (fileExists file) I :=
  Keeps.getState.bind fun _ => Keeps.pure _

theorem keeps_readFile : Keeps J (readFile env file) I := by
  refine Keeps.getState.bind fun w => ?_
  cases w.disk file with
  | none => exact Keeps.raise _
  | some content => exact Keeps.ite (Keeps.raise _) (Keeps.pure _)

theorem keeps_statSize : Keeps J (statSize env file) I := by
  refine Keeps.getState.bind fun w => ?_
  cases w.disk file with
  | none => exact Keeps.raise _
  | some content => exact Keeps.ite (Keeps.raise _) (Keeps.pure _)

theorem keeps_writeFile {content : File} (h : ∀ w content, J w → J (w.write file content)) :
    Keeps J (writeFile env file content) I := by
  unfold writeFile
  cases env.write file with
  | ok => exact Keeps.modifyState fun w => h w _
  | cannotOpen => exact Keeps.raise _
  | breaksOff left => exact (Keeps.modifyState fun w => h w _).bind fun _ => Keeps.raise _

theorem keeps_touch (h : ∀ w content, J w → J (w.write file content)) :
    Keeps J (touch env file) I :=
  Keeps.ite (Keeps.raise _) (Keeps.modifyState fun w => h w _)

theorem keeps_uploadToGcs {path : GcsPath} (h : ∀ w content, J w → J (w.store path content)) :
    Keeps J (uploadToGcs env file path) I := by
  refine Keeps.getState.bind fun w => ?_
  cases w.disk file with
  | none => exact Keeps.raise _
  | some content =>
    show Keeps J (match env.upload file with | .ok => _ | .fails stored => _) I
    cases env.upload file with
    | ok => exact Keeps.modifyState fun w => h w _
    | fails stored =>
      exact (Keeps.when (Keeps.modifyState fun w => h w _)).bind fun _ => Keeps.raise _

/-- `_cleanup` does not raise. -/
theorem triple_cleanup_keeps {E : EtlError → Worker → Prop}
    (h : ∀ w content, J w → J (w.write file content)) :
    Triple (fun _ => True) J (cleanup env file) (fun _ => J) E I := by
  refine Triple.bind (Q := fun _ => J) ?_ fun there => ?_
  · exact Triple.bind (Triple.getState (Q := fun _ => J) fun _ hw => hw) fun _ =>
      Triple.pure fun _ hw => hw
  · exact Triple.when (fun _ => Triple.modifyState fun w hw => h w none hw) fun _ _ hw => hw

theorem keeps_cleanup (h : ∀ w content, J w → J (w.write file content)) :
    Keeps J (cleanup env file) I :=
  triple_cleanup_keeps h

/-- **What `_cleanup` leaves** of a file. -/
theorem triple_cleanup {content : Option File} {E : EtlError → Worker → Prop} :
    Triple (fun _ => True) (fun w => w.disk file = content) (cleanup env file)
      (fun _ w => w.disk file = if env.removeFails file then content else none) E I := by
  have hthere : Triple (fun _ => True) (fun w : Worker => w.disk file = content)
      (fileExists file : Etl Bool) (fun there w => w.disk file = content ∧ there = content.isSome)
      E I :=
    Triple.bind (Triple.getState (Q := fun a w => w.disk file = content ∧ a.disk file = content)
      fun w hw => ⟨hw, hw⟩) fun a => Triple.pure fun w hw => ⟨hw.1, by rw [hw.2]⟩
  refine hthere.bind fun there => Triple.when (fun hremove => ?_) fun w hkept hw => ?_
  · refine Triple.modifyState fun w _ => ?_
    rw [Worker.disk_write, if_neg hremove.2]
  · obtain ⟨hdisk, rfl⟩ := hw
    split
    · exact hdisk
    · next hremove =>
      rw [hdisk]
      cases content with
      | none => rfl
      | some content => exact absurd ⟨rfl, hremove⟩ hkept

end keeps

/-! ### Calls that succeed -/

section succeed

variable {env : Env} {file : FileName} {w w' : Worker} {cs cs' : List Empty}

theorem runShell_eq_ok {command : Command} :
    runShell env command w cs = ⟨.ok (), w', cs'⟩ ↔
      (env.shell command w.disk).exitsZero ∧
        w' = command.outputs.foldl (Worker.writeOutput (env.shell command w.disk).written) w ∧
        cs' = cs := by
  show (if (env.shell command w.disk).exitsZero then pure () else raise _ : Etl Unit)
    (command.outputs.foldl (Worker.writeOutput (env.shell command w.disk).written) w) cs = _ ↔ _
  split
  · next hzero =>
    rw [pure_eq_ok]
    constructor
    · rintro ⟨-, rfl, rfl⟩
      exact ⟨hzero, rfl, rfl⟩
    · rintro ⟨-, rfl, rfl⟩
      exact ⟨rfl, rfl, rfl⟩
  · next hzero => simp [raise, hzero]

theorem fileExists_eq_ok {there : Bool} :
    fileExists file w cs = ⟨.ok there, w', cs'⟩ ↔
      (w.disk file).isSome = there ∧ w' = w ∧ cs' = cs := by
  show (⟨.ok (w.disk file).isSome, w, cs⟩ : Exec.Result Worker Empty EtlError Bool) = _ ↔ _
  simp [eq_comm]

theorem readFile_eq_ok {content : File} :
    readFile env file w cs = ⟨.ok content, w', cs'⟩ ↔
      w.disk file = some content ∧ env.openFails file = false ∧ w' = w ∧ cs' = cs := by
  show (match w.disk file with | none => _ | some content => _ : Etl File) w cs = _ ↔ _
  cases w.disk file with
  | none => simp [raise]
  | some stored =>
    show (if env.openFails file then raise _ else pure stored : Etl File) w cs = _ ↔ _
    cases env.openFails file <;> simp [raise, pure_eq_ok, eq_comm]

theorem statSize_eq_ok {size : ℕ} :
    statSize env file w cs = ⟨.ok size, w', cs'⟩ ↔
      (∃ content, w.disk file = some content ∧ content.size = size) ∧
        env.statFails file = false ∧ w' = w ∧ cs' = cs := by
  show (match w.disk file with | none => _ | some content => _ : Etl ℕ) w cs = _ ↔ _
  cases w.disk file with
  | none => simp [raise]
  | some stored =>
    show (if env.statFails file then raise _ else pure stored.size : Etl ℕ) w cs = _ ↔ _
    cases env.statFails file <;> simp [raise, pure_eq_ok, eq_comm]

theorem writeFile_eq_ok {content : File} :
    writeFile env file content w cs = ⟨.ok (), w', cs'⟩ ↔
      env.write file = .ok ∧ w' = w.write file (some content) ∧ cs' = cs := by
  unfold writeFile
  cases env.write file with
  | ok => simp [modifyState, eq_comm]
  | cannotOpen => simp [raise]
  | breaksOff left =>
    refine iff_of_false (fun h => ?_) (by simp)
    obtain ⟨_, _, _, _, hraise⟩ := bind_eq_ok.mp h
    cases hraise

theorem touch_eq_ok :
    touch env file w cs = ⟨.ok (), w', cs'⟩ ↔
      env.touchFails file = false ∧ w' = w.write file (some ((w.disk file).getD .empty)) ∧
        cs' = cs := by
  unfold touch
  cases env.touchFails file <;> simp [raise, modifyState, eq_comm]

theorem uploadToGcs_eq_ok {path : GcsPath} :
    uploadToGcs env file path w cs = ⟨.ok (), w', cs'⟩ ↔
      ∃ content, w.disk file = some content ∧ env.upload file = .ok ∧
        w' = w.store path content ∧ cs' = cs := by
  show (match w.disk file with | none => _ | some content => _ : Etl Unit) w cs = _ ↔ _
  cases w.disk file with
  | none => simp [raise]
  | some stored =>
    show (match env.upload file with | .ok => _ | .fails stored => _ : Etl Unit) w cs = _ ↔ _
    cases env.upload file with
    | ok => simp [modifyState, eq_comm]
    | fails stored =>
      refine iff_of_false (fun h => ?_) (by simp)
      obtain ⟨_, _, _, _, hraise⟩ := bind_eq_ok.mp h
      cases hraise

end succeed

end Storage

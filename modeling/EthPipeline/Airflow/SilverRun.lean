import EthPipeline.Airflow.Assets
import EthPipeline.Base.Exec
import EthPipeline.Base.TaskGraph

/-!
# A run of the Silver DAG

The entry points of `src/silver/transform/txn_enriched.py`, `token_flow.py` and
`whale_txns.py` as Spark drivers, and the tasks of `src/dags/eth_silver_dag_gke.py`
over them.  Every statement of a driver may raise, and the driver may be killed
at any of them.

* `main_written`: an entry point that exits with 0 has written its table, if
  nothing raised where its handler swallows the exception.
* `published_written`: in every run without a swallowed exception, a date is
  published only after all three tables have been written for it.
* `published_without_token_flow`: a write that fails, and the date is published.
-/

namespace Airflow

open Storage Exec Run

inductive Table where
  | txnEnriched
  | tokenFlow
  | whaleTxns
  deriving DecidableEq, Repr

/-- What a run of the DAG leaves: the date its first task returned, the tables it
has written, and the dates it has published.  A table is written once `write_silver` has
returned: the write of a frame without rows counts too, though the dynamic overwrite makes no
folder `dt=` of it. -/
structure SilverWorld where
  date : Option DateText
  written : List (Table × DateText)
  published : List DateText
  deriving DecidableEq, Repr

/-- The statements of the drivers that can raise. -/
inductive Statement where
  | getSparkSession
  | setLogLevel
  | readBronze (folder : String)
  | readSilver (folder : String)
  | loadTokenMeta
  | loadAddressLabels
  | transform
  | cache
  | show
  | write
  | unpersist
  | stop
  deriving DecidableEq, Repr

/-- The circumstances of one attempt: what raises, and how many statements the
driver lives. -/
structure Circumstances where
  raises : Statement → Bool
  lifetime : ℕ

abbrev Driver := Exec SilverWorld Unit Statement Unit

section drivers

variable (raises : Statement → Bool)

def exec (s : Statement) (effect : SilverWorld → SilverWorld) : Driver :=
  Exec.call fun _ w => if raises s then (.error s, w) else (.ok (), effect w)

def run (s : Statement) : Driver := exec raises s id

/-- `write_silver`; it returns for a frame without rows as well. -/
def writeSilver (table : Table) (date : DateText) : Driver :=
  exec raises .write fun w => { w with written := (table, date) :: w.written }

def buildTxnEnriched : Driver := do
  run raises (.readBronze "transactions")
  run raises (.readBronze "receipts")
  run raises .transform

def buildTokenFlow : Driver := do
  run raises (.readBronze "token_transfers")
  run raises (.readBronze "blocks")
  run raises .loadTokenMeta
  run raises .loadAddressLabels
  run raises .transform

def buildWhaleTxns : Driver := do
  run raises (.readSilver "txn_enriched")
  run raises .loadAddressLabels
  run raises .transform

/-- `main` of `txn_enriched.py`. -/
def txnEnrichedMain (date : DateText) : Driver := do
  run raises .getSparkSession
  buildTxnEnriched raises
  writeSilver raises .txnEnriched date
  run raises .stop

/-- `try: …  except Exception: logger.exception(…)  finally: spark.stop()`. -/
def logged (body : Driver) : Driver :=
  tryFinally (tryCatch body fun _ => pure ()) (run raises .stop)

/-- `main` of `token_flow.py`. -/
def tokenFlowMain (date : DateText) : Driver := do
  run raises .getSparkSession
  logged raises do
    buildTokenFlow raises
    run raises .cache
    run raises .show
    writeSilver raises .tokenFlow date
    run raises .unpersist

/-- `main` of `whale_txns.py`. -/
def whaleTxnsMain (date : DateText) : Driver := do
  run raises .getSparkSession
  run raises .setLogLevel
  logged raises do
    buildWhaleTxns raises
    run raises .cache
    run raises .show
    writeSilver raises .whaleTxns date
    run raises .unpersist

def main : Table → DateText → Driver
  | .txnEnriched => txnEnrichedMain raises
  | .tokenFlow => tokenFlowMain raises
  | .whaleTxns => whaleTxnsMain raises

end drivers

/-- The exit code of a driver; one that is killed has 137. -/
def exitCode : Outcome Statement Unit → ℕ
  | .ok _ => 0
  | .raised _ => 1
  | .cut => 137

/-! ### The tasks -/

inductive Task where
  | getExecutionDate
  | build (table : Table)
  | publishSilverAsset
  deriving DecidableEq, Repr

/-- A Spark task: its driver, with the date of the first task. -/
def sparkTask (table : Table) (c : Circumstances) (w : SilverWorld) : Bool × SilverWorld :=
  match w.date with
  | some date =>
    let r := main c.raises table date w (List.replicate c.lifetime ())
    (exitCode r.outcome = 0, r.state)
  | none => (false, w)

/-- The wiring; the quality check is commented out in the source. -/
def upstream : Task → List Task
  | .getExecutionDate => []
  | .build .txnEnriched => [.getExecutionDate]
  | .build .tokenFlow | .build .whaleTxns => [.build .txnEnriched]
  | .publishSilverAsset => [.build .tokenFlow, .build .whaleTxns, .getExecutionDate]

/-- The DAG triggered by some events; a task that runs no driver lives or not. -/
def silverDag (events : List AssetEvent) (logicalDate : Option Timestamp) :
    TaskGraph Task Circumstances SilverWorld where
  upstream := upstream
  retries := 2
  attempt
    | .getExecutionDate, c, w =>
      match getExecutionDate events logicalDate with
      | some date => if c.lifetime = 0 then (false, w) else (true, { w with date := some date })
      | none => (false, w)
    | .build table, c, w => sparkTask table c w
    | .publishSilverAsset, c, w =>
      match w.date with
      | some date =>
        if c.lifetime = 0 then (false, w)
        else (true, { w with published := date :: w.published })
      | none => (false, w)

def SilverWorld.init : SilverWorld := ⟨none, [], []⟩

/-! ### What a driver does -/

section specs

variable {raises : Statement → Bool} {H : Unit → Prop} {P Q I : SilverWorld → Prop}
  {E : Statement → SilverWorld → Prop} {table : Table} {date : DateText}

/-- A statement that may raise. -/
theorem exec_spec {s : Statement} {effect : SilverWorld → SilverWorld}
    (h : ∀ w, P w → Q (effect w)) (hE : ∀ e w, P w → E e w) (hI : ∀ w, P w → I w) :
    Triple H P (exec raises s effect) (fun _ => Q) E I := by
  refine Triple.call hI ?_ ?_
  · intro _ w a w' _ hw heq
    by_cases hs : raises s = true
    · simp [hs] at heq
    · simp only [hs, Bool.false_eq_true, if_false, Prod.mk.injEq] at heq
      rw [← heq.2]
      exact h w hw
  · intro _ w e w' _ hw heq
    by_cases hs : raises s = true
    · simp only [hs, if_true, Prod.mk.injEq] at heq
      rw [← heq.2]
      exact hE e w hw
    · simp [hs] at heq

/-- A statement that does not raise. -/
theorem exec_calm {s : Statement} {effect : SilverWorld → SilverWorld} (hs : raises s = false)
    (h : ∀ w, P w → Q (effect w)) (hI : ∀ w, P w → I w) :
    Triple H P (exec raises s effect) (fun _ => Q) E I := by
  refine Triple.call hI ?_ ?_
  · intro _ w a w' _ hw heq
    simp only [hs, Bool.false_eq_true, if_false, Prod.mk.injEq] at heq
    rw [← heq.2]
    exact h w hw
  · intro _ w e w' _ _ heq
    simp [hs] at heq

/-- A handler that swallows the exception leaves what the body left. -/
theorem logged_spec {body : Driver} (hbody : Triple H P body (fun _ => Q) (fun _ => Q) I)
    (hE : ∀ e w, Q w → E e w) (hI : ∀ w, Q w → I w) :
    Triple H P (logged raises body) (fun _ => Q) E I :=
  Triple.tryFinally (F := fun _ _ => False)
    (Triple.tryCatch hbody fun _ => Triple.pure fun _ h => h)
    (fun _ => exec_spec (fun _ h => h) hE hI)
    (fun _ _ _ h => h.elim)

/-! ### Nothing is taken back -/

/-- A driver only adds tables. -/
structure Extends (w₀ w : SilverWorld) : Prop where
  date : w.date = w₀.date
  published : w.published = w₀.published
  written : w₀.written ⊆ w.written

theorem Extends.refl (w : SilverWorld) : Extends w w := ⟨rfl, rfl, fun _ h => h⟩

variable (raises H) (w₀ : SilverWorld)

theorem run_extends (s : Statement) :
    Triple H (Extends w₀) (run raises s) (fun _ => Extends w₀) (fun _ => Extends w₀) (Extends w₀) :=
  exec_spec (fun _ h => h) (fun _ _ h => h) (fun _ h => h)

theorem writeSilver_extends (table : Table) (date : DateText) :
    Triple H (Extends w₀) (writeSilver raises table date) (fun _ => Extends w₀)
      (fun _ => Extends w₀) (Extends w₀) :=
  exec_spec (fun _ h => ⟨h.date, h.published, fun _ hx => List.mem_cons_of_mem _ (h.written hx)⟩)
    (fun _ _ h => h) (fun _ h => h)

theorem main_extends (table : Table) (date : DateText) :
    Triple H (Extends w₀) (main raises table date) (fun _ => Extends w₀) (fun _ => Extends w₀)
      (Extends w₀) := by
  have hrun := run_extends raises H w₀
  have hwrite := writeSilver_extends raises H w₀ table date
  cases table with
  | txnEnriched =>
    refine (hrun _).bind fun _ => Triple.bind ?_ fun _ => hwrite.bind fun _ => hrun _
    exact (hrun _).bind fun _ => (hrun _).bind fun _ => hrun _
  | tokenFlow =>
    refine (hrun _).bind fun _ => logged_spec ?_ (fun _ _ h => h) (fun _ h => h)
    refine Triple.bind ?_ fun _ => (hrun _).bind fun _ => (hrun _).bind fun _ =>
      hwrite.bind fun _ => hrun _
    exact (hrun _).bind fun _ => (hrun _).bind fun _ => (hrun _).bind fun _ =>
      (hrun _).bind fun _ => hrun _
  | whaleTxns =>
    refine (hrun _).bind fun _ => (hrun _).bind fun _ =>
      logged_spec ?_ (fun _ _ h => h) (fun _ h => h)
    refine Triple.bind ?_ fun _ => (hrun _).bind fun _ => (hrun _).bind fun _ =>
      hwrite.bind fun _ => hrun _
    exact (hrun _).bind fun _ => (hrun _).bind fun _ => hrun _

/-! ### An exit code of 0 -/

variable {raises H}

/-- The statements of a `try` block up to its write. -/
def tried : Table → List Statement
  | .txnEnriched => []
  | .tokenFlow =>
    [.readBronze "token_transfers", .readBronze "blocks", .loadTokenMeta, .loadAddressLabels,
      .transform, .cache, .show, .write]
  | .whaleTxns =>
    [.readSilver "txn_enriched", .loadAddressLabels, .transform, .cache, .show, .write]

/-- No exception is swallowed before the table is written. -/
def Calm (raises : Statement → Bool) (table : Table) : Prop :=
  ∀ s ∈ tried table, raises s = false

instance (table : Table) : Decidable (Calm raises table) :=
  inferInstanceAs (Decidable (∀ s ∈ tried table, _))

/-- Where nothing is known of a driver that raises or is killed. -/
theorem run_any (raises : Statement → Bool) (H : Unit → Prop) (s : Statement) :
    Triple H (fun _ => True) (run raises s) (fun _ _ => True) (fun _ _ => True) (fun _ => True) :=
  exec_spec (fun _ h => h) (fun _ _ h => h) (fun _ h => h)

/-- The tried statement `s` does not raise. -/
theorem run_calm (H : Unit → Prop) (E : Statement → SilverWorld → Prop) {s : Statement}
    (hs : raises s = false) :
    Triple H (fun _ => True) (run raises s) (fun _ _ => True) E (fun _ => True) :=
  exec_calm hs (fun _ h => h) (fun _ h => h)

theorem writeSilver_calm (hs : raises .write = false) :
    Triple H (fun _ => True) (writeSilver raises table date)
      (fun _ w => (table, date) ∈ w.written) E (fun _ => True) :=
  exec_calm hs (fun _ _ => List.mem_cons_self) (fun _ h => h)

/-- **An entry point that exits with 0 has written its table**, unless its handler
swallowed an exception. -/
theorem main_written (hcalm : Calm raises table) :
    Triple H (fun _ => True) (main raises table date) (fun _ w => (table, date) ∈ w.written)
      (fun _ _ => True) (fun _ => True) := by
  have hrun := run_any raises H
  have hlast : ∀ s, Triple H (fun w => (table, date) ∈ w.written) (run raises s)
      (fun _ w => (table, date) ∈ w.written) (fun _ w => (table, date) ∈ w.written)
      (fun _ => True) :=
    fun s => exec_spec (fun _ h => h) (fun _ _ h => h) (fun _ _ => trivial)
  cases table with
  | txnEnriched =>
    refine (hrun _).bind fun _ => Triple.bind (Q := fun _ _ => True) ?_ fun _ => ?_
    · exact (hrun _).bind fun _ => (hrun _).bind fun _ => hrun _
    · refine Triple.bind (Q := fun _ w => (.txnEnriched, date) ∈ w.written) ?_ fun _ =>
        (hlast _).conseq (fun _ h => h) (fun _ _ h => h) (fun _ _ _ => trivial)
      exact exec_spec (fun _ _ => List.mem_cons_self) (fun _ _ h => h) (fun _ h => h)
  | tokenFlow =>
    have hstep := fun s hs => run_calm H (fun _ w => (Table.tokenFlow, date) ∈ w.written) (hcalm s hs)
    refine (hrun _).bind fun _ => logged_spec ?_ (fun _ _ _ => trivial) (fun _ _ => trivial)
    refine Triple.bind (Q := fun _ _ => True) ?_ fun _ => ?_
    · exact (hstep _ (by decide)).bind fun _ => (hstep _ (by decide)).bind fun _ =>
        (hstep _ (by decide)).bind fun _ => (hstep _ (by decide)).bind fun _ =>
          hstep _ (by decide)
    · exact (hstep _ (by decide)).bind fun _ => (hstep _ (by decide)).bind fun _ =>
        (writeSilver_calm (hcalm _ (by decide))).bind fun _ => hlast _
  | whaleTxns =>
    have hstep := fun s hs => run_calm H (fun _ w => (Table.whaleTxns, date) ∈ w.written) (hcalm s hs)
    refine (hrun _).bind fun _ => (hrun _).bind fun _ =>
      logged_spec ?_ (fun _ _ _ => trivial) (fun _ _ => trivial)
    refine Triple.bind (Q := fun _ _ => True) ?_ fun _ => ?_
    · exact (hstep _ (by decide)).bind fun _ => (hstep _ (by decide)).bind fun _ =>
        hstep _ (by decide)
    · exact (hstep _ (by decide)).bind fun _ => (hstep _ (by decide)).bind fun _ =>
        (writeSilver_calm (hcalm _ (by decide))).bind fun _ => hlast _

end specs

theorem sparkTask_extends (table : Table) (c : Circumstances) (w : SilverWorld) :
    Extends w (sparkTask table c w).2 := by
  unfold sparkTask
  cases w.date with
  | none => exact .refl w
  | some date =>
    exact (main_extends c.raises (fun _ => True) w table date).state (Extends.refl w)
      fun _ _ => trivial

theorem sparkTask_written {table : Table} {c : Circumstances} {w : SilverWorld} {date : DateText}
    (hdate : w.date = some date) (hcalm : Calm c.raises table)
    (hok : (sparkTask table c w).1 = true) : (table, date) ∈ (sparkTask table c w).2.written := by
  have hmeets : (main c.raises table date w (List.replicate c.lifetime ())).Meets (fun _ => True)
      (fun _ w => (table, date) ∈ w.written) (fun _ _ => True) (fun _ => True) :=
    main_written hcalm w _ trivial fun _ _ => trivial
  simp only [sparkTask, hdate] at hok ⊢
  rcases hr : main c.raises table date w (List.replicate c.lifetime ()) with ⟨o, w', rest⟩
  rw [hr] at hok hmeets
  cases o with
  | ok _ => exact hmeets.2
  | raised e => simp [exitCode] at hok
  | cut => simp [exitCode] at hok

/-! ### The whole run -/

/-- The tables that stand once a task has succeeded. -/
def tablesOf : Task → List Table
  | .getExecutionDate => []
  | .build .txnEnriched => [.txnEnriched]
  | .build table => [.txnEnriched, table]
  | .publishSilverAsset => [.txnEnriched, .tokenFlow, .whaleTxns]

/-- What a task has established: the date of the run, and its tables. -/
def Established (events : List AssetEvent) (logicalDate : Option Timestamp) (t : Task)
    (w : SilverWorld) : Prop :=
  ∃ date, getExecutionDate events logicalDate = some date ∧ w.date = some date ∧
    ∀ table ∈ tablesOf t, (table, date) ∈ w.written

def PublishedWritten (w : SilverWorld) : Prop :=
  ∀ date ∈ w.published, ∀ table, (table, date) ∈ w.written

/-- No entry point swallows an exception before its table is written. -/
def NothingSwallowed (_ : TaskGraph.State Task SilverWorld) : Task × Circumstances → Prop
  | (.build table, c) => Calm c.raises table
  | _ => True

instance (s : TaskGraph.State Task SilverWorld) :
    ∀ e : Task × Circumstances, Decidable (NothingSwallowed s e)
  | (.build table, c) => inferInstanceAs (Decidable (Calm c.raises table))
  | (.getExecutionDate, _) | (.publishSilverAsset, _) => inferInstanceAs (Decidable True)

section run

variable {events : List AssetEvent} {logicalDate : Option Timestamp} {w w' : SilverWorld}

theorem Established.extends {t : Task} (h : Established events logicalDate t w)
    (hw : Extends w w') : Established events logicalDate t w' := by
  obtain ⟨date, hD, hdate, htables⟩ := h
  exact ⟨date, hD, hw.date.trans hdate, fun table ht => hw.written (htables table ht)⟩

theorem PublishedWritten.extends (h : PublishedWritten w) (hw : Extends w w') :
    PublishedWritten w' := by
  intro date hdate table
  rw [hw.published] at hdate
  exact hw.written (h date hdate table)

/-- A Spark task adds its table to those of the task above it. -/
theorem established_sparkTask {u : Task} {table : Table} {c : Circumstances}
    (h : Established events logicalDate u w) (hcalm : Calm c.raises table)
    (hok : (sparkTask table c w).1 = true) :
    ∃ date, getExecutionDate events logicalDate = some date ∧
      (sparkTask table c w).2.date = some date ∧
        ∀ t ∈ tablesOf u ++ [table], (t, date) ∈ (sparkTask table c w).2.written := by
  obtain ⟨date, hD, hdate, htables⟩ := h
  have hext := sparkTask_extends table c w
  refine ⟨date, hD, hext.date.trans hdate, fun t ht => ?_⟩
  rcases List.mem_append.mp ht with ht | ht
  · exact hext.written (htables t ht)
  · rw [List.mem_singleton.mp ht]
    exact sparkTask_written hdate hcalm hok

/-- Above the publication stand all three tables. -/
theorem all_written (habove : ∀ u ∈ upstream .publishSilverAsset, Established events logicalDate u w) :
    ∃ date, getExecutionDate events logicalDate = some date ∧ w.date = some date ∧
      ∀ table, (table, date) ∈ w.written := by
  obtain ⟨date, hD, hdate, htoken⟩ := habove (.build .tokenFlow) (by decide)
  obtain ⟨date', hD', -, hwhale⟩ := habove (.build .whaleTxns) (by decide)
  rw [hD] at hD'
  cases hD'
  refine ⟨date, hD, hdate, fun table => ?_⟩
  cases table with
  | txnEnriched => exact htoken _ (by decide)
  | tokenFlow => exact htoken _ (by decide)
  | whaleTxns => exact hwhale _ (by decide)

theorem established_attempt {t : Task} {c : Circumstances} {s : TaskGraph.State Task SilverWorld}
    (hcalm : NothingSwallowed s (t, c))
    (habove : ∀ u ∈ upstream t, Established events logicalDate u w)
    (hok : ((silverDag events logicalDate).attempt t c w).1 = true) :
    Established events logicalDate t ((silverDag events logicalDate).attempt t c w).2 := by
  cases t with
  | getExecutionDate =>
    simp only [silverDag] at hok ⊢
    cases hD : getExecutionDate events logicalDate with
    | none => simp [hD] at hok
    | some date =>
      by_cases hlife : c.lifetime = 0
      · simp [hD, hlife] at hok
      · simp [Established, tablesOf, hD, hlife]
  | build table =>
    cases table with
    | txnEnriched => exact established_sparkTask (habove .getExecutionDate (by decide)) hcalm hok
    | tokenFlow => exact established_sparkTask (habove (.build .txnEnriched) (by decide)) hcalm hok
    | whaleTxns => exact established_sparkTask (habove (.build .txnEnriched) (by decide)) hcalm hok
  | publishSilverAsset =>
    obtain ⟨date, hD, hdate, hall⟩ := all_written habove
    simp only [silverDag, hdate] at hok ⊢
    by_cases hlife : c.lifetime = 0
    · simp [hlife] at hok
    · simp only [hlife, if_false]
      exact ⟨date, hD, rfl, fun table _ => hall table⟩

/-- No attempt takes back what a task has established. -/
theorem established_stable (t u : Task) (c : Circumstances)
    (h : Established events logicalDate u w) :
    Established events logicalDate u ((silverDag events logicalDate).attempt t c w).2 := by
  obtain ⟨date, hD, hdate, htables⟩ := h
  cases t with
  | getExecutionDate =>
    simp only [silverDag, hD]
    split
    · exact ⟨date, hD, hdate, htables⟩
    · exact ⟨date, hD, rfl, htables⟩
  | build table => exact Established.extends ⟨date, hD, hdate, htables⟩ (sparkTask_extends table c w)
  | publishSilverAsset =>
    simp only [silverDag, hdate]
    split
    · exact ⟨date, hD, hdate, htables⟩
    · exact ⟨date, hD, rfl, htables⟩

theorem publishedWritten_attempt (t : Task) (c : Circumstances) (h : PublishedWritten w)
    (habove : ∀ u ∈ upstream t, Established events logicalDate u w) :
    PublishedWritten ((silverDag events logicalDate).attempt t c w).2 := by
  cases t with
  | getExecutionDate =>
    simp only [silverDag]
    split
    · split
      · exact h
      · exact h
    · exact h
  | build table => exact h.extends (sparkTask_extends table c w)
  | publishSilverAsset =>
    obtain ⟨date, -, hdate, hall⟩ := all_written habove
    simp only [silverDag, hdate]
    split
    · exact h
    · intro d hd table
      rcases List.mem_cons.mp hd with rfl | hd
      · exact hall table
      · exact h d hd table

end run

/-- **A date is published only after its three tables are written**, in every run
in which no entry point swallows an exception before its table is written. -/
theorem published_written (events : List AssetEvent) (logicalDate : Option Timestamp)
    (es : List (Task × Circumstances))
    (hcalm : Meets (silverDag events logicalDate).step NothingSwallowed
      (TaskGraph.State.init SilverWorld.init) es) :
    PublishedWritten
      (runs (silverDag events logicalDate).step (TaskGraph.State.init SilverWorld.init) es).world := by
  have hsound : TaskGraph.Sound (Established events logicalDate) PublishedWritten
      (runs (silverDag events logicalDate).step (TaskGraph.State.init SilverWorld.init) es) := by
    refine TaskGraph.runs_sound ?_ ?_ ?_ ?_ hcalm
    · exact fun s t c hc habove hok => established_attempt hc habove hok
    · exact fun t c w u h => established_stable t u c h
    · exact fun t c w h habove => publishedWritten_attempt t c h habove
    · exact fun date hdate => (List.not_mem_nil hdate).elim
  exact hsound.safe

/-- An attempt in which only `failing` raises. -/
def attemptWith (failing : Option Statement) : Circumstances :=
  ⟨fun s => failing = some s, 20⟩

/-- One attempt of each task; the last of `token_flow` raises at `failing`. -/
def attemptEach (failing : Option Statement) : List (Task × Circumstances) :=
  [(.getExecutionDate, attemptWith none), (.build .txnEnriched, attemptWith none),
    (.build .whaleTxns, attemptWith none), (.build .tokenFlow, attemptWith (some .getSparkSession)),
    (.build .tokenFlow, attemptWith failing), (.publishSilverAsset, attemptWith none)]

/-- The state after some attempts of a run that a Bronze event triggered. -/
def afterAttempts (es : List (Task × Circumstances)) : SilverWorld :=
  (runs (silverDag [publishAsset ⟨20608⟩] none).step (TaskGraph.State.init SilverWorld.init) es).world

theorem published_after_retry :
    (afterAttempts (attemptEach none)).published = [⟨20608⟩] ∧
      PublishedWritten (afterAttempts (attemptEach none)) :=
  ⟨by decide +kernel, published_written _ _ _ (by decide +kernel)⟩

theorem published_without_token_flow :
    (afterAttempts (attemptEach (some .write))).published = [⟨20608⟩] ∧
      (Table.tokenFlow, ⟨20608⟩) ∉ (afterAttempts (attemptEach (some .write))).written := by
  decide +kernel

end Airflow

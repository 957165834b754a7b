import EthPipeline.Base.Exec
import EthPipeline.Storage.BlockRange

/-!
# Loading a Gold table

`write_gold` and `write_gold_to_bq` of `src/gold/utils.py`, and the `main` that
the four jobs of `src/gold/transform` share.  A DataFrame is evaluated anew by
every action, so each action has rows of its own.

* `main_state`: an execution overwrites a partition and appends to a table.
* `loaded_once_iff`: the table ends with one copy of the last result exactly when
  no execution before the last has appended a row.
* `loaded_twice`: an execution that fails after its append, and the retry.
-/

namespace Gold

open Storage Exec

variable {α : Type}

/-- The two stores.  A table of either is a table name; `α` are the columns of a
row besides `dt`. -/
structure Warehouse (α : Type) where
  parquet : String → DateText → List α
  bigquery : String → List (DateText × α)

/-- How a statement of an execution goes: what its DataFrame evaluates to, whether
it raises, and whether it has taken effect even so. -/
structure Choice (α : Type) where
  rows : List α
  raises : Bool
  applied : Bool
  deriving DecidableEq, Repr

def Choice.takesEffect (c : Choice α) : Bool := !c.raises || c.applied

/-- Nothing of the exceptions is told apart. -/
abbrev Job (α β : Type) := Exec (Warehouse α) (Choice α) Unit β

def statement (effect : List α → Warehouse α → Warehouse α) : Job α Unit :=
  Exec.call fun c w =>
    (if c.raises then .error () else .ok (), if c.takesEffect then effect c.rows w else w)

def run : Job α Unit := statement fun _ w => w

/-- `mode("overwrite")` with dynamic partitions: a partition is replaced when the
rows have one for it. -/
def overwrite (path : String) (date : DateText) (rows : List α) (w : Warehouse α) : Warehouse α :=
  if rows = [] then w
  else { w with parquet := Function.update w.parquet path
                  (Function.update (w.parquet path) date rows) }

/-- `mode("append")`. -/
def append (table : String) (date : DateText) (rows : List α) (w : Warehouse α) : Warehouse α :=
  { w with bigquery := Function.update w.bigquery table
             (w.bigquery table ++ rows.map fun r => (date, r)) }

def writeGold (path : String) (date : DateText) : Job α Unit := statement (overwrite path date)

/-- The handler logs the exception and raises it again. -/
def writeGoldToBq (table : String) (date : DateText) : Job α Unit :=
  tryCatch (statement (append table date)) fun e => raise e

/-- `main` of a job: session, build, the two writes, `show`, `spark.stop`. -/
def main (table : String) (date : DateText) : Job α Unit := do
  run
  run
  writeGold table date
  writeGoldToBq table date
  run
  run

def topWhalesDailyMain : DateText → Job α Unit := main "top_whales_daily"

def tokenPopularityDailyMain : DateText → Job α Unit := main "token_popularity_daily"

def tokenPopularityHourlyMain : DateText → Job α Unit := main "token_popularity_hourly"

def marketFlowHourlyMain : DateText → Job α Unit := main "market_flow_hourly"

/-! ### One execution -/

/-- The circumstances of an execution. -/
abbrev Execution (α : Type) := List (Choice α)

/-- The rows an execution appends: it has to reach the fourth statement, and that
has to take effect. -/
def Execution.appended : Execution α → List α
  | session :: build :: gold :: append :: _ =>
    if !session.raises && !build.raises && !gold.raises && append.takesEffect then append.rows
    else []
  | _ => []

/-- The rows that replace the partition of the date. -/
def Execution.overwritten : Execution α → List α
  | session :: build :: gold :: _ =>
    if !session.raises && !build.raises && gold.takesEffect then gold.rows else []
  | _ => []

/-- What the last write of a successful execution has to load. -/
def Execution.result (e : Execution α) : List α := (e[3]?.map (·.rows)).getD []

/-- Six statements, and none raises. -/
def Execution.Succeeds (e : Execution α) : Prop := 6 ≤ e.length ∧ ∀ c ∈ e.take 6, c.raises = false

instance (e : Execution α) : Decidable e.Succeeds := inferInstanceAs (Decidable (_ ∧ _))

theorem Execution.appended_of_succeeds {e : Execution α} (h : e.Succeeds) :
    e.appended = e.result := by
  match e, h with
  | session :: build :: gold :: append :: rest, ⟨_, h⟩ =>
    have hsession : session.raises = false := h _ (by simp)
    have hbuild : build.raises = false := h _ (by simp)
    have hgold : gold.raises = false := h _ (by simp)
    have happend : append.raises = false := h _ (by simp)
    simp [appended, result, Choice.takesEffect, hsession, hbuild, hgold, happend]
  | [], ⟨h, _⟩ | [_], ⟨h, _⟩ | [_, _], ⟨h, _⟩ | [_, _, _], ⟨h, _⟩ => simp at h

/-! ### What an execution leaves -/

section statements

variable {effect : List α → Warehouse α → Warehouse α} {k : Unit → Job α Unit} {c : Choice α}
  (w : Warehouse α) (cs : List (Choice α))

/-- A statement, and the rest of the program where it does not raise. -/
theorem bind_state_cons :
    ((statement effect >>= k) w (c :: cs)).state =
      if c.raises then (if c.applied then effect c.rows w else w)
      else (k () (effect c.rows w) cs).state := by
  show (Exec.bind (statement effect) k w (c :: cs)).state = _
  by_cases h : c.raises = true
  · simp [Exec.bind, statement, Exec.call, h, Choice.takesEffect]
  · simp [Exec.bind, statement, Exec.call, h, Choice.takesEffect]

theorem bind_state_nil : ((statement effect >>= k) w []).state = w := rfl

/-- The statements after the writes leave the stores as they are. -/
theorem rest_state : ((run >>= fun _ => run : Job α Unit) w cs).state = w := by
  have hlast : ∀ cs : List (Choice α), (run w cs).state = w := by
    intro cs
    cases cs with
    | nil => rfl
    | cons c cs => by_cases h : c.raises = true <;> simp [run, statement, Exec.call, h]
  cases cs with
  | nil => rfl
  | cons c cs =>
    unfold run at hlast ⊢
    rw [bind_state_cons, hlast cs]
    simp

end statements

@[simp] theorem append_nil (table : String) (date : DateText) (w : Warehouse α) :
    append table date [] w = w := by
  simp [append]

@[simp] theorem overwrite_nil (path : String) (date : DateText) (w : Warehouse α) :
    overwrite path date [] w = w := if_pos rfl

/-- **What an execution leaves**: the partition replaced and the table appended
to, as far as it gets. -/
theorem main_state (table : String) (date : DateText) (w : Warehouse α) (e : Execution α) :
    (main table date w e).state =
      append table date e.appended (overwrite table date e.overwritten w) := by
  have hrest := fun (w : Warehouse α) (e : Execution α) => rest_state w e
  unfold main writeGoldToBq writeGold
  rw [tryCatch_raise]
  unfold run at hrest ⊢
  match e with
  | [] => simp [Execution.appended, Execution.overwritten, bind_state_nil]
  | [session] =>
    rw [bind_state_cons, bind_state_nil]
    simp [Execution.appended, Execution.overwritten]
  | [session, build] =>
    rw [bind_state_cons, bind_state_cons, bind_state_nil]
    simp [Execution.appended, Execution.overwritten]
  | [session, build, gold] =>
    rw [bind_state_cons, bind_state_cons, bind_state_cons, bind_state_nil]
    by_cases hs : session.raises = true
    · simp [Execution.appended, Execution.overwritten, hs]
    by_cases hb : build.raises = true
    · simp [Execution.appended, Execution.overwritten, hs, hb]
    by_cases hg : gold.raises = true
    · by_cases hga : gold.applied = true
      · simp [Execution.appended, Execution.overwritten, Choice.takesEffect, hs, hb, hg, hga]
      · simp [Execution.appended, Execution.overwritten, Choice.takesEffect, hs, hb, hg, hga]
    · simp [Execution.appended, Execution.overwritten, Choice.takesEffect, hs, hb, hg]
  | session :: build :: gold :: append :: e =>
    rw [bind_state_cons, bind_state_cons, bind_state_cons, bind_state_cons, hrest]
    by_cases hs : session.raises = true
    · simp [Execution.appended, Execution.overwritten, hs]
    by_cases hb : build.raises = true
    · simp [Execution.appended, Execution.overwritten, hs, hb]
    by_cases hg : gold.raises = true
    · -- the append is not reached
      by_cases hga : gold.applied = true
      · simp [Execution.appended, Execution.overwritten, Choice.takesEffect, hs, hb, hg, hga]
      · simp [Execution.appended, Execution.overwritten, Choice.takesEffect, hs, hb, hg, hga]
    by_cases ha : append.raises = true
    · by_cases haa : append.applied = true
      · simp [Execution.appended, Execution.overwritten, Choice.takesEffect, hs, hb, hg, ha, haa]
      · simp [Execution.appended, Execution.overwritten, Choice.takesEffect, hs, hb, hg, ha, haa]
    · simp [Execution.appended, Execution.overwritten, Choice.takesEffect, hs, hb, hg, ha]

/-! ### Every execution of a date -/

/-- The executions of a job for a date, one after the other. -/
def executions (table : String) (date : DateText) (w : Warehouse α) (es : List (Execution α)) :
    Warehouse α :=
  es.foldl (fun w e => (main table date w e).state) w

/-- The rows of a date. -/
def rowsOf (date : DateText) (rows : List (DateText × α)) : List α :=
  (rows.filter fun r => r.1 = date).map (·.2)

theorem rowsOf_append (date : DateText) (rows rows' : List (DateText × α)) :
    rowsOf date (rows ++ rows') = rowsOf date rows ++ rowsOf date rows' := by
  simp [rowsOf]

theorem rowsOf_self (date : DateText) (rows : List α) :
    rowsOf date (rows.map fun r => (date, r)) = rows := by
  simp [rowsOf, List.filter_map, Function.comp_def]

theorem rowsOf_other {date other : DateText} (h : other ≠ date) (rows : List α) :
    rowsOf other (rows.map fun r => (date, r)) = [] := by
  simp [rowsOf, List.filter_map, Function.comp_def, h.symm]

/-- The table grows by what each execution appends. -/
theorem executions_bigquery (table : String) (date : DateText) (w : Warehouse α)
    (es : List (Execution α)) :
    (executions table date w es).bigquery table =
      w.bigquery table ++ (es.flatMap Execution.appended).map fun r => (date, r) := by
  unfold executions
  induction es generalizing w with
  | nil => simp
  | cons e es ih =>
    have happend : (main table date w e).state.bigquery table =
        w.bigquery table ++ e.appended.map fun r => (date, r) := by
      rw [main_state]
      simp only [append, Function.update_self, overwrite]
      split <;> rfl
    rw [List.foldl_cons, ih, happend, List.flatMap_cons, List.map_append, List.append_assoc]

theorem executions_rowsOf (table : String) (date : DateText) (w : Warehouse α)
    (es : List (Execution α)) :
    rowsOf date ((executions table date w es).bigquery table) =
      rowsOf date (w.bigquery table) ++ es.flatMap Execution.appended := by
  rw [executions_bigquery, rowsOf_append, rowsOf_self]

theorem executions_rowsOf_other {date other : DateText} (h : other ≠ date) (table : String)
    (w : Warehouse α) (es : List (Execution α)) :
    rowsOf other ((executions table date w es).bigquery table) =
      rowsOf other (w.bigquery table) := by
  rw [executions_bigquery, rowsOf_append, rowsOf_other h, List.append_nil]

/-- The partition holds the rows of the last execution that wrote any. -/
theorem executions_parquet (table : String) (date : DateText) (w : Warehouse α)
    (earlier : List (Execution α)) (last : Execution α) (h : last.overwritten ≠ []) :
    (executions table date w (earlier ++ [last])).parquet table date = last.overwritten := by
  rw [executions, List.foldl_append, List.foldl_cons, List.foldl_nil, main_state]
  simp [append, overwrite, h]

/-- The table has one copy of each row of the last result, and the rows of the
other dates are those it had. -/
def LoadedOnce (table : String) (date : DateText) (w : Warehouse α) (earlier : List (Execution α))
    (last : Execution α) : Prop :=
  let after := (executions table date w (earlier ++ [last])).bigquery table
  (rowsOf date after).Perm last.result ∧
    ∀ other, other ≠ date → rowsOf other after = rowsOf other (w.bigquery table)

/-- **One copy, exactly when nothing was appended before**: the table had no rows
of the date, and no execution before the last got to append one. -/
theorem loaded_once_iff (table : String) (date : DateText) (w : Warehouse α)
    (earlier : List (Execution α)) (last : Execution α) (hlast : last.Succeeds) :
    LoadedOnce table date w earlier last ↔
      rowsOf date (w.bigquery table) = [] ∧ ∀ e ∈ earlier, e.appended = [] := by
  have hrows : rowsOf date ((executions table date w (earlier ++ [last])).bigquery table) =
      (rowsOf date (w.bigquery table) ++ earlier.flatMap Execution.appended) ++ last.result := by
    rw [executions_rowsOf, List.flatMap_append, List.flatMap_singleton,
      Execution.appended_of_succeeds hlast, List.append_assoc]
  have hothers : ∀ other, other ≠ date →
      rowsOf other ((executions table date w (earlier ++ [last])).bigquery table) =
        rowsOf other (w.bigquery table) := fun other h => executions_rowsOf_other h table w _
  constructor
  · intro h
    have hlen := h.1.length_eq
    rw [hrows, List.length_append] at hlen
    have hnil : rowsOf date (w.bigquery table) ++ earlier.flatMap Execution.appended = [] :=
      List.eq_nil_of_length_eq_zero (by omega)
    obtain ⟨hw, hearlier⟩ := List.append_eq_nil_iff.mp hnil
    exact ⟨hw, List.flatMap_eq_nil_iff.mp hearlier⟩
  · rintro ⟨hw, hearlier⟩
    refine ⟨?_, hothers⟩
    rw [hrows, hw, List.flatMap_eq_nil_iff.mpr hearlier]
    exact List.Perm.refl _

/-- Six statements over the same rows; the one at `failing` raises, after it has
taken effect or before. -/
def attempt (rows : List String) (failing : Option ℕ) (applied : Bool) : Execution String :=
  (List.range 6).map fun i => ⟨rows, failing = some i, applied⟩

/-- A warehouse with the rows of another day. -/
def yesterday : Warehouse String := ⟨fun _ _ => [], fun _ => [(⟨20607⟩, "0xa1")]⟩

theorem loaded_after_failed_build :
    LoadedOnce "top_whales_daily" ⟨20608⟩ yesterday [attempt ["0xb2"] (some 1) false]
      (attempt ["0xb2"] none false) :=
  (loaded_once_iff _ _ _ _ _ (by decide +kernel)).mpr (by decide +kernel)

/-- The first execution fails at `show`, and Airflow tries again. -/
theorem loaded_twice :
    (attempt ["0xb2"] none false).Succeeds ∧
      rowsOf ⟨20608⟩ ((executions "top_whales_daily" ⟨20608⟩ yesterday
        ([attempt ["0xb2"] (some 4) false] ++ [attempt ["0xb2"] none false])).bigquery
          "top_whales_daily") = ["0xb2", "0xb2"] ∧
        ¬LoadedOnce "top_whales_daily" ⟨20608⟩ yesterday [attempt ["0xb2"] (some 4) false]
          (attempt ["0xb2"] none false) := by
  refine ⟨by decide +kernel, by decide +kernel, fun h => ?_⟩
  have hlen := h.1.length_eq
  revert hlen
  decide +kernel

end Gold

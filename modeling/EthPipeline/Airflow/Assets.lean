import EthPipeline.Base.Run
import EthPipeline.Storage.BlockRange

/-!
# Asset events between the layers

`get_execution_date` of the Silver and Gold DAGs, the tasks that publish a date,
and the queues of events between the three layers.  A run takes every event
queued since the run before it; with `max_active_runs=1` there may be several.

* `getExecutionDate_publishAsset`: a run works on the date of its first event.
* `dates_processed`: a run processes every date its events carry exactly when
  they all carry the same one, and where every run does, no date is lost.
* `second_date_lost`: two dates published before the Silver run starts.
-/

namespace Airflow

open Storage Run

/-- An asset event; `logicalDate` is `extra.get("logical_date")`, and `none` also
the empty text. -/
structure AssetEvent where
  logicalDate : Option DateText
  deriving DecidableEq, Repr

/-- `publish_bronze_asset` and `publish_silver_asset`. -/
def publishAsset (date : DateText) : AssetEvent := ⟨some date⟩

/-- `get_execution_date`.  A run that events trigger may have no logical date of
its own; `none` is then an exception, and the run fails. -/
def getExecutionDate (events : List AssetEvent) (logicalDate : Option Timestamp) :
    Option DateText :=
  match events.head?.bind (·.logicalDate) with
  | some date => some date
  | none => logicalDate.map strftime

@[simp] theorem getExecutionDate_publishAsset (date : DateText) (events : List AssetEvent)
    (logicalDate : Option Timestamp) :
    getExecutionDate (publishAsset date :: events) logicalDate = some date := rfl

/-! ### One layer -/

/-- The Silver or the Gold DAG: the events no run has taken, the date of the run
in progress, and the dates whose tables are written. -/
structure Layer where
  queued : List AssetEvent
  running : Option DateText
  done : List DateText
  deriving DecidableEq, Repr

namespace Layer

def empty : Layer := ⟨[], none, []⟩

def queue (l : Layer) (e : AssetEvent) : Layer := { l with queued := l.queued ++ [e] }

/-- A run starts when none is active, and takes the whole queue. -/
def start (l : Layer) (logicalDate : Option Timestamp) : Option Layer :=
  if l.running = none ∧ l.queued ≠ [] then
    some { l with queued := [], running := getExecutionDate l.queued logicalDate }
  else none

/-- The run ends, with the tables of its date written. -/
def finish (l : Layer) : Option (Layer × DateText) :=
  l.running.map fun date => ({ l with running := none, done := date :: l.done }, date)

/-- The date waits, is worked on, or has its tables. -/
def Holds (l : Layer) (date : DateText) : Prop :=
  publishAsset date ∈ l.queued ∨ l.running = some date ∨ date ∈ l.done

/-- The events of the queue all carry the same date. -/
def OneDate (l : Layer) : Prop :=
  ∀ e ∈ l.queued, ∀ f ∈ l.queued, e.logicalDate = f.logicalDate

instance (l : Layer) : Decidable l.OneDate :=
  inferInstanceAs (Decidable (∀ e ∈ l.queued, ∀ f ∈ l.queued, _))

/-- No event waits and no run is active. -/
def Idle (l : Layer) : Prop := l.queued = [] ∧ l.running = none

instance (l : Layer) : Decidable l.Idle := inferInstanceAs (Decidable (_ ∧ _))

theorem holds_queue_self (l : Layer) (date : DateText) : (l.queue (publishAsset date)).Holds date :=
  .inl (List.mem_append_right _ List.mem_cons_self)

theorem Holds.queue {l : Layer} {date : DateText} (h : l.Holds date) (e : AssetEvent) :
    (l.queue e).Holds date := by
  rcases h with h | h | h
  · exact .inl (List.mem_append_left _ h)
  · exact .inr (.inl h)
  · exact .inr (.inr h)

/-- A start loses no date when the queue carries one only. -/
theorem Holds.start {l l' : Layer} {date : DateText} {logicalDate : Option Timestamp}
    (h : l.Holds date) (hone : l.OneDate) (hstart : l.start logicalDate = some l') :
    l'.Holds date := by
  unfold Layer.start at hstart
  split at hstart
  · next hready =>
    cases hstart
    rcases h with h | h | h
    · right
      left
      show getExecutionDate l.queued logicalDate = some date
      cases hq : l.queued with
      | nil =>
        rw [hq] at h
        cases h
      | cons e rest =>
        have hmem : e ∈ l.queued := by
          rw [hq]
          exact List.mem_cons_self
        have he : e.logicalDate = some date := hone e hmem _ h
        simp [getExecutionDate, he]
    · rw [hready.1] at h
      cases h
    · exact .inr (.inr h)
  · cases hstart

theorem Holds.finish {l l' : Layer} {date date' : DateText} (h : l.Holds date)
    (hfinish : l.finish = some (l', date')) : l'.Holds date := by
  obtain ⟨d, hrun, heq⟩ := Option.map_eq_some_iff.mp hfinish
  cases heq
  rcases h with h | h | h
  · exact .inl h
  · rw [hrun] at h
    cases h
    exact .inr (.inr List.mem_cons_self)
  · exact .inr (.inr (List.mem_cons_of_mem _ h))

theorem start_done {l l' : Layer} {logicalDate : Option Timestamp}
    (hstart : l.start logicalDate = some l') : l'.done = l.done := by
  unfold start at hstart
  split at hstart
  · cases hstart
    rfl
  · cases hstart

theorem finish_done {l l' : Layer} {date : DateText} (hfinish : l.finish = some (l', date)) :
    l'.done = date :: l.done := by
  obtain ⟨d, -, heq⟩ := Option.map_eq_some_iff.mp hfinish
  cases heq
  rfl

theorem Holds.of_idle {l : Layer} {date : DateText} (h : l.Holds date) (hidle : l.Idle) :
    date ∈ l.done := by
  rcases h with h | h | h
  · rw [hidle.1] at h
    cases h
  · rw [hidle.2] at h
    cases h
  · exact h

end Layer

/-! ### Bronze, Silver and Gold -/

structure Pipeline where
  published : List DateText
  silver : Layer
  gold : Layer
  deriving DecidableEq, Repr

inductive Event where
  | bronzeEnds (date : DateText)
  | silverStarts (logicalDate : Option Timestamp)
  | silverEnds
  | goldStarts (logicalDate : Option Timestamp)
  | goldEnds
  deriving DecidableEq, Repr

namespace Pipeline

def init : Pipeline := ⟨[], .empty, .empty⟩

/-- The end of a Bronze or a Silver run publishes its date to the layer above. -/
def step (p : Pipeline) : Event → Option Pipeline
  | .bronzeEnds date =>
    some { p with published := date :: p.published, silver := p.silver.queue (publishAsset date) }
  | .silverStarts logicalDate =>
    (p.silver.start logicalDate).map fun silver => { p with silver := silver }
  | .silverEnds => p.silver.finish.map fun (silver, date) =>
    { p with silver := silver, gold := p.gold.queue (publishAsset date) }
  | .goldStarts logicalDate => (p.gold.start logicalDate).map fun gold => { p with gold := gold }
  | .goldEnds => p.gold.finish.map fun (gold, _) => { p with gold := gold }

/-- A run that starts takes events of one date. -/
def TakesOneDate (p : Pipeline) : Event → Prop
  | .silverStarts _ => p.silver.OneDate
  | .goldStarts _ => p.gold.OneDate
  | _ => True

instance (p : Pipeline) : ∀ e : Event, Decidable (p.TakesOneDate e)
  | .silverStarts _ => inferInstanceAs (Decidable p.silver.OneDate)
  | .goldStarts _ => inferInstanceAs (Decidable p.gold.OneDate)
  | .bronzeEnds _ | .silverEnds | .goldEnds => inferInstanceAs (Decidable True)

def Idle (p : Pipeline) : Prop := p.silver.Idle ∧ p.gold.Idle

instance (p : Pipeline) : Decidable p.Idle := inferInstanceAs (Decidable (_ ∧ _))

/-- Silver holds what Bronze published, and Gold what Silver has done. -/
structure Kept (p : Pipeline) : Prop where
  silver : ∀ date ∈ p.published, p.silver.Holds date
  gold : ∀ date ∈ p.silver.done, p.gold.Holds date

theorem kept_init : init.Kept := ⟨fun _ h => (by cases h), fun _ h => (by cases h)⟩

theorem Kept.step {p p' : Pipeline} {e : Event} (h : p.Kept) (hone : p.TakesOneDate e)
    (hstep : p.step e = some p') : p'.Kept := by
  cases e with
  | bronzeEnds date =>
    cases hstep
    refine ⟨fun d hd => ?_, h.gold⟩
    rcases List.mem_cons.mp hd with rfl | hd
    · exact p.silver.holds_queue_self d
    · exact (h.silver d hd).queue _
  | silverStarts logicalDate =>
    obtain ⟨silver, hstart, rfl⟩ := Option.map_eq_some_iff.mp hstep
    refine ⟨fun d hd => (h.silver d hd).start hone hstart, fun d hd => h.gold d ?_⟩
    rwa [Layer.start_done hstart] at hd
  | silverEnds =>
    obtain ⟨⟨silver, date⟩, hfinish, rfl⟩ := Option.map_eq_some_iff.mp hstep
    refine ⟨fun d hd => (h.silver d hd).finish hfinish, fun d hd => ?_⟩
    rw [Layer.finish_done hfinish] at hd
    rcases List.mem_cons.mp hd with rfl | hd
    · exact p.gold.holds_queue_self d
    · exact (h.gold d hd).queue _
  | goldStarts logicalDate =>
    obtain ⟨gold, hstart, rfl⟩ := Option.map_eq_some_iff.mp hstep
    exact ⟨h.silver, fun d hd => (h.gold d hd).start hone hstart⟩
  | goldEnds =>
    obtain ⟨⟨gold, date⟩, hfinish, rfl⟩ := Option.map_eq_some_iff.mp hstep
    exact ⟨h.silver, fun d hd => (h.gold d hd).finish hfinish⟩

theorem kept_runs {es : List Event} (hone : Meets Pipeline.step TakesOneDate init es) :
    (runs Pipeline.step init es).Kept :=
  runs_invariant_of_meets (fun _ _ _ hstep hC h => Kept.step h hC hstep) hone kept_init

end Pipeline

theorem getExecutionDate_all_iff (dates : List DateText) (logicalDate : Option Timestamp) :
    (∀ date ∈ dates, getExecutionDate (dates.map publishAsset) logicalDate = some date) ↔
      ∀ d ∈ dates, ∀ e ∈ dates, d = e := by
  cases dates with
  | nil => simp
  | cons first rest =>
    rw [List.map_cons, getExecutionDate_publishAsset]
    constructor
    · intro h d hd e he
      rw [← Option.some.inj (h d hd), ← Option.some.inj (h e he)]
    · intro h date hdate
      rw [h first List.mem_cons_self date hdate]

/-- **No date is dropped where every run takes events of one date.** -/
theorem dates_processed (dates : List DateText) (logicalDate : Option Timestamp)
    (es : List Event) :
    ((∀ date ∈ dates, getExecutionDate (dates.map publishAsset) logicalDate = some date) ↔
        ∀ d ∈ dates, ∀ e ∈ dates, d = e) ∧
      (Meets Pipeline.step Pipeline.TakesOneDate Pipeline.init es →
        (runs Pipeline.step Pipeline.init es).Idle →
          ∀ date ∈ (runs Pipeline.step Pipeline.init es).published,
            date ∈ (runs Pipeline.step Pipeline.init es).silver.done ∧
              date ∈ (runs Pipeline.step Pipeline.init es).gold.done) := by
  refine ⟨getExecutionDate_all_iff dates logicalDate, fun hone hidle date hdate => ?_⟩
  have hkept := Pipeline.kept_runs hone
  have hsilver := (hkept.silver date hdate).of_idle hidle.1
  exact ⟨hsilver, (hkept.gold date hsilver).of_idle hidle.2⟩

/-- Two days, each taken by a run of its own. -/
def twoDays : List Event :=
  [.bronzeEnds ⟨20608⟩, .silverStarts none, .silverEnds, .bronzeEnds ⟨20609⟩, .goldStarts none,
    .silverStarts none, .goldEnds, .silverEnds, .goldStarts none, .goldEnds]

theorem twoDays_processed :
    ∀ date ∈ (runs Pipeline.step Pipeline.init twoDays).published,
      date ∈ (runs Pipeline.step Pipeline.init twoDays).silver.done ∧
        date ∈ (runs Pipeline.step Pipeline.init twoDays).gold.done :=
  (dates_processed [] none twoDays).2 (by decide +kernel) (by decide +kernel)

/-- Bronze catches up and ends twice before the Silver run starts. -/
def catchUp : List Event :=
  [.bronzeEnds ⟨20608⟩, .bronzeEnds ⟨20609⟩, .silverStarts none, .silverEnds, .goldStarts none,
    .goldEnds]

theorem second_date_lost :
    getExecutionDate [publishAsset ⟨20608⟩, publishAsset ⟨20609⟩] none ≠ some ⟨20609⟩ ∧
      (runs Pipeline.step Pipeline.init catchUp).Idle ∧
        ⟨20609⟩ ∈ (runs Pipeline.step Pipeline.init catchUp).published ∧
          ⟨20609⟩ ∉ (runs Pipeline.step Pipeline.init catchUp).silver.done ∧
            ⟨20609⟩ ∉ (runs Pipeline.step Pipeline.init catchUp).gold.done := by
  decide +kernel

end Airflow

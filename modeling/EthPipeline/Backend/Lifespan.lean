import EthPipeline.Backend.AlertConsumer

/-!
# The life of a server

`lifespan` of `src/backend/main.py`: the start-up, the time in which requests are served, and
the `finally` block, beside the task of the whale alerts and the heartbeat of the websockets.
A statement of the start-up may raise, and so may the calls that close what was opened; only
those of Redis and of the pool are guarded, and no guard catches a `CancelledError`, which may
come at every `await` that waits.  `ConnectionManager.stop_ping_loop` of `core/ws_manager.py`,
`init_db_pool` and `close_db_pool` of `core/db.py` and `RedisManager` of `core/redis_client.py`
are each one statement.

* `Consistent`: what holds at each statement.
* `step_intact_iff`: which steps leave something open for good.
* `released_iff`: what a request needs is there, and in which lives everything that was
  opened is released in the end.
-/

namespace Backend

open Run AlertConsumer

/-- The statement that `lifespan` has come to; in `finally` from `awaitConsumer` on.  The
topics are looked up before the server serves, and what raises there is logged. -/
inductive LifespanPoint where
  | initDbPool
  | loadTokens
  | loadLabels
  | connectRedis
  | createEs
  | loadIndex
  | serving
  | awaitConsumer
  | stopPingLoop
  | closeEs
  | disconnectRedis
  | closeDbPool
  | finished
  deriving DecidableEq, Repr

/-- A connection or a task. -/
inductive Handle where
  | absent
  | opened
  | closed
  deriving DecidableEq, Repr

def Handle.close : Handle → Handle
  | .opened => .closed
  | handle => handle

/-- `whale_consumer_task`, and whether it has ended with an exception of its own. -/
structure ConsumerTask where
  task : AlertTask
  failed : Bool
  deriving DecidableEq, Repr

namespace ConsumerTask

/-- The task goes on by itself. -/
def step (c : ConsumerTask) : AlertConsumer.Event → Option ConsumerTask
  | .cancelled => none
  | .createFailed => (c.task.step .createFailed).map fun task => ⟨task, true⟩
  | .subscribeFailed => (c.task.step .subscribeFailed).map fun task => ⟨task, true⟩
  | e => (c.task.step e).map fun task => { c with task }

/-- `consumer.close` has raised, in the `finally` block of the coroutine. -/
def closeRaises (c : ConsumerTask) : Option ConsumerTask :=
  (c.task.step .closeReturned).map fun task => ⟨task, true⟩

/-- `task.cancel()`; a coroutine that has not begun never does. -/
def cancel (c : ConsumerTask) : ConsumerTask :=
  match c.task.cancel with
  | some task => { c with task }
  | none => { c with task := { c.task with pc := .ended } }

/-- The task is over, and the consumer that it created was closed without an exception. -/
structure Closed (c : ConsumerTask) : Prop where
  ended : c.task.pc = .ended
  once : c.task.created = true → c.task.closeCalls = 1 ∧ c.failed = false

end ConsumerTask

structure Life where
  point : LifespanPoint
  pool : Handle
  redis : Handle
  es : Handle
  consumer : Option ConsumerTask
  ping : Handle
  deriving DecidableEq, Repr

inductive LifeEvent where
  /- the statement is over, raises, or is cancelled at its `await` -/
  | proceeds
  | raises
  | cancelled
  /- the server is told to stop -/
  | shutdown
  | alert (e : AlertConsumer.Event)
  | closeRaises
  /- the first websocket connects; the loop gives up after an error -/
  | pingStarted
  | pingEnded

namespace Life

def initial : Life := ⟨.initDbPool, .absent, .absent, .absent, none, .absent⟩

/-- `await whale_consumer_task` is over: an exception of the task leaves the `finally` block. -/
def afterConsumer (s : Life) (c : ConsumerTask) : Life :=
  { s with point := if c.failed then .finished else .stopPingLoop }

/-- The `finally` block begins; a task that is over already is not waited for. -/
def toFinally (s : Life) : Life :=
  match s.consumer with
  | none => { s with point := .stopPingLoop }
  | some c =>
    if c.task.pc = .ended then s.afterConsumer c
    else { s with consumer := some c.cancel, point := .awaitConsumer }

/-- `await whale_consumer_task`: only a `CancelledError` is suppressed. -/
def joinConsumer (s : Life) : Option Life :=
  match s.consumer with
  | none => none
  | some c => if c.task.pc = .ended then some (s.afterConsumer c) else none

/-- A cancellation at `await whale_consumer_task` is handed on to the task; once the task is
over it takes the place of what the task has ended with, and is suppressed. -/
def cancelJoin (s : Life) : Option Life :=
  match s.consumer with
  | none => none
  | some c =>
    if c.task.pc = .ended then some { s with point := .stopPingLoop }
    else some { s with consumer := some c.cancel }

def proceed (s : Life) : Option Life :=
  match s.point with
  | .initDbPool => some { s with pool := .opened, point := .loadTokens }
  | .loadTokens => some { s with point := .loadLabels }
  | .loadLabels => some { s with point := .connectRedis }
  | .connectRedis => some { s with redis := .opened, point := .createEs }
  | .createEs => some { s with es := .opened, point := .loadIndex }
  | .loadIndex => some { s with consumer := some ⟨.initial, false⟩, point := .serving }
  | .serving => none
  | .awaitConsumer => s.joinConsumer
  | .stopPingLoop => some { s with ping := s.ping.close, point := .closeEs }
  | .closeEs => some { s with es := s.es.close, point := .disconnectRedis }
  | .disconnectRedis => some { s with redis := s.redis.close, point := .closeDbPool }
  | .closeDbPool => some { s with pool := s.pool.close, point := .finished }
  | .finished => none

/-- An `Exception`.  `RedisManager.connect` logs it and has no client then. -/
def throw (s : Life) : Option Life :=
  match s.point with
  | .initDbPool | .loadTokens | .loadLabels | .createEs | .loadIndex | .serving => some s.toFinally
  | .connectRedis => some { s with point := .createEs }
  | .closeEs => if s.es = .opened then some { s with point := .finished } else none
  | .disconnectRedis =>
    if s.redis = .opened then some { s with point := .closeDbPool } else none
  | .closeDbPool => if s.pool = .opened then some { s with point := .finished } else none
  | .awaitConsumer | .stopPingLoop | .finished => none

/-- A `CancelledError` at the `await` of the statement, if it waits there.  The client of Redis
is kept, as only an `Exception` is caught; `stop_ping_loop` suppresses the error, and its task
ends all the same. -/
def cancel (s : Life) : Option Life :=
  match s.point with
  | .initDbPool | .loadTokens | .loadLabels | .loadIndex | .serving => some s.toFinally
  | .connectRedis => some { s with redis := .opened }.toFinally
  | .awaitConsumer => s.cancelJoin
  | .stopPingLoop =>
    if s.ping = .opened then some { s with ping := .closed, point := .closeEs } else none
  | .closeEs => if s.es = .opened then some { s with point := .finished } else none
  | .disconnectRedis => if s.redis = .opened then some { s with point := .finished } else none
  | .closeDbPool => if s.pool = .opened then some { s with point := .finished } else none
  | .createEs | .finished => none

def step (s : Life) : LifeEvent → Option Life
  | .proceeds => s.proceed
  | .raises => s.throw
  | .cancelled => s.cancel
  | .shutdown => if s.point = .serving then some s.toFinally else none
  | .alert e => s.consumer.bind fun c => (c.step e).map fun c => { s with consumer := some c }
  | .closeRaises =>
    s.consumer.bind fun c => c.closeRaises.map fun c => { s with consumer := some c }
  | .pingStarted =>
    if s.point = .serving ∧ s.ping ≠ .opened then some { s with ping := .opened } else none
  | .pingEnded => if s.ping = .opened then some { s with ping := .closed } else none

def run (events : List LifeEvent) : Life := runs step initial events

/-- Nothing is open, and no task goes on. -/
structure Released (s : Life) : Prop where
  pool : s.pool ≠ .opened
  redis : s.redis ≠ .opened
  es : s.es ≠ .opened
  ping : s.ping ≠ .opened
  consumer : ∀ c, s.consumer = some c → c.Closed

/-- The statement closes Elasticsearch, Redis or the pool. -/
def Closing (s : Life) : Prop :=
  s.point = .closeEs ∨ s.point = .disconnectRedis ∨ s.point = .closeDbPool

/-- The alerts are subscribed to, what is closed closes, and no cancellation withdraws the call
of `consumer.close`. -/
def Orderly (s : Life) : LifeEvent → Prop
  | .alert .createFailed | .alert .subscribeFailed | .closeRaises => False
  | .raises => ¬ s.Closing
  | .cancelled =>
    ¬ s.Closing ∧
      (s.point = .awaitConsumer → ∀ c, s.consumer = some c → c.task.close ≠ .queued)
  | _ => True

end Life

/-! ### The task of the alerts -/

namespace ConsumerTask

variable {c c' : ConsumerTask} {e : AlertConsumer.Event}

/-- A `close` is not queued once the coroutine is over. -/
def Settled (t : AlertTask) : Prop := t.pc = .ended → t.close ≠ .queued

/-- A coroutine that is over has called the `close` of its consumer. -/
def CloseCalled (t : AlertTask) : Prop :=
  t.pc = .ended → t.created = true → t.close = .executing ∨ t.close = .finished

/-- What the coroutine does unless it is cancelled. -/
structure Goes (t t' : AlertTask) : Prop where
  ended : t.pc = .ended → t'.pc = .ended
  closing : t.pc = .closing → t'.pc = .closing ∨ t'.pc = .ended
  entered : t'.pc = .closing → t.pc = .closing
  created : t.created = true → t'.created = true
  settled : t.Consistent → Settled t → Settled t'

theorem goes_of_step {t t' : AlertTask} (h : AlertTask.Step t e t') (hgoes : e ≠ .cancelled) :
    Goes t t' := by
  cases h with
  | createFailed hpc | subscribeFailed hpc =>
    refine ⟨fun _ => rfl, fun _ => .inr rfl, nofun, fun h => ?_, fun hc _ _ => ?_⟩
    · first | exact h | rfl
    · rw [show t.close = .absent from hc.close_absent hpc (by decide)]
      nofun
  | subscribed hpc | polledAgain r hpc | polledAlert r hpc | pollFailed r hpc | broadcastOver hpc
  | backoffOver hpc =>
    refine ⟨fun h => ?_, fun h => ?_, nofun, fun h => ?_, fun _ _ => nofun⟩
    · rw [hpc] at h; cases h
    · rw [hpc] at h; cases h
    · first | exact h | rfl
  | worker w t' hwork =>
    cases AlertTask.Work.of_work hwork with
    | pickedPoll | finishedPoll => exact ⟨id, .inl, id, id, fun _ h => h⟩
    | pickedClose | finishedClose => exact ⟨id, .inl, id, id, fun _ _ _ => nofun⟩
  | closeReturned hpc hclose =>
    refine ⟨fun _ => rfl, fun _ => .inr rfl, nofun, id, fun _ _ _ => ?_⟩
    rw [show t.close = .finished from hclose]
    nofun
  | interrupted | abandoned => exact absurd rfl hgoes

/-- Only a subscription that fails leaves a consumer behind, unless the task is cancelled. -/
theorem closeCalled_step_iff {t t' : AlertTask} (h : AlertTask.Step t e t') (hc : t.Consistent)
    (hsettled : Settled t) (hgoes : e ≠ .cancelled) (hsubscribe : e ≠ .subscribeFailed) :
    CloseCalled t' ↔ CloseCalled t := by
  cases h with
  | createFailed hpc =>
    refine iff_of_true (fun _ hcreated => ?_) fun hended => ?_
    · rw [show t.created = false from (hc.fresh hpc).2] at hcreated
      cases hcreated
    · rw [hpc] at hended
      cases hended
  | subscribeFailed => exact absurd rfl hsubscribe
  | subscribed hpc | polledAgain r hpc | polledAlert r hpc | pollFailed r hpc | broadcastOver hpc
  | backoffOver hpc =>
    refine iff_of_true nofun fun hended => ?_
    rw [hpc] at hended
    cases hended
  | worker w t' hwork =>
    cases AlertTask.Work.of_work hwork with
    | pickedPoll | finishedPoll => exact Iff.rfl
    | pickedClose hclose =>
      exact iff_of_true (fun _ _ => .inl rfl) fun hended => absurd hclose (hsettled hended)
    | finishedClose hclose => exact iff_of_true (fun _ _ => .inr rfl) fun _ _ => .inl hclose
  | closeReturned hpc hclose =>
    refine iff_of_true (fun _ _ => .inr hclose) fun hended => ?_
    rw [hpc] at hended
    cases hended
  | interrupted | abandoned => exact absurd rfl hgoes

/-- What `lifespan` relies on: a task that has failed is over. -/
structure Sound (c : ConsumerTask) : Prop where
  task : c.task.Consistent
  settled : Settled c.task
  failed : c.failed = true → c.task.pc = .ended

theorem sound_initial : Sound ⟨.initial, false⟩ := ⟨AlertTask.consistent_initial, nofun, nofun⟩

/-- Nothing is lost with the task. -/
structure Fine (c : ConsumerTask) : Prop where
  failed : c.failed = false
  called : CloseCalled c.task

/-- The task goes on, and may end with an exception. -/
structure Moves (c c' : ConsumerTask) : Prop where
  goes : Goes c.task c'.task
  sound : c.Sound → c'.Sound
  kept : c.task.pc = .ended → c'.failed = c.failed
  failing : c.failed = true → c'.failed = true

theorem moves_of_goes {task : AlertTask} (hstep : AlertTask.Step c.task e task)
    (hgoes : e ≠ .cancelled) : Moves c { c with task } := by
  have hg := goes_of_step hstep hgoes
  refine ⟨hg, fun h => ⟨h.task.step hstep, hg.settled h.task h.settled, fun hfailed => ?_⟩,
    fun _ => rfl, id⟩
  exact hg.ended (h.failed hfailed)

theorem moves_of_fails {task : AlertTask} (hstep : AlertTask.Step c.task e task)
    (hgoes : e ≠ .cancelled) (hpc : c.task.pc ≠ .ended) (hended : task.pc = .ended) :
    Moves c ⟨task, true⟩ := by
  have hg := goes_of_step hstep hgoes
  exact ⟨hg, fun h => ⟨h.task.step hstep, hg.settled h.task h.settled, fun _ => hended⟩,
    fun h => absurd h hpc, fun _ => rfl⟩

/-- The two ways in which the task fails before its `try`. -/
def Fails : AlertConsumer.Event → Prop
  | .createFailed | .subscribeFailed => True
  | _ => False

/-- **A step of the task** fails it, or is one of its coroutine. -/
theorem step_cases (h : c.step e = some c') :
    Fails e ∧ c.task.pc = .starting ∧ Moves c c' ∧ c'.failed = true ∨
      ¬ Fails e ∧ e ≠ .cancelled ∧
        ∃ task, AlertTask.Step c.task e task ∧ c' = { c with task } := by
  cases e with
  | cancelled => cases h
  | createFailed | subscribeFailed =>
    obtain ⟨task, htask, rfl⟩ := Option.map_eq_some_iff.mp h
    have hstep := AlertTask.Step.of_step htask
    obtain ⟨hpc, htask⟩ := Option.ite_none_right_eq_some.mp htask
    obtain rfl := Option.some.inj htask
    exact .inl ⟨trivial, hpc, moves_of_fails hstep nofun (by rw [hpc]; nofun) rfl, rfl⟩
  | subscribed | worker w | polled r | broadcastOver | backoffOver | closeReturned =>
    obtain ⟨task, htask, rfl⟩ := Option.map_eq_some_iff.mp h
    exact .inr ⟨id, nofun, task, .of_step htask, rfl⟩

theorem moves_of_step (h : c.step e = some c') : Moves c c' := by
  rcases step_cases h with ⟨-, -, hmoves, -⟩ | ⟨-, hgoes, task, hstep, rfl⟩
  · exact hmoves
  · exact moves_of_goes hstep hgoes

theorem moves_of_closeRaises (h : c.closeRaises = some c') : Moves c c' ∧ c'.failed = true := by
  obtain ⟨task, htask, rfl⟩ := Option.map_eq_some_iff.mp h
  have hstep := AlertTask.Step.of_step htask
  obtain ⟨⟨hpc, -⟩, htask⟩ := Option.ite_none_right_eq_some.mp htask
  obtain rfl := Option.some.inj htask
  exact ⟨moves_of_fails hstep nofun (by rw [hpc]; nofun) rfl, rfl⟩

theorem fine_step_iff (h : c.step e = some c') (hc : c.Sound) : c'.Fine ↔ c.Fine ∧ ¬ Fails e := by
  rcases step_cases h with ⟨hfails, -, -, hfailed⟩ | ⟨hfails, hgoes, task, hstep, rfl⟩
  · refine iff_of_false (fun h => ?_) fun h => h.2 hfails
    rw [h.failed] at hfailed
    cases hfailed
  · have hiff := closeCalled_step_iff hstep hc.task hc.settled hgoes fun he => hfails (he ▸ trivial)
    rw [and_iff_left hfails]
    exact ⟨fun h => ⟨h.failed, hiff.mp h.called⟩, fun h => ⟨h.failed, hiff.mpr h.called⟩⟩

theorem failed_cancel : c.cancel.failed = c.failed := by
  unfold cancel
  split <;> rfl

/-- What a cancellation does before the coroutine is over. -/
theorem cancel_cases (hpc : c.task.pc ≠ .ended) :
    c.task.pc = .starting ∧ c.cancel.task = { c.task with pc := .ended } ∨
      c.task.pc ≠ .closing ∧ c.task.pc ≠ .starting ∧ c.cancel.task = c.task.toClose ∨
      c.task.pc = .closing ∧
        c.cancel.task = { c.task with pc := .ended, close := c.task.close.withdraw } := by
  unfold cancel AlertTask.cancel
  cases hnow : c.task.pc with
  | starting => exact .inl ⟨rfl, rfl⟩
  | polling | broadcasting | backoff => exact .inr (.inl ⟨nofun, nofun, rfl⟩)
  | closing => exact .inr (.inr ⟨rfl, rfl⟩)
  | ended => exact absurd hnow hpc

end ConsumerTask

/-! ### The invariant -/

namespace ConsumerTask

variable {c c' : ConsumerTask}

/-- `lifespan` waits for the task, or has waited; only a `close` can have failed it since. -/
structure Awaited (c : ConsumerTask) : Prop where
  sound : c.Sound
  left : c.task.pc = .closing ∨ c.task.pc = .ended
  failed : c.failed = true → c.task.created = true

theorem Awaited.moves (h : c.Awaited) (hmoves : Moves c c') : c'.Awaited := by
  refine ⟨hmoves.sound h.sound, ?_, fun hfailed => ?_⟩
  · rcases h.left with hpc | hpc
    · exact hmoves.goes.closing hpc
    · exact .inr (hmoves.goes.ended hpc)
  · rcases h.left with hpc | hpc
    · exact hmoves.goes.created (h.sound.task.created_of hpc (by decide))
    · rw [hmoves.kept hpc] at hfailed
      exact hmoves.goes.created (h.failed hfailed)

theorem awaited_cancel (hc : c.Sound) (hpc : c.task.pc ≠ .ended) : c.cancel.Awaited := by
  have hfailed : c.cancel.failed = true → False := by
    rw [failed_cancel]
    exact fun hfailed => hpc (hc.failed hfailed)
  rcases cancel_cases hpc with ⟨hnow, hthen⟩ | ⟨hnow, hbegun, hthen⟩ | ⟨hnow, hthen⟩
  · refine ⟨⟨?_, fun _ => ?_, fun h => (hfailed h).elim⟩, .inr ?_, fun h => (hfailed h).elim⟩
    · rw [hthen]
      exact hc.task.over rfl rfl id hc.task.calls
    · rw [hthen]
      change c.task.close ≠ .queued
      rw [hc.task.close_absent hnow (by decide)]
      nofun
    · rw [hthen]
  · have hstep : AlertTask.Step c.task .cancelled c.task.toClose := by
      refine .interrupted ?_
      cases hpc' : c.task.pc with
      | starting => exact absurd hpc' hbegun
      | closing => exact absurd hpc' hnow
      | ended => exact absurd hpc' hpc
      | polling => exact .inl rfl
      | broadcasting => exact .inr (.inl rfl)
      | backoff => exact .inr (.inr rfl)
    refine ⟨⟨?_, ?_, fun h => (hfailed h).elim⟩, .inl ?_, fun h => (hfailed h).elim⟩
    · rw [hthen]
      exact hc.task.step hstep
    · rw [hthen]
      nofun
    · rw [hthen]
      rfl
  · refine ⟨⟨?_, fun _ => ?_, fun h => (hfailed h).elim⟩, .inr ?_, fun h => (hfailed h).elim⟩
    · rw [hthen]
      exact hc.task.step (.abandoned hnow)
    · rw [hthen]
      change c.task.close.withdraw ≠ .queued
      cases c.task.close <;> nofun
    · rw [hthen]

/-- **A cancellation loses the consumer** if it withdraws the call that closes it. -/
theorem fine_cancel_iff (hc : c.Sound) (hpc : c.task.pc ≠ .ended) :
    c.cancel.Fine ↔ c.Fine ∧ (c.task.pc = .closing → c.task.close ≠ .queued) := by
  have hnow : c.Fine ↔ c.failed = false :=
    ⟨Fine.failed, fun hfailed => ⟨hfailed, fun hended => absurd hended hpc⟩⟩
  have hthen : c.cancel.Fine ↔ c.failed = false ∧ CloseCalled c.cancel.task := by
    rw [← failed_cancel]
    exact ⟨fun h => ⟨h.failed, h.called⟩, fun h => ⟨h.1, h.2⟩⟩
  rw [hnow, hthen]
  refine and_congr_right fun _ => ?_
  rcases cancel_cases hpc with ⟨hnow, hthen⟩ | ⟨hnow, -, hthen⟩ | ⟨hnow, hthen⟩ <;> rw [hthen]
  · refine iff_of_true (fun _ hcreated => ?_) fun hclosing => ?_
    · rw [show c.task.created = false from (hc.task.fresh hnow).2] at hcreated
      cases hcreated
    · rw [hnow] at hclosing
      cases hclosing
  · exact iff_of_true nofun fun hclosing => absurd hclosing hnow
  · have hcreated : c.task.created = true := hc.task.created_of hnow (by decide)
    have hclose := hc.task.closing hnow
    change (_ → _ → c.task.close.withdraw = .executing ∨ c.task.close.withdraw = .finished) ↔ _
    cases hjob : c.task.close with
    | absent => exact absurd hjob hclose
    | queued => exact iff_of_false (fun h => (h rfl hcreated).elim nofun nofun) fun h => h hnow rfl
    | executing => exact iff_of_true (fun _ _ => .inl rfl) fun _ => nofun
    | finished => exact iff_of_true (fun _ _ => .inr rfl) fun _ => nofun

/-- A task that is over without a loss has closed its consumer. -/
theorem Awaited.closed_iff_fine (h : c.Awaited) (hended : c.task.pc = .ended) :
    c.Closed ↔ c.Fine := by
  have hcalls := h.sound.task.calls
  constructor
  · rintro ⟨-, honce⟩
    refine ⟨?_, fun _ hcreated => ?_⟩
    · cases hfailed : c.failed with
      | false => rfl
      | true => exact hfailed.symm.trans (honce (h.failed hfailed)).2
    · rw [(honce hcreated).1] at hcalls
      by_contra hnot
      rw [if_neg hnot] at hcalls
      cases hcalls
  · rintro ⟨hfailed, hcalled⟩
    refine ⟨hended, fun hcreated => ⟨?_, hfailed⟩⟩
    rw [hcalls, if_pos (hcalled hended hcreated)]

end ConsumerTask

namespace Life

open ConsumerTask

variable {s s' : Life} {e : LifeEvent} {c : ConsumerTask}

/-- The task of the alerts is over, if there is one. -/
def Joined (s : Life) : Prop := ∀ c, s.consumer = some c → c.Awaited ∧ c.task.pc = .ended

/-- `finally` was left at the task of the alerts. -/
def LeftEarly (s : Life) : Prop :=
  s.pool = .opened ∧ ∃ c, s.consumer = some c ∧ c.Sound ∧ c.failed = true

/-- What holds at a statement. -/
def Consistent (s : Life) : Prop :=
  match s.point with
  | .initDbPool => s.consumer = none
  | .loadTokens | .loadLabels | .connectRedis | .createEs =>
    s.consumer = none ∧ s.pool = .opened
  | .loadIndex => s.consumer = none ∧ s.pool = .opened ∧ s.es = .opened
  | .serving =>
    s.pool = .opened ∧ s.es = .opened ∧
      ∃ c, s.consumer = some c ∧ c.Sound ∧ c.task.pc ≠ .closing
  | .awaitConsumer => s.pool = .opened ∧ ∃ c, s.consumer = some c ∧ c.Awaited
  | .stopPingLoop => s.Joined
  | .closeEs | .disconnectRedis | .closeDbPool => s.Joined ∧ s.ping ≠ .opened
  | .finished => s.Joined ∧ s.ping ≠ .opened ∨ s.LeftEarly

theorem consistent_initial : initial.Consistent := rfl

theorem close_ne_opened (handle : Handle) : handle.close ≠ .opened := by
  cases handle <;> nofun

/-- The start-up is left before there is a task. -/
theorem Consistent.stops (h : s.consumer = none) : s.toFinally.Consistent := by
  unfold toFinally
  rw [h]
  intro c hc
  cases hc

/-- The `finally` block after the task. -/
theorem Consistent.after (hpool : s.pool = .opened) (hc : s.consumer = some c) (hsound : c.Sound)
    (hended : c.task.pc = .ended) : (s.afterConsumer c).Consistent := by
  unfold afterConsumer
  cases hfailed : c.failed with
  | true => exact .inr ⟨hpool, c, hc, hsound, hfailed⟩
  | false =>
    intro c' hc'
    obtain rfl : c = c' := Option.some.inj (hc.symm.trans hc')
    refine ⟨⟨hsound, .inr hended, fun h => ?_⟩, hended⟩
    rw [hfailed] at h
    cases h

/-- The server is left, and the task is cancelled. -/
theorem Consistent.leaves (hpool : s.pool = .opened) (hc : s.consumer = some c)
    (hsound : c.Sound) : s.toFinally.Consistent := by
  unfold toFinally
  rw [hc]
  dsimp only
  by_cases hended : c.task.pc = .ended
  · rw [if_pos hended]
    exact .after hpool hc hsound hended
  · rw [if_neg hended]
    exact ⟨hpool, c.cancel, rfl, awaited_cancel hsound hended⟩

theorem Consistent.proceed (h : s.Consistent) (hs : s.proceed = some s') : s'.Consistent := by
  unfold Consistent at h
  unfold Life.proceed at hs
  cases hpoint : s.point <;> rw [hpoint] at h hs
  case initDbPool =>
    obtain rfl := Option.some.inj hs
    exact ⟨h, rfl⟩
  case loadTokens | loadLabels | connectRedis =>
    obtain rfl := Option.some.inj hs
    exact h
  case createEs =>
    obtain rfl := Option.some.inj hs
    exact ⟨h.1, h.2, rfl⟩
  case loadIndex =>
    obtain rfl := Option.some.inj hs
    exact ⟨h.2.1, h.2.2, _, rfl, sound_initial, nofun⟩
  case serving => cases hs
  case awaitConsumer =>
    obtain ⟨hpool, c, hc, hawaited⟩ := h
    change s.joinConsumer = some s' at hs
    unfold joinConsumer at hs
    rw [hc] at hs
    obtain ⟨hended, hs⟩ := Option.ite_none_right_eq_some.mp hs
    obtain rfl := Option.some.inj hs
    exact .after hpool hc hawaited.sound hended
  case stopPingLoop =>
    obtain rfl := Option.some.inj hs
    exact ⟨h, close_ne_opened _⟩
  case closeEs | disconnectRedis =>
    obtain rfl := Option.some.inj hs
    exact h
  case closeDbPool =>
    obtain rfl := Option.some.inj hs
    exact .inl h
  case finished => cases hs

theorem Consistent.throw (h : s.Consistent) (hs : s.throw = some s') : s'.Consistent := by
  unfold Consistent at h
  unfold Life.throw at hs
  cases hpoint : s.point <;> rw [hpoint] at h hs
  case initDbPool =>
    obtain rfl := Option.some.inj hs
    exact .stops h
  case loadTokens | loadLabels | createEs | loadIndex =>
    obtain rfl := Option.some.inj hs
    exact .stops h.1
  case connectRedis =>
    obtain rfl := Option.some.inj hs
    exact h
  case serving =>
    obtain ⟨hpool, -, c, hc, hsound, -⟩ := h
    obtain rfl := Option.some.inj hs
    exact .leaves hpool hc hsound
  case awaitConsumer | stopPingLoop | finished => cases hs
  case disconnectRedis =>
    obtain ⟨-, hs⟩ := Option.ite_none_right_eq_some.mp hs
    obtain rfl := Option.some.inj hs
    exact h
  case closeEs | closeDbPool =>
    obtain ⟨-, hs⟩ := Option.ite_none_right_eq_some.mp hs
    obtain rfl := Option.some.inj hs
    exact .inl h

theorem Consistent.cancelJoin (hpoint : s.point = .awaitConsumer) (hpool : s.pool = .opened)
    (hc : s.consumer = some c) (hawaited : c.Awaited) (hs : s.cancelJoin = some s') :
    s'.Consistent := by
  unfold Life.cancelJoin at hs
  rw [hc] at hs
  dsimp only at hs
  by_cases hended : c.task.pc = .ended
  · rw [if_pos hended] at hs
    obtain rfl := Option.some.inj hs
    intro c' hc'
    obtain rfl : c = c' := Option.some.inj hc'
    exact ⟨hawaited, hended⟩
  · rw [if_neg hended] at hs
    obtain rfl := Option.some.inj hs
    unfold Consistent
    rw [hpoint]
    exact ⟨hpool, c.cancel, rfl, awaited_cancel hawaited.sound hended⟩

theorem Consistent.cancel (h : s.Consistent) (hs : s.cancel = some s') : s'.Consistent := by
  unfold Consistent at h
  unfold Life.cancel at hs
  cases hpoint : s.point <;> rw [hpoint] at h hs
  case initDbPool =>
    obtain rfl := Option.some.inj hs
    exact .stops h
  case loadTokens | loadLabels | loadIndex | connectRedis =>
    obtain rfl := Option.some.inj hs
    exact .stops h.1
  case serving =>
    obtain ⟨hpool, -, c, hc, hsound, -⟩ := h
    obtain rfl := Option.some.inj hs
    exact .leaves hpool hc hsound
  case awaitConsumer =>
    obtain ⟨hpool, c, hc, hawaited⟩ := h
    exact .cancelJoin hpoint hpool hc hawaited hs
  case stopPingLoop =>
    obtain ⟨-, hs⟩ := Option.ite_none_right_eq_some.mp hs
    obtain rfl := Option.some.inj hs
    exact ⟨h, nofun⟩
  case closeEs | disconnectRedis | closeDbPool =>
    obtain ⟨-, hs⟩ := Option.ite_none_right_eq_some.mp hs
    obtain rfl := Option.some.inj hs
    exact .inl h
  case createEs | finished => cases hs

/-- The task goes on. -/
theorem Consistent.alert (h : s.Consistent) {c' : ConsumerTask} (hc : s.consumer = some c)
    (hmoves : Moves c c') : { s with consumer := some c' }.Consistent := by
  have hjoined : s.Joined → { s with consumer := some c' }.Joined := by
    rintro hjoined c'' hc''
    obtain rfl : c' = c'' := Option.some.inj hc''
    obtain ⟨hawaited, hended⟩ := hjoined c hc
    exact ⟨hawaited.moves hmoves, hmoves.goes.ended hended⟩
  have hearly : s.LeftEarly → { s with consumer := some c' }.LeftEarly := by
    rintro ⟨hpool, c₀, hc₀, hsound, hfailed⟩
    obtain rfl : c = c₀ := Option.some.inj (hc.symm.trans hc₀)
    exact ⟨hpool, c', rfl, hmoves.sound hsound, hmoves.failing hfailed⟩
  have hnone : s.consumer ≠ none := by rw [hc]; nofun
  unfold Consistent at h ⊢
  dsimp only
  cases hpoint : s.point <;> rw [hpoint] at h
  case initDbPool => exact absurd h hnone
  case loadTokens | loadLabels | connectRedis | createEs | loadIndex => exact absurd h.1 hnone
  case serving =>
    obtain ⟨hpool, hes, c₀, hc₀, hsound, hpc⟩ := h
    obtain rfl : c = c₀ := Option.some.inj (hc.symm.trans hc₀)
    exact ⟨hpool, hes, c', rfl, hmoves.sound hsound, fun h => hpc (hmoves.goes.entered h)⟩
  case awaitConsumer =>
    obtain ⟨hpool, c₀, hc₀, hawaited⟩ := h
    obtain rfl : c = c₀ := Option.some.inj (hc.symm.trans hc₀)
    exact ⟨hpool, c', rfl, hawaited.moves hmoves⟩
  case stopPingLoop => exact hjoined h
  case closeEs | disconnectRedis | closeDbPool => exact ⟨hjoined h.1, h.2⟩
  case finished =>
    rcases h with ⟨hjoined₀, hping⟩ | hearly₀
    · exact .inl ⟨hjoined hjoined₀, hping⟩
    · exact .inr (hearly hearly₀)

/-- The heartbeat starts while the server serves, and may stop at any time. -/
theorem Consistent.heartbeat (h : s.Consistent) {ping : Handle}
    (hping : s.point = .serving ∨ ping ≠ .opened) : { s with ping }.Consistent := by
  unfold Consistent at h ⊢
  dsimp only
  rcases hping with hpoint | hping
  · rw [hpoint] at h ⊢
    exact h
  · cases hpoint : s.point <;> rw [hpoint] at h
    case closeEs | disconnectRedis | closeDbPool => exact ⟨h.1, hping⟩
    case finished =>
      rcases h with ⟨hjoined, -⟩ | hearly
      · exact .inl ⟨hjoined, hping⟩
      · exact .inr hearly
    all_goals exact h

theorem Consistent.step (h : s.Consistent) (hs : s.step e = some s') : s'.Consistent := by
  cases e with
  | proceeds => exact h.proceed hs
  | raises => exact h.throw hs
  | cancelled => exact h.cancel hs
  | shutdown =>
    obtain ⟨hpoint, hs⟩ := Option.ite_none_right_eq_some.mp hs
    obtain rfl := Option.some.inj hs
    unfold Consistent at h
    rw [hpoint] at h
    obtain ⟨hpool, -, c, hc, hsound, -⟩ := h
    exact .leaves hpool hc hsound
  | alert e =>
    obtain ⟨c, hc, hs⟩ := Option.bind_eq_some_iff.mp hs
    obtain ⟨c', hstep, rfl⟩ := Option.map_eq_some_iff.mp hs
    exact h.alert hc (moves_of_step hstep)
  | closeRaises =>
    obtain ⟨c, hc, hs⟩ := Option.bind_eq_some_iff.mp hs
    obtain ⟨c', hstep, rfl⟩ := Option.map_eq_some_iff.mp hs
    exact h.alert hc (moves_of_closeRaises hstep).1
  | pingStarted =>
    obtain ⟨⟨hpoint, -⟩, hs⟩ := Option.ite_none_right_eq_some.mp hs
    obtain rfl := Option.some.inj hs
    exact h.heartbeat (.inl hpoint)
  | pingEnded =>
    obtain ⟨-, hs⟩ := Option.ite_none_right_eq_some.mp hs
    obtain rfl := Option.some.inj hs
    exact h.heartbeat (.inr nofun)

theorem consistent_run (events : List LifeEvent) : (run events).Consistent :=
  runs_invariant (fun _ _ _ hs h => h.step hs) events consistent_initial

/-! ### What is left open -/

/-- What has been passed is closed. -/
def PassedClosed (s : Life) : Prop :=
  match s.point with
  | .disconnectRedis => s.es ≠ .opened
  | .closeDbPool => s.es ≠ .opened ∧ s.redis ≠ .opened
  | .finished => s.es ≠ .opened ∧ s.redis ≠ .opened ∧ s.pool ≠ .opened
  | _ => True

/-- Nothing has been left open so far. -/
structure Intact (s : Life) : Prop where
  consumer : ∀ c, s.consumer = some c → c.Fine
  passed : s.PassedClosed

theorem intact_initial : initial.Intact := ⟨nofun, trivial⟩

theorem intact_congr (hconsumer : s'.consumer = s.consumer)
    (hpassed : s'.PassedClosed ↔ s.PassedClosed) : s'.Intact ↔ s.Intact := by
  constructor
  · rintro ⟨hc, hp⟩
    exact ⟨hconsumer ▸ hc, hpassed.mp hp⟩
  · rintro ⟨hc, hp⟩
    exact ⟨hconsumer ▸ hc, hpassed.mpr hp⟩

/-- With its task, a server loses what the task loses. -/
theorem intact_iff_fine (hc : s.consumer = some c) : s.Intact ↔ c.Fine ∧ s.PassedClosed := by
  refine ⟨fun h => ⟨h.consumer c hc, h.passed⟩, fun h => ⟨fun c' hc' => ?_, h.2⟩⟩
  obtain rfl : c = c' := Option.some.inj (hc.symm.trans hc')
  exact h.1

/-- At the end, what is intact is released. -/
theorem released_iff_intact (h : s.Consistent) (hover : s.point = .finished) :
    s.Released ↔ s.Intact := by
  unfold Consistent at h
  rw [hover] at h
  constructor
  · intro hreleased
    constructor
    · intro c hc
      rcases h with ⟨hjoined, -⟩ | ⟨hpool, -⟩
      · obtain ⟨hawaited, hended⟩ := hjoined c hc
        exact (hawaited.closed_iff_fine hended).mp (hreleased.consumer c hc)
      · exact absurd hpool hreleased.pool
    · unfold PassedClosed
      rw [hover]
      exact ⟨hreleased.es, hreleased.redis, hreleased.pool⟩
  · rintro ⟨hconsumer, hpassed⟩
    unfold PassedClosed at hpassed
    rw [hover] at hpassed
    obtain ⟨hes, hredis, hpool⟩ := hpassed
    rcases h with ⟨hjoined, hping⟩ | ⟨-, c, hc, -, hfailed⟩
    · refine ⟨hpool, hredis, hes, hping, fun c hc => ?_⟩
      obtain ⟨hawaited, hended⟩ := hjoined c hc
      exact (hawaited.closed_iff_fine hended).mpr (hconsumer c hc)
    · rw [(hconsumer c hc).failed] at hfailed
      cases hfailed

/-- After the task the `finally` block is as intact as before. -/
theorem intact_afterConsumer_iff (hc : s.consumer = some c) (hpassed : s.PassedClosed) :
    (s.afterConsumer c).Intact ↔ s.Intact := by
  rw [intact_iff_fine (s := s.afterConsumer c) hc, intact_iff_fine hc, and_iff_left hpassed]
  refine and_iff_left_of_imp fun h => ?_
  unfold afterConsumer
  rw [h.failed]
  trivial

/-- The `finally` block begins with what is intact. -/
theorem intact_toFinally_iff (hpassed : s.PassedClosed)
    (hconsumer : ∀ c, s.consumer = some c → c.Sound ∧ c.task.pc ≠ .closing) :
    s.toFinally.Intact ↔ s.Intact := by
  unfold toFinally
  cases hc : s.consumer with
  | none => exact intact_congr hc.symm (iff_of_true trivial hpassed)
  | some c =>
    obtain ⟨hsound, hpc⟩ := hconsumer c hc
    dsimp only
    by_cases hended : c.task.pc = .ended
    · rw [if_pos hended]
      exact intact_afterConsumer_iff hc hpassed
    · rw [if_neg hended, intact_iff_fine rfl, intact_iff_fine hc, and_iff_left hpassed,
        fine_cancel_iff hsound hended, and_iff_left fun h => absurd h hpc]
      exact and_iff_left trivial

theorem proceed_intact_iff (h : s.Consistent) (hs : s.proceed = some s') :
    s'.Intact ↔ s.Intact := by
  unfold Consistent at h
  unfold Life.proceed at hs
  cases hpoint : s.point <;> rw [hpoint] at h hs
  case initDbPool | loadTokens | loadLabels | connectRedis | createEs | stopPingLoop =>
    obtain rfl := Option.some.inj hs
    refine intact_congr rfl ?_
    unfold PassedClosed
    rw [hpoint]
  case loadIndex =>
    obtain rfl := Option.some.inj hs
    constructor
    · rintro -
      refine ⟨fun c hc => ?_, by unfold PassedClosed; rw [hpoint]; trivial⟩
      rw [h.1] at hc
      cases hc
    · rintro -
      refine ⟨fun c hc => ?_, trivial⟩
      obtain rfl := Option.some.inj hc
      exact ⟨rfl, nofun⟩
  case serving | finished => cases hs
  case awaitConsumer =>
    obtain ⟨-, c, hc, -⟩ := h
    change s.joinConsumer = some s' at hs
    unfold joinConsumer at hs
    rw [hc] at hs
    obtain ⟨-, hs⟩ := Option.ite_none_right_eq_some.mp hs
    obtain rfl := Option.some.inj hs
    exact intact_afterConsumer_iff hc (by unfold PassedClosed; rw [hpoint]; trivial)
  case closeEs =>
    obtain rfl := Option.some.inj hs
    refine intact_congr rfl ?_
    unfold PassedClosed
    rw [hpoint]
    exact iff_of_true (close_ne_opened _) trivial
  case disconnectRedis =>
    obtain rfl := Option.some.inj hs
    refine intact_congr rfl ?_
    unfold PassedClosed
    rw [hpoint]
    exact ⟨And.left, fun hes => ⟨hes, close_ne_opened _⟩⟩
  case closeDbPool =>
    obtain rfl := Option.some.inj hs
    refine intact_congr rfl ?_
    unfold PassedClosed
    rw [hpoint]
    exact ⟨fun h => ⟨h.1, h.2.1⟩, fun h => ⟨h.1, h.2, close_ne_opened _⟩⟩

/-- What `finally` finds of the task when the server is left. -/
theorem Consistent.task_of_serving (h : s.Consistent) (hpoint : s.point = .serving) :
    ∀ c, s.consumer = some c → c.Sound ∧ c.task.pc ≠ .closing := by
  unfold Consistent at h
  rw [hpoint] at h
  obtain ⟨-, -, c, hc, hfound⟩ := h
  intro c' hc'
  obtain rfl : c = c' := Option.some.inj (hc.symm.trans hc')
  exact hfound

theorem not_intact_of_finished (hover : s.point = .finished)
    (h : s.es = .opened ∨ s.redis = .opened ∨ s.pool = .opened) : ¬ s.Intact := by
  rintro ⟨-, hpassed⟩
  unfold PassedClosed at hpassed
  rw [hover] at hpassed
  obtain ⟨hes, hredis, hpool⟩ := hpassed
  rcases h with h | h | h
  · exact hes h
  · exact hredis h
  · exact hpool h

/-- An exception leaves something open if it comes from a call that closes. -/
theorem throw_intact_iff (h : s.Consistent) (hs : s.throw = some s') :
    s'.Intact ↔ s.Intact ∧ s.Orderly .raises := by
  have hserving := h.task_of_serving
  unfold Consistent at h
  unfold Life.throw at hs
  change s'.Intact ↔ s.Intact ∧
    ¬ (s.point = .closeEs ∨ s.point = .disconnectRedis ∨ s.point = .closeDbPool)
  cases hpoint : s.point <;> rw [hpoint] at h hs
  case initDbPool =>
    obtain rfl := Option.some.inj hs
    rw [and_iff_left (by simp)]
    exact intact_toFinally_iff (by unfold PassedClosed; rw [hpoint]; trivial)
      fun c hc => absurd (h.symm.trans hc) nofun
  case loadTokens | loadLabels | createEs | loadIndex =>
    obtain rfl := Option.some.inj hs
    rw [and_iff_left (by simp)]
    exact intact_toFinally_iff (by unfold PassedClosed; rw [hpoint]; trivial)
      fun c hc => absurd (h.1.symm.trans hc) nofun
  case serving =>
    obtain rfl := Option.some.inj hs
    rw [and_iff_left (by simp)]
    exact intact_toFinally_iff (by unfold PassedClosed; rw [hpoint]; trivial) (hserving hpoint)
  case connectRedis =>
    obtain rfl := Option.some.inj hs
    rw [and_iff_left (by simp)]
    exact intact_congr rfl (by unfold PassedClosed; rw [hpoint])
  case awaitConsumer | stopPingLoop | finished => cases hs
  case closeEs =>
    obtain ⟨hopened, hs⟩ := Option.ite_none_right_eq_some.mp hs
    obtain rfl := Option.some.inj hs
    exact iff_of_false (not_intact_of_finished rfl (.inl hopened)) fun h => h.2 (.inl rfl)
  case disconnectRedis =>
    obtain ⟨hopened, hs⟩ := Option.ite_none_right_eq_some.mp hs
    obtain rfl := Option.some.inj hs
    refine iff_of_false (fun h => ?_) fun h => h.2 (.inr (.inl rfl))
    have hpassed : s.es ≠ .opened ∧ s.redis ≠ .opened := h.passed
    exact hpassed.2 hopened
  case closeDbPool =>
    obtain ⟨hopened, hs⟩ := Option.ite_none_right_eq_some.mp hs
    obtain rfl := Option.some.inj hs
    exact iff_of_false (not_intact_of_finished rfl (.inr (.inr hopened)))
      fun h => h.2 (.inr (.inr rfl))

/-- At `await whale_consumer_task`. -/
theorem cancelJoin_intact_iff (hpoint : s.point = .awaitConsumer) (hc : s.consumer = some c)
    (hawaited : c.Awaited) (hs : s.cancelJoin = some s') :
    s'.Intact ↔ s.Intact ∧ c.task.close ≠ .queued := by
  have hpassed : ∀ s : Life, s.point = .awaitConsumer → s.PassedClosed := by
    intro s hpoint
    unfold PassedClosed
    rw [hpoint]
    trivial
  unfold Life.cancelJoin at hs
  rw [hc] at hs
  dsimp only at hs
  by_cases hended : c.task.pc = .ended
  · rw [if_pos hended] at hs
    obtain rfl := Option.some.inj hs
    rw [and_iff_left (hawaited.sound.settled hended)]
    exact intact_congr hc.symm (iff_of_true trivial (hpassed s hpoint))
  · rw [if_neg hended] at hs
    obtain rfl := Option.some.inj hs
    have hclosing : c.task.pc = .closing := hawaited.left.resolve_right hended
    rw [intact_iff_fine rfl, intact_iff_fine hc, and_iff_left (hpassed s hpoint),
      and_iff_left (hpassed { s with consumer := some c.cancel } hpoint),
      fine_cancel_iff hawaited.sound hended]
    exact and_congr_right fun _ => ⟨fun h => h hclosing, fun h _ => h⟩

/-- A cancellation leaves something open if it meets a call that closes, or the call of
`consumer.close` before a worker has it. -/
theorem cancel_intact_iff (h : s.Consistent) (hs : s.cancel = some s') :
    s'.Intact ↔ s.Intact ∧ s.Orderly .cancelled := by
  have hserving := h.task_of_serving
  unfold Consistent at h
  unfold Life.cancel at hs
  change s'.Intact ↔ s.Intact ∧
    ¬ (s.point = .closeEs ∨ s.point = .disconnectRedis ∨ s.point = .closeDbPool) ∧
      (s.point = .awaitConsumer → ∀ c, s.consumer = some c → c.task.close ≠ .queued)
  cases hpoint : s.point <;> rw [hpoint] at h hs
  case initDbPool =>
    obtain rfl := Option.some.inj hs
    rw [and_iff_left ⟨by simp, nofun⟩]
    exact intact_toFinally_iff (by unfold PassedClosed; rw [hpoint]; trivial)
      fun c hc => absurd (h.symm.trans hc) nofun
  case loadTokens | loadLabels | loadIndex =>
    obtain rfl := Option.some.inj hs
    rw [and_iff_left ⟨by simp, nofun⟩]
    exact intact_toFinally_iff (by unfold PassedClosed; rw [hpoint]; trivial)
      fun c hc => absurd (h.1.symm.trans hc) nofun
  case connectRedis =>
    obtain rfl := Option.some.inj hs
    rw [and_iff_left ⟨by simp, nofun⟩]
    have hpassed : PassedClosed { s with redis := .opened, point := .connectRedis } := trivial
    refine (intact_toFinally_iff hpassed fun c hc => absurd (h.1.symm.trans hc) nofun).trans ?_
    exact intact_congr rfl (by unfold PassedClosed; rw [hpoint])
  case serving =>
    obtain rfl := Option.some.inj hs
    rw [and_iff_left ⟨by simp, nofun⟩]
    exact intact_toFinally_iff (by unfold PassedClosed; rw [hpoint]; trivial) (hserving hpoint)
  case awaitConsumer =>
    obtain ⟨-, c, hc, hawaited⟩ := h
    rw [cancelJoin_intact_iff hpoint hc hawaited hs]
    refine and_congr_right fun _ => ⟨fun h => ⟨by simp, fun _ c' hc' => ?_⟩, fun h => h.2 rfl c hc⟩
    obtain rfl : c = c' := Option.some.inj (hc.symm.trans hc')
    exact h
  case stopPingLoop =>
    obtain ⟨-, hs⟩ := Option.ite_none_right_eq_some.mp hs
    obtain rfl := Option.some.inj hs
    rw [and_iff_left ⟨by simp, nofun⟩]
    exact intact_congr rfl (by unfold PassedClosed; rw [hpoint])
  case closeEs =>
    obtain ⟨hopened, hs⟩ := Option.ite_none_right_eq_some.mp hs
    obtain rfl := Option.some.inj hs
    exact iff_of_false (not_intact_of_finished rfl (.inl hopened)) fun h => h.2.1 (.inl rfl)
  case disconnectRedis =>
    obtain ⟨hopened, hs⟩ := Option.ite_none_right_eq_some.mp hs
    obtain rfl := Option.some.inj hs
    exact iff_of_false (not_intact_of_finished rfl (.inr (.inl hopened)))
      fun h => h.2.1 (.inr (.inl rfl))
  case closeDbPool =>
    obtain ⟨hopened, hs⟩ := Option.ite_none_right_eq_some.mp hs
    obtain rfl := Option.some.inj hs
    exact iff_of_false (not_intact_of_finished rfl (.inr (.inr hopened)))
      fun h => h.2.1 (.inr (.inr rfl))
  case createEs | finished => cases hs

/-- What the task has, while it is there. -/
theorem Consistent.sound (h : s.Consistent) (hc : s.consumer = some c) : c.Sound := by
  have hsame : ∀ c', s.consumer = some c' → c = c' := fun c' hc' =>
    Option.some.inj (hc.symm.trans hc')
  have hjoined : s.Joined → c.Sound := fun hjoined => (hjoined c hc).1.sound
  unfold Consistent at h
  cases hpoint : s.point <;> rw [hpoint] at h
  case initDbPool => exact absurd (h.symm.trans hc) nofun
  case loadTokens | loadLabels | connectRedis | createEs | loadIndex =>
    exact absurd (h.1.symm.trans hc) nofun
  case serving =>
    obtain ⟨-, -, c', hc', hsound, -⟩ := h
    exact hsame c' hc' ▸ hsound
  case awaitConsumer =>
    obtain ⟨-, c', hc', hawaited⟩ := h
    exact hsame c' hc' ▸ hawaited.sound
  case stopPingLoop => exact hjoined h
  case closeEs | disconnectRedis | closeDbPool => exact hjoined h.1
  case finished =>
    rcases h with ⟨h, -⟩ | ⟨-, c', hc', hsound, -⟩
    · exact hjoined h
    · exact hsame c' hc' ▸ hsound

theorem alert_intact_iff {c' : ConsumerTask} {e : AlertConsumer.Event} (h : s.Consistent)
    (hc : s.consumer = some c) (hstep : c.step e = some c') :
    { s with consumer := some c' }.Intact ↔ s.Intact ∧ s.Orderly (.alert e) := by
  have horderly : s.Orderly (.alert e) ↔ ¬ Fails e := by
    cases e with
    | createFailed | subscribeFailed => exact iff_of_false id fun h => h trivial
    | _ => exact iff_of_true trivial id
  rw [intact_iff_fine rfl, intact_iff_fine hc, fine_step_iff hstep (h.sound hc), horderly]
  exact and_right_comm

/-- **What a step leaves open.** -/
theorem step_intact_iff (h : s.Consistent) (hs : s.step e = some s') :
    s'.Intact ↔ s.Intact ∧ s.Orderly e := by
  cases e with
  | proceeds => exact (proceed_intact_iff h hs).trans (and_iff_left trivial).symm
  | raises => exact throw_intact_iff h hs
  | cancelled => exact cancel_intact_iff h hs
  | shutdown =>
    obtain ⟨hpoint, hs⟩ := Option.ite_none_right_eq_some.mp hs
    obtain rfl := Option.some.inj hs
    refine (intact_toFinally_iff ?_ (h.task_of_serving hpoint)).trans (and_iff_left trivial).symm
    unfold PassedClosed
    rw [hpoint]
    trivial
  | alert e =>
    obtain ⟨c, hc, hs⟩ := Option.bind_eq_some_iff.mp hs
    obtain ⟨c', hstep, rfl⟩ := Option.map_eq_some_iff.mp hs
    exact alert_intact_iff h hc hstep
  | closeRaises =>
    obtain ⟨c, hc, hs⟩ := Option.bind_eq_some_iff.mp hs
    obtain ⟨c', hstep, rfl⟩ := Option.map_eq_some_iff.mp hs
    refine iff_of_false (fun h => ?_) fun h => h.2
    exact absurd ((h.consumer c' rfl).failed.symm.trans (moves_of_closeRaises hstep).2) nofun
  | pingStarted | pingEnded =>
    obtain ⟨-, hs⟩ := Option.ite_none_right_eq_some.mp hs
    obtain rfl := Option.some.inj hs
    exact ⟨fun h => ⟨⟨h.consumer, h.passed⟩, trivial⟩, fun h => ⟨h.1.consumer, h.1.passed⟩⟩

/-- A subscription that fails: the server serves on, and at its end the pool stays open. -/
example : (run [.proceeds, .proceeds, .proceeds, .proceeds, .proceeds, .proceeds,
    .alert .subscribeFailed, .shutdown]).point = .finished ∧
      (run [.proceeds, .proceeds, .proceeds, .proceeds, .proceeds, .proceeds,
        .alert .subscribeFailed, .shutdown]).pool = .opened := by decide

/-- A second cancellation in the `finally` block: the pool is closed, the Kafka consumer is not. -/
example : (run [.proceeds, .proceeds, .proceeds, .proceeds, .proceeds, .proceeds,
    .alert .subscribed, .shutdown, .cancelled, .proceeds, .proceeds, .proceeds, .proceeds,
    .proceeds]) =
      ⟨.finished, .closed, .closed, .closed, some ⟨⟨.ended, true, .absent, .absent, 0⟩, false⟩,
        .absent⟩ := by decide

end Life

end Backend

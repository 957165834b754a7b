import EthPipeline.Backend.WhaleAlerts
import EthPipeline.Base.Run

/-!
# The task that consumes the whale alerts

`consume_whale_alerts` of `src/backend/main.py` beside the worker threads of
`asyncio.to_thread`.  The task submits `consumer.poll` and `consumer.close`; a worker
picks a submitted call up, runs it, and is done with it some time later.  A
cancellation ends the `await` at once: a call that is still queued is withdrawn, a call
that runs goes on.  What the alerts do to the websockets is in the connection manager.

* `closed_properly_iff`: in which runs no schedule of the workers closes the consumer
  during a poll, or not exactly once.
* `close_during_poll`: a shutdown while the worker waits in `poll`.
-/

namespace Backend.AlertConsumer

open Run

/-- Where the coroutine is: before its `try`, at one of its four `await`s, at its end. -/
inductive Pc where
  | starting
  | polling
  | broadcasting
  | backoff
  | closing
  | ended
  deriving DecidableEq, Repr

/-- A call that was given to `asyncio.to_thread`. -/
inductive Job where
  | absent
  | queued
  | executing
  | finished
  deriving DecidableEq, Repr

structure AlertTask where
  pc : Pc
  /- `consumer` is there -/
  created : Bool
  poll : Job
  close : Job
  /- history: the calls of `consumer.close` -/
  closeCalls : ℕ
  deriving DecidableEq, Repr

def AlertTask.initial : AlertTask := ⟨.starting, false, .absent, .absent, 0⟩

/-- What `consumer.poll(1.0)` brings: `None`, an exception or a message with an error, or
a message. -/
inductive Polled where
  | nothing
  | failed
  | message (raw : RawValue)

inductive Call where
  | poll
  | close
  deriving DecidableEq, Repr

/-- What the worker threads do. -/
inductive WorkerEvent where
  | picked (c : Call)
  | finished (c : Call)
  deriving DecidableEq, Repr

inductive Event where
  /- up to the `try`, without an `await` -/
  | createFailed
  | subscribeFailed
  | subscribed
  | worker (w : WorkerEvent)
  /- an `await` of the coroutine is over -/
  | polled (r : Polled)
  | broadcastOver
  | backoffOver
  | closeReturned
  | cancelled

/-- The `await` of the call is cancelled. -/
def Job.withdraw : Job → Job
  | .queued => .absent
  | job => job

namespace AlertTask

/-- `await asyncio.to_thread(consumer.poll, 1.0)`. -/
def toPoll (s : AlertTask) : AlertTask := { s with pc := .polling, poll := .queued }

/-- `except Exception`: the pause of five seconds. -/
def toBackoff (s : AlertTask) : AlertTask := { s with pc := .backoff, poll := .absent }

/-- The result of a poll; without a payload the next poll follows. -/
def goOn (s : AlertTask) : Polled → AlertTask
  | .nothing => s.toPoll
  | .failed => s.toBackoff
  | .message raw =>
    match decodeWhaleAlert raw with
    | some _ => { s with pc := .broadcasting, poll := .absent }
    | none => s.toPoll

/-- `finally: await asyncio.to_thread(consumer.close)`. -/
def toClose (s : AlertTask) : AlertTask :=
  { s with pc := .closing, poll := s.poll.withdraw, close := .queued }

/-- A worker with a call. -/
def work (s : AlertTask) : WorkerEvent → Option AlertTask
  | .picked .poll => if s.poll = .queued then some { s with poll := .executing } else none
  | .picked .close =>
    if s.close = .queued then
      some { s with close := .executing, closeCalls := s.closeCalls + 1 }
    else none
  | .finished .poll => if s.poll = .executing then some { s with poll := .finished } else none
  | .finished .close => if s.close = .executing then some { s with close := .finished } else none

/-- `CancelledError` at an `await`. -/
def cancel (s : AlertTask) : Option AlertTask :=
  match s.pc with
  | .polling | .broadcasting | .backoff => some s.toClose
  | .closing => some { s with pc := .ended, close := s.close.withdraw }
  | .starting | .ended => none

def step (s : AlertTask) : Event → Option AlertTask
  | .createFailed => if s.pc = .starting then some { s with pc := .ended } else none
  | .subscribeFailed =>
    if s.pc = .starting then some { s with pc := .ended, created := true } else none
  | .subscribed => if s.pc = .starting then some { s with created := true }.toPoll else none
  | .worker w => s.work w
  | .polled r => if s.pc = .polling ∧ s.poll = .finished then some (s.goOn r) else none
  | .broadcastOver => if s.pc = .broadcasting then some s.toPoll else none
  | .backoffOver => if s.pc = .backoff then some s.toPoll else none
  | .closeReturned =>
    if s.pc = .closing ∧ s.close = .finished then some { s with pc := .ended } else none
  | .cancelled => s.cancel

def run (events : List Event) : AlertTask := runs step initial events

/-- The consumer is not closed during a poll, and once the coroutine has ended it was
closed exactly once. -/
structure ClosedProperly (s : AlertTask) : Prop where
  apart : ¬ (s.poll = .executing ∧ s.close = .executing)
  atMostOnce : s.closeCalls ≤ 1
  once : s.pc = .ended → s.created = true → s.closeCalls = 1

/-- A subscription succeeds; a cancellation does not meet a poll that runs, nor a `close`
that no worker has picked up. -/
def Orderly (s : AlertTask) : Event → Prop
  | .subscribeFailed => False
  | .cancelled => if s.pc = .closing then s.close ≠ .queued else s.poll ≠ .executing
  | _ => True

/-! ### What a step can do -/

/-- The steps of the coroutine, one constructor for each branch of `step`. -/
inductive Step (s : AlertTask) : Event → AlertTask → Prop
  | createFailed (hpc : s.pc = .starting) : Step s .createFailed { s with pc := .ended }
  | subscribeFailed (hpc : s.pc = .starting) :
      Step s .subscribeFailed { s with pc := .ended, created := true }
  | subscribed (hpc : s.pc = .starting) : Step s .subscribed { s with created := true }.toPoll
  | worker (w : WorkerEvent) (s' : AlertTask) (hwork : s.work w = some s') : Step s (.worker w) s'
  | polledAgain (r : Polled) (hpc : s.pc = .polling) : Step s (.polled r) s.toPoll
  | polledAlert (r : Polled) (hpc : s.pc = .polling) :
      Step s (.polled r) { s with pc := .broadcasting, poll := .absent }
  | pollFailed (r : Polled) (hpc : s.pc = .polling) : Step s (.polled r) s.toBackoff
  | broadcastOver (hpc : s.pc = .broadcasting) : Step s .broadcastOver s.toPoll
  | backoffOver (hpc : s.pc = .backoff) : Step s .backoffOver s.toPoll
  | closeReturned (hpc : s.pc = .closing) (hclose : s.close = .finished) :
      Step s .closeReturned { s with pc := .ended }
  | interrupted (hpc : s.pc = .polling ∨ s.pc = .broadcasting ∨ s.pc = .backoff) :
      Step s .cancelled s.toClose
  | abandoned (hpc : s.pc = .closing) :
      Step s .cancelled { s with pc := .ended, close := s.close.withdraw }

variable {s s' : AlertTask} {e : Event} {w : WorkerEvent}

theorem Step.of_step (hs : s.step e = some s') : Step s e s' := by
  cases e with
  | createFailed =>
    obtain ⟨hpc, hs⟩ := Option.ite_none_right_eq_some.mp hs
    exact Option.some.inj hs ▸ .createFailed hpc
  | subscribeFailed =>
    obtain ⟨hpc, hs⟩ := Option.ite_none_right_eq_some.mp hs
    exact Option.some.inj hs ▸ .subscribeFailed hpc
  | subscribed =>
    obtain ⟨hpc, hs⟩ := Option.ite_none_right_eq_some.mp hs
    exact Option.some.inj hs ▸ .subscribed hpc
  | worker w => exact .worker w s' hs
  | polled r =>
    obtain ⟨⟨hpc, -⟩, hs⟩ := Option.ite_none_right_eq_some.mp hs
    obtain rfl := Option.some.inj hs
    cases r with
    | nothing => exact .polledAgain _ hpc
    | failed => exact .pollFailed _ hpc
    | message raw =>
      cases hdecode : decodeWhaleAlert raw with
      | none =>
        rw [show s.goOn (.message raw) = s.toPoll by simp only [goOn, hdecode]]
        exact .polledAgain _ hpc
      | some payload =>
        rw [show s.goOn (.message raw) = { s with pc := .broadcasting, poll := .absent } by
          simp only [goOn, hdecode]]
        exact .polledAlert _ hpc
  | broadcastOver =>
    obtain ⟨hpc, hs⟩ := Option.ite_none_right_eq_some.mp hs
    exact Option.some.inj hs ▸ .broadcastOver hpc
  | backoffOver =>
    obtain ⟨hpc, hs⟩ := Option.ite_none_right_eq_some.mp hs
    exact Option.some.inj hs ▸ .backoffOver hpc
  | closeReturned =>
    obtain ⟨⟨hpc, hclose⟩, hs⟩ := Option.ite_none_right_eq_some.mp hs
    exact Option.some.inj hs ▸ .closeReturned hpc hclose
  | cancelled =>
    change s.cancel = some s' at hs
    unfold cancel at hs
    split at hs
    · next hpc => exact Option.some.inj hs ▸ .interrupted (.inl hpc)
    · next hpc => exact Option.some.inj hs ▸ .interrupted (.inr (.inl hpc))
    · next hpc => exact Option.some.inj hs ▸ .interrupted (.inr (.inr hpc))
    · next hpc => exact Option.some.inj hs ▸ .abandoned hpc
    · cases hs
    · cases hs

/-- A worker changes the calls, not the coroutine. -/
inductive Work (s : AlertTask) : AlertTask → Prop
  | pickedPoll (hpoll : s.poll = .queued) : Work s { s with poll := .executing }
  | pickedClose (hclose : s.close = .queued) :
      Work s { s with close := .executing, closeCalls := s.closeCalls + 1 }
  | finishedPoll (hpoll : s.poll = .executing) : Work s { s with poll := .finished }
  | finishedClose (hclose : s.close = .executing) : Work s { s with close := .finished }

theorem Work.of_work (hw : s.work w = some s') : Work s s' := by
  cases w with
  | picked c =>
    cases c with
    | poll =>
      obtain ⟨hpoll, hw⟩ := Option.ite_none_right_eq_some.mp hw
      exact Option.some.inj hw ▸ .pickedPoll hpoll
    | close =>
      obtain ⟨hclose, hw⟩ := Option.ite_none_right_eq_some.mp hw
      exact Option.some.inj hw ▸ .pickedClose hclose
  | finished c =>
    cases c with
    | poll =>
      obtain ⟨hpoll, hw⟩ := Option.ite_none_right_eq_some.mp hw
      exact Option.some.inj hw ▸ .finishedPoll hpoll
    | close =>
      obtain ⟨hclose, hw⟩ := Option.ite_none_right_eq_some.mp hw
      exact Option.some.inj hw ▸ .finishedClose hclose

/-! ### The invariant -/

/-- What holds in every state. -/
structure Consistent (s : AlertTask) : Prop where
  fresh : s.pc = .starting → s.poll = .absent ∧ s.created = false
  created : s.pc ≠ .starting → s.pc ≠ .ended → s.created = true
  unclosed : s.pc ≠ .closing → s.pc ≠ .ended → s.close = .absent
  closing : s.pc = .closing → s.close ≠ .absent
  withdrawn : s.close ≠ .absent → s.poll ≠ .queued
  calls : s.closeCalls = if s.close = .executing ∨ s.close = .finished then 1 else 0

theorem consistent_initial : Consistent initial where
  fresh _ := ⟨rfl, rfl⟩
  created h := absurd rfl h
  unclosed _ _ := rfl
  closing := nofun
  withdrawn h := absurd rfl h
  calls := rfl

theorem Consistent.close_absent (h : Consistent s) {pc : Pc} (hpc : s.pc = pc)
    (hne : pc ≠ .closing ∧ pc ≠ .ended) : s.close = .absent := by
  subst hpc
  exact h.unclosed hne.1 hne.2

theorem Consistent.created_of (h : Consistent s) {pc : Pc} (hpc : s.pc = pc)
    (hne : pc ≠ .starting ∧ pc ≠ .ended) : s.created = true := by
  subst hpc
  exact h.created hne.1 hne.2

/-- A poll that was submitted goes on. -/
theorem Consistent.of_poll (h : Consistent s) {job : Job} (hpoll : s.poll ≠ .absent)
    (hjob : job ≠ .queued) : Consistent { s with poll := job } where
  fresh hpc := absurd (h.fresh hpc).1 hpoll
  created := h.created
  unclosed := h.unclosed
  closing := h.closing
  withdrawn _ := hjob
  calls := h.calls

/-- A `close` that was submitted goes on. -/
theorem Consistent.of_close (h : Consistent s) {job : Job} {n : ℕ} (hclose : s.close ≠ .absent)
    (hjob : job = .executing ∨ job = .finished) (hn : n = 1) :
    Consistent { s with close := job, closeCalls := n } where
  fresh := h.fresh
  created := h.created
  unclosed hpc hpc' := absurd (h.unclosed hpc hpc') hclose
  closing _ := by rcases hjob with rfl | rfl <;> nofun
  withdrawn _ := h.withdrawn hclose
  calls := by
    change n = if job = .executing ∨ job = .finished then 1 else 0
    rw [if_pos hjob, hn]

theorem Consistent.work (h : Consistent s) (hw : Work s s') : Consistent s' := by
  have hcalls := h.calls
  cases hw with
  | pickedPoll hpoll | finishedPoll hpoll => exact h.of_poll (by rw [hpoll]; nofun) nofun
  | pickedClose hclose =>
    rw [hclose, if_neg (by decide)] at hcalls
    exact h.of_close (by rw [hclose]; nofun) (.inl rfl) (by rw [hcalls])
  | finishedClose hclose =>
    rw [hclose, if_pos (by decide)] at hcalls
    exact h.of_close (by rw [hclose]; nofun) (.inr rfl) hcalls

/-- The coroutine goes on with the consumer, before any `close`. -/
theorem Consistent.goOn (h : Consistent s) (habsent : s.close = .absent)
    (hcreated : s'.created = true) (hstarted : s'.pc ≠ .starting) (hgoing : s'.pc ≠ .closing)
    (hclose : s'.close = s.close) (hcalls : s'.closeCalls = s.closeCalls) : Consistent s' := by
  rw [← hclose] at habsent
  refine ⟨fun hstart => absurd hstart hstarted, fun _ _ => hcreated, fun _ _ => habsent,
    fun hclosing => absurd hclosing hgoing, fun hne => absurd habsent hne, ?_⟩
  rw [hcalls, h.calls, hclose]

/-- The coroutine is over. -/
theorem Consistent.over (h : Consistent s) (hended : s'.pc = .ended) (hpoll : s'.poll = s.poll)
    (hclose : s.close = .absent → s'.close = .absent)
    (hcalls : s'.closeCalls = if s'.close = .executing ∨ s'.close = .finished then 1 else 0) :
    Consistent s' where
  fresh hpc := by rw [hended] at hpc; cases hpc
  created _ hne := absurd hended hne
  unclosed _ hne := absurd hended hne
  closing hpc := by rw [hended] at hpc; cases hpc
  withdrawn hne := by
    rw [hpoll]
    exact h.withdrawn fun habsent => hne (hclose habsent)
  calls := hcalls

theorem Consistent.step (h : Consistent s) (hs : Step s e s') : Consistent s' := by
  cases hs with
  | createFailed | subscribeFailed | closeReturned => exact h.over rfl rfl id h.calls
  | subscribed hpc => exact h.goOn (h.close_absent hpc (by decide)) rfl nofun nofun rfl rfl
  | worker w s' hwork => exact h.work (.of_work hwork)
  | polledAgain r hpc | polledAlert r hpc | pollFailed r hpc | broadcastOver hpc
  | backoffOver hpc =>
    exact h.goOn (h.close_absent hpc (by decide)) (h.created_of hpc (by decide)) nofun nofun rfl rfl
  | interrupted hpc =>
    have hcreated : s.created = true := by
      rcases hpc with hpc | hpc | hpc <;> exact h.created_of hpc (by decide)
    have habsent : s.close = .absent := by
      rcases hpc with hpc | hpc | hpc <;> exact h.close_absent hpc (by decide)
    refine ⟨nofun, fun _ _ => hcreated, fun hne => absurd rfl hne, fun _ => nofun, fun _ => ?_, ?_⟩
    · change s.poll.withdraw ≠ .queued
      cases s.poll <;> nofun
    · have hcalls := h.calls
      rw [habsent] at hcalls
      exact hcalls
  | abandoned hpc =>
    refine h.over rfl rfl (fun habsent => ?_) ?_
    · change s.close.withdraw = .absent
      rw [habsent]
      rfl
    · have hcalls := h.calls
      change s.closeCalls =
        if s.close.withdraw = .executing ∨ s.close.withdraw = .finished then 1 else 0
      cases hclose : s.close <;> rw [hclose] at hcalls <;> exact hcalls

theorem consistent_run (events : List Event) : Consistent (run events) := by
  refine runs_invariant (P := Consistent) ?_ events consistent_initial
  intro s e s' hs h
  exact h.step (.of_step hs)

/-! ### Every schedule of the workers -/

/-- No poll can meet a `close`, and a coroutine that has ended has called it. -/
structure Safe (s : AlertTask) : Prop where
  apart : s.close = .queued ∨ s.close = .executing → s.poll ≠ .executing
  once : s.pc = .ended → s.created = true → s.close = .executing ∨ s.close = .finished

theorem Safe.closedProperly (h : Safe s) (hc : Consistent s) : ClosedProperly s where
  apart := fun ⟨hpoll, hclose⟩ => h.apart (.inr hclose) hpoll
  atMostOnce := by
    rw [hc.calls]
    split <;> omega
  once hpc hcreated := by rw [hc.calls, if_pos (h.once hpc hcreated)]

theorem Safe.work (h : Safe s) (hc : Consistent s) (hw : Work s s') : Safe s' := by
  cases hw with
  | pickedPoll hpoll =>
    refine ⟨fun hclose => ?_, h.once⟩
    refine absurd hpoll (hc.withdrawn ?_)
    change s.close = .queued ∨ s.close = .executing at hclose
    rcases hclose with hclose | hclose <;> rw [hclose] <;> nofun
  | pickedClose hclose => exact ⟨fun _ => h.apart (.inl hclose), fun _ _ => .inl rfl⟩
  | finishedPoll hpoll => exact ⟨fun _ => nofun, h.once⟩
  | finishedClose hclose =>
    exact ⟨fun hclose' => hclose'.elim nofun nofun, fun _ _ => .inr rfl⟩

/-- The state after the workers have gone on for a while. -/
def scheduled (s : AlertTask) (schedule : List WorkerEvent) : AlertTask :=
  runs step s (schedule.map .worker)

theorem safe_scheduled (h : Safe s) (hc : Consistent s) (schedule : List WorkerEvent) :
    Safe (s.scheduled schedule) ∧ Consistent (s.scheduled schedule) := by
  induction schedule generalizing s with
  | nil => exact ⟨h, hc⟩
  | cons w schedule ih =>
    change Safe (scheduled (next step s (.worker w)) schedule) ∧
      Consistent (scheduled (next step s (.worker w)) schedule)
    cases hw : s.work w with
    | none =>
      rw [next_of_none (show step s (.worker w) = none from hw)]
      exact ih h hc
    | some s' =>
      rw [next_of_some (show step s (.worker w) = some s' from hw)]
      exact ih (h.work hc (.of_work hw)) (hc.work (.of_work hw))

/-- A state is safe if no schedule of the workers goes wrong. -/
theorem safe_iff (hc : Consistent s) :
    Safe s ↔ ∀ schedule, ClosedProperly (s.scheduled schedule) := by
  constructor
  · intro h schedule
    obtain ⟨hsafe, hconsistent⟩ := safe_scheduled h hc schedule
    exact hsafe.closedProperly hconsistent
  · intro h
    have hnow : ClosedProperly s := h []
    constructor
    · rintro (hclose | hclose) hpoll
      · -- a worker picks the `close` up
        have hpicked : s.scheduled [.picked .close] =
            { s with close := .executing, closeCalls := s.closeCalls + 1 } :=
          next_of_some (if_pos hclose)
        have hthen := h [.picked .close]
        rw [hpicked] at hthen
        exact hthen.apart ⟨hpoll, rfl⟩
      · exact hnow.apart ⟨hpoll, hclose⟩
    · intro hpc hcreated
      have hcalls := hc.calls
      rw [hnow.once hpc hcreated] at hcalls
      by_contra hnot
      rw [if_neg hnot] at hcalls
      cases hcalls

/-- The `finally` block is safe if no poll runs when it begins. -/
theorem safe_toClose_iff : Safe s.toClose ↔ s.poll ≠ .executing := by
  constructor
  · intro hsafe hpoll
    have happart : s.poll.withdraw ≠ .executing := hsafe.apart (.inl rfl)
    rw [hpoll] at happart
    exact happart rfl
  · intro hpoll
    refine ⟨fun _ => ?_, nofun⟩
    change s.poll.withdraw ≠ .executing
    cases hjob : s.poll with
    | executing => exact absurd hjob hpoll
    | absent | queued | finished => nofun

/-- A `finally` block may be cut short once a worker has picked up the `close`. -/
theorem safe_abandoned_iff (hc : Consistent s) (h : Safe s) (hpc : s.pc = .closing) :
    Safe { s with pc := .ended, close := s.close.withdraw } ↔ s.close ≠ .queued := by
  have hcreated : s.created = true := hc.created_of hpc (by decide)
  constructor
  · intro hsafe hqueued
    have honce : s.close.withdraw = .executing ∨ s.close.withdraw = .finished :=
      hsafe.once rfl hcreated
    rw [hqueued] at honce
    exact honce.elim nofun nofun
  · intro hpicked
    have hkept : s.close.withdraw = s.close := by
      cases hjob : s.close with
      | queued => exact absurd hjob hpicked
      | absent | executing | finished => rfl
    rw [hkept]
    refine ⟨h.apart, fun _ _ => ?_⟩
    change s.close = .executing ∨ s.close = .finished
    cases hjob : s.close with
    | absent => exact absurd hjob (hc.closing hpc)
    | queued => exact absurd hjob hpicked
    | executing => exact .inl rfl
    | finished => exact .inr rfl

/-- A step loses safety exactly if it is not orderly. -/
theorem safe_step_iff (hs : Step s e s') (hc : Consistent s) (h : Safe s) :
    Safe s' ↔ Orderly s e := by
  have hopen : s'.close = .absent → s'.pc ≠ .ended → Safe s' := by
    intro habsent hpc
    refine ⟨?_, fun hended => absurd hended hpc⟩
    rw [habsent]
    exact fun hclose => hclose.elim nofun nofun
  cases hs with
  | createFailed hpc =>
    refine iff_of_true ⟨h.apart, fun _ hcreated => ?_⟩ trivial
    rw [show s.created = false from (hc.fresh hpc).2] at hcreated
    cases hcreated
  | subscribeFailed hpc =>
    have habsent : s.close = .absent := hc.close_absent hpc (by decide)
    refine iff_of_false (fun hsafe => ?_) id
    have honce : s.close = .executing ∨ s.close = .finished := hsafe.once rfl rfl
    rw [habsent] at honce
    exact honce.elim nofun nofun
  | subscribed hpc | polledAgain r hpc | polledAlert r hpc | pollFailed r hpc
  | broadcastOver hpc | backoffOver hpc =>
    exact iff_of_true (hopen (hc.close_absent hpc (by decide)) nofun) trivial
  | worker w s' hwork => exact iff_of_true (h.work hc (.of_work hwork)) trivial
  | closeReturned hpc hclose =>
    exact iff_of_true ⟨h.apart, fun _ _ => .inr hclose⟩ trivial
  | interrupted hpc =>
    have hpc' : s.pc ≠ .closing := by
      rcases hpc with hpc | hpc | hpc <;> rw [hpc] <;> nofun
    change Safe s.toClose ↔ if s.pc = .closing then s.close ≠ .queued else s.poll ≠ .executing
    rw [if_neg hpc']
    exact safe_toClose_iff
  | abandoned hpc =>
    change _ ↔ if s.pc = .closing then s.close ≠ .queued else s.poll ≠ .executing
    rw [if_pos hpc]
    exact safe_abandoned_iff hc h hpc

/-- **The consumer is closed properly** under every schedule of the workers, from every
moment of a run, exactly if the run is orderly: the subscription succeeds, no cancellation
meets a poll that runs, and none withdraws the `close`. -/
theorem closed_properly_iff (events : List Event) :
    (∀ n schedule, ClosedProperly ((run (events.take n)).scheduled schedule)) ↔
      Meets step Orderly initial events := by
  have hsafe : (∀ n, Safe (run (events.take n))) ↔ Meets step Orderly initial events :=
    always_iff_meets (I := Consistent) (P := Safe) (fun s e s' hs h => h.step (.of_step hs))
      (fun s e s' hs => safe_step_iff (.of_step hs)) consistent_initial ⟨nofun, nofun⟩
  rw [← hsafe]
  exact forall_congr' fun n => (safe_iff (consistent_run _)).symm

/-- A shutdown in the pause after an error. -/
example : run [.subscribed, .worker (.picked .poll), .worker (.finished .poll), .polled .failed,
    .cancelled, .worker (.picked .close), .worker (.finished .close), .closeReturned] =
      ⟨.ended, true, .absent, .finished, 1⟩ := rfl

/-- **A `close` during a poll**: the shutdown cancels the task while a worker waits in
`poll`, and a second worker closes the consumer. -/
theorem close_during_poll :
    ¬ ∀ n schedule, ClosedProperly
      ((run ([.subscribed, .worker (.picked .poll), .cancelled].take n)).scheduled schedule) := by
  intro h
  exact (h 3 [.picked .close]).apart ⟨rfl, rfl⟩

end AlertTask

end Backend.AlertConsumer

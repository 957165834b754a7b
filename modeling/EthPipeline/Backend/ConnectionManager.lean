import EthPipeline.Backend.WhaleAlerts
import EthPipeline.Base.Run

/-!
# The connection manager

`src/backend/core/ws_manager.py` with the two coroutines that broadcast through
it (`consume_whale_alerts` and `_ping_loop`) and the endpoint `whale_websocket`,
as one state machine.  An event is what happens from one `await` to the next:
asyncio runs that part undisturbed, and in between every other coroutine may go.
A websocket is the number of the endpoint call it belongs to.

* `active_le_max_of_unraced`: the limit holds in every run in which no `connect`
  passes its check while the registered websockets and those still being
  accepted are `max_connections` or more.
* `overlapping_connects_exceed_max`: two overlapping calls of `connect`.
-/

namespace Backend

open Run

/-- What a broadcast sends. -/
inductive Message where
  | ping
  | alert (payload : Payload)

/-- The two callers of `broadcast`. -/
inductive Broadcaster where
  | alerts
  | heartbeat
  deriving DecidableEq, Repr

/-- Where a coroutine `_send_to_connection` is: not started, in `send_json`, in
the `close` after a failed send, at its end. -/
inductive Phase where
  | created
  | sending
  | closing
  | done
  deriving DecidableEq, Repr

structure SendTask where
  connection : ℕ
  message : Message
  phase : Phase

/-- Where a broadcasting loop is: not started yet, waiting (for a message, or for
the next ping), in `gather`, or in the pause after an error. -/
inductive LoopState where
  | off
  | waiting
  | gathering
  | backoff
  deriving DecidableEq, Repr

structure Hub where
  /- `active_connections` -/
  active : List ℕ
  /- the endpoints: every websocket so far, those in `close` after the check,
  those in `accept`, and those in `receive_text` -/
  opened : List ℕ
  rejecting : List ℕ
  accepting : List ℕ
  serving : List ℕ
  /- the broadcasting loops and the tasks they gather -/
  loop : Broadcaster → LoopState
  tasks : Broadcaster → List SendTask
  /- how many messages of the topic were consumed -/
  consumed : ℕ
  /- history: the alerts whose broadcast began, each with the websockets
  registered then, and the calls of `send_json` -/
  begun : List (Payload × List ℕ)
  sent : List (ℕ × Message)

def Hub.initial : Hub where
  active := []
  opened := []
  rejecting := []
  accepting := []
  serving := []
  loop
    | .alerts => .waiting
    | .heartbeat => .off
  tasks := fun _ => []
  consumed := 0
  begun := []
  sent := []

inductive Event where
  /- endpoints -/
  | connect (ws : ℕ)
  | rejected (ws : ℕ)
  | accepted (ws : ℕ)
  | acceptFailed (ws : ℕ)
  | receivedText (ws : ℕ)
  | disconnected (ws : ℕ)
  | endpointFailed (ws : ℕ)
  /- the `i`-th task a loop gathers -/
  | start (b : Broadcaster) (i : ℕ)
  | sendSucceeded (b : Broadcaster) (i : ℕ)
  | sendFailed (b : Broadcaster) (i : ℕ)
  | closed (b : Broadcaster) (i : ℕ)
  /- the loops -/
  | gathered (b : Broadcaster)
  | polledNothing
  | pollFailed
  | backoffOver
  | polled
  | pingDue
  deriving DecidableEq, Repr

namespace Hub

def setLoop (h : Hub) (b : Broadcaster) (l : LoopState) : Hub :=
  { h with loop := Function.update h.loop b l }

def setTasks (h : Hub) (b : Broadcaster) (ts : List SendTask) : Hub :=
  { h with tasks := Function.update h.tasks b ts }

/-- `broadcast`, up to its `await`: one task for each registered websocket; with
none there is nothing to gather. -/
def broadcast (h : Hub) (b : Broadcaster) (message : Message) : Hub :=
  if h.active = [] then h
  else (h.setTasks b (h.active.map fun ws => ⟨ws, message, .created⟩)).setLoop b .gathering

/-- `disconnect`. -/
def disconnect (h : Hub) (ws : ℕ) : Hub := { h with active := h.active.erase ws }

/-- The `i`-th task goes on to `phase`, if it is in phase `before`. -/
def advance (h : Hub) (b : Broadcaster) (i : ℕ) (before phase : Phase) :
    Option (SendTask × Hub) :=
  match (h.tasks b)[i]? with
  | some t =>
    if t.phase = before then some (t, h.setTasks b ((h.tasks b).set i { t with phase })) else none
  | none => none

/-- `connect` after `accept`: the websocket is registered, and the heartbeat is
started with the first one. -/
def register (h : Hub) (ws : ℕ) : Hub :=
  let h := { h with
    accepting := h.accepting.erase ws
    active := h.active ++ [ws]
    serving := h.serving ++ [ws] }
  if h.loop .heartbeat = .off then h.setLoop .heartbeat .waiting else h

/-- One event of the machine, for the limit `maxConnections` and the messages of
the topic. -/
def step (maxConnections : ℕ) (stream : List RawValue) (h : Hub) : Event → Option Hub
  | .connect ws =>
    if ws ∈ h.opened then none
    else if maxConnections ≤ h.active.length then
      some { h with opened := ws :: h.opened, rejecting := h.rejecting ++ [ws] }
    else some { h with opened := ws :: h.opened, accepting := h.accepting ++ [ws] }
  | .rejected ws =>
    if ws ∈ h.rejecting then some { h with rejecting := h.rejecting.erase ws } else none
  | .accepted ws => if ws ∈ h.accepting then some (h.register ws) else none
  | .acceptFailed ws =>
    if ws ∈ h.accepting then some { h with accepting := h.accepting.erase ws } else none
  | .receivedText ws => if ws ∈ h.serving then some h else none
  | .disconnected ws =>
    if ws ∈ h.serving then some ({ h with serving := h.serving.erase ws }.disconnect ws) else none
  | .endpointFailed ws =>
    if ws ∈ h.serving then some { h with serving := h.serving.erase ws } else none
  | .start b i =>
    (h.advance b i .created .sending).map fun (t, h) =>
      { h with sent := h.sent ++ [(t.connection, t.message)] }
  | .sendSucceeded b i => (h.advance b i .sending .done).map (·.2)
  | .sendFailed b i =>
    (h.advance b i .sending .closing).map fun (t, h) => h.disconnect t.connection
  | .closed b i => (h.advance b i .closing .done).map (·.2)
  | .gathered b =>
    if h.loop b = .gathering ∧ ∀ t ∈ h.tasks b, t.phase = .done then
      some ((h.setTasks b []).setLoop b .waiting)
    else none
  | .polledNothing => if h.loop .alerts = .waiting then some h else none
  | .pollFailed =>
    if h.loop .alerts = .waiting then some (h.setLoop .alerts .backoff) else none
  | .backoffOver =>
    if h.loop .alerts = .backoff then some (h.setLoop .alerts .waiting) else none
  | .polled =>
    if h.loop .alerts = .waiting then
      stream[h.consumed]?.map fun raw =>
        let h := { h with consumed := h.consumed + 1 }
        match decodeWhaleAlert raw with
        | some payload =>
          { h with begun := h.begun ++ [(payload, h.active)] }.broadcast .alerts (.alert payload)
        | none => h
    else none
  | .pingDue =>
    if h.loop .heartbeat = .waiting then some (h.broadcast .heartbeat .ping) else none

/-- The run of the events from the start of the server. -/
def run (maxConnections : ℕ) (stream : List RawValue) (events : List Event) : Hub :=
  runs (step maxConnections stream) initial events

end Hub

/-! ### What a step can do -/

open Hub

/-- The steps, one constructor for each branch of `step`. -/
inductive Step (maxConnections : ℕ) (stream : List RawValue) (h : Hub) : Event → Hub → Prop
  | refused (ws : ℕ) (hnew : ws ∉ h.opened) (hfull : maxConnections ≤ h.active.length) :
      Step maxConnections stream h (.connect ws)
        { h with opened := ws :: h.opened, rejecting := h.rejecting ++ [ws] }
  | admitted (ws : ℕ) (hnew : ws ∉ h.opened) (hroom : h.active.length < maxConnections) :
      Step maxConnections stream h (.connect ws)
        { h with opened := ws :: h.opened, accepting := h.accepting ++ [ws] }
  | rejected (ws : ℕ) (hmem : ws ∈ h.rejecting) :
      Step maxConnections stream h (.rejected ws) { h with rejecting := h.rejecting.erase ws }
  | accepted (ws : ℕ) (hmem : ws ∈ h.accepting) :
      Step maxConnections stream h (.accepted ws) (h.register ws)
  | acceptFailed (ws : ℕ) (hmem : ws ∈ h.accepting) :
      Step maxConnections stream h (.acceptFailed ws) { h with accepting := h.accepting.erase ws }
  | receivedText (ws : ℕ) (hmem : ws ∈ h.serving) :
      Step maxConnections stream h (.receivedText ws) h
  | disconnected (ws : ℕ) (hmem : ws ∈ h.serving) :
      Step maxConnections stream h (.disconnected ws)
        { h with serving := h.serving.erase ws, active := h.active.erase ws }
  | endpointFailed (ws : ℕ) (hmem : ws ∈ h.serving) :
      Step maxConnections stream h (.endpointFailed ws) { h with serving := h.serving.erase ws }
  | start (b : Broadcaster) (i : ℕ) (t : SendTask) (ht : (h.tasks b)[i]? = some t)
      (hphase : t.phase = .created) :
      Step maxConnections stream h (.start b i)
        { h.setTasks b ((h.tasks b).set i { t with phase := .sending }) with
          sent := h.sent ++ [(t.connection, t.message)] }
  | sendSucceeded (b : Broadcaster) (i : ℕ) (t : SendTask) (ht : (h.tasks b)[i]? = some t)
      (hphase : t.phase = .sending) :
      Step maxConnections stream h (.sendSucceeded b i)
        (h.setTasks b ((h.tasks b).set i { t with phase := .done }))
  | sendFailed (b : Broadcaster) (i : ℕ) (t : SendTask) (ht : (h.tasks b)[i]? = some t)
      (hphase : t.phase = .sending) :
      Step maxConnections stream h (.sendFailed b i)
        ((h.setTasks b ((h.tasks b).set i { t with phase := .closing })).disconnect t.connection)
  | closed (b : Broadcaster) (i : ℕ) (t : SendTask) (ht : (h.tasks b)[i]? = some t)
      (hphase : t.phase = .closing) :
      Step maxConnections stream h (.closed b i)
        (h.setTasks b ((h.tasks b).set i { t with phase := .done }))
  | gathered (b : Broadcaster) (hloop : h.loop b = .gathering)
      (hdone : ∀ t ∈ h.tasks b, t.phase = .done) :
      Step maxConnections stream h (.gathered b) ((h.setTasks b []).setLoop b .waiting)
  | polledNothing (hloop : h.loop .alerts = .waiting) :
      Step maxConnections stream h .polledNothing h
  | pollFailed (hloop : h.loop .alerts = .waiting) :
      Step maxConnections stream h .pollFailed (h.setLoop .alerts .backoff)
  | backoffOver (hloop : h.loop .alerts = .backoff) :
      Step maxConnections stream h .backoffOver (h.setLoop .alerts .waiting)
  | polledUndecodable (raw : RawValue) (hloop : h.loop .alerts = .waiting)
      (hraw : stream[h.consumed]? = some raw) (hdecode : decodeWhaleAlert raw = none) :
      Step maxConnections stream h .polled { h with consumed := h.consumed + 1 }
  | polledAlert (raw : RawValue) (payload : Payload) (hloop : h.loop .alerts = .waiting)
      (hraw : stream[h.consumed]? = some raw) (hdecode : decodeWhaleAlert raw = some payload) :
      Step maxConnections stream h .polled
        ({ h with
          consumed := h.consumed + 1
          begun := h.begun ++ [(payload, h.active)] }.broadcast .alerts (.alert payload))
  | pingDue (hloop : h.loop .heartbeat = .waiting) :
      Step maxConnections stream h .pingDue (h.broadcast .heartbeat .ping)

variable {maxConnections : ℕ} {stream : List RawValue} {h h' : Hub} {e : Event}

theorem Hub.advance_eq_some {b : Broadcaster} {i : ℕ} {before phase : Phase} {t : SendTask}
    (ha : h.advance b i before phase = some (t, h')) :
    (h.tasks b)[i]? = some t ∧ t.phase = before ∧
      h' = h.setTasks b ((h.tasks b).set i { t with phase }) := by
  unfold advance at ha
  split at ha
  · next u hu =>
    split at ha
    · next hphase =>
      obtain ⟨rfl, rfl⟩ := Prod.mk.inj (Option.some.inj ha)
      exact ⟨hu, hphase, rfl⟩
    · simp at ha
  · simp at ha

/-- **`step` takes the steps of `Step`.** -/
theorem Step.of_step (hs : step maxConnections stream h e = some h') :
    Step maxConnections stream h e h' := by
  cases e with
  | connect ws =>
    simp only [step] at hs
    split at hs
    · simp at hs
    · next hnew =>
      split at hs
      · next hfull => exact Option.some.inj hs ▸ .refused ws hnew hfull
      · next hroom => exact Option.some.inj hs ▸ .admitted ws hnew (Nat.lt_of_not_le hroom)
  | rejected ws =>
    obtain ⟨hmem, hs⟩ := Option.ite_none_right_eq_some.mp hs
    exact Option.some.inj hs ▸ .rejected ws hmem
  | accepted ws =>
    obtain ⟨hmem, hs⟩ := Option.ite_none_right_eq_some.mp hs
    exact Option.some.inj hs ▸ .accepted ws hmem
  | acceptFailed ws =>
    obtain ⟨hmem, hs⟩ := Option.ite_none_right_eq_some.mp hs
    exact Option.some.inj hs ▸ .acceptFailed ws hmem
  | receivedText ws =>
    obtain ⟨hmem, hs⟩ := Option.ite_none_right_eq_some.mp hs
    exact Option.some.inj hs ▸ .receivedText ws hmem
  | disconnected ws =>
    obtain ⟨hmem, hs⟩ := Option.ite_none_right_eq_some.mp hs
    exact Option.some.inj hs ▸ .disconnected ws hmem
  | endpointFailed ws =>
    obtain ⟨hmem, hs⟩ := Option.ite_none_right_eq_some.mp hs
    exact Option.some.inj hs ▸ .endpointFailed ws hmem
  | start b i =>
    obtain ⟨⟨t, g⟩, ha, rfl⟩ := Option.map_eq_some_iff.mp hs
    obtain ⟨ht, hphase, rfl⟩ := advance_eq_some ha
    exact .start b i t ht hphase
  | sendSucceeded b i =>
    obtain ⟨⟨t, g⟩, ha, rfl⟩ := Option.map_eq_some_iff.mp hs
    obtain ⟨ht, hphase, rfl⟩ := advance_eq_some ha
    exact .sendSucceeded b i t ht hphase
  | sendFailed b i =>
    obtain ⟨⟨t, g⟩, ha, rfl⟩ := Option.map_eq_some_iff.mp hs
    obtain ⟨ht, hphase, rfl⟩ := advance_eq_some ha
    exact .sendFailed b i t ht hphase
  | closed b i =>
    obtain ⟨⟨t, g⟩, ha, rfl⟩ := Option.map_eq_some_iff.mp hs
    obtain ⟨ht, hphase, rfl⟩ := advance_eq_some ha
    exact .closed b i t ht hphase
  | gathered b =>
    obtain ⟨⟨hloop, hdone⟩, hs⟩ := Option.ite_none_right_eq_some.mp hs
    exact Option.some.inj hs ▸ .gathered b hloop hdone
  | polledNothing =>
    obtain ⟨hloop, hs⟩ := Option.ite_none_right_eq_some.mp hs
    exact Option.some.inj hs ▸ .polledNothing hloop
  | pollFailed =>
    obtain ⟨hloop, hs⟩ := Option.ite_none_right_eq_some.mp hs
    exact Option.some.inj hs ▸ .pollFailed hloop
  | backoffOver =>
    obtain ⟨hloop, hs⟩ := Option.ite_none_right_eq_some.mp hs
    exact Option.some.inj hs ▸ .backoffOver hloop
  | polled =>
    obtain ⟨hloop, hs⟩ := Option.ite_none_right_eq_some.mp hs
    obtain ⟨raw, hraw, rfl⟩ := Option.map_eq_some_iff.mp hs
    cases hdecode : decodeWhaleAlert raw with
    | none => exact .polledUndecodable raw hloop hraw hdecode
    | some payload => exact .polledAlert raw payload hloop hraw hdecode
  | pingDue =>
    obtain ⟨hloop, hs⟩ := Option.ite_none_right_eq_some.mp hs
    exact Option.some.inj hs ▸ .pingDue hloop

/-! ### The limit -/

/-- A `connect` passes its check only while those registered and those being
accepted leave room. -/
def Unraced (maxConnections : ℕ) (h : Hub) : Event → Prop
  | .connect _ => h.active.length < maxConnections →
    h.active.length + h.accepting.length < maxConnections
  | _ => True

instance (maxConnections : ℕ) (h : Hub) (e : Event) : Decidable (Unraced maxConnections h e) :=
  match e with
  | .connect _ => inferInstanceAs (Decidable (_ → _))
  | .rejected _ | .accepted _ | .acceptFailed _ | .receivedText _ | .disconnected _
  | .endpointFailed _ | .start _ _ | .sendSucceeded _ _ | .sendFailed _ _ | .closed _ _
  | .gathered _ | .polledNothing | .pollFailed | .backoffOver | .polled | .pingDue =>
    inferInstanceAs (Decidable True)

@[simp] theorem active_broadcast (h : Hub) (b : Broadcaster) (m : Message) :
    (h.broadcast b m).active = h.active := by
  unfold broadcast
  split <;> rfl

@[simp] theorem accepting_broadcast (h : Hub) (b : Broadcaster) (m : Message) :
    (h.broadcast b m).accepting = h.accepting := by
  unfold broadcast
  split <;> rfl

@[simp] theorem active_register (h : Hub) (ws : ℕ) :
    (h.register ws).active = h.active ++ [ws] := by
  unfold register
  dsimp only
  split <;> rfl

@[simp] theorem accepting_register (h : Hub) (ws : ℕ) :
    (h.register ws).accepting = h.accepting.erase ws := by
  unfold register
  dsimp only
  split <;> rfl

/-- Registered and being accepted, together. -/
def Hub.claimed (h : Hub) : ℕ := h.active.length + h.accepting.length

theorem claimed_step (hs : Step maxConnections stream h e h') (hu : Unraced maxConnections h e)
    (hle : h.claimed ≤ maxConnections) : h'.claimed ≤ maxConnections := by
  have herase : ∀ (xs : List ℕ) (ws : ℕ), (xs.erase ws).length ≤ xs.length := fun xs ws =>
    List.length_erase_le
  cases hs with
  | admitted ws _ hroom =>
    have hlt := hu hroom
    simp only [claimed, List.length_append, List.length_cons, List.length_nil]
    omega
  | accepted ws hmem =>
    have hlen := List.length_erase_of_mem hmem
    have hpos := List.length_pos_of_mem hmem
    simp only [claimed, active_register, accepting_register, List.length_append, List.length_cons,
      List.length_nil] at hle ⊢
    omega
  | acceptFailed ws _ =>
    have hlen := herase h.accepting ws
    simp only [claimed] at hle ⊢
    omega
  | disconnected ws _ =>
    have hlen := herase h.active ws
    simp only [claimed] at hle ⊢
    omega
  | sendFailed b i t =>
    have hlen := herase h.active t.connection
    show (h.active.erase t.connection).length + h.accepting.length ≤ _
    unfold claimed at hle
    omega
  | polledAlert => simpa [claimed] using hle
  | pingDue => simpa [claimed] using hle
  | _ => exact hle

/-- **The limit holds in every unraced run**, in every state. -/
theorem active_le_max_of_unraced (maxConnections : ℕ) (stream : List RawValue)
    (events : List Event)
    (hunraced : Meets (step maxConnections stream) (Unraced maxConnections) Hub.initial events) :
    (run maxConnections stream events).active.length ≤ maxConnections := by
  have hclaimed : (run maxConnections stream events).claimed ≤ maxConnections := by
    refine runs_invariant_of_meets (P := fun h => h.claimed ≤ maxConnections) ?_ hunraced ?_
    · intro h e h' hs hu hle
      exact claimed_step (.of_step hs) hu hle
    · exact Nat.zero_le _
  unfold claimed at hclaimed
  omega

/-- One at a time: the second websocket is refused. -/
theorem sequential_connects_le_max :
    (run 1 [] [.connect 0, .accepted 0, .connect 1, .rejected 1]).active.length ≤ 1 :=
  active_le_max_of_unraced 1 [] _ (by decide)

/-- **Two overlapping calls of `connect`** pass the same check, and both
websockets are registered. -/
theorem overlapping_connects_exceed_max :
    1 < (run 1 [] [.connect 0, .connect 1, .accepted 0, .accepted 1]).active.length := by
  decide

end Backend

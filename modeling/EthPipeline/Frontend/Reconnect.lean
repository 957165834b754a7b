import EthPipeline.Frontend.WhaleHook

/-!
# The connection of the dashboard

`useWhaleWebSocket` with its refs, the sockets it made and its pending timers.
Every handler looks at `mountedRef`, and the cleanup of the effect takes the close
handler off the socket in `wsRef` only, and clears the timer in `reconnectTimer`
only.

* `step_cases`: all that an event can do to sockets and timers.
* `Inv.step`: those are the only socket with a live close handler and the only
  pending timer, and never both.
* `reconnect_safe`: so there is one chain of reconnects, and after unmount none.
-/

namespace Frontend

open Backend Run

inductive ConnectionStatus where
  | live | reconnecting | offline
  deriving DecidableEq, Repr

def maxReconnectDelay : ℕ := 16000

namespace Hook

structure Socket where
  id : ℕ
  /-- The address that its close handler connects to again. -/
  url : String
  /-- `ws.onclose` is set. -/
  onclose : Bool
  /-- `ws.close()` was called. -/
  closing : Bool
  /-- Its close event was dispatched. -/
  closed : Bool
  deriving DecidableEq, Repr

/-- Its close event is still to come, and will be handled. -/
def Socket.armed (k : Socket) : Bool := k.onclose && !k.closed

/-- A pending `setTimeout` of `scheduleReconnect`. -/
structure Timer where
  id : ℕ
  url : String
  delay : ℕ
  deriving DecidableEq, Repr

structure State where
  messages : List WhaleAlert
  status : ConnectionStatus
  wsRef : Option ℕ
  reconnectAttempt : ℕ
  reconnectTimer : Option ℕ
  mounted : Bool
  /-- The effect was run, and not cleaned up since. -/
  running : Bool
  /-- All sockets that were made. -/
  sockets : List Socket
  timers : List Timer
  nextTimer : ℕ
  /-- History requests that are not answered. -/
  fetches : ℕ

def initial : State where
  messages := []
  status := .offline
  wsRef := none
  reconnectAttempt := 0
  reconnectTimer := none
  mounted := true
  running := false
  sockets := []
  timers := []
  nextTimer := 1
  fetches := 0

def scheduleReconnect (url : String) (s : State) : State :=
  if s.mounted then
    { s with
      status := if 5 ≤ s.reconnectAttempt then .offline else .reconnecting
      reconnectAttempt := s.reconnectAttempt + 1
      timers := ⟨s.nextTimer, url, min (1000 * 2 ^ s.reconnectAttempt) maxReconnectDelay⟩ :: s.timers
      reconnectTimer := some s.nextTimer
      nextTimer := s.nextTimer + 1 }
  else s

/-- `throws`: the constructor of the socket does. -/
def connect (url : String) (throws : Bool) (s : State) : State :=
  if s.mounted then
    if throws then scheduleReconnect url { s with fetches := s.fetches + 1 }
    else
      { s with
        fetches := s.fetches + 1
        sockets := ⟨s.sockets.length, url, true, false, false⟩ :: s.sockets
        wsRef := some s.sockets.length
        status := .reconnecting }
  else s

/-- A change of the socket `id`. -/
def onSocket (id : ℕ) (f : Socket → Socket) (s : State) : State :=
  { s with sockets := s.sockets.map fun k => if k.id = id then f k else k }

/-- `clearTimeout`. -/
def clearTimer (id : ℕ) (s : State) : State :=
  { s with timers := s.timers.filter fun t => t.id ≠ id }

/-- `useEffect`. -/
def runEffect (url : String) (throws : Bool) (s : State) : State :=
  connect url throws { s with mounted := true, running := true }

/-- `if (reconnectTimer.current) …`. -/
def clearReconnect (s : State) : State :=
  match s.reconnectTimer with
  | some id => clearTimer id s
  | none => s

/-- `if (wsRef.current) …`. -/
def closeCurrent (s : State) : State :=
  match s.wsRef with
  | some id => onSocket id (fun k => { k with onclose := false, closing := true }) s
  | none => s

/-- What `useEffect` returns. -/
def cleanup (s : State) : State :=
  closeCurrent (clearReconnect { s with mounted := false, running := false })

/-- `data` is what `JSON.parse` gives, if it gives anything. -/
inductive Event where
  | mount (url : String) (throws : Bool)
  | urlChanged (url : String) (throws : Bool)
  | unmount
  | opened (id : ℕ)
  | message (id : ℕ) (data : Option Payload) (fresh now : String)
  | errored (id : ℕ)
  | closed (id : ℕ)
  | fetched (whales : Option (List Payload))
  | timerFired (id : ℕ) (throws : Bool)

/-- One event; `none` when the browser cannot dispatch it. -/
def step (B : Browser) (s : State) : Event → Option State
  | .mount url throws => if s.running then none else some (runEffect url throws s)
  | .urlChanged url throws => if s.running then some (runEffect url throws (cleanup s)) else none
  | .unmount => if s.running then some (cleanup s) else none
  | .opened id =>
    if s.sockets.any fun k => k.id = id && !k.closed then
      some (if s.mounted then { s with status := .live, reconnectAttempt := 0 } else s)
    else none
  | .message id data fresh now =>
    if s.sockets.any fun k => k.id = id && !k.closing && !k.closed then
      some (if s.mounted then
        match data with
        | some data => { s with messages := onMessage s.messages data fresh now }
        | none => s
      else s)
    else none
  | .errored id =>
    if s.sockets.any fun k => k.id = id && !k.closed then
      some (if s.mounted then onSocket id (fun k => { k with closing := true }) s else s)
    else none
  | .closed id =>
    match s.sockets.find? fun k => k.id = id && !k.closed with
    | some k =>
      let s' := onSocket id (fun k => { k with closed := true }) s
      some (if k.onclose && s.mounted then scheduleReconnect k.url s' else s')
    | none => none
  | .fetched whales =>
    if s.fetches = 0 then none
    else
      let s' := { s with fetches := s.fetches - 1 }
      some (if s.mounted then
        match whales with
        | some whales => { s' with messages := onResponse B s.messages whales }
        | none => s'
      else s')
  | .timerFired id throws =>
    match s.timers.find? fun t => t.id = id with
    | some t =>
      some (if s.mounted then connect t.url throws (clearTimer id s) else clearTimer id s)
    | none => none

def run (B : Browser) (es : List Event) : State := runs (step B) initial es

def Event.mounts : Event → Bool
  | .mount _ _ => true
  | _ => false

/-! ### What an event can do -/

/-- Nothing but the messages, the status and the counters differs. -/
structure SameConnection (s s' : State) : Prop where
  sockets : s'.sockets = s.sockets
  timers : s'.timers = s.timers
  wsRef : s'.wsRef = s.wsRef
  reconnectTimer : s'.reconnectTimer = s.reconnectTimer
  running : s'.running = s.running

theorem SameConnection.refl (s : State) : SameConnection s s := ⟨rfl, rfl, rfl, rfl, rfl⟩

/-- The ways a state changes, but for a mount. -/
inductive Change (s : State) : State → Prop where
  | restarted (url : String) (throws : Bool) (hrunning : s.running = true) :
      Change s (runEffect url throws (cleanup s))
  | stopped (hrunning : s.running = true) : Change s (cleanup s)
  | same {s' : State} (h : SameConnection s s') : Change s s'
  | socket (id : ℕ) {f : Socket → Socket} (hid : ∀ k, (f k).id = k.id)
      (harmed : ∀ k, (f k).armed → k.armed) : Change s (onSocket id f s)
  | closed {k : Socket} (hk : k ∈ s.sockets) (harmed : k.armed) :
      Change s (scheduleReconnect k.url (onSocket k.id (fun k => { k with closed := true }) s))
  | fired {t : Timer} (ht : t ∈ s.timers) (throws : Bool) :
      Change s (connect t.url throws (clearTimer t.id s))
  | expired {t : Timer} (ht : t ∈ s.timers) : Change s (clearTimer t.id s)

theorem step_cases {B : Browser} {s s' : State} {e : Event} (hs : step B s e = some s') :
    (e.mounts ∧ s.running = false ∧ ∃ url throws, s' = runEffect url throws s) ∨ Change s s' := by
  cases e with
  | mount url throws =>
    simp only [step, Option.ite_none_left_eq_some, Option.some.injEq] at hs
    obtain ⟨hstop, rfl⟩ := hs
    exact .inl ⟨rfl, by simpa using hstop, url, throws, rfl⟩
  | urlChanged url throws =>
    simp only [step, Option.ite_none_right_eq_some, Option.some.injEq] at hs
    obtain ⟨hrunning, rfl⟩ := hs
    exact .inr (.restarted url throws hrunning)
  | unmount =>
    simp only [step, Option.ite_none_right_eq_some, Option.some.injEq] at hs
    obtain ⟨hrunning, rfl⟩ := hs
    exact .inr (.stopped hrunning)
  | opened id =>
    simp only [step, Option.ite_none_right_eq_some, Option.some.injEq] at hs
    obtain ⟨-, rfl⟩ := hs
    split <;> exact .inr (.same ⟨rfl, rfl, rfl, rfl, rfl⟩)
  | message id data fresh now =>
    simp only [step, Option.ite_none_right_eq_some, Option.some.injEq] at hs
    obtain ⟨-, rfl⟩ := hs
    split
    · cases data <;> exact .inr (.same ⟨rfl, rfl, rfl, rfl, rfl⟩)
    · exact .inr (.same (.refl s))
  | errored id =>
    simp only [step, Option.ite_none_right_eq_some, Option.some.injEq] at hs
    obtain ⟨-, rfl⟩ := hs
    split
    · exact .inr (.socket id (fun _ => rfl) fun _ harmed => harmed)
    · exact .inr (.same (.refl s))
  | closed id =>
    simp only [step] at hs
    split at hs
    · next k hfind =>
      obtain rfl := Option.some.inj hs
      have hid : k.id = id ∧ k.closed = false := by simpa using List.find?_some hfind
      split
      · next hreconnect =>
        have harmed : k.armed := by
          simp only [Bool.and_eq_true] at hreconnect
          simp [Socket.armed, hreconnect.1, hid.2]
        rw [← hid.1]
        exact .inr (.closed (List.mem_of_find?_eq_some hfind) harmed)
      · refine .inr (.socket id (fun _ => rfl) fun j harmed => ?_)
        simp [Socket.armed] at harmed
    · cases hs
  | fetched whales =>
    simp only [step, Option.ite_none_left_eq_some, Option.some.injEq] at hs
    obtain ⟨-, rfl⟩ := hs
    split
    · cases whales <;> exact .inr (.same ⟨rfl, rfl, rfl, rfl, rfl⟩)
    · exact .inr (.same ⟨rfl, rfl, rfl, rfl, rfl⟩)
  | timerFired id throws =>
    simp only [step] at hs
    split at hs
    · next t hfind =>
      obtain rfl := Option.some.inj hs
      have ht := List.mem_of_find?_eq_some hfind
      have hid : t.id = id := by simpa using List.find?_some hfind
      rw [← hid]
      split
      · exact .inr (.fired ht throws)
      · exact .inr (.expired ht)
    · cases hs

/-! ### One chain of reconnects -/

/-- No socket will reconnect, and no timer. -/
structure Quiet (s : State) : Prop where
  sockets : ∀ k ∈ s.sockets, ¬k.armed
  timers : s.timers = []

/-- Only the socket in `wsRef` can be armed, and only the timer in `reconnectTimer` pending. -/
structure Refs (s : State) : Prop where
  socket : ∀ k ∈ s.sockets, k.armed → s.wsRef = some k.id
  timer : ∀ t ∈ s.timers, s.reconnectTimer = some t.id

structure Inv (s : State) : Prop extends Refs s where
  delay : ∀ t ∈ s.timers, t.delay ≤ maxReconnectDelay
  single : s.sockets.countP Socket.armed + s.timers.length ≤ 1
  stopped : s.running = false → Quiet s

theorem Quiet.inv {s : State} (h : Quiet s) : Inv s where
  socket k hk harmed := absurd harmed (h.sockets k hk)
  timer t ht := by
    rw [h.timers] at ht
    cases ht
  delay t ht := by
    rw [h.timers] at ht
    cases ht
  single := by
    rw [List.countP_eq_zero.mpr h.sockets, h.timers]
    exact Nat.zero_le 1
  stopped _ := h

theorem inv_scheduleReconnect {s : State} (url : String) (h : Quiet s) (hrunning : s.running) :
    Inv (scheduleReconnect url s) := by
  unfold scheduleReconnect
  split
  · refine ⟨⟨fun k hk harmed => absurd harmed (h.sockets k hk), ?_⟩, ?_, ?_, fun hstop => ?_⟩
    · intro t ht
      rw [h.timers] at ht
      obtain rfl := List.mem_singleton.mp ht
      rfl
    · intro t ht
      rw [h.timers] at ht
      obtain rfl := List.mem_singleton.mp ht
      exact min_le_right ..
    · show s.sockets.countP Socket.armed + (List.length _ + 1) ≤ 1
      rw [List.countP_eq_zero.mpr h.sockets, h.timers]
      exact Nat.le_refl 1
    · rw [hrunning] at hstop
      cases hstop
  · exact h.inv

theorem inv_connect {s : State} (url : String) (throws : Bool) (h : Quiet s)
    (hrunning : s.running) : Inv (connect url throws s) := by
  unfold connect
  split
  · split
    · exact inv_scheduleReconnect url ⟨h.sockets, h.timers⟩ hrunning
    · refine ⟨⟨fun k hk harmed => ?_, h.inv.timer⟩, h.inv.delay, ?_, fun hstop => ?_⟩
      · rcases List.mem_cons.mp hk with rfl | hk
        · rfl
        · exact absurd harmed (h.sockets k hk)
      · show (_ :: s.sockets).countP Socket.armed + s.timers.length ≤ 1
        rw [List.countP_cons_of_pos rfl, List.countP_eq_zero.mpr h.sockets, h.timers]
        exact Nat.le_refl 1
      · rw [hrunning] at hstop
        cases hstop
  · exact h.inv

/-- A change that arms no socket. -/
theorem Inv.onSocket {s : State} (h : Inv s) (id : ℕ) {f : Socket → Socket}
    (hid : ∀ k, (f k).id = k.id) (harmed : ∀ k, (f k).armed → k.armed) :
    Inv (onSocket id f s) := by
  have hchange : ∀ k : Socket, (if k.id = id then f k else k).id = k.id ∧
      ((if k.id = id then f k else k).armed → k.armed) := by
    intro k
    split
    · exact ⟨hid k, harmed k⟩
    · exact ⟨rfl, fun h => h⟩
  refine ⟨⟨fun k hk hkarmed => ?_, h.timer⟩, h.delay, ?_,
    fun hstop => ⟨fun k hk hkarmed => ?_, ?_⟩⟩
  · obtain ⟨j, hj, rfl⟩ := List.mem_map.mp hk
    rw [(hchange j).1]
    exact h.socket j hj ((hchange j).2 hkarmed)
  · refine le_trans (Nat.add_le_add_right ?_ _) h.single
    show (s.sockets.map fun k => if k.id = id then f k else k).countP Socket.armed ≤ _
    rw [List.countP_map]
    exact List.countP_mono_left fun k _ hk => (hchange k).2 hk
  · obtain ⟨j, hj, rfl⟩ := List.mem_map.mp hk
    exact (h.stopped hstop).sockets j hj ((hchange j).2 hkarmed)
  · exact (h.stopped hstop).timers

theorem Refs.disarmed {s : State} (h : Refs s) {id : ℕ} (hws : s.wsRef = some id)
    {f : Socket → Socket} (hf : ∀ k, ¬(f k).armed) :
    ∀ k ∈ (onSocket id f s).sockets, ¬k.armed := by
  intro k hk
  obtain ⟨j, hj, rfl⟩ := List.mem_map.mp hk
  split
  · exact hf j
  · next hne =>
    intro harmed
    have hid := h.socket j hj harmed
    rw [hws] at hid
    exact hne (Option.some.inj hid).symm

theorem Refs.quiet_closeCurrent {s : State} (h : Refs s) (htimers : s.timers = []) :
    Quiet (closeCurrent s) := by
  unfold closeCurrent
  cases hws : s.wsRef with
  | some id =>
    refine ⟨h.disarmed hws fun k => ?_, htimers⟩
    simp [Socket.armed]
  | none =>
    refine ⟨fun k hk harmed => ?_, htimers⟩
    have hid := h.socket k hk harmed
    rw [hws] at hid
    cases hid

theorem Refs.clearReconnect {s : State} (h : Refs s) :
    Refs (clearReconnect s) ∧ (clearReconnect s).timers = [] := by
  unfold Hook.clearReconnect
  cases htimer : s.reconnectTimer with
  | some id =>
    have hnone : s.timers.filter (fun t => t.id ≠ id) = [] := by
      refine List.filter_eq_nil_iff.mpr fun t ht => ?_
      have hid := h.timer t ht
      rw [htimer] at hid
      simp [Option.some.inj hid]
    refine ⟨⟨h.socket, fun t ht => ?_⟩, hnone⟩
    exact h.timer t (List.mem_of_mem_filter ht)
  | none =>
    refine ⟨h, List.eq_nil_iff_forall_not_mem.mpr fun t ht => ?_⟩
    have hid := h.timer t ht
    rw [htimer] at hid
    cases hid

/-- **The cleanup** leaves nothing that could reconnect. -/
theorem quiet_cleanup {s : State} (h : Refs s) : Quiet (cleanup s) := by
  have hrefs : Refs { s with mounted := false, running := false } := ⟨h.socket, h.timer⟩
  obtain ⟨hcleared, htimers⟩ := hrefs.clearReconnect
  exact hcleared.quiet_closeCurrent htimers

theorem inv_runEffect {s : State} (url : String) (throws : Bool) (h : Quiet s) :
    Inv (runEffect url throws s) := by
  have hquiet : Quiet { s with mounted := true, running := true } := ⟨h.sockets, h.timers⟩
  exact inv_connect url throws hquiet rfl

theorem Inv.same {s s' : State} (h : Inv s) (hsame : SameConnection s s') : Inv s' := by
  obtain ⟨messages, status, wsRef, attempt, timer, mounted, running, sockets, timers, next,
    fetches⟩ := s'
  obtain ⟨rfl, rfl, rfl, rfl, rfl⟩ := hsame
  exact ⟨⟨h.socket, h.timer⟩, h.delay, h.single, fun hstop =>
    ⟨(h.stopped hstop).sockets, (h.stopped hstop).timers⟩⟩

/-- While a timer is pending or a socket armed, the effect is not cleaned up. -/
theorem Inv.running_of_armed {s : State} (h : Inv s) {k : Socket} (hk : k ∈ s.sockets)
    (harmed : k.armed) : s.running = true := by
  by_contra hstop
  exact (h.stopped (by simpa using hstop)).sockets k hk harmed

theorem Inv.running_of_timer {s : State} (h : Inv s) {t : Timer} (ht : t ∈ s.timers) :
    s.running = true := by
  by_contra hstop
  have hnone := (h.stopped (by simpa using hstop)).timers
  rw [hnone] at ht
  cases ht

/-- When the close event of an armed socket comes, or a timer fires, nothing else is left. -/
theorem Inv.quiet_closed {s : State} (h : Inv s) {k : Socket} (hk : k ∈ s.sockets)
    (harmed : k.armed) : Quiet (Hook.onSocket k.id (fun k => { k with closed := true }) s) := by
  refine ⟨h.disarmed (h.socket k hk harmed) fun j => by simp [Socket.armed], ?_⟩
  have hpos : 0 < s.sockets.countP Socket.armed := List.countP_pos_iff.mpr ⟨k, hk, harmed⟩
  have hsingle := h.single
  exact List.length_eq_zero_iff.mp (by show s.timers.length = 0; omega)

theorem Inv.quiet_fired {s : State} (h : Inv s) {t : Timer} (ht : t ∈ s.timers) :
    Quiet (clearTimer t.id s) := by
  have hpos := List.length_pos_of_mem ht
  have hsingle := h.single
  constructor
  · exact List.countP_eq_zero.mp (by show s.sockets.countP Socket.armed = 0; omega)
  · refine List.filter_eq_nil_iff.mpr fun u hu => ?_
    have hid := (h.timer u hu).symm.trans (h.timer t ht)
    simpa using Option.some.inj hid

/-- **The invariant of the connection.** -/
theorem Inv.step {B : Browser} {s s' : State} {e : Event} (hs : step B s e = some s')
    (h : Inv s) : Inv s' := by
  obtain ⟨-, hstop, url, throws, rfl⟩ | hchange := step_cases hs
  · exact inv_runEffect url throws (h.stopped hstop)
  · cases hchange with
    | restarted url throws => exact inv_runEffect url throws (quiet_cleanup h.toRefs)
    | stopped => exact (quiet_cleanup h.toRefs).inv
    | same hsame => exact h.same hsame
    | socket id hid harmed => exact h.onSocket id hid harmed
    | closed hk harmed =>
      exact inv_scheduleReconnect _ (h.quiet_closed hk harmed) (h.running_of_armed hk harmed)
    | fired ht throws => exact inv_connect _ throws (h.quiet_fired ht) (h.running_of_timer ht)
    | expired ht => exact (h.quiet_fired ht).inv

theorem inv_run (B : Browser) (es : List Event) : Inv (run B es) := by
  refine runs_invariant (fun s e s' hs h => h.step hs) es (Quiet.inv ⟨fun k hk => ?_, rfl⟩)
  cases hk

/-! ### After unmount -/

theorem map_id_onSocket (id : ℕ) {f : Socket → Socket} (hid : ∀ k, (f k).id = k.id) (s : State) :
    (onSocket id f s).sockets.map (·.id) = s.sockets.map (·.id) := by
  simp only [onSocket, List.map_map]
  refine List.map_congr_left fun k _ => ?_
  simp only [Function.comp_apply]
  split
  · exact hid k
  · rfl

/-- Once the effect is cleaned up, only a mount can make a socket. -/
theorem Inv.step_of_stopped {B : Browser} {s s' : State} {e : Event} (hs : Hook.step B s e = some s')
    (hmounts : ¬e.mounts) (h : Inv s) (hstop : s.running = false) :
    s'.running = false ∧ s'.sockets.map (·.id) = s.sockets.map (·.id) := by
  have hquiet := h.stopped hstop
  obtain ⟨hmount, -⟩ | hchange := step_cases hs
  · exact absurd hmount hmounts
  · cases hchange with
    | restarted url throws hrunning => exact absurd (hstop.symm.trans hrunning) Bool.false_ne_true
    | stopped hrunning => exact absurd (hstop.symm.trans hrunning) Bool.false_ne_true
    | same hsame => exact ⟨hsame.running.trans hstop, by rw [hsame.sockets]⟩
    | socket id hid => exact ⟨hstop, map_id_onSocket id hid s⟩
    | closed hk harmed => exact absurd harmed (hquiet.sockets _ hk)
    | fired ht =>
      rw [hquiet.timers] at ht
      cases ht
    | expired ht =>
      rw [hquiet.timers] at ht
      cases ht

theorem sockets_run_of_stopped (B : Browser) {s : State} (h : Inv s) (hstop : s.running = false)
    {es : List Event} (hmounts : ∀ e ∈ es, ¬e.mounts) :
    (runs (step B) s es).sockets.map (·.id) = s.sockets.map (·.id) := by
  induction es generalizing s with
  | nil => rfl
  | cons e es ih =>
    have hrest : ∀ e ∈ es, ¬e.mounts := fun e' he => hmounts e' (List.mem_cons_of_mem _ he)
    show (runs (step B) (next (step B) s e) es).sockets.map (·.id) = _
    cases he : Hook.step B s e with
    | none =>
      rw [next_of_none he]
      exact ih h hstop hrest
    | some s' =>
      obtain ⟨hstop', hids⟩ := h.step_of_stopped he (hmounts e List.mem_cons_self) hstop
      rw [next_of_some he, ih (h.step he) hstop' hrest, hids]

theorem running_next_unmount (B : Browser) (s : State) :
    (next (step B) s .unmount).running = false := by
  by_cases hrunning : s.running
  · have hs : Hook.step B s .unmount = some (cleanup s) := if_pos hrunning
    rw [next_of_some hs, cleanup, closeCurrent, clearReconnect]
    repeat' split
    all_goals rfl
  · have hs : Hook.step B s .unmount = none := if_neg hrunning
    rw [next_of_none hs]
    simpa using hrunning

/-- What there is to reconnect: one socket or one timer. -/
structure SingleChain (s : State) : Prop where
  socket : (s.sockets.filter Socket.armed).length ≤ 1
  timer : s.timers.length ≤ 1
  one : s.sockets.filter Socket.armed = [] ∨ s.timers = []
  delay : ∀ t ∈ s.timers, t.delay ≤ 16000

theorem Inv.singleChain {s : State} (h : Inv s) : SingleChain s := by
  have hsingle := h.single
  rw [List.countP_eq_length_filter] at hsingle
  refine ⟨by omega, by omega, ?_, h.delay⟩
  rcases Nat.eq_zero_or_pos s.timers.length with hnone | hpos
  · exact .inr (List.length_eq_zero_iff.mp hnone)
  · exact .inl (List.length_eq_zero_iff.mp (by omega))

/-- **One chain of reconnects**, in every run, and no socket after unmount. -/
theorem reconnect_safe (B : Browser) (es : List Event) :
    SingleChain (run B es) ∧
      ∀ es', (∀ e ∈ es', ¬e.mounts) →
        (run B (es ++ .unmount :: es')).sockets.map (·.id) =
          (run B (es ++ [.unmount])).sockets.map (·.id) := by
  refine ⟨(inv_run B es).singleChain, fun es' hmounts => ?_⟩
  have hsplit : run B (es ++ .unmount :: es') = runs (step B) (run B (es ++ [.unmount])) es' := by
    rw [run, List.append_cons, runs_append]
    rfl
  have hstop : (run B (es ++ [.unmount])).running = false := by
    rw [run, runs_append]
    exact running_next_unmount B _
  rw [hsplit]
  exact sockets_run_of_stopped B (inv_run B _) hstop hmounts

/-- A socket that closes, and the timer that connects again. -/
example (B : Browser) : ((run B [.mount "ws://a" false, .closed 0, .timerFired 1 false]).sockets.map
    (·.armed)) = [true, false] := rfl

end Hook

end Frontend

import EthPipeline.Backend.ConnectionManager

/-!
# The slots of the connection manager

Which websockets take up a place in `active_connections`.  A websocket leaves the list
in the endpoint, which catches `WebSocketDisconnect` and nothing else, or after a
failed send.

* `slots_freed_iff`: in which runs a websocket is out of the list, for good, from the
  moment its endpoint is over.
* `binary_frame_keeps_slot`: a binary frame ends the endpoint, and the slot stays taken.
-/

namespace Backend

open Run Hub

/-- What a client sends. -/
inductive Frame where
  | text
  | binary
  | close
  deriving DecidableEq, Repr

/-- `receive_text` of a frame: it returns, raises a `KeyError`, or raises
`WebSocketDisconnect`. -/
def Frame.received (ws : ℕ) : Frame → Event
  | .text => .receivedText ws
  | .binary => .endpointFailed ws
  | .close => .disconnected ws

/-! ### Where the websockets are -/

/-- The lists of websockets of a hub. -/
structure Seats where
  active : List ℕ
  opened : List ℕ
  rejecting : List ℕ
  accepting : List ℕ
  serving : List ℕ

def Hub.seats (h : Hub) : Seats := ⟨h.active, h.opened, h.rejecting, h.accepting, h.serving⟩

/-- The coroutine `whale_websocket` of `ws` has ended, by return or by an exception. -/
def Seats.Ended (s : Seats) (ws : ℕ) : Prop :=
  ws ∈ s.opened ∧ ws ∉ s.rejecting ∧ ws ∉ s.accepting ∧ ws ∉ s.serving

instance (s : Seats) (ws : ℕ) : Decidable (s.Ended ws) :=
  inferInstanceAs (Decidable (_ ∧ _ ∧ _ ∧ _))

/-- From the moment its endpoint is over, a websocket is not registered. -/
def SlotsFreed (maxConnections : ℕ) (stream : List RawValue) (events : List Event) : Prop :=
  ∀ ws n m, n ≤ m → (run maxConnections stream (events.take n)).seats.Ended ws →
    ws ∉ (run maxConnections stream (events.take m)).active

/-- An exception that the endpoint does not catch finds its websocket removed. -/
def EndsUnregistered (active : List ℕ) : Event → Prop
  | .endpointFailed ws => ws ∉ active
  | _ => True

/-- What a step does to the lists. -/
inductive SeatStep (s : Seats) : Event → Seats → Prop
  | kept (e : Event) (he : ∀ ws, e ≠ .endpointFailed ws) : SeatStep s e s
  | removed (e : Event) (he : ∀ ws, e ≠ .endpointFailed ws) (ws : ℕ) :
      SeatStep s e { s with active := s.active.erase ws }
  | refused (ws : ℕ) (hnew : ws ∉ s.opened) :
      SeatStep s (.connect ws) { s with
        opened := ws :: s.opened, rejecting := s.rejecting ++ [ws] }
  | admitted (ws : ℕ) (hnew : ws ∉ s.opened) :
      SeatStep s (.connect ws) { s with
        opened := ws :: s.opened, accepting := s.accepting ++ [ws] }
  | rejected (ws : ℕ) (hmem : ws ∈ s.rejecting) :
      SeatStep s (.rejected ws) { s with rejecting := s.rejecting.erase ws }
  | accepted (ws : ℕ) (hmem : ws ∈ s.accepting) :
      SeatStep s (.accepted ws) { s with
        accepting := s.accepting.erase ws, active := s.active ++ [ws],
        serving := s.serving ++ [ws] }
  | acceptFailed (ws : ℕ) (hmem : ws ∈ s.accepting) :
      SeatStep s (.acceptFailed ws) { s with accepting := s.accepting.erase ws }
  | disconnected (ws : ℕ) (hmem : ws ∈ s.serving) :
      SeatStep s (.disconnected ws) { s with
        serving := s.serving.erase ws, active := s.active.erase ws }
  | endpointFailed (ws : ℕ) (hmem : ws ∈ s.serving) :
      SeatStep s (.endpointFailed ws) { s with serving := s.serving.erase ws }

variable {maxConnections : ℕ} {stream : List RawValue} {h h' : Hub} {e : Event} {s s' : Seats}

theorem seats_broadcast (h : Hub) (b : Broadcaster) (m : Message) :
    (h.broadcast b m).seats = h.seats := by
  unfold broadcast
  split <;> rfl

theorem seats_register (h : Hub) (ws : ℕ) :
    (h.register ws).seats = { h.seats with
      accepting := h.accepting.erase ws, active := h.active ++ [ws],
      serving := h.serving ++ [ws] } := by
  unfold register
  dsimp only
  split <;> rfl

theorem SeatStep.of_step (hs : Step maxConnections stream h e h') :
    SeatStep h.seats e h'.seats := by
  cases hs with
  | refused ws hnew _ => exact .refused ws hnew
  | admitted ws hnew _ => exact .admitted ws hnew
  | rejected ws hmem => exact .rejected ws hmem
  | accepted ws hmem =>
    rw [seats_register]
    exact .accepted ws hmem
  | acceptFailed ws hmem => exact .acceptFailed ws hmem
  | disconnected ws hmem => exact .disconnected ws hmem
  | endpointFailed ws hmem => exact .endpointFailed ws hmem
  | sendFailed b i t => exact .removed _ (fun _ => Event.noConfusion) t.connection
  | polledAlert raw payload =>
    rw [seats_broadcast]
    exact .kept _ fun _ => Event.noConfusion
  | pingDue =>
    rw [seats_broadcast]
    exact .kept _ fun _ => Event.noConfusion
  | _ => exact .kept _ fun _ => Event.noConfusion

/-! ### The invariant -/

/-- A websocket has at most one place, and is registered at most once, after `accept`. -/
structure Seated (s : Seats) : Prop where
  places : ∀ ws, s.rejecting.count ws + s.accepting.count ws + s.serving.count ws ≤ 1
  registered : ∀ ws, s.rejecting.count ws + s.accepting.count ws + s.active.count ws ≤ 1
  opened : ∀ ws, ws ∉ s.opened → s.rejecting.count ws + s.accepting.count ws = 0 ∧
    s.serving.count ws + s.active.count ws = 0

/-- Every registered websocket is served. -/
def Served (s : Seats) : Prop := ∀ ws, s.active.count ws ≤ s.serving.count ws

theorem count_erase_le (xs : List ℕ) (a b : ℕ) : (xs.erase a).count b ≤ xs.count b :=
  (List.erase_sublist).count_le b

theorem count_append_singleton (xs : List ℕ) (a b : ℕ) :
    (xs ++ [a]).count b = xs.count b + if a = b then 1 else 0 := by
  rw [List.count_append, List.count_singleton]
  simp

/-- Places that only get free keep the invariant. -/
theorem Seated.of_le (h : Seated s) (hopened : s'.opened = s.opened)
    (hrejecting : ∀ ws, s'.rejecting.count ws ≤ s.rejecting.count ws)
    (haccepting : ∀ ws, s'.accepting.count ws ≤ s.accepting.count ws)
    (hserving : ∀ ws, s'.serving.count ws ≤ s.serving.count ws)
    (hactive : ∀ ws, s'.active.count ws ≤ s.active.count ws) : Seated s' where
  places ws := by
    have := h.places ws
    have := hrejecting ws
    have := haccepting ws
    have := hserving ws
    omega
  registered ws := by
    have := h.registered ws
    have := hrejecting ws
    have := haccepting ws
    have := hactive ws
    omega
  opened ws hws := by
    rw [hopened] at hws
    have := h.opened ws hws
    have := hrejecting ws
    have := haccepting ws
    have := hserving ws
    have := hactive ws
    omega

/-- A new websocket takes one place. -/
theorem Seated.connect (h : Seated s) {ws : ℕ} (hnew : ws ∉ s.opened)
    (hopened : s'.opened = ws :: s.opened)
    (hplace : ∀ x, s'.rejecting.count x + s'.accepting.count x =
      s.rejecting.count x + s.accepting.count x + if ws = x then 1 else 0)
    (hserving : s'.serving = s.serving) (hactive : s'.active = s.active) : Seated s' := by
  have hfree := h.opened ws hnew
  refine ⟨fun x => ?_, fun x => ?_, fun x hx => ?_⟩
  · have := h.places x
    have := hplace x
    rw [hserving]
    by_cases hx : ws = x
    · subst x
      rw [if_pos rfl] at this
      omega
    · rw [if_neg hx] at this
      omega
  · have := h.registered x
    have := hplace x
    rw [hactive]
    by_cases hx : ws = x
    · subst x
      rw [if_pos rfl] at this
      omega
    · rw [if_neg hx] at this
      omega
  · rw [hopened] at hx
    have hne : ws ≠ x := fun heq => hx (heq ▸ List.mem_cons_self)
    have := h.opened x fun hmem => hx (List.mem_cons_of_mem _ hmem)
    have hsame := hplace x
    rw [if_neg hne] at hsame
    rw [hserving, hactive]
    omega

theorem Seated.step (hs : SeatStep s e s') (h : Seated s) : Seated s' := by
  cases hs with
  | kept => exact h
  | removed e he ws =>
    exact h.of_le rfl (fun _ => le_rfl) (fun _ => le_rfl) (fun _ => le_rfl) (count_erase_le _ _)
  | refused ws hnew =>
    refine h.connect hnew rfl (fun x => ?_) rfl rfl
    simp only [count_append_singleton]
    omega
  | admitted ws hnew =>
    refine h.connect hnew rfl (fun x => ?_) rfl rfl
    simp only [count_append_singleton]
    omega
  | rejected ws _ =>
    exact h.of_le rfl (count_erase_le _ _) (fun _ => le_rfl) (fun _ => le_rfl) fun _ => le_rfl
  | accepted ws hmem =>
    have hpos := List.count_pos_iff.mpr hmem
    have hmoved : ∀ x, (s.accepting.erase ws).count x + (if ws = x then 1 else 0) =
        s.accepting.count x := by
      intro x
      rw [List.count_erase]
      by_cases hx : ws = x
      · subst x
        simp only [beq_self_eq_true, if_true]
        omega
      · simp [hx]
    refine ⟨fun x => ?_, fun x => ?_, fun x hx => ?_⟩
    · have := h.places x
      have := hmoved x
      simp only [count_append_singleton]
      omega
    · have := h.registered x
      have := hmoved x
      simp only [count_append_singleton]
      omega
    · have := h.opened x hx
      have := hmoved x
      simp only [count_append_singleton]
      omega
  | acceptFailed ws _ =>
    exact h.of_le rfl (fun _ => le_rfl) (count_erase_le _ _) (fun _ => le_rfl) fun _ => le_rfl
  | disconnected ws _ =>
    exact h.of_le rfl (fun _ => le_rfl) (fun _ => le_rfl) (count_erase_le _ _) (count_erase_le _ _)
  | endpointFailed ws _ =>
    exact h.of_le rfl (fun _ => le_rfl) (fun _ => le_rfl) (count_erase_le _ _) fun _ => le_rfl

/-- What has ended does not come back. -/
theorem SeatStep.ended (hs : SeatStep s e s') {ws : ℕ} (h : s.Ended ws) : s'.Ended ws := by
  obtain ⟨hopened, hrejecting, haccepting, hserving⟩ := h
  have hleft : ∀ (xs : List ℕ) (a : ℕ), ws ∉ xs → ws ∉ xs.erase a :=
    fun xs a hxs hmem => hxs (List.mem_of_mem_erase hmem)
  have hjoin : ∀ (xs : List ℕ) (a : ℕ), ws ∉ xs → ws ≠ a → ws ∉ xs ++ [a] :=
    fun xs a hxs hne => by simp [hxs, hne]
  cases hs with
  | kept | removed => exact ⟨hopened, hrejecting, haccepting, hserving⟩
  | refused a hnew =>
    have hne : ws ≠ a := fun heq => hnew (heq ▸ hopened)
    exact ⟨List.mem_cons_of_mem _ hopened, hjoin _ _ hrejecting hne, haccepting, hserving⟩
  | admitted a hnew =>
    have hne : ws ≠ a := fun heq => hnew (heq ▸ hopened)
    exact ⟨List.mem_cons_of_mem _ hopened, hrejecting, hjoin _ _ haccepting hne, hserving⟩
  | rejected a _ => exact ⟨hopened, hleft _ _ hrejecting, haccepting, hserving⟩
  | accepted a hmem =>
    have hne : ws ≠ a := fun heq => haccepting (heq ▸ hmem)
    exact ⟨hopened, hrejecting, hleft _ _ haccepting, hjoin _ _ hserving hne⟩
  | acceptFailed a _ => exact ⟨hopened, hrejecting, hleft _ _ haccepting, hserving⟩
  | disconnected a _ | endpointFailed a _ =>
    exact ⟨hopened, hrejecting, haccepting, hleft _ _ hserving⟩

/-! ### The slots -/

/-- A step leaves a registered websocket behind exactly if it ends its endpoint by an
exception that is not caught. -/
theorem served_step_iff (hs : SeatStep s e s') (h : Seated s) (hserved : Served s) :
    Served s' ↔ EndsUnregistered s.active e := by
  cases hs with
  | kept e he =>
    refine iff_of_true hserved ?_
    cases e with
    | endpointFailed ws => exact absurd rfl (he ws)
    | _ => trivial
  | removed e he ws =>
    refine iff_of_true (fun x => (count_erase_le _ _ _).trans (hserved x)) ?_
    cases e with
    | endpointFailed ws => exact absurd rfl (he ws)
    | _ => trivial
  | refused | admitted | rejected | acceptFailed => exact iff_of_true hserved trivial
  | accepted ws _ =>
    refine iff_of_true (fun x => ?_) trivial
    have := hserved x
    simp only [count_append_singleton]
    omega
  | disconnected ws _ =>
    refine iff_of_true (fun x => ?_) trivial
    have := hserved x
    simp only [List.count_erase]
    omega
  | endpointFailed ws _ =>
    constructor
    · intro hserved' hmem
      have hle : s.active.count ws ≤ (s.serving.erase ws).count ws := hserved' ws
      have hpos := List.count_pos_iff.mpr hmem
      have hone := h.places ws
      rw [List.count_erase_self] at hle
      omega
    · intro hnot x
      by_cases hx : x = ws
      · subst x
        have hzero : s.active.count ws = 0 := List.count_eq_zero.mpr hnot
        simp only [hzero, Nat.zero_le]
      · have hrest : (s.serving.erase ws).count x = s.serving.count x :=
          List.count_erase_of_ne hx
        have := hserved x
        simp only [hrest]
        omega

theorem seated_run (maxConnections : ℕ) (stream : List RawValue) (events : List Event) :
    Seated (run maxConnections stream events).seats := by
  refine runs_invariant (P := fun h : Hub => Seated h.seats) ?_ events ?_
  · intro h e h' hs hseated
    exact hseated.step (.of_step (.of_step hs))
  · exact ⟨fun _ => Nat.zero_le _, fun _ => Nat.zero_le _, fun _ _ => ⟨rfl, rfl⟩⟩

/-- In a state where every registered websocket is served, no slot is lost. -/
theorem served_iff (h : Seated s) : Served s ↔ ∀ ws, s.Ended ws → ws ∉ s.active := by
  constructor
  · rintro hserved ws ⟨-, -, -, hserving⟩ hmem
    have hpos := List.count_pos_iff.mpr hmem
    have hzero := List.count_eq_zero.mpr hserving
    have := hserved ws
    omega
  · intro hfreed ws
    by_contra hlt
    have hmem : ws ∈ s.active := List.count_pos_iff.mp (by omega)
    have hone := h.registered ws
    have hopened : ws ∈ s.opened := by
      by_contra hnew
      have := h.opened ws hnew
      omega
    refine hfreed ws ⟨hopened, ?_, ?_, ?_⟩ hmem
    all_goals
      rw [← List.count_eq_zero]
      omega

/-- **The slots are freed** in exactly the runs in which every exception but
`WebSocketDisconnect` that ends an endpoint finds its websocket already removed. -/
theorem slots_freed_iff (maxConnections : ℕ) (stream : List RawValue) (events : List Event) :
    SlotsFreed maxConnections stream events ↔
      Meets (step maxConnections stream) (fun h e => EndsUnregistered h.active e) Hub.initial
        events := by
  have hseated : ∀ n, Seated (run maxConnections stream (events.take n)).seats :=
    fun n => seated_run maxConnections stream _
  have hstep : ∀ h e h', step maxConnections stream h e = some h' →
      SeatStep h.seats e h'.seats := fun h e h' hs => .of_step (.of_step hs)
  have halways : (∀ n, Served (run maxConnections stream (events.take n)).seats) ↔
      Meets (step maxConnections stream) (fun h e => EndsUnregistered h.active e) Hub.initial
        events :=
    always_iff_meets (I := fun h : Hub => Seated h.seats) (P := fun h : Hub => Served h.seats)
      (fun h e h' hs hseated => hseated.step (hstep h e h' hs))
      (fun h e h' hs => served_step_iff (hstep h e h' hs)) (seated_run maxConnections stream [])
      fun _ => le_rfl
  rw [← halways]
  constructor
  · intro hfreed n
    exact (served_iff (hseated n)).mpr fun ws => hfreed ws n n le_rfl
  · intro hserved ws n m hle hended
    refine (served_iff (hseated m)).mp (hserved m) ws ?_
    exact runs_take_of_le (P := fun h => h.seats.Ended ws)
      (fun h e h' hs => (hstep h e h' hs).ended) hle hended

/-- **A binary frame keeps a slot**: the endpoint has ended, and with a limit of one
nobody else gets in. -/
theorem binary_frame_keeps_slot :
    ¬ SlotsFreed 1 [] [.connect 0, .accepted 0, Frame.received 0 .binary] := by
  intro h
  exact absurd (h 0 3 3 le_rfl (by decide)) (by decide)

end Backend

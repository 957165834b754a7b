import EthPipeline.Backend.ConnectionManager

/-!
# What a client receives

`alerts_delivered`: in every state of every run, the alerts passed to
`send_json` of a websocket, followed by the one whose task has not started yet,
are those whose broadcast began while it was registered, in the order they were
consumed; and a client that fails or closes changes nothing for another one.

The invariant is `Delivering`.  It rests on three facts: a websocket is
registered once, so a broadcast makes one task for it; the alert loop gathers its
tasks before it polls again; and the heartbeat sends no alerts.
-/

namespace Backend

open Run Hub

def Message.alert? : Message → Option Payload
  | .ping => none
  | .alert payload => some payload

namespace Hub

/-- The alerts passed to `send_json` of `ws`, in order. -/
def received (h : Hub) (ws : ℕ) : List Payload :=
  h.sent.filterMap fun s => if s.1 = ws then s.2.alert? else none

/-- What a task is still to send to `ws`. -/
def toSend (ws : ℕ) (t : SendTask) : Option Payload :=
  if t.connection = ws ∧ t.phase = .created then t.message.alert? else none

/-- The alerts whose task for `ws` has not started. -/
def pending (h : Hub) (ws : ℕ) : List Payload := (h.tasks .alerts).filterMap (toSend ws)

/-- The alerts whose broadcast began while `ws` was registered, in order. -/
def due (h : Hub) (ws : ℕ) : List Payload :=
  (h.begun.filter fun p => ws ∈ p.2).map (·.1)

end Hub

/-- The client that fails or closes in an event. -/
def Event.client (h : Hub) : Event → Option ℕ
  | .sendFailed b i | .closed b i => (h.tasks b)[i]?.map (·.connection)
  | .disconnected ws | .endpointFailed ws | .rejected ws | .acceptFailed ws => some ws
  | _ => none

/-! ### Lists with one entry for a key -/

theorem filterMap_set_of_eq {α β : Type} {f : α → Option β} {l : List α} {i : ℕ} {t t' : α}
    (ht : l[i]? = some t) (hf : f t' = f t) : (l.set i t').filterMap f = l.filterMap f := by
  induction l generalizing i with
  | nil => rfl
  | cons a l ih =>
    cases i with
    | zero =>
      obtain rfl : a = t := by simpa using ht
      simp [List.filterMap_cons, hf]
    | succ i =>
      have hrest := ih (i := i) (by simpa using ht)
      simp [List.filterMap_cons, hrest]

theorem filterMap_of_unique {α β κ : Type} {f : α → Option β} {key : α → κ} {l : List α} {t : α}
    (hnodup : (l.map key).Nodup) (ht : t ∈ l) (hf : ∀ u, key u ≠ key t → f u = none) :
    l.filterMap f = (f t).toList := by
  induction l with
  | nil => simp at ht
  | cons a l ih =>
    rw [List.map_cons, List.nodup_cons] at hnodup
    rcases List.mem_cons.mp ht with rfl | ht
    · have hrest : l.filterMap f = [] := by
        rw [List.filterMap_eq_nil_iff]
        intro u hu
        exact hf u fun heq => hnodup.1 (heq ▸ List.mem_map_of_mem hu)
      cases hft : f t <;> simp [hft, hrest]
    · have hne : key a ≠ key t := fun heq => hnodup.1 (heq ▸ List.mem_map_of_mem ht)
      rw [List.filterMap_cons, hf a hne]
      exact ih hnodup.2 ht

/-! ### The invariant -/

variable {maxConnections : ℕ} {stream : List RawValue} {h h' : Hub} {e : Event}

structure Delivering (stream : List RawValue) (h : Hub) : Prop where
  registered : (h.active ++ h.accepting).Nodup
  opened : h.active ++ h.accepting ⊆ h.opened
  tasks : ((h.tasks .alerts).map (·.connection)).Nodup
  idle : h.loop .alerts ≠ .gathering → h.tasks .alerts = []
  pings : ∀ t ∈ h.tasks .heartbeat, t.message = .ping
  split : ∀ ws, h.received ws ++ h.pending ws = h.due ws
  inOrder : h.begun.map (·.1) = (stream.take h.consumed).filterMap decodeWhaleAlert

theorem delivering_initial : Delivering stream Hub.initial where
  registered := List.nodup_nil
  opened := List.nil_subset _
  tasks := List.nodup_nil
  idle := fun _ => rfl
  pings := fun t ht => by simp [Hub.initial] at ht
  split := fun ws => rfl
  inOrder := rfl

/-- The registered websockets shrink, or one that was being accepted joins. -/
theorem Delivering.of_connections (h₁ : Delivering stream h)
    (hreg : (h'.active ++ h'.accepting).Nodup) (hopen : h'.active ++ h'.accepting ⊆ h'.opened)
    (hloop : h'.loop .alerts = h.loop .alerts) (htasks : h'.tasks = h.tasks)
    (hbegun : h'.begun = h.begun) (hsent : h'.sent = h.sent) (hcons : h'.consumed = h.consumed) :
    Delivering stream h' where
  registered := hreg
  opened := hopen
  tasks := by rw [htasks]; exact h₁.tasks
  idle := by rw [hloop, htasks]; exact h₁.idle
  pings := by rw [htasks]; exact h₁.pings
  split := by
    intro ws
    simp only [received, pending, due, hsent, htasks, hbegun]
    exact h₁.split ws
  inOrder := by rw [hbegun, hcons]; exact h₁.inOrder

theorem map_connection_set {l : List SendTask} {i : ℕ} {t : SendTask} (ht : l[i]? = some t)
    (phase : Phase) : (l.set i { t with phase }).map (·.connection) = l.map (·.connection) := by
  rw [List.map_set]
  obtain ⟨hlt, rfl⟩ := List.getElem?_eq_some_iff.mp ht
  have hlt' : i < (l.map (·.connection)).length := by simpa using hlt
  have hself := List.set_getElem_self hlt'
  rwa [List.getElem_map] at hself

/-- A task of `b` goes on to `phase`, and perhaps a websocket is no longer registered. -/
theorem Delivering.of_phase {b : Broadcaster} {i : ℕ} {t : SendTask} {phase : Phase}
    (h₁ : Delivering stream h) (ht : (h.tasks b)[i]? = some t)
    (hreg : (h'.active ++ h'.accepting).Sublist (h.active ++ h.accepting))
    (hopened : h'.opened = h.opened) (hloop : h'.loop = h.loop)
    (htasks : h'.tasks = Function.update h.tasks b ((h.tasks b).set i { t with phase }))
    (hbegun : h'.begun = h.begun) (hcons : h'.consumed = h.consumed)
    (hsplit : ∀ ws, h'.received ws ++ h'.pending ws = h.received ws ++ h.pending ws) :
    Delivering stream h' where
  registered := h₁.registered.sublist hreg
  opened := by
    rw [hopened]
    exact fun ws hws => h₁.opened (hreg.subset hws)
  tasks := by
    rw [htasks]
    cases b with
    | alerts =>
      rw [Function.update_self, map_connection_set ht]
      exact h₁.tasks
    | heartbeat =>
      rw [Function.update_of_ne (by decide)]
      exact h₁.tasks
  idle := by
    intro hne
    rw [hloop] at hne
    have hnil := h₁.idle hne
    rw [htasks]
    cases b with
    | alerts => rw [Function.update_self, hnil, List.set_nil]
    | heartbeat =>
      rw [Function.update_of_ne (by decide)]
      exact hnil
  pings := by
    rw [htasks]
    cases b with
    | alerts =>
      rw [Function.update_of_ne (by decide)]
      exact h₁.pings
    | heartbeat =>
      rw [Function.update_self]
      intro u hu
      rcases List.mem_or_eq_of_mem_set hu with hu | rfl
      · exact h₁.pings u hu
      · exact h₁.pings t (List.mem_of_getElem? ht)
  split := by
    intro ws
    rw [hsplit ws, due, hbegun]
    exact h₁.split ws
  inOrder := by
    rw [hbegun, hcons]
    exact h₁.inOrder

/-- After it has started, a task has nothing left to send. -/
theorem pending_update_set {b : Broadcaster} {i : ℕ} {t : SendTask} {phase : Phase}
    (ht : (h.tasks b)[i]? = some t) (hstarted : t.phase ≠ .created) (hphase : phase ≠ .created)
    (htasks : h'.tasks = Function.update h.tasks b ((h.tasks b).set i { t with phase })) (ws : ℕ) :
    h'.pending ws = h.pending ws := by
  rw [pending, pending, htasks]
  cases b with
  | alerts =>
    rw [Function.update_self]
    refine filterMap_set_of_eq ht ?_
    simp [toSend, hstarted, hphase]
  | heartbeat => rw [Function.update_of_ne (by decide)]

/-- The task that starts sends what was pending for its websocket. -/
theorem split_start {b : Broadcaster} {i : ℕ} {t : SendTask} (h₁ : Delivering stream h)
    (ht : (h.tasks b)[i]? = some t) (hphase : t.phase = .created)
    (htasks : h'.tasks = Function.update h.tasks b ((h.tasks b).set i { t with phase := .sending }))
    (hsent : h'.sent = h.sent ++ [(t.connection, t.message)]) (ws : ℕ) :
    h'.received ws ++ h'.pending ws = h.received ws ++ h.pending ws := by
  have hmem := List.mem_of_getElem? ht
  cases b with
  | heartbeat =>
    have hping := h₁.pings t hmem
    have hreceived : h'.received ws = h.received ws := by
      simp [received, hsent, List.filterMap_append, hping, Message.alert?]
    have hpending : h'.pending ws = h.pending ws := by
      rw [pending, pending, htasks, Function.update_of_ne (by decide)]
    rw [hreceived, hpending]
  | alerts =>
    have hlist : h'.tasks .alerts = (h.tasks .alerts).set i { t with phase := .sending } := by
      rw [htasks, Function.update_self]
    by_cases hws : t.connection = ws
    · have hother : ∀ u : SendTask, u.connection ≠ t.connection → toSend ws u = none := by
        intro u hu
        have hu : u.connection ≠ ws := hws ▸ hu
        simp [toSend, hu]
      have hbefore : h.pending ws = t.message.alert?.toList := by
        rw [pending, filterMap_of_unique h₁.tasks hmem hother]
        simp [toSend, hws, hphase]
      have hafter : h'.pending ws = [] := by
        have hmem' : { t with phase := .sending } ∈ h'.tasks .alerts := by
          rw [hlist]
          exact List.mem_set (List.getElem?_eq_some_iff.mp ht).1 _
        have hnodup : ((h'.tasks .alerts).map (·.connection)).Nodup := by
          rw [hlist, map_connection_set ht]
          exact h₁.tasks
        rw [pending, filterMap_of_unique hnodup hmem' hother]
        simp [toSend]
      rw [hbefore, hafter, received, hsent, List.filterMap_append]
      cases halert : t.message.alert? <;> simp [hws, halert, received]
    · have hreceived : h'.received ws = h.received ws := by
        simp [received, hsent, List.filterMap_append, hws]
      have hpending : h'.pending ws = h.pending ws := by
        rw [pending, pending, hlist]
        refine filterMap_set_of_eq ht ?_
        simp [toSend, hws]
      rw [hreceived, hpending]

/-! ### The steps that leave the tasks of a broadcast alone -/

theorem registered_admitted {ws : ℕ} (h₁ : Delivering stream h) (hnew : ws ∉ h.opened) :
    (h.active ++ (h.accepting ++ [ws])).Nodup ∧
      h.active ++ (h.accepting ++ [ws]) ⊆ ws :: h.opened := by
  have hperm : (h.active ++ (h.accepting ++ [ws])).Perm (ws :: (h.active ++ h.accepting)) := by
    rw [← List.append_assoc]
    exact List.perm_append_singleton ws _
  constructor
  · rw [hperm.nodup_iff, List.nodup_cons]
    exact ⟨fun hmem => hnew (h₁.opened hmem), h₁.registered⟩
  · intro x hx
    rcases List.mem_cons.mp (hperm.subset hx) with rfl | hx
    · exact List.mem_cons_self
    · exact List.mem_cons_of_mem _ (h₁.opened hx)

theorem register_perm {ws : ℕ} (hmem : ws ∈ h.accepting) :
    ((h.register ws).active ++ (h.register ws).accepting).Perm (h.active ++ h.accepting) := by
  rw [active_register, accepting_register, List.append_assoc, List.singleton_append]
  exact (List.perm_cons_erase hmem).symm.append_left _

/-- `register` only adds to the endpoints and may start the heartbeat. -/
theorem register_frame (h : Hub) (ws : ℕ) :
    (h.register ws).opened = h.opened ∧ (h.register ws).loop .alerts = h.loop .alerts ∧
      (h.register ws).tasks = h.tasks ∧ (h.register ws).begun = h.begun ∧
      (h.register ws).sent = h.sent ∧ (h.register ws).consumed = h.consumed := by
  unfold register
  dsimp only
  split <;> exact ⟨rfl, rfl, rfl, rfl, rfl, rfl⟩

theorem Delivering.setLoop {l : LoopState} (h₁ : Delivering stream h)
    (hloop : h.loop .alerts ≠ .gathering) : Delivering stream (h.setLoop .alerts l) where
  registered := h₁.registered
  opened := h₁.opened
  tasks := h₁.tasks
  idle := fun _ => h₁.idle hloop
  pings := h₁.pings
  split := h₁.split
  inOrder := h₁.inOrder

/-- The loop goes on when the tasks it gathered are done. -/
theorem Delivering.gathered {b : Broadcaster} (h₁ : Delivering stream h)
    (hdone : ∀ t ∈ h.tasks b, t.phase = .done) :
    Delivering stream ((h.setTasks b []).setLoop b .waiting) := by
  cases b with
  | alerts =>
    have htasks : ((h.setTasks .alerts []).setLoop .alerts .waiting).tasks .alerts = [] :=
      rfl
    have hping : ((h.setTasks .alerts []).setLoop .alerts .waiting).tasks .heartbeat =
        h.tasks .heartbeat := rfl
    refine ⟨h₁.registered, h₁.opened, ?_, fun _ => htasks, ?_, ?_, h₁.inOrder⟩
    · rw [htasks]
      exact List.nodup_nil
    · rw [hping]
      exact h₁.pings
    · intro ws
      have hempty : h.pending ws = [] := by
        rw [pending, List.filterMap_eq_nil_iff]
        intro t ht
        simp [toSend, hdone t ht]
      have hsplit := h₁.split ws
      rw [hempty] at hsplit
      rw [pending, htasks]
      exact hsplit
  | heartbeat =>
    have htasks : ((h.setTasks .heartbeat []).setLoop .heartbeat .waiting).tasks .heartbeat = [] :=
      rfl
    have halerts : ((h.setTasks .heartbeat []).setLoop .heartbeat .waiting).tasks .alerts =
        h.tasks .alerts := rfl
    have hloop : ((h.setTasks .heartbeat []).setLoop .heartbeat .waiting).loop .alerts =
        h.loop .alerts := rfl
    refine ⟨h₁.registered, h₁.opened, ?_, ?_, ?_, ?_, h₁.inOrder⟩
    · rw [halerts]
      exact h₁.tasks
    · rw [hloop, halerts]
      exact h₁.idle
    · intro t ht
      rw [htasks] at ht
      simp at ht
    · intro ws
      rw [pending, halerts]
      exact h₁.split ws

/-! ### The steps that begin a broadcast -/

theorem take_consumed_succ {raw : RawValue} {n : ℕ} (hraw : stream[n]? = some raw) :
    (stream.take (n + 1)).filterMap decodeWhaleAlert =
      (stream.take n).filterMap decodeWhaleAlert ++ (decodeWhaleAlert raw).toList := by
  rw [List.take_add_one, hraw, List.filterMap_append]
  cases hd : decodeWhaleAlert raw <;> simp [hd]

theorem Delivering.polledUndecodable {raw : RawValue} (h₁ : Delivering stream h)
    (hraw : stream[h.consumed]? = some raw) (hdecode : decodeWhaleAlert raw = none) :
    Delivering stream { h with consumed := h.consumed + 1 } where
  registered := h₁.registered
  opened := h₁.opened
  tasks := h₁.tasks
  idle := h₁.idle
  pings := h₁.pings
  split := h₁.split
  inOrder := by
    rw [take_consumed_succ hraw, hdecode, Option.toList_none, List.append_nil]
    exact h₁.inOrder

theorem due_begin {payload : Payload} {n : ℕ} (ws : ℕ) :
    due { h with consumed := n, begun := h.begun ++ [(payload, h.active)] } ws =
      h.due ws ++ if ws ∈ h.active then [payload] else [] := by
  by_cases hws : ws ∈ h.active <;> simp [due, List.filter_append, hws]

/-- One task for each registered websocket, none of them started. -/
theorem toSend_broadcast {payload : Payload} (ws : ℕ) (hnodup : h.active.Nodup) :
    (h.active.map fun c => (⟨c, .alert payload, .created⟩ : SendTask)).filterMap (toSend ws) =
      if ws ∈ h.active then [payload] else [] := by
  rw [List.filterMap_map]
  split
  · next hws =>
    have hid : (h.active.map id).Nodup := by rwa [List.map_id]
    rw [filterMap_of_unique hid hws]
    · simp [toSend, Message.alert?]
    · intro c hc
      have hc : c ≠ ws := hc
      simp [toSend, hc]
  · next hws =>
    rw [List.filterMap_eq_nil_iff]
    intro c hc
    have hne : c ≠ ws := fun heq => hws (heq ▸ hc)
    simp [toSend, hne]

theorem Delivering.polledAlert {raw : RawValue} {payload : Payload} (h₁ : Delivering stream h)
    (hloop : h.loop .alerts = .waiting) (hraw : stream[h.consumed]? = some raw)
    (hdecode : decodeWhaleAlert raw = some payload) :
    Delivering stream
      ({ h with
        consumed := h.consumed + 1
        begun := h.begun ++ [(payload, h.active)] }.broadcast .alerts (.alert payload)) := by
  have hidle : h.tasks .alerts = [] := h₁.idle (by rw [hloop]; decide)
  have hsplit : ∀ ws, h.received ws = h.due ws := by
    intro ws
    have hws := h₁.split ws
    rwa [pending, hidle, List.filterMap_nil, List.append_nil] at hws
  have horder : (h.begun ++ [(payload, h.active)]).map (·.1) =
      (stream.take (h.consumed + 1)).filterMap decodeWhaleAlert := by
    rw [take_consumed_succ hraw, hdecode, List.map_append, h₁.inOrder]
    rfl
  have hactive : h.active.Nodup := (List.nodup_append.mp h₁.registered).1
  unfold broadcast
  dsimp only
  split
  · next hempty =>
    refine ⟨h₁.registered, h₁.opened, h₁.tasks, h₁.idle, h₁.pings, ?_, horder⟩
    intro ws
    rw [due_begin, hempty, ← hsplit ws, pending, hidle]
    rfl
  · next hsome =>
    let g := ({ h with consumed := h.consumed + 1, begun := h.begun ++ [(payload, h.active)] }.setTasks
      .alerts (h.active.map fun ws => ⟨ws, .alert payload, .created⟩)).setLoop .alerts .gathering
    have htasks : g.tasks .alerts = h.active.map fun ws => ⟨ws, .alert payload, .created⟩ :=
      rfl
    have hping : g.tasks .heartbeat = h.tasks .heartbeat := rfl
    have hgathering : g.loop .alerts = .gathering := rfl
    show Delivering stream g
    refine ⟨h₁.registered, h₁.opened, ?_, fun hne => absurd hgathering hne, ?_, ?_, horder⟩
    · rw [htasks, List.map_map]
      have hid : ((fun t : SendTask => t.connection) ∘ fun ws => ⟨ws, .alert payload, .created⟩) =
          id := rfl
      rwa [hid, List.map_id]
    · rw [hping]
      exact h₁.pings
    · intro ws
      have hdue : g.due ws = h.due ws ++ if ws ∈ h.active then [payload] else [] :=
        due_begin (n := h.consumed + 1) ws
      have hpending : g.pending ws = if ws ∈ h.active then [payload] else [] := by
        rw [pending, htasks]
        exact toSend_broadcast ws hactive
      rw [hdue, hpending, ← hsplit ws]
      rfl

theorem Delivering.pingDue (h₁ : Delivering stream h) :
    Delivering stream (h.broadcast .heartbeat .ping) := by
  unfold broadcast
  split
  · exact h₁
  · let g := (h.setTasks .heartbeat (h.active.map fun ws => ⟨ws, .ping, .created⟩)).setLoop
      .heartbeat .gathering
    have htasks : g.tasks .heartbeat = h.active.map fun ws => ⟨ws, .ping, .created⟩ :=
      rfl
    have halerts : g.tasks .alerts = h.tasks .alerts := rfl
    have hloop : g.loop .alerts = h.loop .alerts := rfl
    show Delivering stream g
    refine ⟨h₁.registered, h₁.opened, ?_, ?_, ?_, ?_, h₁.inOrder⟩
    · rw [halerts]
      exact h₁.tasks
    · rw [hloop, halerts]
      exact h₁.idle
    · rw [htasks]
      intro t ht
      obtain ⟨ws, -, rfl⟩ := List.mem_map.mp ht
      rfl
    · intro ws
      rw [pending, halerts]
      exact h₁.split ws

/-! ### Every run -/

theorem Delivering.step (hs : Step maxConnections stream h e h') (h₁ : Delivering stream h) :
    Delivering stream h' := by
  cases hs with
  | refused ws _ _ =>
    refine h₁.of_connections h₁.registered ?_ rfl rfl rfl rfl rfl
    exact fun x hx => List.mem_cons_of_mem _ (h₁.opened hx)
  | admitted ws hnew _ =>
    obtain ⟨hnodup, hopened⟩ := registered_admitted h₁ hnew
    exact h₁.of_connections hnodup hopened rfl rfl rfl rfl rfl
  | accepted ws hmem =>
    have hperm := register_perm hmem
    obtain ⟨hopened, hloop, htasks, hbegun, hsent, hcons⟩ := register_frame h ws
    refine h₁.of_connections (hperm.nodup_iff.mpr h₁.registered) ?_ hloop htasks hbegun hsent hcons
    rw [hopened]
    exact fun x hx => h₁.opened (hperm.subset hx)
  | acceptFailed ws _ =>
    have hsub : (h.active ++ h.accepting.erase ws).Sublist (h.active ++ h.accepting) :=
      List.Sublist.append_left List.erase_sublist _
    refine h₁.of_connections (h₁.registered.sublist hsub) ?_ rfl rfl rfl rfl rfl
    exact fun x hx => h₁.opened (hsub.subset hx)
  | disconnected ws _ =>
    have hsub : (h.active.erase ws ++ h.accepting).Sublist (h.active ++ h.accepting) :=
      List.Sublist.append_right List.erase_sublist _
    refine h₁.of_connections (h₁.registered.sublist hsub) ?_ rfl rfl rfl rfl rfl
    exact fun x hx => h₁.opened (hsub.subset hx)
  | rejected ws _ =>
    exact h₁.of_connections h₁.registered h₁.opened rfl rfl rfl rfl rfl
  | endpointFailed ws _ =>
    exact h₁.of_connections h₁.registered h₁.opened rfl rfl rfl rfl rfl
  | receivedText | polledNothing => exact h₁
  | start b i t ht hphase =>
    refine h₁.of_phase ht (List.Sublist.refl _) rfl rfl rfl rfl rfl ?_
    exact split_start h₁ ht hphase rfl rfl
  | sendSucceeded b i t ht hphase =>
    refine h₁.of_phase ht (List.Sublist.refl _) rfl rfl rfl rfl rfl ?_
    intro ws
    rw [pending_update_set ht (by rw [hphase]; decide) (by decide) rfl ws]
    rfl
  | sendFailed b i t ht hphase =>
    have hsub : (h.active.erase t.connection ++ h.accepting).Sublist (h.active ++ h.accepting) :=
      List.Sublist.append_right List.erase_sublist _
    refine h₁.of_phase ht hsub rfl rfl rfl rfl rfl ?_
    intro ws
    have hpending : Hub.pending ((h.setTasks b ((h.tasks b).set i { t with phase := .closing
        })).disconnect t.connection) ws = h.pending ws :=
      pending_update_set ht (by rw [hphase]; decide) (by decide) rfl ws
    rw [hpending]
    rfl
  | closed b i t ht hphase =>
    refine h₁.of_phase ht (List.Sublist.refl _) rfl rfl rfl rfl rfl ?_
    intro ws
    rw [pending_update_set ht (by rw [hphase]; decide) (by decide) rfl ws]
    rfl
  | gathered b _ hdone => exact h₁.gathered hdone
  | pollFailed hloop => exact h₁.setLoop (by rw [hloop]; decide)
  | backoffOver hloop => exact h₁.setLoop (by rw [hloop]; decide)
  | polledUndecodable raw _ hraw hdecode => exact h₁.polledUndecodable hraw hdecode
  | polledAlert raw payload hloop hraw hdecode => exact h₁.polledAlert hloop hraw hdecode
  | pingDue => exact h₁.pingDue

theorem delivering_run (maxConnections : ℕ) (stream : List RawValue) (events : List Event) :
    Delivering stream (run maxConnections stream events) := by
  refine runs_invariant (P := Delivering stream) ?_ events delivering_initial
  intro h e h' hs h₁
  exact h₁.step (.of_step hs)

/-! ### The other clients -/

theorem filter_ne_erase (xs : List ℕ) (c : ℕ) :
    (xs.erase c).filter (· ≠ c) = xs.filter (· ≠ c) := by
  rw [← List.erase_filter]
  exact List.erase_of_not_mem (by simp)

theorem others_unchanged {c : ℕ} (hs : Step maxConnections stream h e h')
    (hc : e.client h = some c) :
    h'.active.filter (· ≠ c) = h.active.filter (· ≠ c) ∧
      ∀ ws, ws ≠ c → h'.received ws = h.received ws ∧ h'.pending ws = h.pending ws ∧
        h'.due ws = h.due ws := by
  cases hs with
  | rejected | acceptFailed | endpointFailed => exact ⟨rfl, fun ws _ => ⟨rfl, rfl, rfl⟩⟩
  | disconnected ws _ =>
    obtain rfl : ws = c := Option.some.inj hc
    exact ⟨filter_ne_erase h.active ws, fun ws _ => ⟨rfl, rfl, rfl⟩⟩
  | sendFailed b i t ht hphase =>
    obtain rfl : t.connection = c := by
      rw [Event.client, ht] at hc
      exact Option.some.inj hc
    refine ⟨filter_ne_erase h.active t.connection, fun ws _ => ⟨rfl, ?_, rfl⟩⟩
    exact pending_update_set ht (by rw [hphase]; decide) (by decide) rfl ws
  | closed b i t ht hphase =>
    refine ⟨rfl, fun ws _ => ⟨rfl, ?_, rfl⟩⟩
    exact pending_update_set ht (by rw [hphase]; decide) (by decide) rfl ws
  | _ => simp [Event.client] at hc

theorem setLoop_setLoop {b : Broadcaster} {l l' : LoopState} (hloop : h.loop b = l) :
    (h.setLoop b l').setLoop b l = h := by
  rw [setLoop, setLoop, Function.update_idem, ← hloop, Function.update_eq_self]

/-! ### The result -/

/-- What the clients can rely on in a state of the hub. -/
structure AlertsDelivered (maxConnections : ℕ) (stream : List RawValue) (h : Hub) : Prop where
  /- what was sent, then what is under way, is what was due -/
  split : ∀ ws, h.received ws ++ h.pending ws = h.due ws
  /- what is under way can always be sent, and before the next message is polled it was -/
  underWay : ∀ (i : ℕ) (t : SendTask), (h.tasks .alerts)[i]? = some t → t.phase = .created →
    (step maxConnections stream h (.start .alerts i)).isSome
  settled : h.loop .alerts ≠ .gathering → ∀ ws, h.received ws = h.due ws
  /- the broadcasts are those of the decodable messages, in order -/
  inOrder : h.begun.map (·.1) = (stream.take h.consumed).filterMap decodeWhaleAlert
  /- a client that fails or closes is the only one concerned -/
  others : ∀ (e : Event) (h' : Hub) (c : ℕ), step maxConnections stream h e = some h' →
    e.client h = some c → h'.active.filter (· ≠ c) = h.active.filter (· ≠ c) ∧
      ∀ ws, ws ≠ c → h'.received ws = h.received ws ∧ h'.pending ws = h.pending ws ∧
        h'.due ws = h.due ws
  /- an undecodable message is skipped, and an error of the poll is waited out -/
  undecodable : ∀ raw : RawValue, h.loop .alerts = .waiting → stream[h.consumed]? = some raw →
    decodeWhaleAlert raw = none →
    step maxConnections stream h .polled = some { h with consumed := h.consumed + 1 }
  pollError : ∀ h' : Hub, step maxConnections stream h .pollFailed = some h' →
    step maxConnections stream h' .backoffOver = some h

/-- **No loss, no duplicate, no reordering**, for every client in every run. -/
theorem alerts_delivered (maxConnections : ℕ) (stream : List RawValue) (events : List Event) :
    AlertsDelivered maxConnections stream (run maxConnections stream events) := by
  have hd := delivering_run maxConnections stream events
  generalize run maxConnections stream events = h at hd
  refine ⟨hd.split, ?_, ?_, hd.inOrder, ?_, ?_, ?_⟩
  · intro i t ht hphase
    simp [step, advance, ht, hphase]
  · intro hloop ws
    have hsplit := hd.split ws
    rwa [pending, hd.idle hloop, List.filterMap_nil, List.append_nil] at hsplit
  · intro e h' c hs hc
    exact others_unchanged (.of_step hs) hc
  · intro raw hloop hraw hdecode
    simp only [step]
    rw [if_pos hloop, hraw, Option.map_some, hdecode]
  · intro h' hs
    obtain ⟨hloop, hs⟩ := Option.ite_none_right_eq_some.mp hs
    obtain rfl := Option.some.inj hs
    have hback : (h.setLoop .alerts .backoff).loop .alerts = .backoff := rfl
    simp only [step]
    rw [if_pos hback, setLoop_setLoop hloop]

end Backend

import EthPipeline.Backend.Server

/-!
# Who has what

In every state of the backend the locks and the pool agree with where the requests
are in their code.

* `run_exclusive`: the invariant.
* `no_deadlock`: while a request is unfinished, some request can go on, whatever the
  size of the pool.
-/

namespace Backend

open Run

/-! ### The place of a request -/

def CachedPc.lockPhase : CachedPc → LockPhase
  | .awaitingLock => .waiting
  | .getting true => .inside
  | .got true _ => .inside
  | .fetching _ => .inside
  | .querying _ => .inside
  | .setting _ => .inside
  | .wasSet _ => .inside
  | _ => .outside

/-- Between `get_db` and the end, a query apart: here only `get_db` decides whether the
request has a connection. -/
def CachedPc.Between : CachedPc → Prop
  | .connecting => False
  | .querying _ => False
  | .done _ => False
  | _ => True

/-- The endpoint depends on `get_db`. -/
def CachedRequest.usesDb : CachedRequest → Bool
  | .trending _ _ => true
  | .gasMetrics => false

/-- The request has a connection. -/
def Task.connected : Task → Bool
  | .cached (.trending _ _) pc =>
    match pc with
    | .connecting => false
    | .done _ => false
    | _ => true
  | .cached .gasMetrics pc =>
    match pc with
    | .querying _ => true
    | _ => false
  | .plain e pc =>
    match pc with
    | .running _ => e.usesPool
    | .closing => e.usesPool
    | _ => false

/-- A request uses one lock only. -/
def CachedRequest.placed (c : CachedRequest) (phase : LockPhase) (l : LockName) : LockPhase :=
  if c.lock = l then phase else .outside

def Task.lockPhase : Task → LockName → LockPhase
  | .cached c pc => c.placed pc.lockPhase
  | .plain _ _ => fun _ => .outside

/-- The gas query asks the pool for a connection of its own, the trending query has
the one of `get_db`, and the search needs none. -/
def Task.Legal : Task → Prop
  | .cached (.trending _ _) (.fetching _) => False
  | .cached .gasMetrics .connecting => False
  | .plain .searchTokens .connecting => False
  | _ => True

def Task.Finished : Task → Prop
  | .cached _ (.done _) => True
  | .plain _ .done => True
  | _ => False

@[simp] theorem CachedRequest.placed_lock (c : CachedRequest) (phase : LockPhase) :
    c.placed phase c.lock = phase := if_pos rfl

theorem CachedRequest.placed_of_ne {c : CachedRequest} {l : LockName} (h : l ≠ c.lock)
    (phase : LockPhase) : c.placed phase l = .outside := if_neg h.symm

namespace Server

def phase (s : Server) (l : LockName) (p : ℕ) : LockPhase :=
  match s.tasks p with
  | some t => t.lockPhase l
  | none => .outside

def connected (s : Server) (p : ℕ) : Bool :=
  match s.tasks p with
  | some t => t.connected
  | none => false

/-- The request has arrived and is not over. -/
def Unfinished (s : Server) (p : ℕ) : Prop := ∃ t, s.tasks p = some t ∧ ¬ t.Finished

structure Exclusive (s : Server) : Prop where
  locks : ∀ l, (s.locks l).Agrees (s.phase l)
  pool : ∀ p, p ∈ s.connections ↔ s.connected p = true
  legal : ∀ p t, s.tasks p = some t → t.Legal

/-- `Exclusive`, with the locks and the pool as if `p` had gone on to a place with
this lock phase and connection. -/
structure Ahead (s : Server) (p : ℕ) (ph : LockName → LockPhase) (con : Bool) : Prop where
  locks : ∀ l, (s.locks l).Agrees (Function.update (s.phase l) p (ph l))
  pool : ∀ q, q ∈ s.connections ↔ Function.update s.connected p con q = true
  legal : ∀ q t, s.tasks q = some t → t.Legal

variable {s s' : Server} {p : ℕ} {c : CachedRequest} {t : Task}
  {redis con : Bool} {maxSize : ℕ}

theorem phase_goto (s : Server) (p : ℕ) (t : Task) (l : LockName) :
    (s.goto p t).phase l = Function.update (s.phase l) p (t.lockPhase l) := by
  funext q
  by_cases hq : q = p
  · subst hq
    simp [phase, goto]
  · simp [phase, goto, hq]

theorem connected_goto (s : Server) (p : ℕ) (t : Task) :
    (s.goto p t).connected = Function.update s.connected p t.connected := by
  funext q
  by_cases hq : q = p
  · subst hq
    simp [connected, goto]
  · simp [connected, goto, hq]

@[simp] theorem phase_setLock (s : Server) (l l' : LockName) (lock : FifoLock ℕ) :
    (s.setLock l lock).phase l' = s.phase l' := rfl

@[simp] theorem connected_connect (s : Server) (p : ℕ) :
    (s.connect p).connected = s.connected := rfl

@[simp] theorem connected_disconnect (s : Server) (p : ℕ) :
    (s.disconnect p).connected = s.connected := rfl

theorem Exclusive.ahead (h : s.Exclusive) (ht : s.tasks p = some t) :
    s.Ahead p t.lockPhase t.connected where
  locks l := by
    have hphase : t.lockPhase l = s.phase l p := by simp [phase, ht]
    rw [hphase, Function.update_eq_self]
    exact h.locks l
  pool q := by
    have hcon : t.connected = s.connected p := by simp [connected, ht]
    rw [hcon, Function.update_eq_self]
    exact h.pool q
  legal := h.legal

theorem Exclusive.ahead_of_none (h : s.Exclusive) (ht : s.tasks p = none) :
    s.Ahead p (fun _ => .outside) false where
  locks l := by
    have hphase : LockPhase.outside = s.phase l p := by simp [phase, ht]
    rw [hphase, Function.update_eq_self]
    exact h.locks l
  pool q := by
    have hcon : false = s.connected p := by simp [connected, ht]
    rw [hcon, Function.update_eq_self]
    exact h.pool q
  legal := h.legal

namespace Ahead

variable {ph : LockName → LockPhase}

theorem goto (h : s.Ahead p ph con) (hph : ∀ l, ph l = t.lockPhase l)
    (hcon : con = t.connected) (ht : t.Legal) : (s.goto p t).Exclusive where
  locks l := by
    rw [phase_goto, ← hph l]
    exact h.locks l
  pool q := by
    rw [connected_goto, ← hcon]
    exact h.pool q
  legal q t' ht' := by
    by_cases hq : q = p
    · subst hq
      rw [show (s.goto q t).tasks q = some t from Function.update_self ..] at ht'
      exact Option.some.inj ht' ▸ ht
    · rw [show (s.goto p t).tasks q = s.tasks q from Function.update_of_ne hq ..] at ht'
      exact h.legal q t' ht'

theorem connect (h : s.Ahead p ph con) : (s.connect p).Ahead p ph true where
  locks := h.locks
  pool q := by
    by_cases hq : q = p
    · subst hq
      simp [Server.connect]
    · have hpool := h.pool q
      rw [Function.update_of_ne hq] at hpool ⊢
      rw [connected_connect, ← hpool]
      simp [Server.connect, hq]
  legal := h.legal

theorem disconnect (h : s.Ahead p ph con) : (s.disconnect p).Ahead p ph false where
  locks := h.locks
  pool q := by
    by_cases hq : q = p
    · subst hq
      simp [Server.disconnect]
    · have hpool := h.pool q
      rw [Function.update_of_ne hq] at hpool ⊢
      rw [connected_disconnect, ← hpool]
      simp [Server.disconnect, hq]
  legal := h.legal

/-- One of the four operations of a lock, as its lemma in `FifoLock.Agrees` has it. -/
theorem setLock {phase phase' : LockPhase} {lock : FifoLock ℕ}
    (h : s.Ahead p (c.placed phase) con)
    (hlock : lock.Agrees
      (Function.update (Function.update (s.phase c.lock) p phase) p phase')) :
    (s.setLock c.lock lock).Ahead p (c.placed phase') con where
  locks l := by
    rw [phase_setLock]
    by_cases hl : l = c.lock
    · subst hl
      rw [Function.update_idem] at hlock
      simpa [Server.setLock] using hlock
    · have hlocks := h.locks l
      rw [c.placed_of_ne hl] at hlocks ⊢
      simpa [Server.setLock, hl] using hlocks
  pool := h.pool
  legal := h.legal

end Ahead

/-! ### The coroutines keep it -/

theorem query_exclusive (h : s.Ahead p (c.placed .inside) c.usesDb) : (s.query p c).Exclusive := by
  cases c with
  | trending limit hours => exact h.goto (fun _ => rfl) rfl trivial
  | gasMetrics => exact h.goto (fun _ => rfl) rfl trivial

theorem lookAgain_exclusive (h : s.Ahead p (c.placed .inside) c.usesDb) :
    (lookAgain redis s p c).Exclusive := by
  unfold lookAgain
  split
  · refine h.goto (fun _ => rfl) ?_ ?_
    · cases c <;> rfl
    · cases c <;> trivial
  · exact query_exclusive h

theorem enter_exclusive (h : s.Ahead p (c.placed .outside) c.usesDb) :
    (enter redis s p c).Exclusive := by
  have hlock := h.locks c.lock
  rw [c.placed_lock] at hlock
  have hp : Function.update (s.phase c.lock) p .outside p = .outside := Function.update_self ..
  unfold enter
  dsimp only
  split
  · next hfree => exact lookAgain_exclusive (h.setLock (hlock.take hfree.1 hp))
  · refine (h.setLock (hlock.wait hp)).goto (fun _ => rfl) ?_ ?_
    · cases c <;> rfl
    · cases c <;> trivial

theorem look_exclusive (h : s.Ahead p (c.placed .outside) c.usesDb) :
    (look redis s p c).Exclusive := by
  unfold look
  split
  · refine h.goto (fun _ => rfl) ?_ ?_
    · cases c <;> rfl
    · cases c <;> trivial
  · exact enter_exclusive h

theorem close_exclusive {outcome : Outcome} (h : s.Ahead p (c.placed .outside) c.usesDb) :
    (s.goto p (.cached c (.closing outcome))).Exclusive := by
  refine h.goto (fun _ => rfl) ?_ ?_
  · cases c <;> rfl
  · cases c <;> trivial

theorem leave_exclusive {outcome : Outcome} (h : s.Ahead p (c.placed .inside) c.usesDb) :
    (s.leave p c outcome).Exclusive := by
  have hlock := h.locks c.lock
  rw [c.placed_lock] at hlock
  exact close_exclusive (h.setLock (hlock.release (Function.update_self ..)))

theorem store_exclusive {r : Response} (h : s.Ahead p (c.placed .inside) c.usesDb) :
    (store redis s p c r).Exclusive := by
  have hbuilt : { s with built := s.built ++ [(c, r)] }.Ahead p (c.placed .inside) c.usesDb :=
    ⟨h.locks, h.pool, h.legal⟩
  unfold store
  dsimp only
  split
  · refine hbuilt.goto (fun _ => rfl) ?_ ?_
    · cases c <;> rfl
    · cases c <;> trivial
  · exact leave_exclusive hbuilt

theorem answer_exclusive {fallback : Bool} {rows : Rows}
    (h : s.Ahead p (c.placed .inside) true) (hs' : answer redis s p c fallback rows = some s') :
    s'.Exclusive := by
  unfold answer at hs'
  cases rows with
  | trending rows =>
    cases c with
    | gasMetrics => cases hs'
    | trending limit hours =>
      dsimp only at hs'
      split at hs'
      · cases hs'
        exact store_exclusive h
      · cases hs'
        exact leave_exclusive h
  | average avg =>
    cases c with
    | trending limit hours => cases hs'
    | gasMetrics =>
      dsimp only at hs'
      split at hs'
      · cases hs'
        exact h.disconnect.goto (fun _ => rfl) rfl trivial
      · cases hs'
        exact store_exclusive h.disconnect
  | other => cases hs'

theorem fail_exclusive (h : s.Ahead p (c.placed .inside) con) (hcon : c.usesDb = true → con = true) :
    (s.fail p c).Exclusive := by
  cases c with
  | trending limit hours =>
    rw [hcon rfl] at h
    exact leave_exclusive h
  | gasMetrics => exact leave_exclusive h.disconnect

theorem Exclusive.ahead_between {pc : CachedPc} (h : s.Exclusive)
    (ht : s.tasks p = some (.cached c pc)) (hpc : pc.Between) :
    s.Ahead p (c.placed pc.lockPhase) c.usesDb := by
  have hahead : s.Ahead p (c.placed pc.lockPhase) (Task.cached c pc).connected := h.ahead ht
  have hcon : (Task.cached c pc).connected = c.usesDb := by
    cases c with
    | trending limit hours =>
      cases pc with
      | connecting => exact absurd hpc id
      | done outcome => exact absurd hpc id
      | _ => rfl
    | gasMetrics =>
      cases pc with
      | querying fallback => exact absurd hpc id
      | _ => rfl
  exact hcon ▸ hahead

theorem actCached_exclusive {pc : CachedPc} {action : Action} (h : s.Exclusive)
    (ht : s.tasks p = some (.cached c pc))
    (hs' : actCached redis maxSize s p c pc action = some s') : s'.Exclusive := by
  have hahead : s.Ahead p (c.placed pc.lockPhase) (Task.cached c pc).connected := h.ahead ht
  have hlegal := h.legal p _ ht
  unfold actCached at hs'
  split at hs'
  · -- the connection of `get_db`
    split at hs' <;> cases hs'
    cases c with
    | trending limit hours => exact look_exclusive hahead.connect
    | gasMetrics => exact absurd hlegal id
  · split at hs' <;> cases hs'
    cases c <;> exact hahead.goto (fun _ => rfl) rfl trivial
  · next second =>
    cases hs'
    cases second <;> cases c <;> exact hahead.goto (fun _ => rfl) rfl trivial
  · cases hs'
    exact close_exclusive (h.ahead_between ht trivial)
  · cases hs'
    exact leave_exclusive (h.ahead_between ht trivial)
  · cases hs'
    exact enter_exclusive (h.ahead_between ht trivial)
  · cases hs'
    exact query_exclusive (h.ahead_between ht trivial)
  · -- the lock
    dsimp only at hs'
    split at hs' <;> cases hs'
    next hgrant =>
    have hbetween := h.ahead_between ht trivial
    have hlock := hbetween.locks c.lock
    rw [c.placed_lock] at hlock
    exact lookAgain_exclusive (hbetween.setLock (hlock.grant hgrant.1 hgrant.2))
  · -- the connection of `pool.fetchrow`
    split at hs' <;> cases hs'
    cases c with
    | trending limit hours => exact absurd hlegal id
    | gasMetrics => exact hahead.connect.goto (fun _ => rfl) rfl trivial
  · exact answer_exclusive (by cases c <;> exact hahead) hs'
  · split at hs' <;> cases hs'
    cases c with
    | trending limit hours => exact absurd hlegal id
    | gasMetrics => exact fail_exclusive hahead (by simp [CachedRequest.usesDb])
  · cases hs'
    exact fail_exclusive hahead (by cases c <;> simp [Task.connected])
  · cases hs'
    have hcache : ∀ cache, ({ s with cache } : Server).Ahead p (c.placed .inside)
        (Task.cached c (.setting _)).connected := fun cache => ⟨hahead.locks, hahead.pool, hahead.legal⟩
    cases c <;> exact (hcache _).goto (fun _ => rfl) rfl trivial
  · cases hs'
    exact leave_exclusive (h.ahead_between ht trivial)
  · cases hs'
    cases c <;> exact hahead.disconnect.goto (fun _ => rfl) rfl trivial
  · cases hs'

theorem actPlain_exclusive {e : Endpoint} {pc : PlainPc} {action : Action} (h : s.Exclusive)
    (ht : s.tasks p = some (.plain e pc)) (hs' : actPlain maxSize s p e pc action = some s') :
    s'.Exclusive := by
  have hahead : s.Ahead p (fun _ => .outside) (Task.plain e pc).connected := h.ahead ht
  have hlegal := h.legal p _ ht
  unfold actPlain at hs'
  split at hs'
  · split at hs' <;> cases hs'
    have hpool : e.usesPool = true := by
      cases e with
      | searchTokens => exact absurd hlegal id
      | _ => rfl
    exact hahead.connect.goto (fun _ => rfl) hpool.symm (by cases e <;> trivial)
  · split at hs' <;> cases hs'
    exact hahead.goto (fun _ => rfl) rfl (by cases e <;> trivial)
  · cases hs'
    split
    · exact hahead.goto (fun _ => rfl) rfl (by cases e <;> trivial)
    · exact hahead.goto (fun _ => rfl) rfl (by cases e <;> trivial)
  · cases hs'
    exact hahead.goto (fun _ => rfl) rfl (by cases e <;> trivial)
  · cases hs'
    exact hahead.disconnect.goto (fun _ => rfl) rfl (by cases e <;> trivial)
  · cases hs'

theorem arrive_exclusive {request : Request} (h : s.Exclusive) (ht : s.tasks p = none) :
    (arrive redis s p request).Exclusive := by
  have hahead := h.ahead_of_none ht
  cases request with
  | cached c =>
    have hplaced : (fun _ => .outside) = c.placed .outside := by
      funext l
      exact (ite_self _).symm
    rw [hplaced] at hahead
    cases c with
    | trending limit hours => exact hahead.goto (fun _ => rfl) rfl trivial
    | gasMetrics => exact look_exclusive hahead
  | plain e => cases e <;> exact hahead.goto (fun _ => rfl) rfl trivial

/-- **What every step keeps.** -/
theorem step_exclusive {e : ServerEvent} (h : s.Exclusive)
    (hs' : step redis maxSize s e = some s') : s'.Exclusive := by
  cases e with
  | arrived p request =>
    cases ht : s.tasks p with
    | none =>
      simp only [step, ht] at hs'
      exact Option.some.inj hs' ▸ arrive_exclusive h ht
    | some t => simp [step, ht] at hs'
  | expired key =>
    cases hs'
    exact ⟨h.locks, h.pool, h.legal⟩
  | task p action =>
    cases ht : s.tasks p with
    | none => simp [step, ht] at hs'
    | some t =>
      simp only [step, ht] at hs'
      cases t with
      | cached c pc => exact actCached_exclusive h ht hs'
      | plain e pc => exact actPlain_exclusive h ht hs'

theorem initial_exclusive : initial.Exclusive where
  locks _ := FifoLock.agrees_free
  pool _ := by simp [initial, connected]
  legal _ _ ht := by cases ht

/-- **What holds in every run.** -/
theorem run_exclusive (redis : Bool) (maxSize : ℕ) (events : List ServerEvent) :
    (run redis maxSize events).Exclusive :=
  runs_invariant (fun _ _ _ hstep h => step_exclusive h hstep) events initial_exclusive

/-! ### No deadlock -/

/-- What a request waits for. -/
inductive Resource where
  | connection
  | lock (l : LockName)
  deriving DecidableEq, Repr

/-- The order in which requests take them: the gas lock, a connection, the trending lock. -/
def Resource.rank : Resource → ℕ
  | .lock .gasMetrics => 0
  | .connection => 1
  | .lock .trending => 2

def Has (s : Server) (p : ℕ) : Resource → Prop
  | .connection => p ∈ s.connections
  | .lock l => (s.locks l).holder = some p

/-- The request waits for a connection, and for the trending query or the gas query. -/
def AwaitsConnection (s : Server) (p : ℕ) : Prop :=
  (∃ c, s.tasks p = some (.cached c .connecting)) ∨
    (∃ c fallback, s.tasks p = some (.cached c (.fetching fallback))) ∨
    ∃ e, s.tasks p = some (.plain e .connecting)

/-- The request waits for something that others have. -/
def Blocked (maxSize : ℕ) (s : Server) (p : ℕ) : Resource → Prop
  | .connection => s.AwaitsConnection p ∧ maxSize ≤ s.connections.card
  | .lock l => s.phase l p = .waiting ∧ (s.locks l).holder ≠ none

theorem phase_of_task {l : LockName} (ht : s.tasks p = some t) :
    s.phase l p = t.lockPhase l := by
  simp [phase, ht]

theorem connected_of_task (ht : s.tasks p = some t) : s.connected p = t.connected := by
  simp [connected, ht]

theorem of_placed {l : LockName} {phase phase' : LockPhase} (h : c.placed phase l = phase')
    (houtside : phase' ≠ .outside) : c.lock = l ∧ phase = phase' := by
  unfold CachedRequest.placed at h
  split at h
  · next hl => exact ⟨hl, h⟩
  · exact absurd h.symm houtside

theorem task_of_phase {l : LockName} {phase : LockPhase} (h : s.phase l p = phase)
    (houtside : phase ≠ .outside) :
    ∃ c pc, s.tasks p = some (.cached c pc) ∧ c.lock = l ∧ pc.lockPhase = phase := by
  cases ht : s.tasks p with
  | none =>
    simp only [Server.phase, ht] at h
    exact absurd h.symm houtside
  | some t =>
    rw [phase_of_task ht] at h
    cases t with
    | plain e pc => exact absurd h.symm houtside
    | cached c pc =>
      obtain ⟨hl, hphase⟩ := of_placed h houtside
      exact ⟨c, pc, rfl, hl, hphase⟩

theorem task_of_waiting {l : LockName} (h : s.phase l p = .waiting) :
    ∃ c, s.tasks p = some (.cached c .awaitingLock) ∧ c.lock = l := by
  obtain ⟨c, pc, ht, hl, hphase⟩ := task_of_phase h LockPhase.noConfusion
  refine ⟨c, ?_, hl⟩
  unfold CachedPc.lockPhase at hphase
  split at hphase
  · exact ht
  all_goals cases hphase

theorem unfinished_of_connected (h : s.connected p = true) : s.Unfinished p := by
  cases ht : s.tasks p with
  | none => simp [connected, ht] at h
  | some t =>
    refine ⟨t, ht, fun hfinished => ?_⟩
    rw [connected_of_task ht] at h
    unfold Task.Finished at hfinished
    split at hfinished
    · next c outcome => cases c <;> cases h
    · cases h
    · exact hfinished

theorem unfinished_of_phase {l : LockName} {phase : LockPhase} (h : s.phase l p = phase)
    (houtside : phase ≠ .outside) : s.Unfinished p := by
  obtain ⟨c, pc, ht, -, hphase⟩ := task_of_phase h houtside
  refine ⟨_, ht, fun hfinished => ?_⟩
  unfold Task.Finished at hfinished
  split at hfinished
  · next hpc =>
    cases hpc
    exact houtside hphase.symm
  · next hpc => cases hpc
  · exact hfinished

theorem Exclusive.unfinished_of_has (h : s.Exclusive) {r : Resource} (hr : s.Has p r) :
    s.Unfinished p := by
  cases r with
  | connection => exact unfinished_of_connected ((h.pool p).mp hr)
  | lock l => exact unfinished_of_phase (((h.locks l).holder_iff p).mp hr) LockPhase.noConfusion

/-- Who waits for a connection has none, and of the locks at most the gas lock. -/
theorem Exclusive.of_awaitsConnection (h : s.Exclusive) (hp : s.AwaitsConnection p) :
    s.connected p = false ∧ ∀ l, s.phase l p = .inside → l = .gasMetrics := by
  rcases hp with ⟨c, ht⟩ | ⟨c, fallback, ht⟩ | ⟨e, ht⟩
  · refine ⟨by rw [connected_of_task ht]; cases c <;> rfl, fun l hl => ?_⟩
    rw [phase_of_task ht] at hl
    cases (of_placed hl LockPhase.noConfusion).2
  · have hlegal := h.legal p _ ht
    cases c with
    | trending limit hours => exact absurd hlegal id
    | gasMetrics =>
      refine ⟨connected_of_task ht, fun l hl => ?_⟩
      rw [phase_of_task ht] at hl
      exact (of_placed hl LockPhase.noConfusion).1.symm
  · refine ⟨connected_of_task ht, fun l hl => ?_⟩
    rw [phase_of_task ht] at hl
    cases hl

/-- Who has something waits only for things that come later in the order. -/
theorem Exclusive.rank_lt (h : s.Exclusive) {r r' : Resource} (hr : s.Has p r)
    (hblocked : s.Blocked maxSize p r') : r.rank < r'.rank := by
  cases r' with
  | connection =>
    obtain ⟨hcon, hlock⟩ := h.of_awaitsConnection hblocked.1
    cases r with
    | connection =>
      rw [(h.pool p).mp hr] at hcon
      cases hcon
    | lock l =>
      rw [hlock l (((h.locks l).holder_iff p).mp hr)]
      decide
  | lock l =>
    obtain ⟨c, ht, hl⟩ := task_of_waiting hblocked.1
    cases r with
    | connection =>
      have hcon := (h.pool p).mp hr
      rw [connected_of_task ht] at hcon
      cases c with
      | trending limit hours =>
        subst hl
        exact Nat.lt_succ_self 1
      | gasMetrics => cases hcon
    | lock l' =>
      have hinside := ((h.locks l').holder_iff p).mp hr
      rw [phase_of_task ht] at hinside
      cases (of_placed hinside LockPhase.noConfusion).2

/-- An answer of the database to a query of the request. -/
def sampleRows : CachedRequest → Rows
  | .trending _ _ => .trending []
  | .gasMetrics => .average none

/-- A request that waits for nothing others have goes on, or lets the first waiter of
its lock go on. -/
theorem Exclusive.exists_step (h : s.Exclusive) (hp : s.Unfinished p)
    (hfree : ∀ r, ¬ s.Blocked maxSize p r) :
    ∃ q action, s.Unfinished q ∧ (action ≠ .failed ∧ action ≠ .refused) ∧
      (step redis maxSize s (.task q action)).isSome := by
  have hconnection : s.AwaitsConnection p → s.connections.card < maxSize := by
    intro hawaits
    by_contra hfull
    exact hfree .connection ⟨hawaits, Nat.le_of_not_lt hfull⟩
  obtain ⟨t, ht, hunfinished⟩ := hp
  have hstep : ∀ action, (action ≠ Action.failed ∧ action ≠ Action.refused) →
      (step redis maxSize s (.task p action)).isSome →
      ∃ q action, s.Unfinished q ∧ (action ≠ .failed ∧ action ≠ .refused) ∧
        (step redis maxSize s (.task q action)).isSome :=
    fun action ha hsome => ⟨p, action, ⟨t, ht, hunfinished⟩, ha, hsome⟩
  cases t with
  | plain e pc =>
    cases pc with
    | connecting =>
      have hcard := hconnection (.inr (.inr ⟨e, ht⟩))
      exact hstep .acquired (by simp) (by simp [step, ht, actPlain, hcard])
    | running left => exact hstep (.answered .other) (by simp) (by simp [step, ht, actPlain])
    | closing => exact hstep .resumed (by simp) (by simp [step, ht, actPlain])
    | done => exact absurd trivial hunfinished
  | cached c pc =>
    cases pc with
    | connecting =>
      have hcard := hconnection (.inl ⟨c, ht⟩)
      exact hstep .acquired (by simp) (by simp [step, ht, actCached, hcard])
    | getting second => exact hstep .executed (by simp) (by simp [step, ht, actCached])
    | got second cached =>
      refine hstep .resumed (by simp) ?_
      cases second <;> cases cached <;> simp [step, ht, actCached]
    | awaitingLock =>
      -- the lock is free, so the first waiter gets it
      have hphase : s.phase c.lock p = .waiting := by
        rw [phase_of_task ht]
        exact c.placed_lock _
      have hholder : (s.locks c.lock).holder = none := by
        by_contra hheld
        exact hfree (.lock c.lock) ⟨hphase, hheld⟩
      have hmem := ((h.locks c.lock).mem_waiters_iff p).mpr hphase
      obtain ⟨q, hq⟩ : ∃ q, (s.locks c.lock).waiters.head? = some q := by
        cases hw : (s.locks c.lock).waiters with
        | nil => simp [hw] at hmem
        | cons q ws => exact ⟨q, rfl⟩
      have hqphase := ((h.locks c.lock).mem_waiters_iff q).mp (List.mem_of_mem_head? hq)
      obtain ⟨c', ht', hlock⟩ := task_of_waiting hqphase
      refine ⟨q, .granted, ⟨_, ht', id⟩, by simp, ?_⟩
      simp [step, ht', actCached, hlock, hholder, hq]
    | fetching fallback =>
      have hcard := hconnection (.inr (.inl ⟨c, fallback, ht⟩))
      exact hstep .acquired (by simp) (by simp [step, ht, actCached, hcard])
    | querying fallback =>
      refine hstep (.answered (sampleRows c)) (by simp) ?_
      cases c with
      | trending limit hours =>
        simp [step, ht, actCached, answer, sampleRows, trendingTokensResponse]
      | gasMetrics =>
        cases fallback <;> simp [step, ht, actCached, answer, sampleRows]
    | setting r => exact hstep .executed (by simp) (by simp [step, ht, actCached])
    | wasSet r => exact hstep .resumed (by simp) (by simp [step, ht, actCached])
    | closing outcome => exact hstep .resumed (by simp) (by simp [step, ht, actCached])
    | done outcome => exact absurd trivial hunfinished

/-- **No deadlock.**  In every state of the process with an unfinished request some
request can go on, without its query or its `acquire()` failing. -/
theorem no_deadlock (redis : Bool) (maxSize : ℕ) (hsize : 1 ≤ maxSize)
    (events : List ServerEvent) (hp : ∃ p, (run redis maxSize events).Unfinished p) :
    ∃ p action, (run redis maxSize events).Unfinished p ∧
      (action ≠ .failed ∧ action ≠ .refused) ∧
      (step redis maxSize (run redis maxSize events) (.task p action)).isSome := by
  have h := run_exclusive redis maxSize events
  obtain ⟨p, hp, hfree⟩ : ∃ p, (run redis maxSize events).Unfinished p ∧
      ∀ r, ¬ (run redis maxSize events).Blocked maxSize p r := by
    refine exists_unblocked Resource.rank 2 (fun r => ?_)
      (fun p r r' (hr : (run redis maxSize events).Has p r) => h.rank_lt hr)
      (fun p r hblocked => ?_) hp
    · cases r with
      | connection => decide
      | lock l => cases l <;> decide
    · cases r with
      | connection =>
        have hpos : 0 < (run redis maxSize events).connections.card :=
          Nat.lt_of_lt_of_le hsize hblocked.2
        obtain ⟨q, hq⟩ := Finset.card_pos.mp hpos
        exact ⟨q, h.unfinished_of_has (r := .connection) hq, hq⟩
      | lock l =>
        obtain ⟨q, hq⟩ := Option.ne_none_iff_exists'.mp hblocked.2
        exact ⟨q, h.unfinished_of_has (r := .lock l) hq, hq⟩
  exact h.exists_step hp hfree

/-- A trending request has the only connection, and a gas request has the gas lock and
waits for the connection. -/
def oneConnectionTaken : List ServerEvent :=
  [.arrived 0 (.cached (.trending 10 24)), .task 0 .acquired, .arrived 1 (.cached .gasMetrics),
    .task 1 .executed, .task 1 .resumed, .task 1 .executed, .task 1 .resumed]

theorem no_deadlock_of_oneConnectionTaken :
    ∃ p action, (run true 1 oneConnectionTaken).Unfinished p ∧
      (action ≠ .failed ∧ action ≠ .refused) ∧
      (step true 1 (run true 1 oneConnectionTaken) (.task p action)).isSome :=
  no_deadlock true 1 (by decide) _ ⟨1, .cached .gasMetrics (.fetching false), rfl, id⟩

end Server

end Backend

import EthPipeline.Backend.Exclusion

/-!
# The cache and the queries behind it

The two cached endpoints of one backend process, in every run: requests in any
number and order, keys that expire at any time, queries that fail.

* `run_coherent`: what the cache and the requests know of it.
* `cache_coherent`: a query runs alone and without an entry in the cache, what is
  served from the cache was built by a query for the same request, and a failed
  query leaves nothing behind.
-/

namespace Backend

open Run

abbrev History := List (CachedRequest × Response)

/-- What a request relies on, where it is. -/
def CachedPc.Sound (redis : Bool) (cache : String → Option Cached) (built : History)
    (c : CachedRequest) : CachedPc → Prop
  | .got _ (some v) => ∃ r, (c, r) ∈ built ∧ v = r.dump
  | .got true none => cache c.key = none
  | .fetching _ => cache c.key = none
  | .querying _ => cache c.key = none
  | .setting r => redis = true ∧ cache c.key = none ∧ (c, r) ∈ built
  | .wasSet r => (c, r) ∈ built
  | .closing (.fromCache r) => (c, r) ∈ built
  | .done (.fromCache r) => (c, r) ∈ built
  | _ => True

def Task.Sound (redis : Bool) (cache : String → Option Cached) (built : History) :
    Task → Prop
  | .cached c pc => pc.Sound redis cache built c
  | .plain _ _ => True

/-- While nothing is stored under a key that was empty, a request keeps what it
relies on. -/
theorem CachedPc.Sound.mono {redis : Bool} {cache cache' : String → Option Cached}
    {built built' : History} {c : CachedRequest} {pc : CachedPc} (h : pc.Sound redis cache built c)
    (hcache : pc.lockPhase = .inside → cache c.key = none → cache' c.key = none)
    (hbuilt : built ⊆ built') : pc.Sound redis cache' built' c := by
  unfold CachedPc.Sound at h
  split at h
  · obtain ⟨r, hr, hv⟩ := h
    exact ⟨r, hbuilt hr, hv⟩
  · exact hcache rfl h
  · exact hcache rfl h
  · exact hcache rfl h
  · exact ⟨h.1, hcache rfl h.2.1, hbuilt h.2.2⟩
  · exact hbuilt h
  · exact hbuilt h
  · exact hbuilt h
  · unfold CachedPc.Sound
    split <;> simp_all

namespace Server

/-- The requests, the cache and the history fit together. -/
structure Coherent (redis : Bool) (s : Server) : Prop where
  tasks : ∀ p t, s.tasks p = some t → t.Sound redis s.cache s.built
  stored : ∀ key v, s.cache key = some v → ∃ c r, (c, r) ∈ s.built ∧ key = c.key ∧ v = r.dump
  builds : ∀ c r, (c, r) ∈ s.built → c.Builds r
  unused : redis = false → ∀ key, s.cache key = none

variable {s s' : Server} {p : ℕ} {c : CachedRequest} {t : Task} {redis : Bool} {maxSize : ℕ}

namespace Coherent

theorem goto (h : s.Coherent redis) (ht : t.Sound redis s.cache s.built) :
    (s.goto p t).Coherent redis where
  tasks q t' ht' := by
    by_cases hq : q = p
    · subst hq
      rw [show (s.goto q t).tasks q = some t from Function.update_self ..] at ht'
      exact Option.some.inj ht' ▸ ht
    · rw [show (s.goto p t).tasks q = s.tasks q from Function.update_of_ne hq ..] at ht'
      exact h.tasks q t' ht'
  stored := h.stored
  builds := h.builds
  unused := h.unused

theorem setLock (h : s.Coherent redis) (l : LockName) (lock : FifoLock ℕ) :
    (s.setLock l lock).Coherent redis := ⟨h.tasks, h.stored, h.builds, h.unused⟩

theorem connect (h : s.Coherent redis) : (s.connect p).Coherent redis :=
  ⟨h.tasks, h.stored, h.builds, h.unused⟩

theorem disconnect (h : s.Coherent redis) : (s.disconnect p).Coherent redis :=
  ⟨h.tasks, h.stored, h.builds, h.unused⟩

/-- A response is built. -/
theorem build (h : s.Coherent redis) {r : Response} (hr : c.Builds r) :
    ({ s with built := s.built ++ [(c, r)] } : Server).Coherent redis where
  tasks q t ht := by
    have hsound := h.tasks q t ht
    cases t with
    | cached c' pc =>
      exact CachedPc.Sound.mono hsound (fun _ hnone => hnone) (List.subset_append_left ..)
    | plain e pc => trivial
  stored key v hv := by
    obtain ⟨c', r', hmem, hkey, hdump⟩ := h.stored key v hv
    exact ⟨c', r', List.mem_append_left _ hmem, hkey, hdump⟩
  builds c' r' hmem := by
    rcases List.mem_append.mp hmem with hmem | hmem
    · exact h.builds c' r' hmem
    · cases List.mem_singleton.mp hmem
      exact hr
  unused := h.unused

theorem update_none {cache : String → Option Cached} {key key' : String}
    (h : key' ≠ key → cache key' = none) : Function.update cache key none key' = none := by
  by_cases hkey : key' = key
  · subst hkey
    exact Function.update_self ..
  · rw [Function.update_of_ne hkey]
    exact h hkey

/-- A key expires. -/
theorem expire (h : s.Coherent redis) (key : String) :
    ({ s with cache := Function.update s.cache key none } : Server).Coherent redis where
  tasks q t ht := by
    have hsound := h.tasks q t ht
    cases t with
    | cached c' pc =>
      exact CachedPc.Sound.mono hsound (fun _ hnone => update_none fun _ => hnone)
        (List.Subset.refl _)
    | plain e pc => trivial
  stored key' v hv := by
    by_cases hkey : key' = key
    · subst hkey
      simp at hv
    · dsimp only at hv
      rw [Function.update_of_ne hkey] at hv
      exact h.stored key' v hv
  builds := h.builds
  unused hredis key' := update_none fun _ => h.unused hredis key'

/-! ### The coroutines keep it -/

theorem query (h : s.Coherent redis) (hnone : s.cache c.key = none) :
    (s.query p c).Coherent redis := by
  cases c with
  | trending limit hours => exact h.goto hnone
  | gasMetrics => exact h.goto hnone

theorem lookAgain (h : s.Coherent redis) : (lookAgain redis s p c).Coherent redis := by
  unfold Server.lookAgain
  split
  · exact h.goto trivial
  · next hredis => exact h.query (h.unused (Bool.eq_false_iff.mpr hredis) _)

theorem enter (h : s.Coherent redis) : (enter redis s p c).Coherent redis := by
  unfold Server.enter
  dsimp only
  split
  · exact (h.setLock _ _).lookAgain
  · exact (h.setLock _ _).goto trivial

theorem look (h : s.Coherent redis) : (look redis s p c).Coherent redis := by
  unfold Server.look
  split
  · exact h.goto trivial
  · exact h.enter

theorem leave {outcome : Outcome} (h : s.Coherent redis)
    (ho : (CachedPc.closing outcome).Sound redis s.cache s.built c) :
    (s.leave p c outcome).Coherent redis := (h.setLock _ _).goto ho

theorem store {r : Response} (h : s.Coherent redis) (hnone : s.cache c.key = none)
    (hr : c.Builds r) : (store redis s p c r).Coherent redis := by
  unfold Server.store
  dsimp only
  split
  · next hredis =>
    exact (h.build hr).goto
      ⟨hredis, hnone, List.mem_append_right _ (List.mem_singleton_self _)⟩
  · exact (h.build hr).leave trivial

theorem answer {fallback : Bool} {rows : Rows} (h : s.Coherent redis)
    (hnone : s.cache c.key = none) (hs' : answer redis s p c fallback rows = some s') :
    s'.Coherent redis := by
  unfold Server.answer at hs'
  cases rows with
  | trending rows =>
    cases c with
    | gasMetrics => cases hs'
    | trending limit hours =>
      dsimp only at hs'
      split at hs'
      · cases hs'
        exact h.store hnone trivial
      · cases hs'
        exact h.leave trivial
  | average avg =>
    cases c with
    | trending limit hours => cases hs'
    | gasMetrics =>
      dsimp only at hs'
      split at hs'
      · cases hs'
        exact h.disconnect.goto hnone
      · cases hs'
        exact h.disconnect.store hnone trivial
  | other => cases hs'

theorem fail (h : s.Coherent redis) : (s.fail p c).Coherent redis := by
  cases c with
  | trending limit hours => exact h.leave trivial
  | gasMetrics => exact h.disconnect.leave trivial

/-- What is served from a cached text is the response it was made of. -/
theorem served {v : Cached} (h : s.Coherent redis) (hv : ∃ r, (c, r) ∈ s.built ∧ v = r.dump) :
    (CachedPc.closing (served c v)).Sound redis s.cache s.built c := by
  obtain ⟨r, hr, rfl⟩ := hv
  unfold Server.served
  rw [CachedRequest.load_dump (h.builds c r hr)]
  exact hr

/-- The response of `p` is stored: no other request has seen its key empty. -/
theorem set {r : Response} (h : s.Coherent redis) (hexclusive : s.Exclusive)
    (ht : s.tasks p = some (.cached c (.setting r))) :
    ({ s with cache := Function.update s.cache c.key (some r.dump) }.goto p
      (.cached c (.wasSet r))).Coherent redis := by
  obtain ⟨hredis, -, hbuilt⟩ := h.tasks p _ ht
  refine ⟨fun q t ht' => ?_, fun key v hv => ?_, h.builds, fun hoff => ?_⟩
  · by_cases hq : q = p
    · subst hq
      cases ht'.symm.trans (Function.update_self ..)
      exact hbuilt
    · have ht' : s.tasks q = some t := ht'.symm.trans (Function.update_of_ne hq ..) |>.symm
      have hsound := h.tasks q t ht'
      cases t with
      | plain e pc => trivial
      | cached c' pc =>
        refine CachedPc.Sound.mono hsound (fun hinside hnone => ?_) (List.Subset.refl _)
        have hkey : c'.key ≠ c.key := by
          intro hkey
          cases CachedRequest.key_injective hkey
          have hp : s.phase c.lock p = .inside := by
            rw [phase_of_task ht]
            exact c.placed_lock _
          have hq' : s.phase c.lock q = .inside := by
            rw [phase_of_task ht']
            exact (c.placed_lock _).trans hinside
          exact hq ((hexclusive.locks c.lock).unique hq' hp)
        exact (Function.update_of_ne hkey ..).trans hnone
  · by_cases hkey : key = c.key
    · subst hkey
      cases hv.symm.trans (Function.update_self ..)
      exact ⟨c, r, hbuilt, rfl, rfl⟩
    · exact h.stored key v (hv.symm.trans (Function.update_of_ne hkey ..)).symm
  · rw [hredis] at hoff
    cases hoff

end Coherent

theorem actCached_coherent {pc : CachedPc} {action : Action} (h : s.Coherent redis)
    (hexclusive : s.Exclusive) (ht : s.tasks p = some (.cached c pc))
    (hs' : actCached redis maxSize s p c pc action = some s') : s'.Coherent redis := by
  have hsound : pc.Sound redis s.cache s.built c := h.tasks p _ ht
  unfold actCached at hs'
  split at hs'
  · split at hs' <;> cases hs'
    exact h.connect.look
  · split at hs' <;> cases hs'
    exact h.goto trivial
  · next second =>
    cases hs'
    refine h.goto ?_
    change (CachedPc.got second (s.cache c.key)).Sound redis s.cache s.built c
    cases hcache : s.cache c.key with
    | some v =>
      obtain ⟨c', r, hr, hkey, hv⟩ := h.stored _ _ hcache
      cases CachedRequest.key_injective hkey
      cases second <;> exact ⟨r, hr, hv⟩
    | none =>
      cases second with
      | true => exact hcache
      | false => trivial
  · cases hs'
    exact h.goto (h.served hsound)
  · cases hs'
    exact h.leave (h.served hsound)
  · cases hs'
    exact h.enter
  · cases hs'
    exact h.query hsound
  · dsimp only at hs'
    split at hs' <;> cases hs'
    exact (h.setLock _ _).lookAgain
  · split at hs' <;> cases hs'
    exact h.connect.goto hsound
  · exact h.answer hsound hs'
  · split at hs' <;> cases hs'
    exact h.fail
  · cases hs'
    exact h.fail
  · cases hs'
    exact h.set hexclusive ht
  · cases hs'
    exact h.leave trivial
  · next outcome =>
    cases hs'
    refine h.disconnect.goto ?_
    cases outcome <;> exact hsound
  · cases hs'

theorem actPlain_coherent {e : Endpoint} {pc : PlainPc} {action : Action} (h : s.Coherent redis)
    (hs' : actPlain maxSize s p e pc action = some s') : s'.Coherent redis := by
  unfold actPlain at hs'
  split at hs'
  · split at hs' <;> cases hs'
    exact h.connect.goto trivial
  · split at hs' <;> cases hs'
    exact h.goto trivial
  · cases hs'
    exact h.goto trivial
  · cases hs'
    exact h.goto trivial
  · cases hs'
    exact h.disconnect.goto trivial
  · cases hs'

/-- **What every step keeps.** -/
theorem step_coherent {e : ServerEvent} (h : s.Coherent redis) (hexclusive : s.Exclusive)
    (hs' : step redis maxSize s e = some s') : s'.Coherent redis := by
  cases e with
  | arrived p request =>
    cases ht : s.tasks p with
    | some t => simp [step, ht] at hs'
    | none =>
      simp only [step, ht] at hs'
      cases hs'
      cases request with
      | plain e => exact h.goto trivial
      | cached c =>
        cases c with
        | trending limit hours => exact h.goto trivial
        | gasMetrics => exact h.look
  | expired key =>
    cases hs'
    exact h.expire key
  | task p action =>
    cases ht : s.tasks p with
    | none => simp [step, ht] at hs'
    | some t =>
      simp only [step, ht] at hs'
      cases t with
      | cached c pc => exact actCached_coherent h hexclusive ht hs'
      | plain e pc => exact actPlain_coherent h hs'

theorem initial_coherent : initial.Coherent redis where
  tasks _ _ ht := by cases ht
  stored _ _ hv := by cases hv
  builds _ _ hmem := by cases hmem
  unused _ _ := rfl

/-- **What holds in every run.** -/
theorem run_coherent (redis : Bool) (maxSize : ℕ) (events : List ServerEvent) :
    (run redis maxSize events).Coherent redis :=
  (runs_invariant (P := fun s => s.Exclusive ∧ s.Coherent redis)
    (fun _ _ _ hstep h => ⟨step_exclusive h.1 hstep, step_coherent h.2 h.1 hstep⟩) events
    ⟨initial_exclusive, initial_coherent⟩).2

/-! ### The guarantees -/

/-- A query of the request runs. -/
def Querying (s : Server) (p : ℕ) (c : CachedRequest) : Prop :=
  ∃ fallback, s.tasks p = some (.cached c (.querying fallback))

/-- The request's response comes from the cache. -/
def ServedFromCache (s : Server) (p : ℕ) (c : CachedRequest) (r : Response) : Prop :=
  s.tasks p = some (.cached c (.closing (.fromCache r))) ∨
    s.tasks p = some (.cached c (.done (.fromCache r)))

theorem phase_of_querying (h : s.Querying p c) : s.phase c.lock p = .inside := by
  obtain ⟨fallback, ht⟩ := h
  rw [phase_of_task ht]
  exact c.placed_lock _

/-- A failed query ends the request, and changes neither the cache nor the history. -/
theorem failed_step {pc : CachedPc} (hs' : actCached redis maxSize s p c pc .failed = some s') :
    s'.cache = s.cache ∧ s'.built = s.built ∧ (s'.locks c.lock).holder = none ∧
      s'.tasks p = some (.cached c (.closing queryFailed)) := by
  have hfail : s' = s.fail p c := by
    cases pc with
    | fetching fallback =>
      unfold actCached at hs'
      dsimp only at hs'
      split at hs' <;> cases hs'
      rfl
    | querying fallback =>
      cases hs'
      rfl
    | got second cached => cases second <;> cases cached <;> cases hs'
    | _ => cases hs'
  subst hfail
  cases c <;> simp [fail, leave, setLock, goto, disconnect]

/-- **The cached endpoints in every run.**  While a query runs its key is not in the
cache, and no other query of its kind runs; a response from the cache was built by a
query for the same request; and a failed query stores nothing and leaves its lock
free. -/
theorem cache_coherent (redis : Bool) (maxSize : ℕ) (events : List ServerEvent) :
    let s := run redis maxSize events
    (∀ p c, s.Querying p c → s.cache c.key = none ∧
      ∀ q c', c'.lock = c.lock → s.Querying q c' → q = p) ∧
    (∀ p c r, s.ServedFromCache p c r → (c, r) ∈ s.built) ∧
    ∀ p c pc s', s.tasks p = some (.cached c pc) →
      step redis maxSize s (.task p .failed) = some s' →
      s'.cache = s.cache ∧ s'.built = s.built ∧ (s'.locks c.lock).holder = none ∧
        s'.tasks p = some (.cached c (.closing queryFailed)) := by
  intro s
  have hexclusive : s.Exclusive := run_exclusive redis maxSize events
  have hcoherent : s.Coherent redis := run_coherent redis maxSize events
  refine ⟨fun p c hp => ⟨?_, fun q c' hlock hq => ?_⟩, fun p c r hr => ?_,
    fun p c pc s' ht hs' => ?_⟩
  · obtain ⟨fallback, ht⟩ := hp
    exact hcoherent.tasks p _ ht
  · have hinside := phase_of_querying hq
    rw [hlock] at hinside
    exact (hexclusive.locks c.lock).unique hinside (phase_of_querying hp)
  · rcases hr with ht | ht
    · exact hcoherent.tasks p _ ht
    · exact hcoherent.tasks p _ ht
  · simp only [step, ht] at hs'
    exact failed_step hs'

/-- One request queries and stores, and the next is served from the cache. -/
def twoRequests : List ServerEvent :=
  [.arrived 0 (.cached (.trending 10 24)), .task 0 .acquired, .task 0 .executed,
    .task 0 .resumed, .task 0 .executed, .task 0 .resumed, .task 0 (.answered (.trending [])),
    .task 0 .executed, .arrived 1 (.cached (.trending 10 24)), .task 1 .acquired,
    .task 1 .executed, .task 1 .resumed]

example : (run true 2 twoRequests).ServedFromCache 1 (.trending 10 24) (.trending ⟨[]⟩) :=
  .inl rfl

end Server

end Backend

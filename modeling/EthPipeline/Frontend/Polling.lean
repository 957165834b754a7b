import EthPipeline.Base.Run

/-!
# The cards that poll

`TrendingTokens.tsx` and `GasTracker.tsx` of `src/frontend/src/components`.  An effect asks
at once and then at every interval, and several of its requests may be in flight.  Its
cleanup clears the interval and lowers a flag that only this run of the effect reads.

* `poller_current`: what a card shows answers a request for the period that is chosen, at
  most one interval is set, and after the card is gone nothing changes.
-/

namespace Frontend

open Run

namespace Poller

/-- A run of the effect: the key its requests ask for, and `active`. -/
structure EffectRun (κ : Type) where
  key : κ
  active : Bool
  deriving DecidableEq, Repr

structure State (κ α : Type) where
  key : κ
  data : Option α
  loading : Bool
  error : Option String
  mounted : Bool
  /-- The runs of the effect so far. -/
  effects : List (EffectRun κ)
  /-- The runs whose interval is set. -/
  intervals : List ℕ
  /-- The runs of the requests in flight. -/
  requests : List ℕ
  /-- The key that the data answers, and the one that the error is of. -/
  dataOf : Option κ
  errorOf : Option κ
  deriving DecidableEq, Repr

/-- `rerun` is the second run of an effect in `StrictMode`. -/
inductive Event (κ α : Type) where
  | choose (key : κ)
  | rerun
  | tick (i : ℕ)
  | answered (i : ℕ) (data : α)
  | failed (i : ℕ) (message : String)
  | unmount
  deriving DecidableEq, Repr

variable {κ α : Type}

/-- The effect, which in one of the cards calls `setLoading(true)`. -/
def runEffect (showsLoading : Bool) (s : State κ α) : State κ α :=
  { s with
    loading := s.loading || showsLoading
    effects := s.effects ++ [⟨s.key, true⟩]
    intervals := s.intervals ++ [s.effects.length]
    requests := s.requests ++ [s.effects.length] }

/-- Its cleanup. -/
def cleanup (s : State κ α) : State κ α :=
  { s with
    effects := s.effects.modify (s.effects.length - 1) fun r => { r with active := false }
    intervals := s.intervals.erase (s.effects.length - 1) }

def mount (showsLoading : Bool) (key : κ) : State κ α :=
  runEffect showsLoading
    { key, data := none, loading := true, error := none, mounted := true, effects := [],
      intervals := [], requests := [], dataOf := none, errorOf := none }

/-- `if (active)`. -/
def whenActive (s : State κ α) (n : ℕ) (set : κ → State κ α → State κ α) : State κ α :=
  match s.effects[n]? with
  | some r => if r.active then set r.key s else s
  | none => s

/-- One event; `none` when there is no such interval or request, or the card is gone. -/
def step [DecidableEq κ] (showsLoading : Bool) (s : State κ α) : Event κ α → Option (State κ α)
  | .choose key =>
    if s.mounted then
      some (if key = s.key then s else runEffect showsLoading { cleanup s with key })
    else none
  | .rerun => if s.mounted then some (runEffect showsLoading (cleanup s)) else none
  | .tick i => s.intervals[i]?.map fun n => { s with requests := s.requests ++ [n] }
  | .answered i data => s.requests[i]?.map fun n =>
    whenActive { s with requests := s.requests.eraseIdx i } n fun key s =>
      { s with data := some data, error := none, loading := false, dataOf := some key }
  | .failed i message => s.requests[i]?.map fun n =>
    whenActive { s with requests := s.requests.eraseIdx i } n fun key s =>
      { s with error := some message, loading := false, errorOf := some key }
  | .unmount => if s.mounted then some { cleanup s with mounted := false } else none

/-! ### What the flags keep apart -/

/-- What a card shows. -/
def view (s : State κ α) : Bool × Option String × Option α := (s.loading, s.error, s.data)

/-- What is shown is of the key that is chosen. -/
structure Current (s : State κ α) : Prop where
  data : s.loading = false → s.error = none → s.data.isSome ∧ s.dataOf = some s.key
  error : s.loading = false → s.error.isSome → s.errorOf = some s.key

/-- Only the last run of the effect is active, and only while the card is there. -/
structure Polls (s : State κ α) : Prop where
  live : s.mounted = true → s.effects[s.effects.length - 1]? = some ⟨s.key, true⟩
  last : ∀ n r, s.effects[n]? = some r → r.active = true →
    s.mounted = true ∧ n = s.effects.length - 1
  intervals : s.intervals = if s.mounted then [s.effects.length - 1] else []

variable {s s' : State κ α} {showsLoading : Bool}

/-- A request whose answer is taken is for the key. -/
theorem whenActive_eq (h : Polls s) {t : State κ α} (ht : t.effects = s.effects) (n : ℕ)
    (set : κ → State κ α → State κ α) :
    whenActive t n set = t ∨ s.mounted = true ∧ whenActive t n set = set s.key t := by
  unfold whenActive
  rw [ht]
  cases hr : s.effects[n]? with
  | none => exact .inl rfl
  | some r =>
    by_cases hactive : r.active = true
    · obtain ⟨hmounted, rfl⟩ := h.last n r hr hactive
      obtain rfl := Option.some.inj (hr.symm.trans (h.live hmounted))
      exact .inr ⟨hmounted, if_pos rfl⟩
    · exact .inl (if_neg hactive)

theorem getElem?_cleanup (n : ℕ) : (cleanup s).effects[n]? =
    (s.effects[n]?).map fun r =>
      if s.effects.length - 1 = n then { r with active := false } else r := by
  rw [cleanup, List.getElem?_modify]
  cases s.effects[n]? <;> rfl

/-- After the cleanup no run is active. -/
theorem cleanup_inactive (h : Polls s) {n : ℕ} {r : EffectRun κ}
    (hr : (cleanup s).effects[n]? = some r) : r.active = false := by
  rw [getElem?_cleanup, Option.map_eq_some_iff] at hr
  obtain ⟨q, hq, rfl⟩ := hr
  split
  · rfl
  · next hne =>
    by_contra hactive
    exact hne (h.last n q hq (Bool.not_eq_false _ ▸ hactive)).2.symm

theorem cleanup_intervals (h : Polls s) : (cleanup s).intervals = [] := by
  rw [cleanup, h.intervals]
  cases s.mounted with
  | true => simp
  | false => rfl

/-- A run of the effect after a cleanup. -/
theorem polls_runEffect {t : State κ α} (hmounted : t.mounted = true)
    (hinactive : ∀ (n : ℕ) (r : EffectRun κ), t.effects[n]? = some r → r.active = false)
    (hintervals : t.intervals = []) : Polls (runEffect showsLoading t) where
  live _ := by
    show (t.effects ++ [EffectRun.mk t.key true])[(t.effects ++ [_]).length - 1]? = _
    rw [List.length_append, List.length_singleton, Nat.add_sub_cancel, List.getElem?_concat_length]
    rfl
  last n r hr hactive := by
    refine ⟨hmounted, ?_⟩
    have hr : (t.effects ++ [⟨t.key, true⟩])[n]? = some r := hr
    show n = (t.effects ++ [_]).length - 1
    rw [List.length_append, List.length_singleton, Nat.add_sub_cancel]
    rw [List.getElem?_append] at hr
    split at hr
    · exact absurd hactive (by rw [hinactive n r hr]; decide)
    · have hlt := (List.getElem?_eq_some_iff.mp hr).1
      rw [List.length_singleton] at hlt
      omega
  intervals := by
    show t.intervals ++ [t.effects.length] = if t.mounted then [(t.effects ++ [_]).length - 1] else []
    rw [hintervals, if_pos hmounted, List.length_append, List.length_singleton, Nat.add_sub_cancel]
    rfl

theorem polls_mount (key : κ) : Polls (mount showsLoading key : State κ α) :=
  polls_runEffect rfl (fun _ _ hr => by cases hr) rfl

/-- The state of a card after some events, and what its cards have in common. -/
structure Sound (s : State κ α) : Prop where
  polls : Polls s
  current : Current s

theorem current_mount (key : κ) : Current (mount showsLoading key : State κ α) where
  data hloading := by cases hloading
  error hloading := by cases hloading

/-- Choosing a key hides what is shown, or there is only one key. -/
theorem current_runEffect {t : State κ α} (hkey : showsLoading = true ∨ ∀ k k' : κ, k = k')
    (hdata : t.data = s.data ∧ t.dataOf = s.dataOf) (herror : t.error = s.error ∧ t.errorOf = s.errorOf)
    (hloading : t.loading = s.loading) (h : Current s) : Current (runEffect showsLoading t) := by
  rcases hkey with rfl | hone
  · have hshown : (runEffect true t).loading = true := Bool.or_true _
    exact ⟨fun hfalse => absurd (hshown.symm.trans hfalse) (by decide),
      fun hfalse => absurd (hshown.symm.trans hfalse) (by decide)⟩
  · have hbefore : (runEffect showsLoading t).loading = false → s.loading = false := by
      intro hfalse
      rw [← hloading]
      exact (Bool.or_eq_false_iff.mp hfalse).1
    refine ⟨fun hfalse hnone => ?_, fun hfalse hsome => ?_⟩
    · obtain ⟨hsome, hof⟩ := h.data (hbefore hfalse) (herror.1.symm.trans hnone)
      show t.data.isSome ∧ t.dataOf = some t.key
      rw [hdata.1, hdata.2, hof]
      exact ⟨hsome, congrArg some (hone _ _)⟩
    · have hsome : s.error.isSome := herror.1 ▸ hsome
      show t.errorOf = some t.key
      rw [herror.2, h.error (hbefore hfalse) hsome]
      exact congrArg some (hone _ _)

theorem polls_cleanup (h : Polls s) : Polls { cleanup s with mounted := false } where
  live hmounted := by cases hmounted
  last n r hr hactive := by
    rw [cleanup_inactive h hr] at hactive
    cases hactive
  intervals := cleanup_intervals h

variable [DecidableEq κ]

theorem sound_step (hkey : showsLoading = true ∨ ∀ k k' : κ, k = k') {e : Event κ α}
    (hs : step showsLoading s e = some s') (h : Sound s) : Sound s' := by
  cases e with
  | choose key =>
    simp only [step] at hs
    split at hs
    · next hmounted =>
      obtain rfl := Option.some.inj hs
      split
      · exact h
      · exact ⟨polls_runEffect hmounted (fun _ _ => cleanup_inactive h.polls)
          (cleanup_intervals h.polls),
          current_runEffect (s := s) hkey ⟨rfl, rfl⟩ ⟨rfl, rfl⟩ rfl h.current⟩
    · cases hs
  | rerun =>
    simp only [step] at hs
    split at hs
    · next hmounted =>
      obtain rfl := Option.some.inj hs
      exact ⟨polls_runEffect hmounted (fun _ _ => cleanup_inactive h.polls)
        (cleanup_intervals h.polls),
        current_runEffect (s := s) hkey ⟨rfl, rfl⟩ ⟨rfl, rfl⟩ rfl h.current⟩
    · cases hs
  | tick i =>
    obtain ⟨n, -, rfl⟩ := Option.map_eq_some_iff.mp hs
    exact ⟨⟨h.polls.live, h.polls.last, h.polls.intervals⟩, ⟨h.current.data, h.current.error⟩⟩
  | answered i data =>
    obtain ⟨n, -, rfl⟩ := Option.map_eq_some_iff.mp hs
    rcases whenActive_eq h.polls (t := { s with requests := s.requests.eraseIdx i }) rfl n
      (fun key s => { s with data := some data, error := none, loading := false, dataOf := some key })
      with heq | ⟨hmounted, heq⟩
    · rw [heq]
      exact ⟨⟨h.polls.live, h.polls.last, h.polls.intervals⟩, ⟨h.current.data, h.current.error⟩⟩
    · rw [heq]
      exact ⟨⟨h.polls.live, h.polls.last, h.polls.intervals⟩,
        ⟨fun _ _ => ⟨rfl, rfl⟩, fun _ hsome => (by cases hsome)⟩⟩
  | failed i message =>
    obtain ⟨n, -, rfl⟩ := Option.map_eq_some_iff.mp hs
    rcases whenActive_eq h.polls (t := { s with requests := s.requests.eraseIdx i }) rfl n
      (fun key s => { s with error := some message, loading := false, errorOf := some key })
      with heq | ⟨hmounted, heq⟩
    · rw [heq]
      exact ⟨⟨h.polls.live, h.polls.last, h.polls.intervals⟩, ⟨h.current.data, h.current.error⟩⟩
    · rw [heq]
      exact ⟨⟨h.polls.live, h.polls.last, h.polls.intervals⟩,
        ⟨fun _ hnone => (by cases hnone), fun _ _ => rfl⟩⟩
  | unmount =>
    simp only [step] at hs
    split at hs
    · obtain rfl := Option.some.inj hs
      exact ⟨polls_cleanup h.polls, ⟨h.current.data, h.current.error⟩⟩
    · cases hs

/-- A card that is gone stays so, and shows what it showed. -/
theorem gone_step {e : Event κ α} (hs : step showsLoading s e = some s') (h : Polls s)
    (hgone : s.mounted = false) : s'.mounted = false ∧ view s' = view s := by
  cases e with
  | tick i =>
    obtain ⟨n, hn, rfl⟩ := Option.map_eq_some_iff.mp hs
    rw [h.intervals, if_neg (by rw [hgone]; decide)] at hn
    cases hn
  | answered i data =>
    obtain ⟨n, -, rfl⟩ := Option.map_eq_some_iff.mp hs
    rcases whenActive_eq h (t := { s with requests := s.requests.eraseIdx i }) rfl n
      (fun key s => { s with data := some data, error := none, loading := false, dataOf := some key })
      with heq | ⟨hmounted, -⟩
    · rw [heq]
      exact ⟨hgone, rfl⟩
    · exact absurd (hgone.symm.trans hmounted) (by decide)
  | failed i message =>
    obtain ⟨n, -, rfl⟩ := Option.map_eq_some_iff.mp hs
    rcases whenActive_eq h (t := { s with requests := s.requests.eraseIdx i }) rfl n
      (fun key s => { s with error := some message, loading := false, errorOf := some key })
      with heq | ⟨hmounted, -⟩
    · rw [heq]
      exact ⟨hgone, rfl⟩
    · exact absurd (hgone.symm.trans hmounted) (by decide)
  | _ =>
    simp only [step, hgone, Bool.false_eq_true, if_false] at hs
    cases hs

/-- What is asked of a run: in its last state, and of what it shows from an earlier state on. -/
def Well (card : State κ α → Event κ α → Option (State κ α)) (initial : State κ α)
    (events : List (Event κ α)) : Prop :=
  let after n := runs card initial (events.take n)
  ∀ n, Current (after n) ∧ (after n).intervals.length ≤ 1 ∧
    (∀ i ∈ (after n).intervals, (after n).effects[i]? = some ⟨(after n).key, true⟩) ∧
      ∀ m, n ≤ m → (after n).mounted = false → view (after m) = view (after n)

theorem well_mount (hkey : showsLoading = true ∨ ∀ k k' : κ, k = k') (key : κ)
    (events : List (Event κ α)) : Well (step showsLoading) (mount showsLoading key) events := by
  have hsound : ∀ n, Sound (runs (step showsLoading) (mount showsLoading key) (events.take n)) :=
    fun n => runs_invariant (fun s e s' hs h => sound_step hkey hs h) _
      ⟨polls_mount key, current_mount key⟩
  intro n
  have hn := hsound n
  refine ⟨hn.current, ?_, fun i hi => ?_, fun m hnm hgone => ?_⟩
  · rw [hn.polls.intervals]
    split
    · exact Nat.le_refl 1
    · exact Nat.zero_le 1
  · rw [hn.polls.intervals] at hi
    split at hi
    · next hmounted =>
      obtain rfl := List.mem_singleton.mp hi
      exact hn.polls.live hmounted
    · cases hi
  · set shown := view (runs (step showsLoading) (mount showsLoading key) (events.take n)) with hshown
    have hstep : ∀ (s : State κ α) (e : Event κ α) (s' : State κ α),
        step showsLoading s e = some s' → Sound s ∧ s.mounted = false ∧ view s = shown →
          Sound s' ∧ s'.mounted = false ∧ view s' = shown := by
      rintro s e s' hs ⟨hsound, hgone, hview⟩
      obtain ⟨hgone', hview'⟩ := gone_step hs hsound.polls hgone
      exact ⟨sound_step hkey hs hsound, hgone', hview'.trans hview⟩
    exact (runs_take_of_le hstep hnm ⟨hn, hgone, hshown.symm⟩).2.2

end Poller

/-! ### The two cards -/

structure TokenData where
  rank : ℕ
  symbol : String
  name : String
  address : String
  transferCount : ℕ
  deriving DecidableEq, Repr

structure TrendingResponse where
  trendingTokens : List TokenData
  periodHours : Option ℕ
  deriving DecidableEq, Repr

/-- `averageGasPriceGwei` is the number as it is written. -/
structure GasData where
  averageGasPriceGwei : String
  blockNumber : Option ℕ
  measuredAt : Option String
  deriving DecidableEq, Repr

namespace TrendingTokens

/-- `useState(1)`. -/
def initial : Poller.State ℕ TrendingResponse := Poller.mount true 1

def step : Poller.State ℕ TrendingResponse → Poller.Event ℕ TrendingResponse →
    Option (Poller.State ℕ TrendingResponse) :=
  Poller.step true

end TrendingTokens

namespace GasTracker

/-- There is nothing to choose. -/
def initial : Poller.State Unit GasData := Poller.mount false ()

def step : Poller.State Unit GasData → Poller.Event Unit GasData →
    Option (Poller.State Unit GasData) :=
  Poller.step false

end GasTracker

/-- **The cards that poll**: in every state, what is shown without an error answers a request
for the period that is chosen, and so does an error; at most one interval is set, for that
period; and once a card is gone, what it holds never changes. -/
theorem poller_current (trending : List (Poller.Event ℕ TrendingResponse))
    (gas : List (Poller.Event Unit GasData)) :
    Poller.Well TrendingTokens.step TrendingTokens.initial trending ∧
      Poller.Well GasTracker.step GasTracker.initial gas :=
  ⟨Poller.well_mount (.inl rfl) 1 trending, Poller.well_mount (.inr fun _ _ => rfl) () gas⟩

end Frontend

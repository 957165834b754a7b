import Mathlib.Tactic.Common

/-!
# Reading through a cache that may fail

Double-checked reading: look into the cache, look again under a lock, ask the
source, put its answer into the cache.  A cache may be absent, and each of its calls
may raise.  An exception is `none`.

* `fetch_absent`: without a cache the answer is the one of the source.
* `fetch_eq_some_iff`: when a cache that is there makes no difference.
-/

namespace ReadThrough

/-- The two looks into the cache. -/
inductive Look where
  | first
  | second
  deriving DecidableEq, Repr

/-- How the calls of a cache go in one reading, with replies `ρ` and answers `β`. -/
structure Cache (ρ β : Type) where
  get : Look → Option ρ
  set : β → Option Unit

variable {ρ β : Type}

/-- One look: an answer, no entry, or an exception. -/
def look (read : ρ → Option (Option β)) : Option (Cache ρ β) → Look → Option (Option β)
  | none, _ => some none
  | some cache, l => cache.get l >>= read

def store : Option (Cache ρ β) → β → Option Unit
  | none, _ => some ()
  | some cache, b => cache.set b

/-- The double-checked reading of `source` through a cache. -/
def fetch (read : ρ → Option (Option β)) (cache : Option (Cache ρ β)) (source : Option β) :
    Option β := do
  match ← look read cache .first with
  | some b => return b
  | none =>
    match ← look read cache .second with
    | some b => return b
    | none =>
      let b ← source
      store cache b
      return b

variable {read : ρ → Option (Option β)} {cache : Cache ρ β} {source : Option β} {b : β} {l : Look}

/-- A look that finds no entry. -/
def Cache.Misses (read : ρ → Option (Option β)) (cache : Cache ρ β) (l : Look) : Prop :=
  ∃ reply, cache.get l = some reply ∧ read reply = some none

/-- An answered look whose entry, if there is one, says `b`. -/
structure Cache.Agrees (read : ρ → Option (Option β)) (cache : Cache ρ β) (l : Look) (b : β) :
    Prop where
  answered : cache.get l ≠ none
  fresh : ∀ reply, cache.get l = some reply → read reply = some none ∨ read reply = some (some b)

/-- No call raises that the reading gets to, and what it finds is `b`. -/
structure Cache.Harmless (read : ρ → Option (Option β)) (cache : Cache ρ β) (b : β) : Prop where
  first : cache.Agrees read .first b
  second : cache.Misses read .first → cache.Agrees read .second b
  written : cache.Misses read .first → cache.Misses read .second → cache.set b ≠ none

theorem fetch_absent : fetch read none source = source := by
  cases source with
  | none => rfl
  | some b => rfl

theorem look_eq_miss : look read (some cache) l = some none ↔ cache.Misses read l :=
  Option.bind_eq_some_iff

/-- A look agrees if it misses or finds the answer. -/
theorem agrees_iff : cache.Agrees read l b ↔
    look read (some cache) l = some none ∨ look read (some cache) l = some (some b) := by
  change _ ↔ (cache.get l).bind read = some none ∨ (cache.get l).bind read = some (some b)
  constructor
  · intro h
    obtain ⟨reply, hreply⟩ := Option.ne_none_iff_exists'.mp h.answered
    rw [hreply]
    exact h.fresh reply hreply
  · intro h
    have hanswered : cache.get l ≠ none := by
      intro hnone
      rw [hnone] at h
      simp at h
    refine ⟨hanswered, fun reply hreply => ?_⟩
    rwa [hreply] at h

/-- **A cache makes no difference** exactly if it is harmless. -/
theorem fetch_eq_some_iff : fetch read (some cache) (some b) = some b ↔ cache.Harmless read b := by
  constructor
  · intro h
    obtain ⟨first, hfirst, h⟩ := Option.bind_eq_some_iff.mp h
    cases first with
    | some b' =>
      cases h
      refine ⟨agrees_iff.mpr (.inr hfirst), fun hmiss => ?_, fun hmiss => ?_⟩
      all_goals
        rw [look_eq_miss.mpr hmiss] at hfirst
        cases hfirst
    | none =>
      obtain ⟨second, hsecond, h⟩ := Option.bind_eq_some_iff.mp h
      cases second with
      | some b' =>
        cases h
        refine ⟨agrees_iff.mpr (.inl hfirst), fun _ => agrees_iff.mpr (.inr hsecond),
          fun _ hmiss => ?_⟩
        rw [look_eq_miss.mpr hmiss] at hsecond
        cases hsecond
      | none =>
        obtain ⟨b', hsource, h⟩ := Option.bind_eq_some_iff.mp h
        cases hsource
        obtain ⟨u, hset, -⟩ := Option.bind_eq_some_iff.mp h
        refine ⟨agrees_iff.mpr (.inl hfirst), fun _ => agrees_iff.mpr (.inl hsecond),
          fun _ _ hnone => ?_⟩
        change cache.set b = some u at hset
        rw [hnone] at hset
        cases hset
  · intro h
    unfold fetch
    rcases agrees_iff.mp h.first with hfirst | hfirst
    · have hmiss := look_eq_miss.mp hfirst
      rw [hfirst]
      rcases agrees_iff.mp (h.second hmiss) with hsecond | hsecond
      · obtain ⟨u, hset⟩ :=
          Option.ne_none_iff_exists'.mp (h.written hmiss (look_eq_miss.mp hsecond))
        change (look read (some cache) .second >>= _) = _
        rw [hsecond]
        change (cache.set b >>= fun _ => some b) = some b
        rw [hset]
        rfl
      · change (look read (some cache) .second >>= _) = _
        rw [hsecond]
        rfl
    · rw [hfirst]
      rfl

end ReadThrough

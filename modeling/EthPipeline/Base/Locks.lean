import Mathlib.Data.List.Nodup
import Mathlib.Logic.Function.Basic

/-!
# Locks and the order in which they are taken

A lock that is given to its waiters in the order they came, and the argument that
resources taken in one order cannot end in a circular wait.

* `FifoLock.Agrees`: what the lock says about its users, and how the four
  operations keep it.
* `exists_unblocked`: if whoever holds something waits only for things of a higher
  rank, somebody does not wait at all.
-/

/-! ### The lock -/

/-- Where a user of a lock is. -/
inductive LockPhase where
  | outside
  | waiting
  | inside
  deriving DecidableEq, Repr

structure FifoLock (P : Type) where
  holder : Option P
  waiters : List P
  deriving DecidableEq, Repr

namespace FifoLock

variable {P : Type} {l : FifoLock P} {ph : P → LockPhase} {p q : P}

def free : FifoLock P := ⟨none, []⟩

/-- Who comes to a lock nobody holds or waits for gets it at once. -/
def take (l : FifoLock P) (p : P) : FifoLock P := { l with holder := some p }

def wait (l : FifoLock P) (p : P) : FifoLock P := { l with waiters := l.waiters ++ [p] }

/-- The first waiter gets the lock. -/
def grant (l : FifoLock P) : FifoLock P := ⟨l.waiters.head?, l.waiters.tail⟩

def release (l : FifoLock P) : FifoLock P := { l with holder := none }

@[simp] theorem holder_release (l : FifoLock P) : l.release.holder = none := rfl

/-- The lock knows who is inside and who waits. -/
structure Agrees (l : FifoLock P) (ph : P → LockPhase) : Prop where
  holder_iff : ∀ p, l.holder = some p ↔ ph p = .inside
  mem_waiters_iff : ∀ p, p ∈ l.waiters ↔ ph p = .waiting
  nodup : l.waiters.Nodup

theorem agrees_free : (free : FifoLock P).Agrees fun _ => .outside where
  holder_iff _ := by simp [free]
  mem_waiters_iff _ := by simp [free]
  nodup := List.nodup_nil

namespace Agrees

/-- **At most one user is inside.** -/
theorem unique (h : l.Agrees ph) (hp : ph p = .inside) (hq : ph q = .inside) : p = q := by
  have hholder := (h.holder_iff p).mpr hp
  rw [(h.holder_iff q).mpr hq] at hholder
  exact (Option.some.inj hholder).symm

theorem not_inside (h : l.Agrees ph) (hfree : l.holder = none) (q : P) : ph q ≠ .inside := by
  intro hq
  rw [(h.holder_iff q).mpr hq] at hfree
  cases hfree

variable [DecidableEq P]

theorem take (h : l.Agrees ph) (hfree : l.holder = none) (hp : ph p = .outside) :
    (l.take p).Agrees (Function.update ph p .inside) where
  holder_iff q := by
    by_cases hq : q = p
    · subst hq
      simp [FifoLock.take]
    · rw [Function.update_of_ne hq]
      constructor
      · intro hholder
        exact absurd (Option.some.inj hholder).symm hq
      · intro hinside
        exact absurd hinside (h.not_inside hfree q)
  mem_waiters_iff q := by
    by_cases hq : q = p
    · subst hq
      simp [FifoLock.take, h.mem_waiters_iff, hp]
    · rw [Function.update_of_ne hq]
      exact h.mem_waiters_iff q
  nodup := h.nodup

theorem wait (h : l.Agrees ph) (hp : ph p = .outside) :
    (l.wait p).Agrees (Function.update ph p .waiting) where
  holder_iff q := by
    by_cases hq : q = p
    · subst hq
      simp [FifoLock.wait, h.holder_iff, hp]
    · rw [Function.update_of_ne hq]
      exact h.holder_iff q
  mem_waiters_iff q := by
    by_cases hq : q = p
    · subst hq
      simp [FifoLock.wait]
    · rw [Function.update_of_ne hq, ← h.mem_waiters_iff q]
      simp [FifoLock.wait, hq]
  nodup := by
    have hfresh : p ∉ l.waiters := by
      rw [h.mem_waiters_iff, hp]
      exact LockPhase.noConfusion
    exact h.nodup.append (List.nodup_singleton p) (by simpa using hfresh)

theorem grant (h : l.Agrees ph) (hfree : l.holder = none) (hp : l.waiters.head? = some p) :
    l.grant.Agrees (Function.update ph p .inside) := by
  obtain ⟨ws, hws⟩ := List.head?_eq_some_iff.mp hp
  have hnodup := h.nodup
  rw [hws, List.nodup_cons] at hnodup
  refine ⟨fun q => ?_, fun q => ?_, ?_⟩
  · by_cases hq : q = p
    · subst hq
      simp [FifoLock.grant, hws]
    · rw [Function.update_of_ne hq]
      constructor
      · intro hholder
        rw [FifoLock.grant, hp] at hholder
        exact absurd (Option.some.inj hholder).symm hq
      · intro hinside
        exact absurd hinside (h.not_inside hfree q)
  · by_cases hq : q = p
    · subst hq
      simp [FifoLock.grant, hws, hnodup.1]
    · rw [Function.update_of_ne hq, ← h.mem_waiters_iff q]
      simp [FifoLock.grant, hws, hq]
  · simpa [FifoLock.grant, hws] using hnodup.2

theorem release (h : l.Agrees ph) (hp : ph p = .inside) :
    l.release.Agrees (Function.update ph p .outside) where
  holder_iff q := by
    by_cases hq : q = p
    · subst hq
      simp
    · rw [Function.update_of_ne hq]
      constructor
      · intro hholder
        cases hholder
      · intro hinside
        exact absurd (h.unique hinside hp) hq
  mem_waiters_iff q := by
    by_cases hq : q = p
    · subst hq
      simp [FifoLock.release, h.mem_waiters_iff, hp]
    · rw [Function.update_of_ne hq]
      exact h.mem_waiters_iff q
  nodup := h.nodup

end Agrees

end FifoLock

/-! ### Taking resources in one order -/

/-- **Resources taken in one order do not deadlock.**  `blocked p r` says that `p`
waits for `r`, which is exhausted; then some `q` that is still active has it. -/
theorem exists_unblocked {P R : Type} {active : P → Prop} {holds blocked : P → R → Prop}
    (rank : R → ℕ) (bound : ℕ) (hbound : ∀ r, rank r ≤ bound)
    (hordered : ∀ p r r', holds p r → blocked p r' → rank r < rank r')
    (hexhausted : ∀ p r, blocked p r → ∃ q, active q ∧ holds q r)
    (hactive : ∃ p, active p) : ∃ p, active p ∧ ∀ r, ¬ blocked p r := by
  by_contra hall
  have hwaits : ∀ p, active p → ∃ r, blocked p r := by
    intro p hp
    by_contra hfree
    exact hall ⟨p, hp, fun r hr => hfree ⟨r, hr⟩⟩
  -- from one blocked user to one blocked at a higher rank, past every bound
  have hclimb : ∀ n, ∃ p r, blocked p r ∧ n ≤ rank r := by
    intro n
    induction n with
    | zero =>
      obtain ⟨p, hp⟩ := hactive
      obtain ⟨r, hr⟩ := hwaits p hp
      exact ⟨p, r, hr, Nat.zero_le _⟩
    | succ n ih =>
      obtain ⟨p, r, hr, hn⟩ := ih
      obtain ⟨q, hq, hholds⟩ := hexhausted p r hr
      obtain ⟨r', hr'⟩ := hwaits q hq
      exact ⟨q, r', hr', Nat.lt_of_le_of_lt hn (hordered q r r' hholds hr')⟩
  obtain ⟨p, r, -, hn⟩ := hclimb (bound + 1)
  exact absurd (hbound r) (by omega)

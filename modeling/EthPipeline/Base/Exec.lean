import Mathlib.Tactic.Common

/-!
# Interruptible computations

A program that talks to services it does not control, and that may be killed
between any two calls.  A computation `Exec σ δ ε α` reads and writes a state
`σ`, and at every call it takes the next of the *choices* `δ` its environment
has made.  When no choice is left the computation is *cut*: the state at that
moment is what the outside world sees of a killed process.  Running over every
list of choices therefore visits every state a run can be in at a call, and
every way the calls can go.

* `Exec.call`: one call, atomic; the choice decides how it goes.
* `when`, `tryCatch`, `tryFinally`, `forEach`, `loop`: the control flow of an imperative
  program; `iterations` stops a loop between two rounds.  A cut is not an exception: no
  handler runs, and no `finally`.
* `Triple H P c Q E I`: from `P`, over choices that satisfy `H`, the computation
  ends in `Q` with a value, in `E` with an exception, and in `I` when it is cut.

The rules `Triple.bind`, `Triple.tryCatch`, `Triple.tryFinally`,
`Triple.forEach`, `Triple.loop` take a triple of a program apart along its text.

* `Keeps J c I`: `c` leaves `J` true, with a value or an exception; with the same rules.
* `bind_eq_ok`, `tryCatch_eq_ok`, `tryFinally_eq_ok`: what has happened in a run that
  ended with a value.
-/

/-- How a computation ends: with a value, with an exception, or cut off. -/
inductive Outcome (ε α : Type) where
  | ok (a : α)
  | raised (e : ε)
  | cut
  deriving DecidableEq, Repr

/-- What a computation leaves: its outcome, the state, and the choices it did
not use. -/
structure Exec.Result (σ δ ε α : Type) where
  outcome : Outcome ε α
  state : σ
  rest : List δ

/-- A computation on states `σ` whose environment makes the choices `δ`. -/
def Exec (σ δ ε α : Type) : Type := σ → List δ → Exec.Result σ δ ε α

namespace Exec

variable {σ δ ε α β : Type}

protected def pure (a : α) : Exec σ δ ε α := fun s cs => ⟨.ok a, s, cs⟩

protected def bind (c : Exec σ δ ε α) (f : α → Exec σ δ ε β) : Exec σ δ ε β := fun s cs =>
  match c s cs with
  | ⟨.ok a, s', cs'⟩ => f a s' cs'
  | ⟨.raised e, s', cs'⟩ => ⟨.raised e, s', cs'⟩
  | ⟨.cut, s', cs'⟩ => ⟨.cut, s', cs'⟩

instance : Monad (Exec σ δ ε) where
  pure := Exec.pure
  bind := Exec.bind

def raise (e : ε) : Exec σ δ ε α := fun s cs => ⟨.raised e, s, cs⟩

def getState : Exec σ δ ε σ := fun s cs => ⟨.ok s, s, cs⟩

def modifyState (f : σ → σ) : Exec σ δ ε Unit := fun s cs => ⟨.ok (), f s, cs⟩

def ofExcept : Except ε α → Exec σ δ ε α
  | .ok a => Exec.pure a
  | .error e => raise e

/-- One call of a service: it takes the next choice, or the run is cut here. -/
def call (f : δ → σ → Except ε α × σ) : Exec σ δ ε α := fun s cs =>
  match cs with
  | [] => ⟨.cut, s, []⟩
  | d :: cs =>
    match f d s with
    | (.ok a, s') => ⟨.ok a, s', cs⟩
    | (.error e, s') => ⟨.raised e, s', cs⟩

/-- `try: body / except: handler`. -/
def tryCatch (body : Exec σ δ ε α) (handler : ε → Exec σ δ ε α) : Exec σ δ ε α := fun s cs =>
  match body s cs with
  | ⟨.ok a, s', cs'⟩ => ⟨.ok a, s', cs'⟩
  | ⟨.raised e, s', cs'⟩ => handler e s' cs'
  | ⟨.cut, s', cs'⟩ => ⟨.cut, s', cs'⟩

/-- `try: body / finally: last`.  An exception of `last` replaces the one of
`body`. -/
def tryFinally (body : Exec σ δ ε α) (last : Exec σ δ ε Unit) : Exec σ δ ε α := fun s cs =>
  match body s cs with
  | ⟨.ok a, s', cs'⟩ => (last >>= fun _ => pure a) s' cs'
  | ⟨.raised e, s', cs'⟩ => (last >>= fun _ => raise e) s' cs'
  | ⟨.cut, s', cs'⟩ => ⟨.cut, s', cs'⟩

/-- A handler that only raises again is none. -/
theorem tryCatch_raise (body : Exec σ δ ε α) : tryCatch body (fun e => raise e) = body := by
  funext s cs
  unfold tryCatch
  rcases body s cs with ⟨o, s', cs'⟩
  cases o with
  | ok a => rfl
  | raised e => rfl
  | cut => rfl

protected theorem bind_assoc {γ : Type} (c : Exec σ δ ε α) (f : α → Exec σ δ ε β)
    (g : β → Exec σ δ ε γ) : (c >>= f) >>= g = c >>= fun a => f a >>= g := by
  funext s cs
  show Exec.bind (Exec.bind c f) g s cs = Exec.bind c (fun a => Exec.bind (f a) g) s cs
  unfold Exec.bind
  rcases c s cs with ⟨o, s', cs'⟩
  cases o with
  | ok a => rfl
  | raised e => rfl
  | cut => rfl

/-- `if p: body`. -/
def when (p : Prop) [Decidable p] (body : Exec σ δ ε Unit) : Exec σ δ ε Unit :=
  if p then body else pure ()

/-- `for x in xs: f x`. -/
def forEach : List β → (β → Exec σ δ ε Unit) → Exec σ δ ε Unit
  | [], _ => pure ()
  | x :: xs, f => do
    f x
    forEach xs f

/-- At most `n` rounds of `while body: pass`. -/
def rounds (body : Exec σ δ ε Bool) : ℕ → Exec σ δ ε Unit
  | 0 => fun s cs => ⟨.cut, s, cs⟩
  | n + 1 => do
    let again ← body
    if again then rounds body n else pure ()

/-- `while body: pass`.  A round that goes on makes at least one call, so the
choices left bound the rounds left; `loop_eq` is the equation of the loop. -/
def loop (body : Exec σ δ ε Bool) : Exec σ δ ε Unit := fun s cs =>
  rounds body (cs.length + 1) s cs

/-- The first `n` rounds of `while body: pass`, and whether the loop goes on. -/
def iterations (body : Exec σ δ ε Bool) : ℕ → Exec σ δ ε Bool
  | 0 => pure true
  | n + 1 => do
    let again ← body
    if again then iterations body n else pure false

/-! ### Choices are taken in turn -/

/-- What is left of the choices is the end of what was there. -/
def InTurn (c : Exec σ δ ε α) : Prop := ∀ s cs, (c s cs).rest <:+ cs

namespace InTurn

variable {c : Exec σ δ ε α} {f : α → Exec σ δ ε β}

theorem pure (a : α) : InTurn (Pure.pure a : Exec σ δ ε α) := fun _ _ => List.suffix_rfl

theorem raise (e : ε) : InTurn (Exec.raise e : Exec σ δ ε α) := fun _ _ => List.suffix_rfl

theorem getState : InTurn (Exec.getState : Exec σ δ ε σ) := fun _ _ => List.suffix_rfl

theorem modifyState (g : σ → σ) : InTurn (Exec.modifyState g : Exec σ δ ε Unit) :=
  fun _ _ => List.suffix_rfl

theorem ofExcept (x : Except ε α) : InTurn (Exec.ofExcept x : Exec σ δ ε α) := by
  cases x with
  | ok a => exact InTurn.pure a
  | error e => exact InTurn.raise e

theorem call (g : δ → σ → Except ε α × σ) : InTurn (Exec.call g) := by
  intro s cs
  cases cs with
  | nil => exact List.suffix_rfl
  | cons d cs =>
    have hrest : (Exec.call g s (d :: cs)).rest = cs := by
      rcases hrun : g d s with ⟨⟨e⟩ | ⟨a⟩, s'⟩ <;> simp [Exec.call, hrun]
    rw [hrest]
    exact List.suffix_cons d cs

theorem bind (hc : InTurn c) (hf : ∀ a, InTurn (f a)) : InTurn (c >>= f) := by
  intro s cs
  have hfirst := hc s cs
  show (Exec.bind c f s cs).rest <:+ cs
  unfold Exec.bind
  rcases hrun : c s cs with ⟨o, s', cs'⟩
  rw [hrun] at hfirst
  cases o with
  | ok a => exact (hf a s' cs').trans hfirst
  | raised e => exact hfirst
  | cut => exact hfirst

theorem tryCatch {handler : ε → Exec σ δ ε α} (hc : InTurn c) (hh : ∀ e, InTurn (handler e)) :
    InTurn (Exec.tryCatch c handler) := by
  intro s cs
  have hfirst := hc s cs
  unfold Exec.tryCatch
  rcases hrun : c s cs with ⟨o, s', cs'⟩
  rw [hrun] at hfirst
  cases o with
  | ok a => exact hfirst
  | raised e => exact (hh e s' cs').trans hfirst
  | cut => exact hfirst

theorem tryFinally {last : Exec σ δ ε Unit} (hc : InTurn c) (hl : InTurn last) :
    InTurn (Exec.tryFinally c last) := by
  intro s cs
  have hfirst := hc s cs
  unfold Exec.tryFinally
  rcases hrun : c s cs with ⟨o, s', cs'⟩
  rw [hrun] at hfirst
  cases o with
  | ok a => exact (bind hl (fun _ => pure a) s' cs').trans hfirst
  | raised e => exact (bind hl (fun _ => raise e) s' cs').trans hfirst
  | cut => exact hfirst

theorem ite {p : Prop} [Decidable p] {c₁ c₂ : Exec σ δ ε α} (h₁ : InTurn c₁) (h₂ : InTurn c₂) :
    InTurn (if p then c₁ else c₂) := by
  split
  · exact h₁
  · exact h₂

theorem when {p : Prop} [Decidable p] {body : Exec σ δ ε Unit} (h : InTurn body) :
    InTurn (Exec.when p body) := ite h (pure ())

theorem forEach (xs : List β) {g : β → Exec σ δ ε Unit} (h : ∀ x, InTurn (g x)) :
    InTurn (Exec.forEach xs g) := by
  induction xs with
  | nil => exact pure ()
  | cons x xs ih => exact bind (h x) fun _ => ih

end InTurn

/-! ### The loop does not run out of rounds -/

/-- A loop body whose every round that goes on makes a call. -/
def Productive (body : Exec σ δ ε Bool) : Prop :=
  ∀ s cs, (body s cs).outcome = .ok true → (body s cs).rest.length < cs.length

theorem productive_of_call {g : δ → σ → Except ε α × σ} {f : α → Exec σ δ ε Bool}
    (hf : ∀ a, InTurn (f a)) : Productive (call g >>= f) := by
  intro s cs
  show (Exec.bind (call g) f s cs).outcome = _ → (Exec.bind (call g) f s cs).rest.length < _
  cases cs with
  | nil => simp [Exec.bind, call]
  | cons d cs =>
    rcases hrun : g d s with ⟨⟨e⟩ | ⟨a⟩, s'⟩
    · simp [Exec.bind, call, hrun]
    · intro _
      have hle := (hf a s' cs).length_le
      simp only [Exec.bind, call, hrun, List.length_cons]
      omega

theorem rounds_eq_of_lt {body : Exec σ δ ε Bool} (h : Productive body) :
    ∀ (n m : ℕ) (s : σ) (cs : List δ), cs.length < n → cs.length < m →
      rounds body n s cs = rounds body m s cs := by
  intro n
  induction n with
  | zero => intro m s cs hn; omega
  | succ n ih =>
    intro m s cs hn hm
    obtain ⟨m, rfl⟩ : ∃ k, m = k + 1 := ⟨m - 1, by omega⟩
    show Exec.bind body _ s cs = Exec.bind body _ s cs
    have hlt := h s cs
    unfold Exec.bind
    rcases hb : body s cs with ⟨o, s', cs'⟩
    rw [hb] at hlt
    cases o with
    | raised e => rfl
    | cut => rfl
    | ok again =>
      cases again with
      | false => rfl
      | true =>
        have hlt := hlt rfl
        exact ih m s' cs' (by simp only at hlt; omega) (by simp only at hlt; omega)

/-- **The equation of the loop**: one round, and the loop again if it says so. -/
theorem loop_eq {body : Exec σ δ ε Bool} (h : Productive body) (s : σ) (cs : List δ) :
    loop body s cs = (body >>= fun again => if again then loop body else pure ()) s cs := by
  show Exec.bind body _ s cs = Exec.bind body _ s cs
  have hlt := h s cs
  unfold Exec.bind
  rcases hb : body s cs with ⟨o, s', cs'⟩
  rw [hb] at hlt
  cases o with
  | raised e => rfl
  | cut => rfl
  | ok again =>
    cases again with
    | false => rfl
    | true =>
      have hlt := hlt rfl
      exact rounds_eq_of_lt h _ _ s' cs' (by simp only at hlt; omega) (by omega)

/-! ### Triples -/

/-- What a result has to satisfy: `Q` for a value, `E` for an exception, `I` for
a cut. -/
def Result.Meets (r : Result σ δ ε α) (H : δ → Prop) (Q : α → σ → Prop) (E : ε → σ → Prop)
    (I : σ → Prop) : Prop :=
  (∀ d ∈ r.rest, H d) ∧
    match r.outcome with
    | .ok a => Q a r.state
    | .raised e => E e r.state
    | .cut => I r.state

/-- From a state in `P`, over choices in `H`, the computation ends with a value
in `Q`, with an exception in `E`, or is cut in `I`. -/
def Triple (H : δ → Prop) (P : σ → Prop) (c : Exec σ δ ε α) (Q : α → σ → Prop)
    (E : ε → σ → Prop) (I : σ → Prop) : Prop :=
  ∀ s cs, P s → (∀ d ∈ cs, H d) → (c s cs).Meets H Q E I

namespace Triple

variable {H : δ → Prop} {P A : σ → Prop} {Q B : α → σ → Prop} {R : β → σ → Prop}
  {E F : ε → σ → Prop} {I : σ → Prop}

theorem conseq {c : Exec σ δ ε α} (h : Triple H A c B F I) (hP : ∀ s, P s → A s)
    (hQ : ∀ a s, B a s → Q a s) (hE : ∀ e s, F e s → E e s) : Triple H P c Q E I := by
  intro s cs hs hH
  have := h s cs (hP s hs) hH
  rcases hr : c s cs with ⟨o, s', cs'⟩
  rw [hr] at this
  refine ⟨this.1, ?_⟩
  cases o with
  | ok a => exact hQ a s' this.2
  | raised e => exact hE e s' this.2
  | cut => exact this.2

theorem pre {c : Exec σ δ ε α} (h : Triple H A c Q E I) (hP : ∀ s, P s → A s) :
    Triple H P c Q E I :=
  h.conseq hP (fun _ _ h => h) (fun _ _ h => h)

theorem post {c : Exec σ δ ε α} (h : Triple H P c B E I) (hQ : ∀ a s, B a s → Q a s) :
    Triple H P c Q E I :=
  h.conseq (fun _ h => h) hQ (fun _ _ h => h)

/-- A weaker condition on the states it is cut in. -/
theorem cut {J : σ → Prop} {c : Exec σ δ ε α} (h : Triple H P c Q E J) (hI : ∀ s, J s → I s) :
    Triple H P c Q E I := by
  intro s cs hs hH
  have := h s cs hs hH
  rcases hr : c s cs with ⟨o, s', cs'⟩
  rw [hr] at this
  refine ⟨this.1, ?_⟩
  cases o with
  | ok a => exact this.2
  | raised e => exact this.2
  | cut => exact hI s' this.2

/-- A condition that does not speak of the state is a hypothesis. -/
theorem given {p : Prop} {c : Exec σ δ ε α} (h : p → Triple H P c Q E I) :
    Triple H (fun s => p ∧ P s) c Q E I :=
  fun s cs hs hH => h hs.1 s cs hs.2 hH

theorem of_exists {ι : Type} {B : ι → σ → Prop} {c : Exec σ δ ε α}
    (h : ∀ i, Triple H (B i) c Q E I) : Triple H (fun s => ∃ i, B i s) c Q E I :=
  fun s cs ⟨i, hs⟩ hH => h i s cs hs hH

theorem pure {a : α} (h : ∀ s, P s → Q a s) : Triple H P (Pure.pure a) Q E I :=
  fun s _ hs hH => ⟨hH, h s hs⟩

theorem raise {e : ε} (h : ∀ s, P s → E e s) : Triple H P (Exec.raise e : Exec σ δ ε α) Q E I :=
  fun s _ hs hH => ⟨hH, h s hs⟩

theorem getState {Q : σ → σ → Prop} (h : ∀ s, P s → Q s s) :
    Triple H P (Exec.getState : Exec σ δ ε σ) Q E I :=
  fun s _ hs hH => ⟨hH, h s hs⟩

theorem modifyState {f : σ → σ} {Q : Unit → σ → Prop} (h : ∀ s, P s → Q () (f s)) :
    Triple H P (Exec.modifyState f : Exec σ δ ε Unit) Q E I :=
  fun s _ hs hH => ⟨hH, h s hs⟩

theorem ofExcept {x : Except ε α} (hok : ∀ a s, x = .ok a → P s → Q a s)
    (herr : ∀ e s, x = .error e → P s → E e s) : Triple H P (Exec.ofExcept x) Q E I := by
  cases x with
  | ok a => exact fun s _ hs hH => ⟨hH, hok a s rfl hs⟩
  | error e => exact fun s _ hs hH => ⟨hH, herr e s rfl hs⟩

/-- A call is cut in the state it finds, and otherwise ends as its choice says. -/
theorem call {f : δ → σ → Except ε α × σ} (hI : ∀ s, P s → I s)
    (hok : ∀ d s a s', H d → P s → f d s = (.ok a, s') → Q a s')
    (herr : ∀ d s e s', H d → P s → f d s = (.error e, s') → E e s') :
    Triple H P (Exec.call f) Q E I := by
  intro s cs hs hH
  cases cs with
  | nil => exact ⟨hH, hI s hs⟩
  | cons d cs =>
    have hd : H d := hH d List.mem_cons_self
    have hcs : ∀ d' ∈ cs, H d' := fun d' h => hH d' (List.mem_cons_of_mem _ h)
    simp only [Exec.call]
    rcases hf : f d s with ⟨x, s'⟩
    cases x with
    | ok a => exact ⟨hcs, hok d s a s' hd hs hf⟩
    | error e => exact ⟨hcs, herr d s e s' hd hs hf⟩

theorem bind {c : Exec σ δ ε α} {f : α → Exec σ δ ε β} (hc : Triple H P c Q E I)
    (hf : ∀ a, Triple H (Q a) (f a) R E I) : Triple H P (c >>= f) R E I := by
  intro s cs hs hH
  have h := hc s cs hs hH
  show (Exec.bind c f s cs).Meets H R E I
  unfold Exec.bind
  rcases hr : c s cs with ⟨o, s', cs'⟩
  rw [hr] at h
  cases o with
  | ok a => exact hf a s' cs' h.2 h.1
  | raised e => exact h
  | cut => exact h

theorem ite {p : Prop} [Decidable p] {c c' : Exec σ δ ε α}
    (ht : p → Triple H P c Q E I) (hf : ¬p → Triple H P c' Q E I) :
    Triple H P (if p then c else c') Q E I := by
  by_cases hp : p
  · rw [if_pos hp]; exact ht hp
  · rw [if_neg hp]; exact hf hp

theorem when {p : Prop} [Decidable p] {c : Exec σ δ ε Unit} {Q : Unit → σ → Prop}
    (ht : p → Triple H P c Q E I) (hf : ∀ s, ¬p → P s → Q () s) :
    Triple H P (Exec.when p c) Q E I :=
  ite ht fun hp => pure fun s hs => hf s hp hs

theorem tryCatch {c : Exec σ δ ε α} {handler : ε → Exec σ δ ε α} (hc : Triple H P c Q F I)
    (hh : ∀ e, Triple H (F e) (handler e) Q E I) : Triple H P (Exec.tryCatch c handler) Q E I := by
  intro s cs hs hH
  have h := hc s cs hs hH
  unfold Exec.tryCatch
  rcases hr : c s cs with ⟨o, s', cs'⟩
  rw [hr] at h
  cases o with
  | ok a => exact h
  | raised e => exact hh e s' cs' h.2 h.1
  | cut => exact h

theorem tryFinally {c : Exec σ δ ε α} {last : Exec σ δ ε Unit} (hc : Triple H P c B F I)
    (hok : ∀ a, Triple H (B a) last (fun _ => Q a) E I)
    (herr : ∀ e, Triple H (F e) last (fun _ => E e) E I) :
    Triple H P (Exec.tryFinally c last) Q E I := by
  intro s cs hs hH
  have h := hc s cs hs hH
  unfold Exec.tryFinally
  rcases hr : c s cs with ⟨o, s', cs'⟩
  rw [hr] at h
  cases o with
  | ok a => exact (hok a).bind (fun _ => pure fun _ h => h) s' cs' h.2 h.1
  | raised e => exact (herr e).bind (fun _ => raise fun _ h => h) s' cs' h.2 h.1
  | cut => exact h

/-- **The rule of `forEach`**: `J xs` holds while `xs` is still to do. -/
theorem forEach {f : β → Exec σ δ ε Unit} {J : List β → σ → Prop} (xs : List β)
    (h : ∀ x ys, Triple H (J (x :: ys)) (f x) (fun _ => J ys) E I) :
    Triple H (J xs) (Exec.forEach xs f) (fun _ => J []) E I := by
  induction xs with
  | nil => exact pure fun _ h => h
  | cons x xs ih => exact (h x xs).bind fun _ => ih

/-- **The rule of the loop**: an invariant that every round keeps. -/
theorem loop {body : Exec σ δ ε Bool} {J : σ → Prop} {Q : Unit → σ → Prop}
    (hJ : ∀ s, J s → I s)
    (h : Triple H J body (fun again s => if again then J s else Q () s) E I) :
    Triple H J (Exec.loop body) Q E I := by
  have hrounds : ∀ n, Triple H J (Exec.rounds body n) Q E I := by
    intro n
    induction n with
    | zero => exact fun s _ hs hH => ⟨hH, hJ s hs⟩
    | succ n ih =>
      refine h.bind fun again => ?_
      cases again with
      | true => exact ih.pre fun _ h => by simpa using h
      | false => exact pure fun _ h => by simpa using h
  exact fun s cs => hrounds _ s cs

/-- **The rule of the first rounds**: the loop goes on from the invariant. -/
theorem iterations {body : Exec σ δ ε Bool} {J : σ → Prop} {Q : σ → Prop}
    (h : Triple H J body (fun again s => if again then J s else Q s) E I) (n : ℕ) :
    Triple H J (Exec.iterations body n) (fun again s => if again then J s else Q s) E I := by
  induction n with
  | zero => exact pure fun _ h => h
  | succ n ih =>
    refine h.bind fun again => ?_
    cases again with
    | true => exact ih
    | false => exact pure fun _ h => h

/-- Two triples of one computation hold together. -/
theorem and {c : Exec σ δ ε α} (h : Triple H P c Q E I) (h' : Triple H A c B F I) :
    Triple H (fun s => P s ∧ A s) c (fun a s => Q a s ∧ B a s) (fun e s => E e s ∧ F e s) I := by
  intro s cs hs hH
  have hfst := h s cs hs.1 hH
  have hsnd := h' s cs hs.2 hH
  rcases hr : c s cs with ⟨o, s', cs'⟩
  rw [hr] at hfst hsnd
  refine ⟨hfst.1, ?_⟩
  cases o with
  | ok a => exact ⟨hfst.2, hsnd.2⟩
  | raised e => exact ⟨hfst.2, hsnd.2⟩
  | cut => exact hfst.2

/-- A computation that can neither raise nor be cut ends with a value. -/
theorem exists_ok {c : Exec σ δ ε α} (h : Triple H P c Q (fun _ _ => False) (fun _ => False))
    {s : σ} {cs : List δ} (hs : P s) (hH : ∀ d ∈ cs, H d) :
    ∃ a s' cs', c s cs = ⟨.ok a, s', cs'⟩ ∧ Q a s' := by
  have hmeets := h s cs hs hH
  rcases hr : c s cs with ⟨o, s', cs'⟩
  rw [hr] at hmeets
  cases o with
  | ok a => exact ⟨a, s', cs', rfl, hmeets.2⟩
  | raised e => exact hmeets.2.elim
  | cut => exact hmeets.2.elim

/-- A condition on the runs that end with a value. -/
theorem of_ok {c : Exec σ δ ε α} (hc : Triple H P c (fun _ _ => True) E I)
    (h : ∀ s cs a s' cs', P s → c s cs = ⟨.ok a, s', cs'⟩ → Q a s') : Triple H P c Q E I := by
  intro s cs hs hH
  have hmeets := hc s cs hs hH
  rcases hr : c s cs with ⟨o, s', cs'⟩
  rw [hr] at hmeets
  refine ⟨hmeets.1, ?_⟩
  cases o with
  | ok a => exact h s cs a s' cs' hs hr
  | raised e => exact hmeets.2
  | cut => exact hmeets.2

/-- What a triple says of a run that raised. -/
theorem of_raised {c : Exec σ δ ε α} (h : Triple H P c Q E I) {s : σ} {cs : List δ} {e : ε}
    (hs : P s) (hH : ∀ d ∈ cs, H d) (hrun : (c s cs).outcome = .raised e) :
    E e (c s cs).state := by
  have hmeets := (h s cs hs hH).2
  rw [hrun] at hmeets
  exact hmeets

/-- What a triple says of the state a run ends in, whatever its outcome. -/
theorem state {c : Exec σ δ ε α} {J : σ → Prop}
    (h : Triple H P c (fun _ => J) (fun _ => J) J) {s : σ} {cs : List δ} (hs : P s)
    (hH : ∀ d ∈ cs, H d) : J (c s cs).state := by
  have := (h s cs hs hH).2
  rcases hr : c s cs with ⟨o, s', cs'⟩
  rw [hr] at this
  cases o <;> exact this

end Triple

/-! ### What a computation keeps -/

/-- `c` leaves `J` true whether it ends with a value or with an exception, and `I` when
it is cut. -/
def Keeps (J : σ → Prop) (c : Exec σ δ ε α) (I : σ → Prop) : Prop :=
  Triple (fun _ => True) J c (fun _ => J) (fun _ => J) I

namespace Keeps

variable {J I : σ → Prop} {c : Exec σ δ ε α}

theorem pure (a : α) : Keeps J (Pure.pure a : Exec σ δ ε α) I := Triple.pure fun _ h => h

theorem raise (e : ε) : Keeps J (Exec.raise e : Exec σ δ ε α) I := Triple.raise fun _ h => h

theorem getState : Keeps J (Exec.getState : Exec σ δ ε σ) I := Triple.getState fun _ h => h

theorem modifyState {f : σ → σ} (h : ∀ s, J s → J (f s)) :
    Keeps J (Exec.modifyState f : Exec σ δ ε Unit) I :=
  Triple.modifyState h

theorem ofExcept (x : Except ε α) : Keeps J (Exec.ofExcept x : Exec σ δ ε α) I :=
  Triple.ofExcept (fun _ _ _ h => h) fun _ _ _ h => h

theorem bind {f : α → Exec σ δ ε β} (hc : Keeps J c I) (hf : ∀ a, Keeps J (f a) I) :
    Keeps J (c >>= f) I :=
  Triple.bind hc hf

theorem ite {p : Prop} [Decidable p] {c₁ c₂ : Exec σ δ ε α} (h₁ : Keeps J c₁ I)
    (h₂ : Keeps J c₂ I) : Keeps J (if p then c₁ else c₂) I :=
  Triple.ite (fun _ => h₁) fun _ => h₂

theorem when {p : Prop} [Decidable p] {body : Exec σ δ ε Unit} (h : Keeps J body I) :
    Keeps J (Exec.when p body) I := ite h (pure ())

theorem tryCatch {handler : ε → Exec σ δ ε α} (hc : Keeps J c I)
    (hh : ∀ e, Keeps J (handler e) I) : Keeps J (Exec.tryCatch c handler) I :=
  Triple.tryCatch hc hh

theorem tryFinally {last : Exec σ δ ε Unit} (hc : Keeps J c I) (hl : Keeps J last I) :
    Keeps J (Exec.tryFinally c last) I :=
  Triple.tryFinally hc (fun _ => hl) fun _ => hl

/-- What is kept holds after a run that ended with a value. -/
theorem of_ok (h : Keeps J c I) {s s' : σ} {cs cs' : List δ} {a : α} (hs : J s)
    (hrun : c s cs = ⟨.ok a, s', cs'⟩) : J s' := by
  have hend := (h s cs hs fun _ _ => trivial).2
  rwa [hrun] at hend

end Keeps

/-! ### Runs that ended with a value -/

section ended

variable {c : Exec σ δ ε α} {s s' : σ} {cs cs' : List δ}

theorem bind_eq_ok {f : α → Exec σ δ ε β} {b : β} :
    (c >>= f) s cs = ⟨.ok b, s', cs'⟩ ↔
      ∃ a s₁ cs₁, c s cs = ⟨.ok a, s₁, cs₁⟩ ∧ f a s₁ cs₁ = ⟨.ok b, s', cs'⟩ := by
  show Exec.bind c f s cs = _ ↔ _
  unfold Exec.bind
  rcases c s cs with ⟨o, s₁, cs₁⟩
  cases o with
  | ok a =>
    constructor
    · intro h
      exact ⟨a, s₁, cs₁, rfl, h⟩
    · rintro ⟨a', s₁', cs₁', h, hf⟩
      cases h
      exact hf
  | raised e => simp
  | cut => simp

theorem tryFinally_eq_ok {last : Exec σ δ ε Unit} {a : α} :
    tryFinally c last s cs = ⟨.ok a, s', cs'⟩ ↔
      ∃ s₁ cs₁, c s cs = ⟨.ok a, s₁, cs₁⟩ ∧ last s₁ cs₁ = ⟨.ok (), s', cs'⟩ := by
  unfold tryFinally
  rcases c s cs with ⟨o, s₁, cs₁⟩
  cases o with
  | ok a' =>
    show (last >>= fun _ => pure a') s₁ cs₁ = _ ↔ _
    rw [bind_eq_ok]
    constructor
    · rintro ⟨_, s₂, cs₂, hlast, hpure⟩
      cases hpure
      exact ⟨s₁, cs₁, rfl, hlast⟩
    · rintro ⟨s₁', cs₁', h, hlast⟩
      cases h
      exact ⟨(), s', cs', hlast, rfl⟩
  | raised e =>
    refine iff_of_false (fun h => ?_) (by simp)
    obtain ⟨_, _, _, _, hraise⟩ := bind_eq_ok.mp h
    cases hraise
  | cut => simp

theorem ofExcept_eq_ok {x : Except ε α} {a : α} :
    (ofExcept x : Exec σ δ ε α) s cs = ⟨.ok a, s', cs'⟩ ↔ x = .ok a ∧ s = s' ∧ cs = cs' := by
  cases x with
  | ok b =>
    show (⟨.ok b, s, cs⟩ : Result σ δ ε α) = _ ↔ _
    simp
  | error e =>
    show (⟨.raised e, s, cs⟩ : Result σ δ ε α) = _ ↔ _
    simp

theorem pure_eq_ok {a b : α} :
    (pure a : Exec σ δ ε α) s cs = ⟨.ok b, s', cs'⟩ ↔ a = b ∧ s = s' ∧ cs = cs' := by
  show (⟨.ok a, s, cs⟩ : Result σ δ ε α) = _ ↔ _
  simp

theorem when_raise_eq_ok {p : Prop} [Decidable p] {e : ε} :
    when p (raise e) s cs = ⟨.ok (), s', cs'⟩ ↔ ¬ p ∧ s = s' ∧ cs = cs' := by
  by_cases hp : p
  · simp [when, hp, raise]
  · unfold when
    rw [if_neg hp, pure_eq_ok]
    simp [hp]

/-- A handler that raises again does not end with a value. -/
theorem tryCatch_eq_ok {handler : ε → Exec σ δ ε Unit} {a : α} :
    tryCatch c (fun e => do handler e; raise e) s cs = ⟨.ok a, s', cs'⟩ ↔
      c s cs = ⟨.ok a, s', cs'⟩ := by
  unfold tryCatch
  rcases c s cs with ⟨o, s₁, cs₁⟩
  cases o with
  | ok a' => rfl
  | raised e =>
    refine iff_of_false (fun h => ?_) (by simp)
    obtain ⟨_, _, _, _, hraise⟩ := bind_eq_ok.mp h
    cases hraise
  | cut => rfl

end ended

end Exec

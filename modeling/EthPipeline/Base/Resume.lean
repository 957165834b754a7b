import EthPipeline.Base.Exec
import Mathlib.Order.Defs.Unbundled

/-!
# A run that is cut, and the run that goes on

A computation over the choices `cs`, and over `cs ++ ds`.  A run that ended does not look
at more choices; one that was cut goes on from where it was.  `Resumes I R c Q` says so
for a relation `R` of states, an invariant `I` and values in `Q`: what the outside world saw
of a killed process is related to what it sees of one that was not killed.

* `Resumes.onward_append`: the state after some choices, and the state after more of them.
* The rules take a program apart along its text; `R` has to be a preorder.
-/

namespace Exec

variable {σ δ ε α β : Type}

structure Resumes (I : σ → Prop) (R : σ → σ → Prop) (c : Exec σ δ ε α) (Q : α → Prop) : Prop where
  keeps : ∀ s cs, I s → I (c s cs).state
  onward : ∀ s cs, I s → R s (c s cs).state
  value : ∀ s cs a, I s → (c s cs).outcome = .ok a → Q a
  ended : ∀ s cs ds, I s → (c s cs).outcome ≠ .cut →
    c s (cs ++ ds) = ⟨(c s cs).outcome, (c s cs).state, (c s cs).rest ++ ds⟩
  cut : ∀ s cs ds, I s → (c s cs).outcome = .cut → R (c s cs).state (c s (cs ++ ds)).state

namespace Resumes

variable {I : σ → Prop} {R : σ → σ → Prop} {c : Exec σ δ ε α} {Q : α → Prop} {P : β → Prop}

variable [IsPreorder σ R]

/-- **More choices lead on.** -/
theorem onward_append (h : Resumes I R c Q) {s : σ} (hs : I s) (cs ds : List δ) :
    R (c s cs).state (c s (cs ++ ds)).state := by
  by_cases hcut : (c s cs).outcome = .cut
  · exact h.cut s cs ds hs hcut
  · rw [h.ended s cs ds hs hcut]
    exact refl_of R _

/-! ### Steps without a call -/

/-- A computation that takes no choice. -/
theorem of_step {o : σ → Outcome ε α} {g : σ → σ} (hc : ∀ s cs, c s cs = ⟨o s, g s, cs⟩)
    (hkeeps : ∀ s, I s → I (g s)) (honward : ∀ s, I s → R s (g s))
    (hvalue : ∀ s a, I s → o s = .ok a → Q a) : Resumes I R c Q where
  keeps := fun s cs hs => by
    rw [hc]
    exact hkeeps s hs
  onward := fun s cs hs => by
    rw [hc]
    exact honward s hs
  value := fun s cs a hs ho => by
    rw [hc] at ho
    exact hvalue s a hs ho
  ended := fun s cs ds _ _ => by
    rw [hc, hc]
  cut := fun s cs ds _ _ => by
    rw [hc, hc]
    exact refl_of R _

theorem pure {a : α} (ha : Q a) : Resumes I R (Pure.pure a : Exec σ δ ε α) Q := by
  refine of_step (fun _ _ => rfl) (fun _ h => h) (fun s _ => refl_of R s) ?_
  rintro _ b - hb
  obtain rfl : a = b := by injection hb
  exact ha

theorem raise (e : ε) : Resumes I R (Exec.raise e : Exec σ δ ε α) Q := by
  refine of_step (fun _ _ => rfl) (fun _ h => h) (fun s _ => refl_of R s) ?_
  rintro _ b - hb
  cases hb

theorem getState : Resumes I R (Exec.getState : Exec σ δ ε σ) I := by
  refine of_step (fun _ _ => rfl) (fun _ h => h) (fun s _ => refl_of R s) ?_
  rintro s b hs hb
  obtain rfl : s = b := by injection hb
  exact hs

theorem modifyState {g : σ → σ} (hkeeps : ∀ s, I s → I (g s)) (honward : ∀ s, I s → R s (g s)) :
    Resumes I R (Exec.modifyState g : Exec σ δ ε Unit) fun _ => True :=
  of_step (fun _ _ => rfl) hkeeps honward fun _ _ _ _ => trivial

theorem ofExcept {x : Except ε α} (hx : ∀ a, x = .ok a → Q a) :
    Resumes I R (Exec.ofExcept x : Exec σ δ ε α) Q := by
  cases x with
  | ok a => exact pure (hx a rfl)
  | error e => exact raise e

/-! ### A call -/

theorem call {f : δ → σ → Except ε α × σ} (hkeeps : ∀ d s, I s → I (f d s).2)
    (honward : ∀ d s, I s → R s (f d s).2) (hvalue : ∀ d s a, I s → (f d s).1 = .ok a → Q a) :
    Resumes I R (Exec.call f) Q := by
  have hrun : ∀ d s cs, (Exec.call f s (d :: cs)).state = (f d s).2 ∧
      (Exec.call f s (d :: cs)).rest = cs ∧ (Exec.call f s (d :: cs)).outcome ≠ .cut ∧
      ∀ a, (Exec.call f s (d :: cs)).outcome = .ok a ↔ (f d s).1 = .ok a := by
    intro d s cs
    rcases hf : f d s with ⟨x, s'⟩
    cases x <;> simp [Exec.call, hf]
  refine ⟨?_, ?_, ?_, ?_, ?_⟩
  · intro s cs hs
    cases cs with
    | nil => exact hs
    | cons d cs => exact (hrun d s cs).1 ▸ hkeeps d s hs
  · intro s cs hs
    cases cs with
    | nil => exact refl_of R s
    | cons d cs => exact (hrun d s cs).1 ▸ honward d s hs
  · intro s cs a hs ho
    cases cs with
    | nil => cases ho
    | cons d cs => exact hvalue d s a hs (((hrun d s cs).2.2.2 a).mp ho)
  · intro s cs ds _ ho
    cases cs with
    | nil => exact absurd rfl ho
    | cons d cs =>
      rcases hf : f d s with ⟨x, s'⟩
      cases x <;> simp [Exec.call, hf]
  · intro s cs ds hs ho
    cases cs with
    | cons d cs => exact absurd ho (hrun d s cs).2.2.1
    | nil =>
      cases ds with
      | nil => exact refl_of R s
      | cons d ds => exact (hrun d s ds).1 ▸ honward d s hs

end Resumes

/-! ### One computation after another -/

/-- The computation `k` takes over however `c` ends; nothing takes over when it is cut. -/
def follow (c : Exec σ δ ε α) (k : Outcome ε α → Exec σ δ ε β) : Exec σ δ ε β := fun s cs =>
  match c s cs with
  | ⟨.cut, s', cs'⟩ => ⟨.cut, s', cs'⟩
  | ⟨o, s', cs'⟩ => k o s' cs'

theorem follow_of_cut {c : Exec σ δ ε α} {k : Outcome ε α → Exec σ δ ε β} {s : σ} {cs : List δ}
    (h : (c s cs).outcome = .cut) : follow c k s cs = ⟨.cut, (c s cs).state, (c s cs).rest⟩ := by
  unfold follow
  rcases hc : c s cs with ⟨o, s', cs'⟩
  rw [hc] at h
  obtain rfl : o = .cut := h
  rfl

theorem follow_of_ne {c : Exec σ δ ε α} {k : Outcome ε α → Exec σ δ ε β} {s : σ} {cs : List δ}
    (h : (c s cs).outcome ≠ .cut) :
    follow c k s cs = k (c s cs).outcome (c s cs).state (c s cs).rest := by
  unfold follow
  rcases hc : c s cs with ⟨o, s', cs'⟩
  rw [hc] at h
  cases o with
  | ok a => rfl
  | raised e => rfl
  | cut => exact absurd rfl h

theorem bind_eq_follow (c : Exec σ δ ε α) (f : α → Exec σ δ ε β) :
    c >>= f = follow c fun
      | .ok a => f a
      | .raised e => raise e
      | .cut => fun s cs => ⟨.cut, s, cs⟩ := by
  funext s cs
  show Exec.bind c f s cs = _
  unfold Exec.bind follow
  rcases c s cs with ⟨o, s', cs'⟩
  cases o <;> rfl

theorem tryCatch_eq_follow (c : Exec σ δ ε α) (handler : ε → Exec σ δ ε α) :
    tryCatch c handler = follow c fun
      | .ok a => pure a
      | .raised e => handler e
      | .cut => fun s cs => ⟨.cut, s, cs⟩ := by
  funext s cs
  unfold tryCatch follow
  rcases c s cs with ⟨o, s', cs'⟩
  cases o <;> rfl

theorem tryFinally_eq_follow (c : Exec σ δ ε α) (last : Exec σ δ ε Unit) :
    tryFinally c last = follow c fun
      | .ok a => last >>= fun _ => pure a
      | .raised e => last >>= fun _ => raise e
      | .cut => fun s cs => ⟨.cut, s, cs⟩ := by
  funext s cs
  unfold tryFinally follow
  rcases c s cs with ⟨o, s', cs'⟩
  cases o <;> rfl

namespace Resumes

variable {I : σ → Prop} {R : σ → σ → Prop} {c : Exec σ δ ε α} {Q : α → Prop} {P : β → Prop}
  [IsPreorder σ R]

theorem follow {k : Outcome ε α → Exec σ δ ε β} (hc : Resumes I R c Q)
    (hok : ∀ a, Q a → Resumes I R (k (.ok a)) P) (herr : ∀ e, Resumes I R (k (.raised e)) P) :
    Resumes I R (Exec.follow c k) P := by
  -- what takes over after the choices `cs`
  have hk : ∀ s cs, I s → (c s cs).outcome ≠ .cut → Resumes I R (k (c s cs).outcome) P := by
    intro s cs hs hne
    have hvalue := hc.value s cs
    rcases ho : (c s cs).outcome with a | e | _
    · exact hok a (hvalue a hs ho)
    · exact herr e
    · exact absurd ho hne
  have honward : ∀ s cs, I s → R (c s cs).state (Exec.follow c k s cs).state := by
    intro s cs hs
    by_cases hcut : (c s cs).outcome = .cut
    · rw [follow_of_cut hcut]
      exact refl_of R _
    · rw [follow_of_ne hcut]
      exact (hk s cs hs hcut).onward _ _ (hc.keeps s cs hs)
  refine ⟨?_, ?_, ?_, ?_, ?_⟩
  · intro s cs hs
    by_cases hcut : (c s cs).outcome = .cut
    · rw [follow_of_cut hcut]
      exact hc.keeps s cs hs
    · rw [follow_of_ne hcut]
      exact (hk s cs hs hcut).keeps _ _ (hc.keeps s cs hs)
  · exact fun s cs hs => trans_of R (hc.onward s cs hs) (honward s cs hs)
  · intro s cs b hs ho
    by_cases hcut : (c s cs).outcome = .cut
    · rw [follow_of_cut hcut] at ho
      cases ho
    · rw [follow_of_ne hcut] at ho
      exact (hk s cs hs hcut).value _ _ b (hc.keeps s cs hs) ho
  · intro s cs ds hs ho
    by_cases hcut : (c s cs).outcome = .cut
    · rw [follow_of_cut hcut] at ho
      exact absurd rfl ho
    · have hmore := hc.ended s cs ds hs hcut
      rw [follow_of_ne hcut] at ho ⊢
      rw [follow_of_ne (by rw [hmore]; exact hcut), hmore]
      exact (hk s cs hs hcut).ended _ _ ds (hc.keeps s cs hs) ho
  · intro s cs ds hs ho
    by_cases hcut : (c s cs).outcome = .cut
    · rw [follow_of_cut hcut]
      exact trans_of R (hc.cut s cs ds hs hcut) (honward s (cs ++ ds) hs)
    · have hmore := hc.ended s cs ds hs hcut
      rw [follow_of_ne hcut] at ho ⊢
      rw [follow_of_ne (by rw [hmore]; exact hcut), hmore]
      exact (hk s cs hs hcut).cut _ _ ds (hc.keeps s cs hs) ho

theorem bind {f : α → Exec σ δ ε β} (hc : Resumes I R c Q) (hf : ∀ a, Q a → Resumes I R (f a) P) :
    Resumes I R (c >>= f) P := by
  rw [bind_eq_follow]
  exact follow hc hf fun e => raise e

theorem tryCatch {handler : ε → Exec σ δ ε α} (hc : Resumes I R c Q)
    (hh : ∀ e, Resumes I R (handler e) Q) : Resumes I R (Exec.tryCatch c handler) Q := by
  rw [tryCatch_eq_follow]
  exact follow hc (fun _ ha => pure ha) hh

theorem tryFinally {last : Exec σ δ ε Unit} {L : Unit → Prop} (hc : Resumes I R c Q)
    (hl : Resumes I R last L) : Resumes I R (Exec.tryFinally c last) Q := by
  rw [tryFinally_eq_follow]
  refine follow hc (fun a ha => ?_) fun e => ?_
  · exact bind hl fun _ _ => pure ha
  · exact bind hl fun _ _ => raise e

theorem forEach (xs : List β) {g : β → Exec σ δ ε Unit} {L : Unit → Prop}
    (h : ∀ x ∈ xs, Resumes I R (g x) L) : Resumes I R (Exec.forEach xs g) fun _ => True := by
  induction xs with
  | nil => exact pure trivial
  | cons x xs ih =>
    refine bind (h x List.mem_cons_self) fun _ _ => ih fun y hy => ?_
    exact h y (List.mem_cons_of_mem x hy)

theorem rounds {body : Exec σ δ ε Bool} {L : Bool → Prop} (h : Resumes I R body L) (n : ℕ) :
    Resumes I R (Exec.rounds body n) fun _ => True := by
  induction n with
  | zero =>
    refine of_step (fun _ _ => rfl) (fun _ hs => hs) (fun s _ => refl_of R s) ?_
    rintro _ _ - -
    trivial
  | succ n ih =>
    refine bind h fun again _ => ?_
    cases again with
    | true => exact ih
    | false => exact pure trivial

/-- The rounds that the choices left allow are enough for more choices, too. -/
theorem loop {body : Exec σ δ ε Bool} {L : Bool → Prop} (hbody : Productive body)
    (h : Resumes I R body L) : Resumes I R (Exec.loop body) fun _ => True := by
  have hrounds : ∀ s cs n, cs.length < n → Exec.loop body s cs = Exec.rounds body n s cs :=
    fun s cs n hn => rounds_eq_of_lt hbody _ _ s cs (by omega) hn
  have hone := rounds h
  refine ⟨fun s cs => (hone _).keeps s cs, fun s cs => (hone _).onward s cs,
    fun s cs => (hone _).value s cs, ?_, ?_⟩
  · intro s cs ds hs ho
    have hlength : cs.length < (cs ++ ds).length + 1 := by
      rw [List.length_append]
      omega
    rw [hrounds s cs _ hlength] at ho ⊢
    exact (hone _).ended s cs ds hs ho
  · intro s cs ds hs ho
    have hlength : cs.length < (cs ++ ds).length + 1 := by
      rw [List.length_append]
      omega
    rw [hrounds s cs _ hlength] at ho ⊢
    exact (hone _).cut s cs ds hs ho

end Resumes

end Exec

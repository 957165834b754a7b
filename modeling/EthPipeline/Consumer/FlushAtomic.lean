import EthPipeline.Consumer.Flush
import Mathlib.Data.List.Perm.Subperm

/-!
# A flush happens as a whole

What `flush_batches` leaves behind, whichever of its calls fails, and whether or
not the rollback fails too.

* `flushBatches_atomic`: a flush that returns has stored, announced and emptied both
  batches; one that raises has left them as they were, and has stored both or
  neither; and either way the connection is back in the pool.
* `flush_is_atomic`: the same, and that between the rounds of the loop, and at the
  end of the process, no connection is out.
-/

namespace Consumer

open Exec

/-! ### The law -/

/-- The tables of `w` with the rows of both its batches. -/
def Written (w : World) (T : Tables) : Prop :=
  ∃ U, w.db.insertTransactionsBatch w.txBatch = some U ∧
    U.insertTokenTransfersBatch w.tokenBatch = some T

/-- Each whale of the batch of `w` has its alert, and the broker has acknowledged them
all since. -/
def Acknowledged (D : Deployment) (w w' : World) : Prop :=
  ∃ alerts, List.Forall₂ (fun tx alert => buildWhaleAlertPayload tx = .ok alert)
      (whaleTransactions D w.txBatch) alerts ∧
    List.Subperm (alerts ++ w.acked) w'.acked

/-- After a flush that returned. -/
structure Returned (D : Deployment) (w w' : World) : Prop where
  txBatch : w'.txBatch = []
  tokenBatch : w'.tokenBatch = []
  stored : Written w w'.db
  acknowledged : Acknowledged D w w'
  committed : w'.committed = w.committed ∨ w'.committed = w.position
  leased : w'.leased = w.leased

/-- What a flush from `w` may have done, at any of its calls. -/
structure Underway (D : Deployment) (w w' : World) : Prop where
  stored : w'.db = w.db ∨ Written w w'.db
  committed : w'.committed = w.committed ∨
    w'.committed = w.position ∧ Written w w'.db ∧ Acknowledged D w w'

/-- After a flush that raised. -/
structure Raised (D : Deployment) (w w' : World) : Prop extends Underway D w w' where
  txBatch : w'.txBatch = w.txBatch
  tokenBatch : w'.tokenBatch = w.tokenBatch
  leased : w'.leased = w.leased

/-- A flush from `w`, however it ends. -/
def FlushLaw (D : Deployment) (w : World) (r : Result World Choice Exc Unit) : Prop :=
  match r.outcome with
  | .ok _ => Returned D w r.state
  | .raised _ => Raised D w r.state
  | .cut => Underway D w r.state

/-- Unless it is cut, a computation has returned every connection it has taken. -/
def PoolLaw {α : Type} (w : World) (r : Result World Choice Exc α) : Prop :=
  r.outcome ≠ .cut → r.state.leased = w.leased

/-! ### Acknowledgements add up -/

/-- An alert whose delivery has failed, noted or not yet. -/
def Doubtful (w : World) : Prop :=
  w.error.isSome ∨ ∃ q ∈ w.queue, ∃ err, q.report = some (some err)

/-- The alert waits for its delivery report. -/
def awaits (a : WhaleAlert) (q : InFlight) : Bool := q.alert = a && q.report.isNone

/-- The alerts `sent` are acknowledged or on their way, unless a delivery has failed. -/
def Covered (acked : List WhaleAlert) (sent : List WhaleAlert) (w : World) : Prop :=
  Doubtful w ∨ ∀ a, (sent ++ acked).count a ≤ w.acked.count a + w.queue.countP (awaits a)

theorem acked_suffix_background (w : World) (b : Background) :
    w.acked <:+ (w.background b).acked := by
  have hdeliver : ∀ i error, w.acked <:+ (w.deliver i error).acked := by
    intro i error
    unfold World.deliver
    split
    · dsimp only
      split
      · exact List.suffix_cons _ _
      · exact List.suffix_rfl
    · exact List.suffix_rfl
  cases b with
  | signal => exact List.suffix_rfl
  | delivered i => exact hdeliver i none
  | undelivered i error => exact hdeliver i (some error)
  | expired n => exact List.suffix_rfl

theorem acked_suffix_after (w : World) (bs : List Background) : w.acked <:+ (w.after bs).acked := by
  induction bs generalizing w with
  | nil => exact List.suffix_rfl
  | cons b bs ih => exact (acked_suffix_background w b).trans (ih _)

theorem awaits_reported (a alert : WhaleAlert) (error : Option String) :
    awaits a ⟨alert, some error⟩ = false := by
  simp [awaits]

theorem awaits_unreported (a alert : WhaleAlert) : awaits a ⟨alert, none⟩ = decide (alert = a) := by
  simp [awaits]

/-- A delivery report moves an alert from the queue to the acknowledged ones. -/
theorem Covered.deliver {acked sent : List WhaleAlert} {w : World} (h : Covered acked sent w)
    (i : ℕ) (error : Option String) : Covered acked sent (w.deliver i error) := by
  unfold World.deliver
  split
  · next alert hx =>
    obtain ⟨hi, hqi⟩ := List.getElem?_eq_some_iff.mp hx
    cases error with
    | some err =>
      exact .inl (.inr ⟨⟨alert, some (some err)⟩, List.mem_set hi _, err, rfl⟩)
    | none =>
      rcases h with (h | ⟨q, hq, err, herr⟩) | h
      · exact .inl (.inl h)
      · -- the report is of another alert
        obtain ⟨j, hj⟩ := List.mem_iff_getElem?.mp hq
        have hne : i ≠ j := by
          rintro rfl
          rw [hx] at hj
          cases hj
          cases herr
        have hmem : (w.queue.set i ⟨alert, some none⟩)[j]? = some q := by
          rw [List.getElem?_set_ne hne]
          exact hj
        exact .inl (.inr ⟨q, List.mem_of_getElem? hmem, err, herr⟩)
      · refine .inr fun a => ?_
        have ha := h a
        have hset : (w.queue.set i ⟨alert, some none⟩).countP (awaits a) =
            w.queue.countP (awaits a) - if decide (alert = a) then 1 else 0 := by
          rw [List.countP_set hi, awaits_reported, hqi, awaits_unreported]
          simp
        have hle : (if decide (alert = a) then 1 else 0) ≤ w.queue.countP (awaits a) := by
          split
          · next heq =>
            rw [← awaits_unreported, ← hqi] at heq
            exact List.countP_pos_iff.mpr ⟨_, List.getElem_mem hi, heq⟩
          · exact Nat.zero_le _
        show _ ≤ (if (none : Option String) = none then alert :: w.acked else w.acked).count a +
          (w.queue.set i ⟨alert, some none⟩).countP (awaits a)
        rw [if_pos rfl, hset, List.count_cons]
        by_cases heq : alert = a
        · simp only [heq, decide_true, if_true, beq_self_eq_true] at hle ⊢
          omega
        · simp only [heq, decide_false, Bool.false_eq_true, if_false, beq_iff_eq]
          omega
  · exact h

theorem Covered.after {acked sent : List WhaleAlert} {w : World} (h : Covered acked sent w)
    (bs : List Background) : Covered acked sent (w.after bs) := by
  induction bs generalizing w with
  | nil => exact h
  | cons b bs ih =>
    refine ih ?_
    cases b with
    | signal => exact h
    | delivered i => exact h.deliver i none
    | undelivered i error => exact h.deliver i (some error)
    | expired n => exact h

theorem Covered.serve {acked sent : List WhaleAlert} {w : World} (h : Covered acked sent w) :
    Covered acked sent (Call.serve w) := by
  rcases h with h | h
  · exact .inl (.inl (servedError_isSome h))
  · refine .inr fun a => (h a).trans (Nat.add_le_add_left (le_of_eq ?_) _)
    show _ = (w.queue.filter (·.report.isNone)).countP (awaits a)
    rw [List.countP_filter]
    refine List.countP_congr fun q _ => ?_
    simp only [awaits, Bool.and_eq_true, decide_eq_true_eq]
    tauto

theorem Covered.enqueue {acked sent : List WhaleAlert} {w : World} (h : Covered acked sent w)
    (a : WhaleAlert) :
    Covered acked (sent ++ [a]) { w with queue := w.queue ++ [⟨a, none⟩] } := by
  rcases h with (h | ⟨q, hq, err, herr⟩) | h
  · exact .inl (.inl h)
  · exact .inl (.inr ⟨q, List.mem_append_left _ hq, err, herr⟩)
  · refine .inr fun b => ?_
    have hb := h b
    simp only [List.count_append, List.countP_append] at hb ⊢
    by_cases heq : a = b
    · simp only [heq, awaits, List.count_singleton_self, List.countP_singleton, decide_true,
        Option.isNone_none, Bool.and_self, if_true]
      omega
    · have hzero : List.count b [a] = 0 := by simp [heq]
      omega

/-- With nothing in the queue and no failure noted, what was sent is acknowledged. -/
theorem Covered.subperm {acked sent : List WhaleAlert} {w : World} (h : Covered acked sent w)
    (hqueue : w.queue = []) (herror : w.error = none) : List.Subperm (sent ++ acked) w.acked := by
  rcases h with (h | ⟨q, hq, -⟩) | h
  · rw [herror] at h
    cases h
  · rw [hqueue] at hq
    cases hq
  · refine List.subperm_ext_iff.mpr fun a _ => ?_
    have ha := h a
    rw [hqueue, List.countP_nil] at ha
    exact ha

/-! ### The course of a flush -/

/-- An assertion that the producer and the cache cannot break, if acknowledgements are only
added. -/
theorem Stable.of_suffix {H : Choice → Prop} {P : World → Prop}
    (h : ∀ w running queue acked redis, P w → w.acked <:+ acked →
      P { w with running, queue, acked, redis }) : Stable H P := by
  intro c w _ hw
  have hsuffix := acked_suffix_after w c.background
  obtain ⟨r, q, a, m, he, -⟩ := w.later_after c.background
  rw [he] at hsuffix ⊢
  exact h w r q a m hw hsuffix

section Course

variable {D : Deployment} {w₀ w : World}

theorem Acknowledged.mono (h : Acknowledged D w₀ w) {w' : World} (ha : w.acked <:+ w'.acked) :
    Acknowledged D w₀ w' := by
  obtain ⟨alerts, hpayload, hsub⟩ := h
  exact ⟨alerts, hpayload, hsub.trans ha.sublist.subperm⟩

/-- A flush from `w₀` that has not come to the offsets. -/
structure Course (w₀ w : World) : Prop where
  txBatch : w.txBatch = w₀.txBatch
  tokenBatch : w.tokenBatch = w₀.tokenBatch
  position : w.position = w₀.position
  committed : w.committed = w₀.committed
  leased : w.leased = w₀.leased
  acked : w₀.acked <:+ w.acked

/-- In the transaction: nothing is committed, and the connection has `T` with `written T`. -/
structure InTransaction (w₀ : World) (written : Tables → Prop) (w : World) : Prop
    extends Course w₀ w where
  db : w.db = w₀.db
  conn : ∃ T, w.conn = some T ∧ written T

/-- The transaction is committed, and the whales `whales` are announced by `alerts`. -/
structure Announcing (w₀ : World) (whales : List TransactionModel) (w : World) : Prop
    extends Course w₀ w where
  stored : Written w₀ w.db
  sent : ∃ alerts, List.Forall₂ (fun tx alert => buildWhaleAlertPayload tx = .ok alert)
    whales alerts ∧ Covered w₀.acked alerts w

/-- Nothing is left to do but the offsets. -/
structure Announced (D : Deployment) (w₀ w : World) : Prop extends Course w₀ w where
  stored : Written w₀ w.db
  acknowledged : Acknowledged D w₀ w

theorem Course.raised (h : Course w₀ w) (hs : w.db = w₀.db ∨ Written w₀ w.db) : Raised D w₀ w :=
  ⟨⟨hs, .inl h.committed⟩, h.txBatch, h.tokenBatch, h.leased⟩

theorem Returned.underway (h : Returned D w₀ w) : Underway D w₀ w := by
  refine ⟨.inr h.stored, ?_⟩
  apply h.committed.imp_right
  intro hcommitted
  exact ⟨hcommitted, h.stored, h.acknowledged⟩

theorem Course.background (h : Course w₀ w) (running queue acked redis)
    (ha : w.acked <:+ acked) : Course w₀ { w with running, queue, acked, redis } :=
  { h with acked := h.acked.trans ha }

theorem InTransaction.stable {H : Choice → Prop} {written : Tables → Prop} :
    Stable H (InTransaction w₀ written) :=
  Stable.of_suffix fun _ r q a m h ha => ⟨h.toCourse.background r q a m ha, h.db, h.conn⟩

theorem Announced.stable {H : Choice → Prop} : Stable H (Announced D w₀) :=
  Stable.of_suffix fun _ r q a m h ha =>
    ⟨h.toCourse.background r q a m ha, h.stored, h.acknowledged.mono ha⟩

theorem Raised.stable {H : Choice → Prop} : Stable H (Raised D w₀) := by
  refine Stable.of_suffix fun w r q a m h ha => ⟨⟨h.stored, ?_⟩, h.txBatch, h.tokenBatch, h.leased⟩
  exact h.committed.imp_right fun hc => ⟨hc.1, hc.2.1, hc.2.2.mono ha⟩

theorem Returned.stable {H : Choice → Prop} : Stable H (Returned D w₀) :=
  Stable.of_suffix fun _ _ _ _ _ h ha => { h with acknowledged := h.acknowledged.mono ha }

theorem Announcing.stable {H : Choice → Prop} {whales : List TransactionModel} :
    Stable H (Announcing w₀ whales) := by
  intro c w _ h
  have hsuffix := acked_suffix_after w c.background
  obtain ⟨alerts, hpayload, hcovered⟩ := h.sent
  have hafter := hcovered.after c.background
  obtain ⟨r, q, a, m, he, -⟩ := w.later_after c.background
  rw [he] at hsuffix hafter ⊢
  exact ⟨h.toCourse.background r q a m hsuffix, h.stored, alerts, hpayload, hafter⟩

theorem Announcing.raised {whales : List TransactionModel} (h : Announcing w₀ whales w) :
    Raised D w₀ w :=
  h.toCourse.raised (.inr h.stored)

/-! ### Call by call -/

theorem Announcing.serve {whales : List TransactionModel} (h : Announcing w₀ whales w) :
    Announcing w₀ whales (Call.serve w) := by
  obtain ⟨alerts, hpayload, hcovered⟩ := h.sent
  exact ⟨{ h.toCourse with }, h.stored, alerts, hpayload, hcovered.serve⟩

/-- A statement of the transaction takes it from `written` to `written'`. -/
theorem execute_atomic {written written' : Tables → Prop} {statement : Tables → Option Tables}
    (hw : ∀ T T', written T → statement T = some T' → written' T') :
    Triple (Env False) (InTransaction w₀ written) (Call.execute statement)
      (fun _ => InTransaction w₀ written') (fun _ => Raised D w₀) (Underway D w₀) := by
  refine Triple.service InTransaction.stable
    (fun w h => (h.toCourse.raised (.inl h.db)).toUnderway) ?_ ?_
  · intro c w u w' _ h hf
    obtain ⟨T, hT, hwritten⟩ := h.conn
    split at hf <;> simp only [Prod.mk.injEq, reduceCtorEq, false_and] at hf
    next T' _ hT' =>
      rw [hT, Option.bind_some] at hT'
      rw [← hf.2]
      exact ⟨{ h.toCourse with }, h.db, T', rfl, hw T T' hwritten hT'⟩
  · intro c w e w' _ h hf
    split at hf <;> simp only [Prod.mk.injEq, reduceCtorEq, false_and] at hf
    rw [← hf.2]
    exact h.toCourse.raised (.inl h.db)

/-- The commit stores all that the transaction has written. -/
theorem commitTransaction_atomic :
    Triple (Env False) (InTransaction w₀ (Written w₀)) Call.commitTransaction
      (fun _ => Announcing w₀ []) (fun _ => Raised D w₀) (Underway D w₀) := by
  have hcommit : ∀ w : World, InTransaction w₀ (Written w₀) w →
      Announcing w₀ [] { w with db := w.conn.getD w.db } := by
    intro w h
    obtain ⟨T, hT, hwritten⟩ := h.conn
    refine ⟨{ h.toCourse with }, ?_, [], .nil, .inr fun a => ?_⟩
    · rw [hT]
      exact hwritten
    · exact (h.acked.sublist.count_le a).trans (Nat.le_add_right _ _)
  refine Triple.service InTransaction.stable
    (fun w h => (h.toCourse.raised (.inl h.db)).toUnderway) ?_ ?_
  · intro c w u w' _ h hf
    split at hf <;> simp only [Prod.mk.injEq, reduceCtorEq, false_and] at hf
    rw [← hf.2]
    exact hcommit w h
  · intro c w e w' _ h hf
    split at hf <;> simp only [Prod.mk.injEq, reduceCtorEq, false_and] at hf
    · rw [← hf.2]
      exact (hcommit w h).raised
    · rw [← hf.2]
      exact h.toCourse.raised (.inl h.db)

/-- One alert more is on its way. -/
theorem sendMessage_atomic {whales : List TransactionModel} {tx : TransactionModel}
    {alert : WhaleAlert} (ha : buildWhaleAlertPayload tx = .ok alert) :
    Triple (Env False) (Announcing w₀ whales) (sendMessage alert)
      (fun _ => Announcing w₀ (whales ++ [tx])) (fun _ => Raised D w₀) (Underway D w₀) := by
  have henqueue : ∀ w : World, Announcing w₀ whales w →
      Announcing w₀ (whales ++ [tx]) { w with
        handed := (alert, w.db) :: w.handed
        queue := w.queue ++ [⟨alert, none⟩] } := by
    intro w h
    obtain ⟨alerts, hpayload, hcovered⟩ := h.sent
    refine ⟨{ h.toCourse with }, h.stored, alerts ++ [alert], ?_, hcovered.enqueue alert⟩
    exact List.rel_append hpayload (.cons ha .nil)
  apply Triple.bind (Q := fun _ => Announcing w₀ (whales ++ [tx]))
  · refine Triple.service Announcing.stable (fun w h => h.raised.toUnderway) ?_ ?_
    · intro c w u w' _ h hf
      split at hf <;> simp only [Prod.mk.injEq, reduceCtorEq, false_and] at hf
      rw [← hf.2]
      exact henqueue w h
    · intro c w e w' _ h hf
      split at hf <;> simp only [Prod.mk.injEq, reduceCtorEq, false_and] at hf
      · rw [← hf.2]
        exact (henqueue w h).raised
      · rw [← hf.2]
        exact { h.raised with }
  · intro _
    refine Triple.service Announcing.stable (fun w h => h.raised.toUnderway) ?_ ?_
    · intro c w u w' _ h hf
      rw [← (Prod.mk.inj hf).2]
      exact h.serve
    · intro c w e w' _ _ hf
      cases hf

/-- A flush of the producer that returns has had every alert acknowledged. -/
theorem producerFlush_atomic :
    Triple (Env False) (Announcing w₀ (whaleTransactions D w₀.txBatch)) producerFlush
      (fun _ => Announced D w₀) (fun _ => Raised D w₀) (Underway D w₀) := by
  apply Triple.bind (Q := fun remaining w =>
    Announcing w₀ (whaleTransactions D w₀.txBatch) w ∧ w.queue.length = remaining)
  · refine Triple.service Announcing.stable (fun w h => h.raised.toUnderway) ?_ ?_
    · intro c w n w' _ h hf
      simp only [Prod.mk.injEq, Except.ok.injEq] at hf
      rw [← hf.1, ← hf.2]
      exact ⟨h.serve, rfl⟩
    · intro c w e w' _ _ hf
      cases hf
  · intro remaining
    apply Triple.ite
    · intro _
      exact Triple.raise fun w h => h.1.raised
    · intro hzero
      refine Triple.bind (Q := fun v w => w = v ∧
        Announcing w₀ (whaleTransactions D w₀.txBatch) w ∧ w.queue.length = remaining)
        (Triple.getState fun w h => ⟨rfl, h⟩) fun v => ?_
      cases herr : v.error with
      | some err =>
        refine Triple.bind (Q := fun _ => Raised D w₀) (Triple.modifyState fun w h => ?_) fun _ =>
          Triple.raise fun w h => h
        exact { h.2.1.raised with }
      | none =>
        apply Triple.pure
        rintro w ⟨rfl, h, hlen⟩
        have hqueue : w.queue = [] := List.length_eq_zero_iff.mp (hlen.trans (not_not.mp hzero))
        obtain ⟨alerts, hpayload, hcovered⟩ := h.sent
        exact ⟨h.toCourse, h.stored, alerts, hpayload, hcovered.subperm hqueue herr⟩

/-- `publish_whale_alerts` returns when every whale of the batch is announced. -/
theorem publishWhaleAlerts_atomic :
    Triple (Env False) (Announcing w₀ []) (publishWhaleAlerts D w₀.txBatch)
      (fun _ => Announced D w₀) (fun _ => Raised D w₀) (Underway D w₀) := by
  -- the whales of the batch are those announced and those still to announce
  let J : List TransactionModel → World → Prop := fun rest w =>
    ∃ whales, whaleTransactions D w₀.txBatch = whales ++ rest ∧ Announcing w₀ whales w
  have hround : ∀ tx rest, Triple (Env False) (J (tx :: rest))
      (do
        let alert ← ofExcept (buildWhaleAlertPayload tx)
        sendMessage alert)
      (fun _ => J rest) (fun _ => Raised D w₀) (Underway D w₀) := by
    intro tx rest w cs ⟨whales, hsplit, h⟩ hH
    have hsplit' : whaleTransactions D w₀.txBatch = (whales ++ [tx]) ++ rest := by
      rw [hsplit, List.append_assoc, List.singleton_append]
    have hsend : Triple (Env False) (Announcing w₀ whales)
        (do
          let alert ← ofExcept (buildWhaleAlertPayload tx)
          sendMessage alert)
        (fun _ => J rest) (fun _ => Raised D w₀) (Underway D w₀) := by
      refine Triple.bind (Q := fun alert w => buildWhaleAlertPayload tx = .ok alert ∧
        Announcing w₀ whales w) ?_ fun alert => ?_
      · exact Triple.ofExcept (fun alert w ha h => ⟨ha, h⟩) fun e w _ h => h.raised
      · exact Triple.given fun ha => (sendMessage_atomic ha).post fun _ w h => ⟨_, hsplit', h⟩
    exact hsend w cs h hH
  have hall := Triple.forEach (whaleTransactions D w₀.txBatch) hround
  refine Triple.bind (hall.pre fun w h => ⟨[], rfl, h⟩) fun _ => ?_
  refine Triple.bind (Q := fun _ => Announced D w₀) ?_ fun _ => Triple.pure fun w h => h
  apply Triple.when
  · intro _
    refine producerFlush_atomic.pre ?_
    rintro w ⟨whales, hsplit, h⟩
    rw [List.append_nil] at hsplit
    rw [hsplit]
    exact h
  · rintro w hnil ⟨whales, hsplit, h⟩
    refine ⟨h.toCourse, h.stored, [], ?_, h.acked.sublist.subperm⟩
    rw [not_not.mp hnil]
    exact .nil

/-- The offsets are committed when everything before has succeeded. -/
theorem commitOffsets_atomic :
    Triple (Env False) (Announced D w₀) Call.commitOffsets
      (fun _ w => Written w₀ w.db ∧ Acknowledged D w₀ w ∧
        (w.committed = w₀.committed ∨ w.committed = w₀.position) ∧ w.leased = w₀.leased)
      (fun _ => Raised D w₀) (Underway D w₀) := by
  have hraised : ∀ w : World, Announced D w₀ w → Raised D w₀ w :=
    fun w h => h.toCourse.raised (.inr h.stored)
  refine Triple.service Announced.stable (fun w h => (hraised w h).toUnderway) ?_ ?_
  · intro c w u w' _ h hf
    split at hf <;> simp only [Prod.mk.injEq, reduceCtorEq, false_and] at hf
    · rw [← hf.2]
      exact ⟨h.stored, h.acknowledged, .inr h.position, h.leased⟩
    · rw [← hf.2]
      exact ⟨h.stored, h.acknowledged, .inl h.committed, h.leased⟩
  · intro c w e w' _ h hf
    split at hf <;> simp only [Prod.mk.injEq, reduceCtorEq, false_and] at hf
    · rw [← hf.2]
      exact hraised w h
    · rw [← hf.2]
      exact { hraised w h with committed := .inr ⟨h.position, h.stored, h.acknowledged⟩ }

theorem flushBody_atomic :
    Triple (Env False) (InTransaction w₀ fun T => w₀.db = T) (flushBody D)
      (fun _ => Returned D w₀) (fun _ => Raised D w₀) (Underway D w₀) := by
  have hundone : ∀ {written : Tables → Prop} (w : World), InTransaction w₀ written w →
      Raised D w₀ w := fun w h => h.toCourse.raised (.inl h.db)
  apply Triple.bind (Q := fun _ => InTransaction w₀ fun T => w₀.db = T)
  · -- conn.autocommit = False
    refine Triple.service InTransaction.stable (fun w h => (hundone w h).toUnderway) ?_ ?_
    · intro c w u w' _ h hf
      split at hf <;> simp only [Prod.mk.injEq, reduceCtorEq, false_and] at hf
      rw [← hf.2]
      exact h
    · intro c w e w' _ h hf
      split at hf <;> simp only [Prod.mk.injEq, reduceCtorEq, false_and] at hf
      rw [← hf.2]
      exact hundone w h
  intro _
  refine Triple.bind (Q := fun v w => (v.txBatch = w₀.txBatch ∧ v.tokenBatch = w₀.tokenBatch) ∧
    InTransaction w₀ (fun T => w₀.db = T) w)
    (Triple.getState fun w h => ⟨⟨h.txBatch, h.tokenBatch⟩, h⟩) fun v => ?_
  apply Triple.given
  rintro ⟨htx, htoken⟩
  rw [htx, htoken]
  apply Triple.bind (Q := fun _ => InTransaction w₀ fun T =>
    w₀.db.insertTransactionsBatch w₀.txBatch = some T)
  · apply Triple.when
    · intro _
      apply execute_atomic
      rintro _ T rfl hT
      exact hT
    · intro w hnil h
      obtain ⟨T, hT, rfl⟩ := h.conn
      refine ⟨h.toCourse, h.db, _, hT, ?_⟩
      rw [not_not.mp hnil]
      exact w₀.db.insertTransactionsBatch_nil
  intro _
  apply Triple.bind (Q := fun _ => InTransaction w₀ (Written w₀))
  · apply Triple.when
    · intro _
      exact execute_atomic fun T U hT hU => ⟨T, hT, hU⟩
    · intro w hnil h
      obtain ⟨T, hT, hwritten⟩ := h.conn
      refine ⟨h.toCourse, h.db, T, hT, T, hwritten, ?_⟩
      rw [not_not.mp hnil]
      exact T.insertTokenTransfersBatch_nil
  intro _
  refine Triple.bind commitTransaction_atomic fun _ => ?_
  refine Triple.bind publishWhaleAlerts_atomic fun _ => ?_
  refine Triple.bind commitOffsets_atomic fun _ => Triple.modifyState fun w h => ?_
  exact ⟨rfl, rfl, h.1, h.2.1, h.2.2.1, h.2.2.2⟩

end Course

/-! ### The connection goes back -/

section Lease

variable {D : Deployment} {w₀ : World}

/-- The start of a flush once its connection is out. -/
def World.lease (w : World) : World := { w with leased := w.leased + 1 }

theorem getConnection_atomic :
    Triple (Env False) (fun w => Course w₀ w ∧ w.db = w₀.db) Call.getConnection
      (fun _ => InTransaction w₀.lease fun T => w₀.db = T) (fun _ => Raised D w₀)
      (Underway D w₀) := by
  have hstable : Stable (Env False) fun w => Course w₀ w ∧ w.db = w₀.db :=
    Stable.of_suffix fun _ r q a m h ha => ⟨h.1.background r q a m ha, h.2⟩
  refine Triple.service hstable (fun w h => (h.1.raised (.inl h.2)).toUnderway) ?_ ?_
  · intro c w u w' _ h hf
    split at hf <;> simp only [Prod.mk.injEq, reduceCtorEq, false_and] at hf
    rw [← hf.2]
    exact ⟨{ h.1 with leased := congrArg (· + 1) h.1.leased }, h.2, _, rfl, h.2.symm⟩
  · intro c w e w' _ h hf
    split at hf <;> simp only [Prod.mk.injEq, reduceCtorEq, false_and] at hf
    rw [← hf.2]
    exact h.1.raised (.inl h.2)

theorem releaseConnection_of_raised :
    Triple (Env False) (Raised D w₀.lease) Call.releaseConnection
      (fun _ => Raised D w₀) (fun _ => Raised D w₀) (Underway D w₀) := by
  refine Triple.service Raised.stable (fun w h => ⟨h.stored, h.committed⟩) ?_ ?_
  · intro c w u w' _ h hf
    rw [← (Prod.mk.inj hf).2]
    exact { h with leased := congrArg (· - 1) h.leased }
  · intro c w e w' _ _ hf
    cases hf

theorem releaseConnection_of_returned :
    Triple (Env False) (Returned D w₀.lease) Call.releaseConnection
      (fun _ => Returned D w₀) (fun _ => Raised D w₀) (Underway D w₀) := by
  refine Triple.service Returned.stable (fun w h => ?_) ?_ ?_
  · exact ⟨h.underway.stored, h.underway.committed⟩
  · intro c w u w' _ h hf
    rw [← (Prod.mk.inj hf).2]
    exact { h with leased := congrArg (· - 1) h.leased }
  · intro c w e w' _ _ hf
    cases hf

theorem rollback_atomic :
    Triple (Env False) (Raised D w₀) Call.rollback
      (fun _ => Raised D w₀) (fun _ => Raised D w₀) (Underway D w₀) := by
  refine Triple.service Raised.stable (fun w h => h.toUnderway) ?_ ?_
  · intro c w u w' _ h hf
    split at hf <;> simp only [Prod.mk.injEq, reduceCtorEq, false_and] at hf
    rw [← hf.2]
    exact { h with }
  · intro c w e w' _ h hf
    split at hf <;> simp only [Prod.mk.injEq, reduceCtorEq, false_and] at hf
    rw [← hf.2]
    exact h

/-- **`flush_batches`** from `w₀`, whichever of its calls fails. -/
theorem flushBatches_atomic :
    Triple (Env False) (· = w₀) (flushBatches D) (fun _ => Returned D w₀) (fun _ => Raised D w₀)
      (Underway D w₀) := by
  apply Triple.bind
  · apply getConnection_atomic.pre
    rintro w rfl
    exact ⟨⟨rfl, rfl, rfl, rfl, rfl, List.suffix_rfl⟩, rfl⟩
  intro _
  have hunderway : ∀ w, Underway D w₀.lease w → Underway D w₀ w :=
    fun w h => ⟨h.stored, h.committed⟩
  apply Triple.tryFinally (B := fun _ => Returned D w₀.lease) (F := fun _ => Raised D w₀.lease)
  · refine Triple.tryCatch (flushBody_atomic.cut hunderway) fun e => ?_
    apply Triple.ite
    · intro _
      exact Triple.bind (rollback_atomic.cut hunderway) fun _ => Triple.raise fun w h => h
    · intro _
      exact Triple.raise fun w h => h
  · intro _
    exact releaseConnection_of_returned
  · intro _
    exact releaseConnection_of_raised

end Lease

/-! ### The pool -/

/-- The computation returns the connections it takes, unless it is cut. -/
def Balanced {α : Type} (c : Prog α) : Prop :=
  ∀ n : ℕ, Triple (Env False) (World.leased · = n) c (fun _ w => w.leased = n)
    (fun _ w => w.leased = n) fun _ => True

namespace Balanced

variable {α β : Type} {c : Prog α} {f : α → Prog β}

theorem pure (a : α) : Balanced (Pure.pure a : Prog α) := fun _ => Triple.pure fun _ h => h

theorem raise (e : Exc) : Balanced (Exec.raise e : Prog α) := fun _ => Triple.raise fun _ h => h

theorem getState : Balanced (Exec.getState : Prog World) := fun _ => Triple.getState fun _ h => h

theorem modifyState {g : World → World} (h : ∀ w, (g w).leased = w.leased) :
    Balanced (Exec.modifyState g : Prog Unit) :=
  fun _ => Triple.modifyState fun w hw => (h w).trans hw

theorem ofExcept (x : Except Exc α) : Balanced (Exec.ofExcept x : Prog α) :=
  fun _ => Triple.ofExcept (fun _ _ _ h => h) fun _ _ _ h => h

/-- A call other than those of the pool. -/
theorem ofService {g : Choice → World → Except Exc α × World}
    (h : ∀ c w, (g c w).2.leased = w.leased) : Balanced (Consumer.service g) := by
  intro n
  refine Triple.service (Stable.of_suffix fun _ _ _ _ _ hw _ => hw) (fun _ _ => trivial) ?_ ?_
  · intro c w a w' _ hw hg
    have hkept := h c w
    rw [hg] at hkept
    exact hkept.trans hw
  · intro c w e w' _ hw hg
    have hkept := h c w
    rw [hg] at hkept
    exact hkept.trans hw

theorem bind (hc : Balanced c) (hf : ∀ a, Balanced (f a)) : Balanced (c >>= f) :=
  fun n => Triple.bind (hc n) fun a => hf a n

theorem tryCatch {handler : Exc → Prog α} (hc : Balanced c) (hh : ∀ e, Balanced (handler e)) :
    Balanced (Exec.tryCatch c handler) :=
  fun n => Triple.tryCatch (hc n) fun e => hh e n

theorem tryFinally {last : Prog Unit} (hc : Balanced c) (hl : Balanced last) :
    Balanced (Exec.tryFinally c last) :=
  fun n => Triple.tryFinally (hc n) (fun _ => hl n) fun _ => hl n

theorem ite {p : Prop} [Decidable p] {c₁ c₂ : Prog α} (h₁ : Balanced c₁) (h₂ : Balanced c₂) :
    Balanced (if p then c₁ else c₂) :=
  fun n => Triple.ite (fun _ => h₁ n) fun _ => h₂ n

theorem when {p : Prop} [Decidable p] {body : Prog Unit} (h : Balanced body) :
    Balanced (Exec.when p body) := ite h (pure ())

theorem guarded {handler : Exc → Prog α} (hc : Balanced c)
    (hh : ∀ e, Balanced (handler e)) : Balanced (Consumer.exceptException c handler) :=
  tryCatch hc fun e => ite (hh e) (raise e)

theorem loop {body : Prog Bool} (h : Balanced body) : Balanced (Exec.loop body) := by
  intro n
  refine Triple.loop (fun _ _ => trivial) ((h n).post fun again w hw => ?_)
  cases again <;> exact hw

theorem iterations {body : Prog Bool} (h : Balanced body) (m : ℕ) :
    Balanced (Exec.iterations body m) := by
  intro n
  refine (Triple.iterations (J := (World.leased · = n)) (Q := (World.leased · = n)) ?_ m).post ?_
  · refine (h n).post fun again w hw => ?_
    cases again <;> exact hw
  · intro again w hw
    cases again <;> exact hw

/-- A balanced computation obeys the law of the pool. -/
theorem poolLaw (h : Balanced c) (w : World) (cs : List Choice) : PoolLaw w (c w cs) := by
  intro hcut
  have hmeets := (h w.leased w cs rfl fun _ _ hfalse => hfalse.elim).2
  rcases hr : c w cs with ⟨o, w', cs'⟩
  rw [hr] at hmeets hcut
  cases o with
  | ok a => exact hmeets
  | raised e => exact hmeets
  | cut => exact absurd rfl hcut

theorem probe (on : Service) (error : Exc) : Balanced (Call.probe on error) := by
  apply ofService
  intro c w
  split
  · rfl
  · rfl

end Balanced

section Pool

open Consumer.Balanced

variable (D : Deployment)

theorem balanced_flushBatches : Balanced (flushBatches D) := by
  rintro n w cs rfl hH
  have hflush := (flushBatches_atomic (D := D)).post (Q := fun _ v => v.leased = w.leased)
    fun _ v h => h.leased
  exact ((hflush.conseq (fun _ h => h) (fun _ _ h => h) fun _ _ h => h.leased).cut
    fun _ _ => trivial) w cs rfl hH

theorem balanced_producerFlush : Balanced producerFlush := by
  refine bind (ofService fun c w => rfl) fun remaining => ite (raise _) (bind getState fun w => ?_)
  cases w.error with
  | some err => exact bind (modifyState fun w => rfl) fun _ => raise _
  | none => exact pure ()

theorem balanced_getBlockTimestamp (blockNumber : ℤ) :
    Balanced (Call.getBlockTimestamp blockNumber) := by
  apply ofService
  intro c w
  split
  · rfl
  · rfl

theorem balanced_retryLookup (blockNumber : ℤ) (retries : ℕ) (cachedTime : Option IsoText) :
    Balanced (retryLookup blockNumber retries cachedTime) := by
  induction retries generalizing cachedTime with
  | zero => exact pure _
  | succ retries ih =>
    refine ite ?_ (pure _)
    refine bind (ofService fun c w => rfl) fun _ => bind (balanced_getBlockTimestamp _) fun _ => ?_
    exact ih _

theorem balanced_handleMessage (topic : Option Topic) (data : Json) :
    Balanced (handleMessage D topic data) := by
  cases topic with
  | none => exact pure ()
  | some topic =>
    cases topic with
    | blocks =>
      refine bind (ofExcept _) fun block => ofService fun c w => ?_
      dsimp only
      split
      · rfl
      · rfl
      · rfl
    | transactions =>
      exact bind (ofService fun c w => rfl) fun now => bind (ofExcept _) fun tx =>
        modifyState fun w => rfl
    | tokenTransfers =>
      refine bind (ofService fun c w => rfl) fun now => bind (ofExcept _) fun tt => bind ?_ ?_
      · refine ite (pure _) (bind (balanced_getBlockTimestamp _) fun cachedTime => ?_)
        refine bind (balanced_retryLookup _ _ _) fun cachedTime => ?_
        cases cachedTime with
        | none => exact bind (modifyState fun w => rfl) fun _ => pure _
        | some text => exact pure _
      · intro enriched
        cases enriched with
        | some tt => exact modifyState fun w => rfl
        | none => exact pure ()

theorem balanced_poll : Balanced (Call.poll D) := by
  apply ofService
  intro c w
  split
  · rfl
  · rfl
  · rfl
  · split
    · rfl
    · rfl

theorem balanced_round : Balanced (round D) := by
  have hflush : Balanced (flushIfFull D) :=
    bind getState fun _ => when (guarded (balanced_flushBatches D) fun _ => pure ())
  refine bind (ofService fun c w => rfl) fun running => ite ?_ (pure _)
  refine bind (balanced_poll D) fun polled => ?_
  obtain ⟨topic, data⟩ := polled
  cases data with
  | none => exact bind hflush fun _ => pure _
  | some data =>
    refine bind (tryCatch (bind (balanced_handleMessage D topic data) fun _ => pure _) ?_) ?_
    · intro e
      exact ite (pure _) (raise e)
    · intro _
      exact bind (when hflush) fun _ => pure _

theorem balanced_main : Balanced (main D) := by
  have hattempt : ∀ on error, Balanced (attempt on error) := fun on error =>
    guarded (bind (probe on error) fun _ => pure _) fun _ => pure _
  have hclose : Balanced (do
      Call.probe .kafka .kafkaException
      Call.probe .postgres .databaseError : Prog Unit) := bind (probe _ _) fun _ => probe _ _
  have hshutdown : Balanced (shutdown D) := by
    refine bind getState fun w => bind (when ?_) fun _ => tryFinally ?_ hclose
    · exact guarded (balanced_flushBatches D) fun _ => pure ()
    · exact guarded balanced_producerFlush fun _ => pure ()
  refine bind (hattempt _ _) fun database => ite (bind (probe _ _) fun _ => ?_) (pure ())
  refine bind (hattempt _ _) fun redis => ite ?_ (bind balanced_producerFlush fun _ => hclose)
  refine tryFinally (tryCatch (loop (balanced_round D)) fun e => ?_) hshutdown
  exact ite (pure ()) (raise e)

end Pool

/-- **A flush happens as a whole**, whichever of its calls fails and even if the rollback
fails too; and between the rounds of the loop, and at the end of a process, every
connection taken from the pool is back in it. -/
theorem flush_is_atomic (D : Deployment) (w : World) (cs : List Choice) :
    FlushLaw D w (flushBatches D w cs) ∧
      (∀ n, PoolLaw w (iterations (round D) n w cs)) ∧ PoolLaw w (main D w cs) := by
  refine ⟨?_, ?_, ?_⟩
  · have hmeets := (flushBatches_atomic (D := D) w cs rfl fun _ _ hfalse => hfalse.elim).2
    unfold FlushLaw
    rcases hr : flushBatches D w cs with ⟨o, w', cs'⟩
    rw [hr] at hmeets
    cases o with
    | ok a => exact hmeets
    | raised e => exact hmeets
    | cut => exact hmeets
  · intro n
    exact ((balanced_round D).iterations n).poolLaw w cs
  · exact (balanced_main D).poolLaw w cs

end Consumer

import EthPipeline.Consumer.Machine

/-!
# A flush makes only the steps of the machine

`flush_batches` and the publication of the alerts, function by function.
`flushBatches_triple`: entered with nothing in hand, or with a message that was
lost to a Redis error, a flush leads to a world the steps of `Machine.lean` lead
to, at every cut and at its end.  In a calm environment it leaves the batches
stored, if they fit the columns.

The local argument is the one about the alerts: each one given to the producer in
this call is acknowledged, or in the queue, or `_error` is set (`Tracked`), so a
flush that finds the queue empty and no error has published them all.
-/

namespace Consumer

open Exec Relation

/-- What the choices are known to satisfy. -/
def Env (calm : Prop) (c : Choice) : Prop := calm → c.Calm

theorem Stable.of_later {calm : Prop} {P : World → Prop}
    (h : ∀ w running queue acked redis, P w → w.acked ⊆ acked →
      World.QueueLater acked w.queue queue → (calm → redis = w.redis) →
      P { w with running, queue, acked, redis }) : Stable (Env calm) P := by
  intro c w hc hw
  obtain ⟨r, q, a, m, he, ha, hq, hm⟩ := w.later_after c.background
  rw [he]
  exact h w r q a m hw ha hq fun hcalm => hm (hc hcalm).kept

/-- An assertion that does not speak of the producer, the connection or the
running flag, and that more acknowledgements keep. -/
def Quiet (calm : Prop) (P : World → Prop) : Prop :=
  ∀ {w : World} (running queue acked redis error conn leased), P w → w.acked ⊆ acked →
    (calm → redis = w.redis) →
      P { w with running, queue, acked, redis, error, conn, leased }

theorem Quiet.stable {calm : Prop} {P : World → Prop} (hP : Quiet calm P) :
    Stable (Env calm) P := by
  refine Stable.of_later fun w r q a m h ha _ hm => ?_
  exact hP r q a m w.error w.conn w.leased h ha hm

theorem Quiet.serve {calm : Prop} {P : World → Prop} (hP : Quiet calm P) {w : World} (h : P w) :
    P (Call.serve w) :=
  hP _ _ _ _ _ _ _ h (fun _ h => h) fun _ => rfl

theorem probe_triple {calm : Prop} {P I : World → Prop} (hP : Quiet calm P)
    (hI : ∀ w, P w → I w) (on : Service) (error : Exc) :
    Triple (Env calm) P (Call.probe on error) (fun _ => P) (fun _ => P) I := by
  refine Triple.service hP.stable hI ?_ ?_
  · intro c w u w' _ h hf
    split at hf <;> simp only [Prod.mk.injEq, reduceCtorEq, false_and] at hf
    exact hf.2 ▸ h
  · intro c w e w' _ h hf
    split at hf <;> simp only [Prod.mk.injEq, reduceCtorEq, false_and] at hf
    exact hf.2 ▸ h

/-- A flush of the producer, seen from outside. -/
theorem producerFlush_quiet {calm : Prop} {P I : World → Prop} (hP : Quiet calm P)
    (hI : ∀ w, P w → I w) :
    Triple (Env calm) P producerFlush (fun _ => P) (fun _ => P) I := by
  refine Triple.bind (Q := fun _ => P) ?_ fun remaining => Triple.ite (fun _ => ?_) fun _ => ?_
  · refine Triple.service hP.stable hI ?_ ?_
    · intro c w n w' _ h hf
      rw [← (Prod.mk.inj hf).2]
      exact hP.serve h
    · intro c w e w' _ _ hf
      simp at hf
  · exact Triple.raise fun w h => h
  · refine Triple.bind (Q := fun _ => P) (Triple.getState fun w h => h) fun v => ?_
    cases v.error with
    | none => exact Triple.pure fun w h => h
    | some err =>
      refine Triple.bind (Q := fun _ => P) (Triple.modifyState fun w h => ?_) fun _ =>
        Triple.raise fun w h => h
      exact hP w.running w.queue w.acked w.redis none w.conn w.leased h (fun _ h => h) fun _ => rfl

section Run

variable (D : Deployment) (calm : Prop) (a₀ : World × Option Position)

/-- The world is one the steps lead to, with `hand` in hand. -/
def At (hand : Option Position) (w : World) : Prop := Steps D calm a₀ (w, hand)

/-- What holds wherever a run is cut. -/
def Cut (w : World) : Prop := ∃ hand, At D calm a₀ hand w

variable {D calm a₀} {hand : Option Position} {w : World}

theorem At.step (h : At D calm a₀ hand w) {w' : World} {hand' : Option Position}
    (hs : Step D calm (w, hand) (w', hand')) : At D calm a₀ hand' w' :=
  ReflTransGen.tail h hs

theorem At.cut (h : At D calm a₀ hand w) : Cut D calm a₀ w := ⟨hand, h⟩

theorem At.quiet : Quiet calm (At D calm a₀ hand) := by
  intro w r q a m e c l h ha hm
  exact h.step (.quiet r q a m e c l ha hm)

/-! ### The course of a flush -/

/-- Inside `flush_batches`: the batches are `txs` and `tts`, and what is in hand
was lost. -/
structure Flushing (D : Deployment) (calm : Prop) (a₀ : World × Option Position)
    (hand : Option Position) (txs : List TransactionModel) (tts : List TokenTransferModel)
    (w : World) : Prop where
  at_hand : At D calm a₀ hand w
  lost : LostInHand w hand
  tx : w.txBatch = txs
  tokens : w.tokenBatch = tts

/-- After a flush, whatever came of it. -/
structure Flushed (D : Deployment) (calm : Prop) (a₀ : World × Option Position)
    (hand : Option Position) (w : World) : Prop where
  at_hand : At D calm a₀ hand w
  lost : LostInHand w hand
  stored : calm → Storable w → Stored w

variable {txs : List TransactionModel} {tts : List TokenTransferModel}

theorem Flushing.quiet : Quiet calm (Flushing D calm a₀ hand txs tts) := by
  intro w r q a m e c l h ha hm
  exact ⟨At.quiet r q a m e c l h.at_hand ha hm, h.lost, h.tx, h.tokens⟩

theorem Flushed.quiet : Quiet calm (Flushed D calm a₀ hand) := by
  intro w r q a m e c l h ha hm
  exact ⟨At.quiet r q a m e c l h.at_hand ha hm, h.lost, h.stored⟩

theorem Flushing.flushed (h : Flushing D calm a₀ hand txs tts w) (hs : Stored w) :
    Flushed D calm a₀ hand w :=
  ⟨h.at_hand, h.lost, fun _ _ => hs⟩

theorem Flushed.cut (h : Flushed D calm a₀ hand w) : Cut D calm a₀ w := h.at_hand.cut

theorem Flushing.cut (h : Flushing D calm a₀ hand txs tts w) : Cut D calm a₀ w := h.at_hand.cut

/-! ### The alerts -/

/-- An alert for `hash` is acknowledged, on its way, or its failure is noted. -/
def Tracked (hash : String) (w : World) : Prop :=
  (∃ a ∈ w.acked, a.hash = hash) ∨ w.error.isSome ∨
    ∃ q ∈ w.queue, q.alert.hash = hash ∧ (q.report = some none → q.alert ∈ w.acked)

theorem Tracked.later {hash : String} (h : Tracked hash w) {acked : List WhaleAlert}
    {queue : List InFlight} (running redis) (ha : w.acked ⊆ acked)
    (hq : World.QueueLater acked w.queue queue) :
    Tracked hash { w with running, queue, acked, redis } := by
  rcases h with ⟨a, hmem, he⟩ | h | ⟨q, hmem, he, hr⟩
  · exact .inl ⟨a, ha hmem, he⟩
  · exact .inr (.inl h)
  · obtain ⟨i, hi, rfl⟩ := List.mem_iff_getElem.mp hmem
    have hlen := hq.length_eq
    have hx := List.Forall₂.get hq hi (by omega)
    refine .inr (.inr ⟨queue[i], List.getElem_mem _, hx.1 ▸ he, fun hy => ?_⟩)
    rcases hx.2 hy with h | h
    · exact hx.1 ▸ ha (hr h)
    · exact h

theorem servedError_isSome {error : Option String} {queue : List InFlight}
    (h : error.isSome ∨ ∃ q ∈ queue, ∃ err, q.report = some (some err)) :
    (Call.servedError error queue).isSome := by
  induction queue generalizing error with
  | nil => simpa [Call.servedError] using h
  | cons q queue ih =>
    apply ih
    rcases h with h | ⟨q', hmem, err, he⟩
    · left
      dsimp only
      split
      · rfl
      · exact h
    · rcases List.mem_cons.mp hmem with rfl | hmem
      · left
        dsimp only
        rw [he]
        rfl
      · exact .inr ⟨q', hmem, err, he⟩

theorem Tracked.serve {hash : String} (h : Tracked hash w) : Tracked hash (Call.serve w) := by
  rcases h with h | h | ⟨q, hmem, he, hr⟩
  · exact .inl h
  · exact .inr (.inl (servedError_isSome (.inl h)))
  · rcases hrep : q.report with _ | _ | err
    · exact .inr (.inr ⟨q, List.mem_filter.mpr ⟨hmem, by rw [hrep]; rfl⟩, he, hr⟩)
    · exact .inl ⟨q.alert, hr hrep, he⟩
    · exact .inr (.inl (servedError_isSome (.inr ⟨q, hmem, err, hrep⟩)))

/-- While the alerts go out: those of `sent` are tracked. -/
structure Publishing (D : Deployment) (calm : Prop) (a₀ : World × Option Position)
    (hand : Option Position) (txs : List TransactionModel) (tts : List TokenTransferModel)
    (sent : List TransactionModel) (w : World) : Prop where
  flushing : Flushing D calm a₀ hand txs tts w
  stored : Stored w
  tracked : ∀ tx ∈ sent, Tracked tx.hash w

variable {sent : List TransactionModel}

theorem Publishing.stable : Stable (Env calm) (Publishing D calm a₀ hand txs tts sent) := by
  refine Stable.of_later fun w r q a m h ha hq hm => ?_
  refine ⟨?_, h.stored, fun tx htx => (h.tracked tx htx).later r m ha hq⟩
  exact Flushing.quiet r q a m w.error w.conn w.leased h.flushing ha hm

theorem Publishing.serve (h : Publishing D calm a₀ hand txs tts sent w) :
    Publishing D calm a₀ hand txs tts sent (Call.serve w) :=
  ⟨Flushing.quiet.serve h.flushing, h.stored, fun tx htx => (h.tracked tx htx).serve⟩

theorem Publishing.flushed (h : Publishing D calm a₀ hand txs tts sent w) :
    Flushed D calm a₀ hand w :=
  h.flushing.flushed h.stored

theorem buildWhaleAlertPayload_hash {tx : TransactionModel} {a : WhaleAlert}
    (h : buildWhaleAlertPayload tx = .ok a) : a.hash = tx.hash := by
  unfold buildWhaleAlertPayload at h
  split at h
  · rw [← Except.ok.inj h]
  · simp at h

/-- One alert: it is handed over after its row was committed, and is tracked
from then on. -/
theorem sendMessage_triple {tx : TransactionModel} {a : WhaleAlert} (htx : tx ∈ txs)
    (ha : a.hash = tx.hash) :
    Triple (Env calm) (Publishing D calm a₀ hand txs tts sent) (sendMessage a)
      (fun _ => Publishing D calm a₀ hand txs tts (sent ++ [tx]))
      (fun _ => Flushed D calm a₀ hand) (Cut D calm a₀) := by
  have handed : ∀ {w : World}, Publishing D calm a₀ hand txs tts sent w →
      Publishing D calm a₀ hand txs tts sent { w with handed := (a, w.db) :: w.handed } := by
    intro w h
    have hmem : tx ∈ w.txBatch := h.flushing.tx ▸ htx
    exact ⟨⟨h.flushing.at_hand.step (.hand h.stored hmem ha), h.flushing.lost, h.flushing.tx,
      h.flushing.tokens⟩, h.stored, h.tracked⟩
  have enqueued : ∀ {w : World}, Publishing D calm a₀ hand txs tts sent w →
      Publishing D calm a₀ hand txs tts (sent ++ [tx])
        { w with queue := w.queue ++ [⟨a, none⟩] } := by
    intro w h
    refine ⟨Flushing.quiet _ _ _ _ w.error w.conn w.leased h.flushing (fun _ h => h) fun _ => rfl,
      h.stored, fun tx' htx' => ?_⟩
    rcases List.mem_append.mp htx' with htx' | htx'
    · rcases h.tracked tx' htx' with h | h | ⟨q, hq, he, hr⟩
      · exact .inl h
      · exact .inr (.inl h)
      · exact .inr (.inr ⟨q, List.mem_append_left _ hq, he, hr⟩)
    · obtain rfl := List.mem_singleton.mp htx'
      exact .inr (.inr ⟨⟨a, none⟩, by simp, ha, by simp⟩)
  refine Triple.bind (Q := fun _ => Publishing D calm a₀ hand txs tts (sent ++ [tx])) ?_ fun _ => ?_
  · refine Triple.service Publishing.stable (fun w h => h.flushing.cut) ?_ ?_
    · intro c w u w' _ h hf
      split at hf <;> simp only [Prod.mk.injEq, reduceCtorEq, false_and] at hf
      exact hf.2 ▸ enqueued (handed h)
    · intro c w e w' _ h hf
      split at hf <;> simp only [Prod.mk.injEq, reduceCtorEq, false_and] at hf
      · exact hf.2 ▸ (enqueued (handed h)).flushed
      · exact hf.2 ▸ (handed h).flushed
  · refine Triple.service Publishing.stable (fun w h => h.flushing.cut) ?_ ?_
    · intro c w u w' _ h hf
      rw [← (Prod.mk.inj hf).2]
      exact h.serve
    · intro c w e w' _ _ hf
      simp at hf

/-- **A flush that returns has published everything that was sent.** -/
theorem producerFlush_triple :
    Triple (Env calm) (Publishing D calm a₀ hand txs tts sent) producerFlush
      (fun _ w => Publishing D calm a₀ hand txs tts sent w ∧
        ∀ tx ∈ sent, ∃ a ∈ w.acked, a.hash = tx.hash)
      (fun _ => Flushed D calm a₀ hand) (Cut D calm a₀) := by
  refine Triple.bind (Q := fun remaining w => Publishing D calm a₀ hand txs tts sent w ∧
    w.queue.length = remaining) ?_ fun remaining => Triple.ite (fun _ => ?_) fun hzero => ?_
  · refine Triple.service Publishing.stable (fun w h => h.flushing.cut) ?_ ?_
    · intro c w n w' _ h hf
      simp only [Prod.mk.injEq, Except.ok.injEq] at hf
      rw [← hf.1, ← hf.2]
      exact ⟨h.serve, rfl⟩
    · intro c w e w' _ _ hf
      simp at hf
  · exact Triple.raise fun w h => h.1.flushed
  · refine Triple.bind (Q := fun v w => w = v ∧ Publishing D calm a₀ hand txs tts sent w ∧
      w.queue.length = remaining) (Triple.getState fun w h => ⟨rfl, h⟩) fun v => ?_
    cases herr : v.error with
    | some err =>
      refine Triple.bind (Q := fun _ => Flushed D calm a₀ hand) (Triple.modifyState fun w h => ?_)
        fun _ => Triple.raise fun w h => h
      exact Flushed.quiet w.running w.queue w.acked w.redis none w.conn w.leased h.2.1.flushed
        (fun _ h => h) fun _ => rfl
    | none =>
      refine Triple.pure ?_
      rintro w ⟨rfl, h, hlen⟩
      refine ⟨h, fun tx htx => ?_⟩
      have hqueue : w.queue = [] := List.length_eq_zero_iff.mp (hlen.trans (not_not.mp hzero))
      rcases h.tracked tx htx with h | h | ⟨q, hq, -⟩
      · exact h
      · rw [herr] at h
        simp at h
      · rw [hqueue] at hq
        simp at hq

theorem mem_whaleTransactions {tx : TransactionModel} :
    tx ∈ whaleTransactions D txs ↔ tx ∈ txs ∧ D.whaleThresholdWei ≤ tx.value := by
  simp [whaleTransactions]

/-- After the publication: the batches are stored and their whales published. -/
structure Publicized (D : Deployment) (calm : Prop) (a₀ : World × Option Position)
    (hand : Option Position) (txs : List TransactionModel) (tts : List TokenTransferModel)
    (w : World) : Prop where
  flushing : Flushing D calm a₀ hand txs tts w
  stored : Stored w
  published : Published D w

/-- When `publish_whale_alerts` returns, every whale of the batch has an
acknowledged alert. -/
theorem publishWhaleAlerts_triple :
    Triple (Env calm) (fun w => Flushing D calm a₀ hand txs tts w ∧ Stored w)
      (publishWhaleAlerts D txs) (fun _ => Publicized D calm a₀ hand txs tts)
      (fun _ => Flushed D calm a₀ hand) (Cut D calm a₀) := by
  -- the invariant of the `for`: the whales are those sent and those still to send
  let J : List TransactionModel → World → Prop := fun rest w =>
    ∃ sent, whaleTransactions D txs = sent ++ rest ∧ Publishing D calm a₀ hand txs tts sent w
  have hone : ∀ tx rest, Triple (Env calm) (J (tx :: rest))
      (do
        let alert ← ofExcept (buildWhaleAlertPayload tx)
        sendMessage alert)
      (fun _ => J rest) (fun _ => Flushed D calm a₀ hand) (Cut D calm a₀) := by
    intro tx rest w cs ⟨sent, hsplit, h⟩ hH
    have hmem : tx ∈ whaleTransactions D txs := by
      rw [hsplit]
      simp
    have htx : tx ∈ txs := (mem_whaleTransactions.mp hmem).1
    have hsplit' : whaleTransactions D txs = (sent ++ [tx]) ++ rest := by
      rw [hsplit, List.append_assoc]
      rfl
    have hsend : Triple (Env calm) (Publishing D calm a₀ hand txs tts sent)
        (do
          let alert ← ofExcept (buildWhaleAlertPayload tx)
          sendMessage alert)
        (fun _ => J rest) (fun _ => Flushed D calm a₀ hand) (Cut D calm a₀) := by
      refine Triple.bind (Q := fun a w => a.hash = tx.hash ∧
        Publishing D calm a₀ hand txs tts sent w) ?_ fun a => ?_
      · exact Triple.ofExcept (fun a w ha h => ⟨buildWhaleAlertPayload_hash ha, h⟩)
          fun e w _ h => h.flushed
      · intro w cs h hH
        exact ((sendMessage_triple htx h.1).post fun _ w h => ⟨_, hsplit', h⟩) w cs h.2 hH
    exact hsend w cs h hH
  refine Triple.bind ((Triple.forEach (whaleTransactions D txs) hone).pre fun w h => ?_)
    fun _ => ?_
  · exact ⟨[], rfl, h.1, h.2, by simp⟩
  · refine Triple.bind (Q := fun _ => Publicized D calm a₀ hand txs tts) ?_
      fun _ => Triple.pure fun w h => h
    refine Triple.when (fun _ => ?_) ?_
    · intro w cs ⟨sent, hsplit, h⟩ hH
      rw [List.append_nil] at hsplit
      refine (producerFlush_triple.post fun _ w h => ⟨h.1.flushing, h.1.stored, ?_⟩) w cs h hH
      intro tx htx hv
      rw [h.1.flushing.tx] at htx
      exact h.2 tx (hsplit ▸ mem_whaleTransactions.mpr ⟨htx, hv⟩)
    · rintro w hnil ⟨sent, -, h⟩
      refine ⟨h.flushing, h.stored, fun tx htx hv => ?_⟩
      rw [h.flushing.tx] at htx
      have hmem := mem_whaleTransactions.mpr ⟨htx, hv⟩
      rw [not_not.mp hnil] at hmem
      simp at hmem

/-! ### `flush_batches` -/

/-- Inside the database transaction, with `T` on the connection so far. -/
structure Writing (D : Deployment) (calm : Prop) (a₀ : World × Option Position)
    (hand : Option Position) (txs : List TransactionModel) (tts : List TokenTransferModel)
    (written : Tables → Tables → Prop) (w : World) : Prop where
  flushing : Flushing D calm a₀ hand txs tts w
  conn : ∃ T, w.conn = some T ∧ written w.db T

variable {written written' : Tables → Tables → Prop}

theorem Writing.stable : Stable (Env calm) (Writing D calm a₀ hand txs tts written) := by
  refine Stable.of_later fun w r q a m h ha _ hm => ?_
  exact ⟨Flushing.quiet r q a m w.error w.conn w.leased h.flushing ha hm, h.conn⟩

/-- One statement of the transaction.  In a calm environment it fails only on a
batch that does not fit. -/
theorem execute_triple {statement : Tables → Option Tables}
    (hw : ∀ T₀ T T', written T₀ T → statement T = some T' → written' T₀ T')
    (hfail : ∀ {w T}, Flushing D calm a₀ hand txs tts w → statement T = none → ¬Storable w) :
    Triple (Env calm) (Writing D calm a₀ hand txs tts written) (Call.execute statement)
      (fun _ => Writing D calm a₀ hand txs tts written') (fun _ => Flushed D calm a₀ hand)
      (Cut D calm a₀) := by
  refine Triple.service Writing.stable (fun w h => h.flushing.cut) ?_ ?_
  · intro c w u w' _ h hf
    obtain ⟨T, hT, hwritten⟩ := h.conn
    split at hf <;> simp only [Prod.mk.injEq, reduceCtorEq, false_and] at hf
    next T' _ hT' =>
      rw [hT, Option.bind_some] at hT'
      rw [← hf.2]
      refine ⟨?_, T', rfl, hw _ _ _ hwritten hT'⟩
      exact Flushing.quiet _ _ _ _ _ (some T') _ h.flushing (fun _ h => h) fun _ => rfl
  · intro c w e w' hc h hf
    obtain ⟨T, hT, -⟩ := h.conn
    split at hf <;> simp only [Prod.mk.injEq, reduceCtorEq, false_and] at hf
    next hne =>
      rw [← hf.2]
      refine ⟨h.flushing.at_hand, h.flushing.lost, fun hcalm hs => ?_⟩
      cases hst : statement T with
      | none => exact absurd hs (hfail h.flushing hst)
      | some T' => exact absurd (by rw [hT, Option.bind_some, hst]) (hne T' (hc hcalm).postgres)

/-- **The transaction as a whole**: when it is committed, the batches are stored. -/
theorem commitTransaction_triple :
    Triple (Env calm)
      (Writing D calm a₀ hand txs tts fun T₀ U =>
        ∃ T, T₀.insertTransactionsBatch txs = some T ∧ T.insertTokenTransfersBatch tts = some U)
      Call.commitTransaction
      (fun _ w => Flushing D calm a₀ hand txs tts w ∧ Stored w) (fun _ => Flushed D calm a₀ hand)
      (Cut D calm a₀) := by
  have done : ∀ {w : World}, Writing D calm a₀ hand txs tts (fun T₀ U =>
        ∃ T, T₀.insertTransactionsBatch txs = some T ∧ T.insertTokenTransfersBatch tts = some U) w →
      Flushing D calm a₀ hand txs tts { w with db := w.conn.getD w.db } ∧
        Stored { w with db := w.conn.getD w.db } := by
    rintro w ⟨⟨hat, hl, rfl, rfl⟩, U, hU, T, hT, hTU⟩
    have hdb : w.conn.getD w.db = U := by rw [hU]; rfl
    rw [hdb]
    exact ⟨⟨hat.step (.store hT hTU), hl, rfl, rfl⟩, Tables.insert_again hT hTU⟩
  refine Triple.service Writing.stable (fun w h => h.flushing.cut) ?_ ?_
  · intro c w u w' _ h hf
    split at hf <;> simp only [Prod.mk.injEq, reduceCtorEq, false_and] at hf
    exact hf.2 ▸ done h
  · intro c w e w' hc h hf
    split at hf <;> simp only [Prod.mk.injEq, reduceCtorEq, false_and] at hf
    · exact hf.2 ▸ (done h).1.flushed (done h).2
    · next hnone _ =>
      rw [← hf.2]
      exact ⟨h.flushing.at_hand, h.flushing.lost, fun hcalm => absurd (hc hcalm).postgres hnone⟩

/-- The offsets are committed after everything polled is accounted for. -/
theorem commitOffsets_triple :
    Triple (Env calm) (Publicized D calm a₀ hand txs tts) Call.commitOffsets
      (fun _ => Publicized D calm a₀ hand txs tts) (fun _ => Flushed D calm a₀ hand)
      (Cut D calm a₀) := by
  have hstable : Stable (Env calm) (Publicized D calm a₀ hand txs tts) := by
    refine Stable.of_later fun w r q a m h ha _ hm => ?_
    refine ⟨Flushing.quiet r q a m w.error w.conn w.leased h.flushing ha hm, h.stored, ?_⟩
    intro tx htx hv
    obtain ⟨alert, hmem, he⟩ := h.published tx htx hv
    exact ⟨alert, ha hmem, he⟩
  have done : ∀ {w : World}, Publicized D calm a₀ hand txs tts w →
      Publicized D calm a₀ hand txs tts { w with committed := w.position } := by
    intro w h
    refine ⟨⟨?_, h.flushing.lost, h.flushing.tx, h.flushing.tokens⟩, h.stored, h.published⟩
    exact h.flushing.at_hand.step (.commit h.stored h.published h.flushing.lost)
  refine Triple.service hstable (fun w h => h.flushing.cut) ?_ ?_
  · intro c w u w' _ h hf
    split at hf <;> simp only [Prod.mk.injEq, reduceCtorEq, false_and] at hf
    · exact hf.2 ▸ done h
    · exact hf.2 ▸ h
  · intro c w e w' _ h hf
    split at hf <;> simp only [Prod.mk.injEq, reduceCtorEq, false_and] at hf
    · exact hf.2 ▸ h.flushing.flushed h.stored
    · exact hf.2 ▸ (done h).flushing.flushed h.stored

/-- The connection is open and has no statement yet. -/
def Opened (D : Deployment) (calm : Prop) (a₀ : World × Option Position) (hand : Option Position)
    (w : World) : Prop :=
  At D calm a₀ hand w ∧ LostInHand w hand ∧ w.conn = some w.db

theorem flushBody_triple :
    Triple (Env calm) (Opened D calm a₀ hand) (flushBody D) (fun _ => Flushed D calm a₀ hand)
      (fun _ => Flushed D calm a₀ hand) (Cut D calm a₀) := by
  have hstable : Stable (Env calm) (Opened D calm a₀ hand) := by
    refine Stable.of_later fun w r q a m h ha _ hm => ⟨?_, h.2⟩
    exact At.quiet r q a m w.error w.conn w.leased h.1 ha hm
  refine Triple.bind (Q := fun _ => Opened D calm a₀ hand) ?_ fun _ => ?_
  · -- conn.autocommit = False
    refine Triple.service hstable (fun w h => h.1.cut) ?_ ?_
    · intro c w u w' _ h hf
      split at hf <;> simp only [Prod.mk.injEq, reduceCtorEq, false_and] at hf
      exact hf.2 ▸ h
    · intro c w e w' hc h hf
      split at hf <;> simp only [Prod.mk.injEq, reduceCtorEq, false_and] at hf
      next hne =>
        rw [← hf.2]
        exact ⟨h.1, h.2.1, fun hcalm => absurd (hc hcalm).postgres hne⟩
  refine Triple.bind (Q := fun v => Writing D calm a₀ hand v.txBatch v.tokenBatch fun T₀ T =>
    T = T₀) (Triple.getState fun w h => ⟨⟨h.1, h.2.1, rfl, rfl⟩, w.db, h.2.2, rfl⟩) fun v => ?_
  refine Triple.bind (Q := fun _ => Writing D calm a₀ hand v.txBatch v.tokenBatch fun T₀ T =>
    T₀.insertTransactionsBatch v.txBatch = some T) ?_ fun _ => ?_
  · refine Triple.when (fun _ => ?_) fun w hnil h => ?_
    · refine execute_triple (fun T₀ T T' h hT => h ▸ hT) fun {w T} h hT hs => ?_
      have hsome := T.insertTransactionsBatch_isSome hs.1
      rw [h.tx, hT] at hsome
      simp at hsome
    · obtain ⟨T, hT, rfl⟩ := h.conn
      refine ⟨h.flushing, w.db, hT, ?_⟩
      rw [not_not.mp hnil]
      exact w.db.insertTransactionsBatch_nil
  refine Triple.bind (Q := fun _ => Writing D calm a₀ hand v.txBatch v.tokenBatch fun T₀ U =>
    ∃ T, T₀.insertTransactionsBatch v.txBatch = some T ∧
      T.insertTokenTransfersBatch v.tokenBatch = some U) ?_ fun _ => ?_
  · refine Triple.when (fun _ => ?_) fun w hnil h => ?_
    · refine execute_triple (fun T₀ T T' h hT => ⟨T, h, hT⟩) fun {w T} h hT hs => ?_
      have hsome := T.insertTokenTransfersBatch_isSome hs.2
      rw [h.tokens, hT] at hsome
      simp at hsome
    · obtain ⟨T, hT, hins⟩ := h.conn
      refine ⟨h.flushing, T, hT, T, hins, ?_⟩
      rw [not_not.mp hnil]
      exact T.insertTokenTransfersBatch_nil
  refine Triple.bind commitTransaction_triple fun _ => ?_
  refine Triple.bind publishWhaleAlerts_triple fun _ => ?_
  refine Triple.bind commitOffsets_triple fun _ => Triple.modifyState fun w h => ?_
  exact ⟨h.flushing.at_hand.step (.clear h.stored h.published h.flushing.lost), h.flushing.lost,
    fun _ _ => ⟨Tables.insertTransactionsBatch_nil _, Tables.insertTokenTransfersBatch_nil _⟩⟩

/-- **`flush_batches`** makes only steps of the machine, whatever fails. -/
theorem flushBatches_triple :
    Triple (Env calm) (fun w => At D calm a₀ hand w ∧ LostInHand w hand) (flushBatches D)
      (fun _ => Flushed D calm a₀ hand) (fun _ => Flushed D calm a₀ hand) (Cut D calm a₀) := by
  have hquiet : Quiet calm fun w => At D calm a₀ hand w ∧ LostInHand w hand := by
    intro w r q a m e c l h ha hm
    exact ⟨At.quiet r q a m e c l h.1 ha hm, h.2⟩
  refine Triple.bind (Q := fun _ => Opened D calm a₀ hand) ?_ fun _ => ?_
  · refine Triple.service hquiet.stable (fun w h => h.1.cut) ?_ ?_
    · intro c w u w' _ h hf
      split at hf <;> simp only [Prod.mk.injEq, reduceCtorEq, false_and] at hf
      rw [← hf.2]
      exact ⟨At.quiet _ _ _ _ _ (some w.db) (w.leased + 1) h.1 (fun _ h => h) fun _ => rfl, h.2, rfl⟩
    · intro c w e w' hc h hf
      split at hf <;> simp only [Prod.mk.injEq, reduceCtorEq, false_and] at hf
      next hne =>
        rw [← hf.2]
        exact ⟨h.1, h.2, fun hcalm => absurd (hc hcalm).postgres hne⟩
  have hrelease : Triple (Env calm) (Flushed D calm a₀ hand) Call.releaseConnection
      (fun _ => Flushed D calm a₀ hand) (fun _ => Flushed D calm a₀ hand) (Cut D calm a₀) := by
    refine Triple.service Flushed.quiet.stable (fun w h => h.cut) ?_ ?_
    · intro c w u w' _ h hf
      rw [← (Prod.mk.inj hf).2]
      exact Flushed.quiet _ _ _ _ _ none (w.leased - 1) h (fun _ h => h) fun _ => rfl
    · intro c w e w' _ _ hf
      simp at hf
  have hrollback : Triple (Env calm) (Flushed D calm a₀ hand) Call.rollback
      (fun _ => Flushed D calm a₀ hand) (fun _ => Flushed D calm a₀ hand) (Cut D calm a₀) := by
    refine Triple.service Flushed.quiet.stable (fun w h => h.cut) ?_ ?_
    · intro c w u w' _ h hf
      split at hf <;> simp only [Prod.mk.injEq, reduceCtorEq, false_and] at hf
      rw [← hf.2]
      exact Flushed.quiet _ _ _ _ _ (w.conn.map fun _ => w.db) _ h (fun _ h => h) fun _ => rfl
    · intro c w e w' _ h hf
      split at hf <;> simp only [Prod.mk.injEq, reduceCtorEq, false_and] at hf
      exact hf.2 ▸ h
  refine Triple.tryFinally (Triple.tryCatch flushBody_triple fun e => ?_) (fun _ => hrelease)
    fun _ => hrelease
  refine Triple.ite (fun _ => ?_) fun _ => Triple.raise fun w h => h
  exact Triple.bind hrollback fun _ => Triple.raise fun w h => h

end Run

end Consumer

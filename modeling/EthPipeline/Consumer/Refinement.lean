import EthPipeline.Consumer.Flush

/-!
# The consumer makes only the steps of the machine

* `main_steps`: from a fresh process, whatever the choices, `main` leads to a
  world the steps of `Machine.lean` lead to, wherever it is cut.
* `main_ends`: how a process that is not cut ends.
* `sessions_reachable`: a whole history.
-/

namespace Consumer

open Exec Relation

section Run

variable {D : Deployment} {calm : Prop} {a₀ : World × Option Position} {hand : Option Position}
  {w : World} {pos : Position} {raw : RawValue} {now : Timestamp}

/-! ### One message -/

/-- The message at `pos` is being handled. -/
def InHand (D : Deployment) (calm : Prop) (a₀ : World × Option Position) (pos : Position)
    (w : World) : Prop :=
  At D calm a₀ (some pos) w ∧ w.current = pos

theorem InHand.quiet : Quiet calm (InHand D calm a₀ pos) := by
  intro w r q a m e c l h ha hm
  exact ⟨At.quiet r q a m e c l h.1 ha hm, h.2⟩

theorem InHand.cut (h : InHand D calm a₀ pos w) : Cut D calm a₀ w := h.1.cut

/-- How handling a message ends when it does not end well: nothing is in hand, or
the message is lost to a Redis error. -/
def Dropped (D : Deployment) (calm : Prop) (a₀ : World × Option Position) (w : World) : Prop :=
  ∃ hand, At D calm a₀ hand w ∧
    ∀ pos, hand = some pos → pos.topic ≠ .transactions ∧ w.buffered ∈ w.redisErrors

theorem At.dropped (h : At D calm a₀ none w) : Dropped D calm a₀ w :=
  ⟨none, h, fun _ h => by simp at h⟩

/-- The end of a message by the exception `e`. -/
def Failed (D : Deployment) (calm : Prop) (a₀ : World × Option Position) (e : Exc) (w : World) :
    Prop :=
  Dropped D calm a₀ w ∧ (e = .validationError → At D calm a₀ none w)

theorem At.failed (h : At D calm a₀ none w) (e : Exc) : Failed D calm a₀ e w :=
  ⟨h.dropped, fun _ => h⟩

/-- A Redis call raises, and the loop loses the message. -/
theorem InHand.redisError (h : InHand D calm a₀ pos w) (hm : D.message pos = some raw)
    (hu : pos.topic = .blocks ∨ pos.topic = .tokenTransfers ∧ ∃ now tt,
      AcceptsTokenTransfer D raw now tt ∧ tt.timestamp = none) (hc : ¬calm) :
    Failed D calm a₀ .redisError { w with redisErrors := w.buffered :: w.redisErrors } := by
  refine ⟨⟨some pos, h.1.step (.redisError hm hu hc), ?_⟩, by simp⟩
  intro pos' hpos
  obtain rfl := Option.some.inj hpos
  refine ⟨?_, List.mem_cons_self⟩
  rcases hu with hu | ⟨hu, -⟩ <;> simp [hu]

/-- `cache_block_timestamp`.  When the call raises after Redis has done it, the
block is cached all the same. -/
theorem cacheBlockTimestamp_triple {b : BlockModel} (hm : D.message pos = some raw)
    (htopic : pos.topic = .blocks) (ha : AcceptsBlock D raw b) :
    Triple (Env calm) (InHand D calm a₀ pos)
      (Call.cacheBlockTimestamp b.number (isoformat b.timestamp)) (fun _ => At D calm a₀ none)
      (Failed D calm a₀) (Cut D calm a₀) := by
  have done : ∀ {w : World}, InHand D calm a₀ pos w → At D calm a₀ none { w with
      redis := Function.update w.redis b.number (some (isoformat b.timestamp))
      cached := (w.current, b.number, isoformat b.timestamp) :: w.cached } := by
    rintro w ⟨hat, rfl⟩
    exact hat.step (.cache hm htopic ha)
  refine Triple.service InHand.quiet.stable (fun w h => h.cut) ?_ ?_
  · intro c w u w' _ h hf
    split at hf <;> simp only [Prod.mk.injEq, reduceCtorEq, false_and] at hf
    exact hf.2 ▸ done h
  · intro c w e w' hc h hf
    split at hf <;> simp only [Prod.mk.injEq, Except.error.injEq, reduceCtorEq, false_and] at hf
    · exact hf.2 ▸ (done h).failed e
    · next hnone _ =>
      rw [← hf.1, ← hf.2]
      exact h.redisError hm (.inl htopic) fun hcalm => hnone (hc hcalm).redis

section Enrich

variable {tt : TokenTransferModel}

/-- One lookup; its answer is in the history. -/
theorem getBlockTimestamp_triple (hm : D.message pos = some raw)
    (htopic : pos.topic = .tokenTransfers) (ha : AcceptsTokenTransfer D raw now tt)
    (ht : tt.timestamp = none) :
    Triple (Env calm) (InHand D calm a₀ pos) (Call.getBlockTimestamp tt.blockNumber)
      (fun answer w => InHand D calm a₀ pos w ∧ (pos, tt.blockNumber, answer) ∈ w.lookups)
      (Failed D calm a₀) (Cut D calm a₀) := by
  refine Triple.service InHand.quiet.stable (fun w h => h.cut) ?_ ?_
  · rintro c w answer w' _ ⟨hat, rfl⟩ hf
    split at hf <;>
      simp only [Prod.mk.injEq, Except.ok.injEq, reduceCtorEq, false_and] at hf
    rw [← hf.1, ← hf.2]
    exact ⟨⟨hat.step (.lookup hm htopic ha ht), rfl⟩, List.mem_cons_self⟩
  · intro c w e w' hc h hf
    split at hf <;> simp only [Prod.mk.injEq, Except.error.injEq, reduceCtorEq, false_and] at hf
    next hne =>
      rw [← hf.1, ← hf.2]
      exact h.redisError hm (.inr ⟨htopic, now, tt, ha, ht⟩) fun hcalm => hne (hc hcalm).redis

/-- The last answer of the retries is in the history too. -/
theorem retryLookup_triple (hm : D.message pos = some raw)
    (htopic : pos.topic = .tokenTransfers) (ha : AcceptsTokenTransfer D raw now tt)
    (ht : tt.timestamp = none) (retries : ℕ) (answer : Option IsoText) :
    Triple (Env calm)
      (fun w => InHand D calm a₀ pos w ∧ (pos, tt.blockNumber, answer) ∈ w.lookups)
      (retryLookup tt.blockNumber retries answer)
      (fun answer w => InHand D calm a₀ pos w ∧ (pos, tt.blockNumber, answer) ∈ w.lookups)
      (Failed D calm a₀) (Cut D calm a₀) := by
  induction retries generalizing answer with
  | zero => exact Triple.pure fun w h => h
  | succ retries ih =>
    refine Triple.ite (fun _ => ?_) fun _ => Triple.pure fun w h => h
    refine Triple.bind (Q := fun _ => InHand D calm a₀ pos) ?_ fun _ =>
      Triple.bind (getBlockTimestamp_triple hm htopic ha ht) fun answer => ih answer
    refine Triple.pre (A := InHand D calm a₀ pos) ?_ fun w h => h.1
    refine Triple.service InHand.quiet.stable (fun w h => h.cut) ?_ ?_
    · intro c w u w' _ h hf
      rw [← (Prod.mk.inj hf).2]
      exact h
    · intro c w e w' _ _ hf
      simp at hf

/-- What `enrich_token_timestamp` has made sure of. -/
def Enriched (D : Deployment) (calm : Prop) (a₀ : World × Option Position) (pos : Position)
    (tt : TokenTransferModel) (enriched : Option TokenTransferModel) (w : World) : Prop :=
  match enriched with
  | none => At D calm a₀ none w
  | some tt' => InHand D calm a₀ pos w ∧ ∃ t, tt' = { tt with timestamp := some t } ∧
      (tt.timestamp = some t ∨
        tt.timestamp = none ∧ (pos, tt.blockNumber, some (isoformat t)) ∈ w.lookups)

theorem enrichTokenTimestamp_triple (hm : D.message pos = some raw)
    (htopic : pos.topic = .tokenTransfers) (ha : AcceptsTokenTransfer D raw now tt) :
    Triple (Env calm) (InHand D calm a₀ pos) (enrichTokenTimestamp tt)
      (Enriched D calm a₀ pos tt) (Failed D calm a₀) (Cut D calm a₀) := by
  refine Triple.ite (fun hsome => ?_) fun hnone => ?_
  · obtain ⟨t, ht⟩ := Option.isSome_iff_exists.mp hsome
    refine Triple.pure fun w h => ⟨h, t, ?_, .inl ht⟩
    rw [← ht]
  · have ht : tt.timestamp = none := by simpa using hnone
    refine Triple.bind (getBlockTimestamp_triple hm htopic ha ht) fun answer => ?_
    refine Triple.bind (retryLookup_triple hm htopic ha ht 10 answer) fun answer => ?_
    cases answer with
    | none =>
      refine Triple.bind (Q := fun _ => At D calm a₀ none) (Triple.modifyState ?_) fun _ =>
        Triple.pure fun w h => h
      rintro w ⟨⟨hat, rfl⟩, hl⟩
      exact hat.step (.skip hm htopic ha ht hl)
    | some text => exact Triple.pure fun w h => ⟨h.1, fromisoformat text, rfl, .inr ⟨ht, h.2⟩⟩

end Enrich

/-- A payload the model of its topic refuses. -/
theorem ofExcept_triple {α : Type} {x : Except Exc α} {Q : α → World → Prop}
    (hm : D.message pos = some raw) (hok : ∀ m w, x = .ok m → InHand D calm a₀ pos w → Q m w)
    (hr : ∀ e, x = .error e → Rejects D pos.topic raw) :
    Triple (Env calm) (InHand D calm a₀ pos) (ofExcept x) Q (Failed D calm a₀)
      (Cut D calm a₀) := by
  refine Triple.ofExcept hok fun e w he h => ?_
  exact (h.1.step (.reject hm (hr e he))).failed e

theorem rejects_transactions {data : Json} {e : Exc}
    (h : construct (TransactionModel.validate D.pydantic now) data = .error e) :
    Rejects D .transactions (.json data) := by
  rintro now' tx ⟨data', he, hc⟩
  cases he
  obtain ⟨(fields : Fields), rfl, hv⟩ := construct_eq_ok.mp hc
  obtain ⟨v, -, -, hv'⟩ := TransactionModel.validate_eq_some hv now
  rw [construct, hv'] at h
  simp at h

theorem rejects_tokenTransfers {data : Json} {e : Exc}
    (h : construct (TokenTransferModel.validate D.pydantic now) data = .error e) :
    Rejects D .tokenTransfers (.json data) := by
  rintro now' tt ⟨data', he, hc⟩
  cases he
  obtain ⟨(fields : Fields), rfl, hv⟩ := construct_eq_ok.mp hc
  obtain ⟨-, hv'⟩ := TokenTransferModel.validate_eq_some hv now
  rw [construct, hv'] at h
  simp at h

theorem rejects_blocks {data : Json} {e : Exc}
    (h : construct (BlockModel.validate D.pydantic) data = .error e) :
    Rejects D .blocks (.json data) := by
  rintro b ⟨data', he, hc⟩
  cases he
  rw [hc] at h
  simp at h

theorem datetimeNow_triple :
    Triple (Env calm) (InHand D calm a₀ pos) Call.datetimeNow (fun _ => InHand D calm a₀ pos)
      (Failed D calm a₀) (Cut D calm a₀) := by
  refine Triple.service InHand.quiet.stable (fun w h => h.cut) ?_ ?_
  · intro c w t w' _ h hf
    rw [← (Prod.mk.inj hf).2]
    exact h
  · intro c w e w' _ _ hf
    simp at hf

/-- **One message**: it is dealt with, refused, or lost to a Redis error. -/
theorem handleMessage_triple {data : Json} (hm : D.message pos = some (.json data)) :
    Triple (Env calm) (InHand D calm a₀ pos) (handleMessage D (some pos.topic) data)
      (fun _ => At D calm a₀ none) (Failed D calm a₀) (Cut D calm a₀) := by
  cases htopic : pos.topic with
  | blocks =>
    refine Triple.bind (Q := fun b w => AcceptsBlock D (.json data) b ∧ InHand D calm a₀ pos w)
      (ofExcept_triple hm (fun b w hb h => ⟨⟨data, rfl, hb⟩, h⟩) fun e he => ?_) fun b => ?_
    · rw [htopic]
      exact rejects_blocks he
    · intro w cs h hH
      exact cacheBlockTimestamp_triple hm htopic h.1 w cs h.2 hH
  | transactions =>
    refine Triple.bind datetimeNow_triple fun now => ?_
    refine Triple.bind (Q := fun tx w => AcceptsTransaction D (.json data) now tx ∧
        InHand D calm a₀ pos w)
      (ofExcept_triple hm (fun tx w htx h => ⟨⟨data, rfl, htx⟩, h⟩) fun e he => ?_) fun tx => ?_
    · rw [htopic]
      exact rejects_transactions he
    · refine Triple.modifyState fun w h => ?_
      exact h.2.1.step (.appendTransaction hm htopic h.1)
  | tokenTransfers =>
    refine Triple.bind datetimeNow_triple fun now => ?_
    refine Triple.bind (Q := fun tt w => AcceptsTokenTransfer D (.json data) now tt ∧
        InHand D calm a₀ pos w)
      (ofExcept_triple hm (fun tt w htt h => ⟨⟨data, rfl, htt⟩, h⟩) fun e he => ?_) fun tt => ?_
    · rw [htopic]
      exact rejects_tokenTransfers he
    · intro w cs h hH
      refine (Triple.bind (enrichTokenTimestamp_triple hm htopic h.1) fun enriched => ?_)
        w cs h.2 hH
      cases enriched with
      | none => exact Triple.pure fun w h => h
      | some tt' =>
        refine Triple.modifyState fun w hw => ?_
        obtain ⟨hin, t, rfl, ht⟩ := hw
        exact hin.1.step (.appendTokenTransfer hm htopic h.1 ht)

theorem handleOrSkip_triple {data : Json} (hm : D.message pos = some (.json data)) :
    Triple (Env calm) (InHand D calm a₀ pos) (handleOrSkip D (some pos.topic) data)
      (fun _ => At D calm a₀ none) (fun _ => Dropped D calm a₀) (Cut D calm a₀) := by
  refine Triple.tryCatch (F := Failed D calm a₀) ?_ fun e => Triple.ite (fun he => ?_) fun _ => ?_
  · exact Triple.bind (handleMessage_triple hm) fun _ => Triple.pure fun w h => h
  · exact Triple.pure fun w h => h.2 he
  · exact Triple.raise fun w h => h.1

/-! ### The loop -/

/-- What the caller of `poll` gets: a payload only together with its message in
hand. -/
def Polled (D : Deployment) (calm : Prop) (a₀ : World × Option Position)
    (r : Option Topic × Option Json) (w : World) : Prop :=
  match r.2 with
  | none => At D calm a₀ none w
  | some data => ∃ pos, r.1 = some pos.topic ∧ D.message pos = some (.json data) ∧
      InHand D calm a₀ pos w

/-- A message without a mapping in it is refused whatever its topic. -/
theorem rejects_of_not_obj (topic : Topic) (h : ∀ fields, raw ≠ .json (.obj fields)) :
    Rejects D topic raw := by
  cases topic with
  | blocks =>
    rintro b ⟨data, rfl, hc⟩
    obtain ⟨fields, rfl, -⟩ := construct_eq_ok.mp hc
    exact h fields rfl
  | transactions =>
    rintro now tx ⟨data, rfl, hc⟩
    obtain ⟨fields, rfl, -⟩ := construct_eq_ok.mp hc
    exact h fields rfl
  | tokenTransfers =>
    rintro now tt ⟨data, rfl, hc⟩
    obtain ⟨fields, rfl, -⟩ := construct_eq_ok.mp hc
    exact h fields rfl

theorem poll_triple :
    Triple (Env calm) (At D calm a₀ none) (Call.poll D) (Polled D calm a₀)
      (fun _ => Dropped D calm a₀) (Cut D calm a₀) := by
  have taken : ∀ {w : World} {pos : Position} {raw : RawValue}, At D calm a₀ none w →
      D.message pos = some raw → pos.offset = w.position pos.topic pos.partition →
      Polled D calm a₀ (Call.decodeMessage pos.topic raw) (w.take pos) := by
    intro w pos raw h hm hpos
    have hin : InHand D calm a₀ pos (w.take pos) := ⟨h.step (.poll hm hpos), rfl⟩
    have refused := fun hraw => hin.1.step (.reject hm (rejects_of_not_obj pos.topic hraw))
    cases raw with
    | tombstone => exact refused (by simp)
    | undecodable => exact refused (by simp)
    | json data =>
      cases data with
      | null => exact refused (by simp)
      | _ => exact ⟨pos, rfl, hm, hin⟩
  refine Triple.service At.quiet.stable (fun w h => h.cut) ?_ ?_
  · intro c w r w' _ h hf
    split at hf
    · obtain ⟨rfl, rfl⟩ : (none, none) = r ∧ w = w' := by simpa using hf
      exact h
    · obtain ⟨rfl, rfl⟩ : (none, none) = r ∧ w = w' := by simpa using hf
      exact h
    · simp at hf
    · split at hf
      · obtain ⟨rfl, rfl⟩ : (none, none) = r ∧ w = w' := by simpa using hf
        exact h
      · next topic partition _ _ raw hm =>
        simp only [Prod.mk.injEq, Except.ok.injEq] at hf
        rw [← hf.1, ← hf.2]
        exact taken h hm rfl
  · intro c w e w' _ h hf
    split at hf
    · simp at hf
    · simp at hf
    · rw [← (Prod.mk.inj hf).2]
      exact h.dropped
    · split at hf <;> simp at hf

/-- `except Exception` around a flush hides its failure. -/
theorem tryFlush_triple :
    Triple (Env calm) (fun w => At D calm a₀ hand w ∧ LostInHand w hand)
      (exceptException (flushBatches D) fun _ => pure ()) (fun _ => Flushed D calm a₀ hand)
      (fun _ => Flushed D calm a₀ hand) (Cut D calm a₀) := by
  refine Triple.tryCatch flushBatches_triple fun e => Triple.ite (fun _ => ?_) fun _ => ?_
  · exact Triple.pure fun w h => h
  · exact Triple.raise fun w h => h

theorem lostInHand_none (w : World) : LostInHand w none := by
  intro pos h
  simp at h

theorem flushIfFull_triple :
    Triple (Env calm) (At D calm a₀ none) (flushIfFull D) (fun _ => At D calm a₀ none)
      (fun _ => Dropped D calm a₀) (Cut D calm a₀) := by
  refine Triple.bind (Q := fun _ => At D calm a₀ none) (Triple.getState fun w h => h) fun v => ?_
  refine Triple.when (fun _ => ?_) fun w _ h => h
  exact tryFlush_triple.conseq (fun w h => ⟨h, lostInHand_none w⟩) (fun _ w h => h.at_hand)
    fun _ w h => h.at_hand.dropped

theorem isRunning_triple :
    Triple (Env calm) (At D calm a₀ none) Call.isRunning (fun _ => At D calm a₀ none)
      (fun _ => Dropped D calm a₀) (Cut D calm a₀) := by
  refine Triple.service At.quiet.stable (fun w h => h.cut) ?_ ?_
  · intro c w b w' _ h hf
    rw [← (Prod.mk.inj hf).2]
    exact h
  · intro c w e w' _ _ hf
    simp at hf

/-- **One round of the loop** starts and ends with nothing in hand. -/
theorem round_triple :
    Triple (Env calm) (At D calm a₀ none) (round D) (fun _ => At D calm a₀ none)
      (fun _ => Dropped D calm a₀) (Cut D calm a₀) := by
  refine Triple.bind isRunning_triple fun running => Triple.ite (fun _ => ?_) fun _ =>
    Triple.pure fun w h => h
  refine Triple.bind poll_triple fun r => ?_
  rcases r with ⟨topic, _ | data⟩
  · exact Triple.bind flushIfFull_triple fun _ => Triple.pure fun w h => h
  · intro w cs ⟨pos, htopic, hm, hin⟩ hH
    obtain rfl : topic = some pos.topic := htopic
    refine (Triple.bind (handleOrSkip_triple hm) fun handled => ?_) w cs hin hH
    refine Triple.bind (Q := fun _ => At D calm a₀ none) ?_ fun _ => Triple.pure fun w h => h
    exact Triple.when (fun _ => flushIfFull_triple) fun w _ h => h

/-! ### The process -/

/-- How a process that is not cut ends. -/
structure Ended (D : Deployment) (calm : Prop) (a₀ : World × Option Position) (w : World) :
    Prop where
  at_hand : ∃ hand, At D calm a₀ hand w ∧ (hand.isSome → w.redisErrors ≠ [])
  stored : calm → Storable w → Stored w

theorem Ended.quiet : Quiet calm (Ended D calm a₀) := by
  intro w r q a m e c l ⟨⟨hand, hat, hne⟩, hs⟩ ha hm
  exact ⟨⟨hand, At.quiet r q a m e c l hat ha hm, hne⟩, hs⟩

theorem Ended.cut (h : Ended D calm a₀ w) : Cut D calm a₀ w := by
  obtain ⟨hand, hat, -⟩ := h.at_hand
  exact hat.cut

theorem Flushed.ended (h : Flushed D calm a₀ hand w) : Ended D calm a₀ w := by
  refine ⟨⟨hand, h.at_hand, fun hsome => ?_⟩, h.stored⟩
  obtain ⟨pos, rfl⟩ := Option.isSome_iff_exists.mp hsome
  obtain ⟨-, n, hn, -⟩ := h.lost pos rfl
  exact List.ne_nil_of_mem hn

theorem At.ended (h : At D calm a₀ none w) (htx : w.txBatch = []) (htt : w.tokenBatch = []) :
    Ended D calm a₀ w := by
  refine ⟨⟨none, h, by simp⟩, fun _ _ => ?_⟩
  refine ⟨?_, ?_⟩
  · rw [htx]
    exact w.db.insertTransactionsBatch_nil
  · rw [htt]
    exact w.db.insertTokenTransfersBatch_nil

/-- Records that are buffered were buffered when the message was lost. -/
theorem Dropped.lostInHand (h : Dropped D calm a₀ w) (hb : w.isBuffered = true) :
    ∃ hand, At D calm a₀ hand w ∧ LostInHand w hand := by
  obtain ⟨hand, hat, hl⟩ := h
  refine ⟨hand, hat, fun pos hp => ?_⟩
  obtain ⟨htopic, hmem⟩ := hl pos hp
  refine ⟨htopic, w.buffered, hmem, ?_⟩
  rcases htx : w.txBatch with _ | ⟨tx, txs⟩
  · rcases htt : w.tokenBatch with _ | ⟨tt, tts⟩
    · simp [World.isBuffered, htx, htt] at hb
    · simp [World.buffered, htt]
  · simp [World.buffered, htx]

theorem Dropped.ended (h : Dropped D calm a₀ w) (hb : w.isBuffered = false) :
    Ended D calm a₀ w := by
  have hnil : w.txBatch = [] ∧ w.tokenBatch = [] := by simpa [World.isBuffered] using hb
  obtain ⟨hand, hat, hl⟩ := h
  refine ⟨⟨hand, hat, fun hsome => ?_⟩, fun _ _ => ?_⟩
  · obtain ⟨pos, rfl⟩ := Option.isSome_iff_exists.mp hsome
    exact List.ne_nil_of_mem (hl pos rfl).2
  · refine ⟨?_, ?_⟩
    · rw [hnil.1]
      exact w.db.insertTransactionsBatch_nil
    · rw [hnil.2]
      exact w.db.insertTokenTransfersBatch_nil

/-- **The `finally` of `main`.** -/
theorem shutdown_triple :
    Triple (Env calm) (Dropped D calm a₀) (shutdown D) (fun _ => Ended D calm a₀)
      (fun _ => Ended D calm a₀) (Cut D calm a₀) := by
  refine Triple.bind (Q := fun v w => w = v ∧ Dropped D calm a₀ w)
    (Triple.getState fun w h => ⟨rfl, h⟩) fun v => ?_
  refine Triple.bind (Q := fun _ => Ended D calm a₀) (Triple.when (fun hb => ?_) ?_) fun _ => ?_
  · rintro w cs ⟨rfl, h⟩ hH
    obtain ⟨hand, hat, hl⟩ := h.lostInHand hb
    exact (tryFlush_triple.conseq (fun _ h => h) (fun _ _ h => h.ended) fun _ _ h => h.ended)
      w cs ⟨hat, hl⟩ hH
  · rintro w hb ⟨rfl, h⟩
    exact h.ended (by simpa using hb)
  · have hclose : ∀ on error, Triple (Env calm) (Ended D calm a₀) (Call.probe on error)
        (fun _ => Ended D calm a₀) (fun _ => Ended D calm a₀) (Cut D calm a₀) := by
      intro on error
      exact probe_triple Ended.quiet (fun w h => h.cut) on error
    refine Triple.tryFinally (B := fun _ => Ended D calm a₀) (F := fun _ => Ended D calm a₀) ?_
      (fun _ => ?_) fun _ => ?_
    · refine Triple.tryCatch (producerFlush_quiet Ended.quiet fun w h => h.cut) fun e => ?_
      refine Triple.ite (fun _ => ?_) fun _ => ?_
      · exact Triple.pure fun w h => h
      · exact Triple.raise fun w h => h
    · exact Triple.bind (hclose _ _) fun _ => hclose _ _
    · exact Triple.bind (hclose _ _) fun _ => hclose _ _

theorem mainLoop_triple :
    Triple (Env calm) (At D calm a₀ none) (mainLoop D) (fun _ => Ended D calm a₀)
      (fun _ => Ended D calm a₀) (Cut D calm a₀) := by
  have hloop : Triple (Env calm) (At D calm a₀ none) (loop (round D)) (fun _ => Dropped D calm a₀)
      (fun _ => Dropped D calm a₀) (Cut D calm a₀) := by
    refine Triple.loop (fun w h => h.cut) (round_triple.post fun again w h => ?_)
    cases again with
    | true => exact h
    | false => exact h.dropped
  refine Triple.tryFinally (Triple.tryCatch hloop fun e => Triple.ite (fun _ => ?_) fun _ => ?_)
    (fun _ => shutdown_triple) fun _ => shutdown_triple
  · exact Triple.pure fun w h => h
  · exact Triple.raise fun w h => h

/-- Before the loop: nothing in hand, nothing buffered. -/
def Fresh (D : Deployment) (calm : Prop) (a₀ : World × Option Position) (w : World) : Prop :=
  At D calm a₀ none w ∧ w.txBatch = [] ∧ w.tokenBatch = []

theorem Fresh.quiet : Quiet calm (Fresh D calm a₀) := by
  intro w r q a m e c l h ha hm
  exact ⟨At.quiet r q a m e c l h.1 ha hm, h.2⟩

theorem Fresh.ended (h : Fresh D calm a₀ w) : Ended D calm a₀ w := h.1.ended h.2.1 h.2.2

theorem attempt_triple (on : Service) (error : Exc) :
    Triple (Env calm) (Fresh D calm a₀) (attempt on error) (fun _ => Fresh D calm a₀)
      (fun _ => Ended D calm a₀) (Cut D calm a₀) := by
  refine Triple.tryCatch (F := fun _ => Fresh D calm a₀) ?_ fun e => ?_
  · refine Triple.bind ?_ fun _ => Triple.pure fun w h => h
    exact probe_triple Fresh.quiet (fun w h => h.1.cut) on error
  · refine Triple.ite (fun _ => ?_) fun _ => ?_
    · exact Triple.pure fun w h => h
    · exact Triple.raise fun w h => h.ended

theorem main_triple :
    Triple (Env calm) (Fresh D calm a₀) (main D) (fun _ => Ended D calm a₀)
      (fun _ => Ended D calm a₀) (Cut D calm a₀) := by
  have hprobe : ∀ on error, Triple (Env calm) (Fresh D calm a₀) (Call.probe on error)
      (fun _ => Fresh D calm a₀) (fun _ => Ended D calm a₀) (Cut D calm a₀) := by
    intro on error
    exact (probe_triple Fresh.quiet (fun w h => h.1.cut) on error).conseq (fun _ h => h)
      (fun _ _ h => h) fun _ w h => h.ended
  refine Triple.bind (attempt_triple _ _) fun database => Triple.ite (fun _ => ?_) fun _ =>
    Triple.pure fun w h => h.ended
  refine Triple.bind (hprobe _ _) fun _ => ?_
  refine Triple.bind (attempt_triple _ _) fun redis => Triple.ite (fun _ => ?_) fun _ => ?_
  · exact mainLoop_triple.pre fun w h => h.1
  · refine Triple.bind (Q := fun _ => Fresh D calm a₀) ?_ fun _ => ?_
    · exact (producerFlush_quiet Fresh.quiet fun w h => h.1.cut).conseq (fun _ h => h)
        (fun _ _ h => h) fun _ w h => h.ended
    · refine Triple.bind (hprobe _ _) fun _ => ?_
      exact (hprobe _ _).post fun _ w h => h.ended

end Run

/-- **Every state of a process** is one the steps of the machine lead to. -/
theorem main_steps (D : Deployment) {calm : Prop} {w : World} {cs : List Choice}
    (htx : w.txBatch = []) (htt : w.tokenBatch = []) (hcs : ∀ c ∈ cs, Env calm c) :
    ∃ hand, Steps D calm (w, none) ((main D w cs).state, hand) := by
  refine (main_triple.conseq (Q := fun _ => Cut D calm (w, none))
    (E := fun _ => Cut D calm (w, none)) (fun _ h => h) (fun _ _ h => h.cut)
    fun _ _ h => h.cut).state ⟨ReflTransGen.refl, htx, htt⟩ hcs

/-- **A process that is not cut** has nothing in hand unless Redis raised, and in
a calm environment has stored its batches if they fit the columns. -/
theorem main_ends (D : Deployment) {calm : Prop} {w : World} {cs : List Choice}
    (htx : w.txBatch = []) (htt : w.tokenBatch = []) (hcs : ∀ c ∈ cs, Env calm c)
    (hend : (main D w cs).outcome ≠ .cut) : Ended D calm (w, none) (main D w cs).state := by
  have hmain : Triple (Env calm) (Fresh D calm (w, none)) (main D)
      (fun _ => Ended D calm (w, none)) (fun _ => Ended D calm (w, none))
      (Cut D calm (w, none)) := main_triple
  have h := (hmain w cs ⟨ReflTransGen.refl, htx, htt⟩ hcs).2
  rcases hr : main D w cs with ⟨o, w', cs'⟩
  rw [hr] at h hend
  cases o with
  | ok => exact h
  | raised e => exact h
  | cut => exact absurd rfl hend

/-- **Every state of a history** is reachable in the machine. -/
theorem sessions_reachable (D : Deployment) (w₀ : World) (css : List (List Choice)) :
    ∃ hand, Reachable D w₀ (sessions D w₀ css) hand := by
  have hall : ∀ w hand, Reachable D w₀ w hand →
      ∃ hand', Reachable D w₀ (sessions D w css) hand' := by
    induction css with
    | nil => exact fun w hand h => ⟨hand, h⟩
    | cons cs css ih =>
      intro w hand h
      have hsteps : ∃ hand', Steps D False (w.restart, none) ((main D w.restart cs).state, hand') :=
        main_steps D rfl rfl fun c _ hc => hc.elim
      obtain ⟨hand', hs⟩ := hsteps
      exact ih _ hand' (h.restart.steps hs)
  exact hall w₀ none .start

end Consumer

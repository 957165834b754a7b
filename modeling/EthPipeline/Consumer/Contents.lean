import EthPipeline.Consumer.Healthy

/-!
# The contents of messages

What the messages of a healthy run do, whatever bytes they carry.  An `Event` is a
message or a key that expires; `View.absorb` says what one does, and `replay` what
many do in turn.

* `replay_filter`: without the messages that are refused the replay is the same.
* `round_healthy`: a round replays its events, and only a message that is JSON but
  neither an object nor `null` makes it raise.
* `contents_handled_iff`: a run handles all its messages exactly when none is so.
-/

namespace Consumer

open Exec

variable {D : Deployment} {cs : List Choice}

/-! ### Events -/

/-- What `KafkaConsumerClient.poll` finds in a message; `null` is nothing. -/
def payload : RawValue → Option Json
  | .json .null => none
  | .json data => some data
  | _ => none

theorem decodeMessage_of_none {topic : Topic} {raw : RawValue} (h : payload raw = none) :
    (Call.decodeMessage topic raw).2 = none := by
  cases raw with
  | tombstone => rfl
  | undecodable => rfl
  | json data =>
    cases data with
    | null => rfl
    | _ => cases h

theorem decodeMessage_of_some {topic : Topic} {raw : RawValue} {data : Json}
    (h : payload raw = some data) : Call.decodeMessage topic raw = (some topic, some data) := by
  cases raw with
  | tombstone => cases h
  | undecodable => cases h
  | json data' =>
    cases data' with
    | null => cases h
    | _ =>
      obtain rfl := Option.some.inj h
      rfl

inductive Event where
  | expired (blockNumber : ℤ)
  | message (pos : Position) (raw : RawValue) (now : Timestamp)

def Event.position : Event → Option Position
  | .expired _ => none
  | .message pos _ _ => some pos

/-- The messages among the events, in their order. -/
def positions (es : List Event) : List Position := es.filterMap Event.position

/-- The event is of the log, and of a run over `cs`. -/
def Event.From (D : Deployment) (cs : List Choice) : Event → Prop
  | .expired n => ∃ c ∈ cs, .expired n ∈ c.background
  | .message pos raw now => D.message pos = some raw ∧ ∃ c ∈ cs, c.now = now

/-- The model of the topic accepts the payload. -/
def accepts (D : Deployment) (now : Timestamp) (data : Json) : Topic → Bool
  | .blocks => (construct (BlockModel.validate D.pydantic) data).toOption.isSome
  | .transactions => (construct (TransactionModel.validate D.pydantic now) data).toOption.isSome
  | .tokenTransfers => (construct (TokenTransferModel.validate D.pydantic now) data).toOption.isSome

/-- A message that is JSON and that the model of its topic accepts. -/
def Event.valid (D : Deployment) : Event → Bool
  | .expired _ => true
  | .message pos raw now => (payload raw).any fun data => accepts D now data pos.topic

namespace View

/-- The transfer as `enrich_token_timestamp` leaves it. -/
def dated (v : View) (tt : TokenTransferModel) : Option TokenTransferModel :=
  if tt.timestamp.isSome then some tt
  else (v.redis tt.blockNumber).map fun text => { tt with timestamp := some (fromisoformat text) }

/-- A payload is handled, or raises. -/
def receive (D : Deployment) (v : View) (now : Timestamp) (data : Json) : Topic → Except Exc View
  | .blocks => (construct (BlockModel.validate D.pydantic) data).map fun block =>
      { v with redis := Function.update v.redis block.number (some (isoformat block.timestamp)) }
  | .transactions => (construct (TransactionModel.validate D.pydantic now) data).map fun tx =>
      { v with txBatch := v.txBatch ++ [tx] }
  | .tokenTransfers => (construct (TokenTransferModel.validate D.pydantic now) data).map fun tt =>
      { v with tokenBatch := v.tokenBatch ++ (v.dated tt).toList }

/-- An event before the flush that may follow it; a payload that raises does nothing. -/
def arrive (D : Deployment) (v : View) : Event → View
  | .expired n => v.expire [n]
  | .message pos raw now =>
    ((payload raw).bind fun data => (v.receive D now data pos.topic).toOption).getD v

/-- One event. -/
def absorb (D : Deployment) (v : View) (e : Event) : View := (v.arrive D e).settle D

/-- The events in turn. -/
def replay (D : Deployment) (v : View) (es : List Event) : View := es.foldl (absorb D) v

variable {v u : View} {es : List Event} {e : Event}

theorem replay_append (es es' : List Event) :
    v.replay D (es ++ es') = (v.replay D es).replay D es' := List.foldl_append

theorem replay_settled (hv : v.settle D = v) : (v.replay D es).settle D = v.replay D es := by
  induction es generalizing v with
  | nil => exact hv
  | cons e es ih => exact ih settle_settle

theorem absorb_expired (hv : v.settle D = v) (n : ℤ) : v.absorb D (.expired n) = v.expire [n] := by
  show (v.expire [n]).settle D = _
  rw [settle_expire, hv]

theorem replay_expired (hv : v.settle D = v) (ns : List ℤ) :
    v.replay D (ns.map .expired) = v.expire ns := by
  induction ns generalizing v with
  | nil => rfl
  | cons n ns ih =>
    have hsettled : (v.expire [n]).settle D = v.expire [n] := by
      rw [settle_expire, hv]
    show (v.absorb D (.expired n)).replay D (ns.map .expired) = (v.expire [n]).expire ns
    rw [absorb_expired hv]
    exact ih hsettled

theorem receive_of_not_accepts {now : Timestamp} {data : Json} {topic : Topic}
    (h : accepts D now data topic = false) : (v.receive D now data topic).toOption = none := by
  have hmap : ∀ {α : Type} {x : Except Exc α} (f : α → View), x.toOption.isSome = false →
      (x.map f).toOption = none := by
    intro α x f hx
    cases x with
    | error e => rfl
    | ok a => cases hx
  cases topic with
  | blocks => exact hmap _ h
  | transactions => exact hmap _ h
  | tokenTransfers => exact hmap _ h

theorem arrive_of_not_valid (he : e.valid D = false) : v.arrive D e = v := by
  cases e with
  | expired n => cases he
  | message pos raw now =>
    unfold arrive
    dsimp only
    cases hp : payload raw with
    | none => rfl
    | some data =>
      have hrefused : accepts D now data pos.topic = false := by
        have hany : (payload raw).any (fun data => accepts D now data pos.topic) = false := he
        rw [hp] at hany
        exact hany
      rw [Option.bind_some, receive_of_not_accepts hrefused]
      rfl

/-- **A message that is refused does nothing.** -/
theorem absorb_of_not_valid (hv : v.settle D = v) (he : e.valid D = false) :
    v.absorb D e = v := by
  unfold absorb
  rw [arrive_of_not_valid he, hv]

/-- **Without the messages that are refused the replay is the same.** -/
theorem replay_filter (hv : v.settle D = v) :
    v.replay D (es.filter (Event.valid D)) = v.replay D es := by
  induction es generalizing v with
  | nil => rfl
  | cons e es ih =>
    by_cases he : e.valid D
    · rw [List.filter_cons_of_pos he]
      exact ih settle_settle
    · rw [List.filter_cons_of_neg he]
      show _ = (v.absorb D e).replay D es
      rw [absorb_of_not_valid hv (by simpa using he)]
      exact ih hv

end View

/-! ### One message -/

variable {ps : List Position} {v : View} {w : World}

/-- The keys expire in a run over `cs`. -/
def Expiring (cs : List Choice) (ns : List ℤ) : Prop := ∀ n ∈ ns, ∃ c ∈ cs, .expired n ∈ c.background

theorem expiring_nil (cs : List Choice) : Expiring cs [] := fun _ hn => nomatch hn

theorem Has.settled (h : Has cs ps v w) : ∃ ns, Expiring cs ns ∧ Has cs ps (v.expire ns) w ∧
    w.view = v.expire ns := by
  obtain ⟨ns, hns, hview⟩ := h.view
  exact ⟨ns, hns, ⟨h.queue, h.error, h.polled, [], by simp, hview⟩, hview⟩

theorem getBlockTimestamp_healthy (n : ℤ) {E : Exc → World → Prop} :
    Triple (Among cs) (Has cs ps v) (Call.getBlockTimestamp n)
      (fun answer w => ∃ ns, Expiring cs ns ∧ answer = (v.expire ns).redis n ∧
        Has cs ps (v.expire ns) w) E fun _ => True := by
  apply Has.service
  intro c w hc h
  obtain ⟨ns, hns, hhas, hview⟩ := h.settled
  rw [if_pos (hc.2.fault .redis)]
  exact ⟨_, _, rfl, ns, hns, congrFun (congrArg View.redis hview) n, { hhas with }⟩

/-- What the cache does not have now it will not have later: nobody else writes it. -/
theorem retryLookup_healthy {n : ℤ} (hn : v.redis n = none) (retries : ℕ)
    {E : Exc → World → Prop} :
    Triple (Among cs) (Has cs ps v) (retryLookup n retries none)
      (fun answer w => answer = none ∧ Has cs ps v w) E fun _ => True := by
  induction retries with
  | zero => exact Triple.pure fun w h => ⟨rfl, h⟩
  | succ retries ih =>
    refine Triple.ite (fun _ => ?_) fun hne => absurd rfl hne
    refine Triple.bind (Q := fun _ => Has cs ps v) (Has.service ?_) fun _ => ?_
    · intro c w hc h
      exact ⟨(), w, rfl, h⟩
    · refine Triple.bind (Q := fun answer w => answer = none ∧ Has cs ps v w) ?_ fun answer => ?_
      · apply Has.service
        intro c w hc h
        obtain ⟨ns, hns, hview⟩ := h.view
        rw [if_pos (hc.2.fault .redis)]
        refine ⟨_, _, rfl, ?_, { h with }⟩
        exact (congrFun (congrArg View.redis hview) n).trans (forget_eq_none hn ns)
      · apply Triple.given
        rintro rfl
        exact ih

theorem enrichTokenTimestamp_healthy (tt : TokenTransferModel) {E : Exc → World → Prop} :
    Triple (Among cs) (Has cs ps v) (enrichTokenTimestamp tt)
      (fun enriched w => ∃ ns, Expiring cs ns ∧ enriched = (v.expire ns).dated tt ∧
        Has cs ps (v.expire ns) w) E fun _ => True := by
  apply Triple.ite
  · intro hsome
    apply Triple.pure
    intro w h
    obtain ⟨ns, hns, hhas, -⟩ := h.settled
    refine ⟨ns, hns, ?_, hhas⟩
    unfold View.dated
    rw [if_pos hsome]
  · intro hnone
    refine Triple.bind (getBlockTimestamp_healthy tt.blockNumber) fun answer => ?_
    apply Triple.of_exists
    intro ns
    apply Triple.given
    intro hns
    apply Triple.given
    intro hanswer
    have hdated : (v.expire ns).dated tt =
        answer.map fun text => { tt with timestamp := some (fromisoformat text) } := by
      unfold View.dated
      rw [if_neg hnone, hanswer]
    cases answer with
    | none =>
      refine Triple.bind (retryLookup_healthy hanswer.symm 10) fun answer => ?_
      apply Triple.given
      rintro rfl
      refine Triple.bind (Q := fun _ => Has cs ps (v.expire ns)) (Triple.modifyState fun w h => ?_)
        fun _ => Triple.pure fun w h => ⟨ns, hns, hdated.symm, h⟩
      exact { h with }
    | some text =>
      refine Triple.bind (Q := fun answer w => answer = some text ∧ Has cs ps (v.expire ns) w)
        (Triple.pure fun w h => ⟨rfl, h⟩) fun answer => ?_
      apply Triple.given
      rintro rfl
      exact Triple.pure fun w h => ⟨ns, hns, hdated.symm, h⟩

theorem datetimeNow_healthy {E : Exc → World → Prop} :
    Triple (Among cs) (Has cs ps v) Call.datetimeNow
      (fun now w => (∃ c ∈ cs, c.now = now) ∧ Has cs ps v w) E fun _ => True := by
  apply Has.service
  intro c w hc h
  exact ⟨_, w, rfl, ⟨c, hc.1, rfl⟩, h⟩

/-- `Model(**data)`: what follows works on the model `x` of the data, and makes `f` of the
view. -/
theorem construct_healthy {α : Type} {topic : Topic} {data : Json} {now : Timestamp}
    {x : Except Exc α} {f : View → α → View} {rest : α → Prog Unit} (hnow : ∃ c ∈ cs, c.now = now)
    (hreceive : ∀ v : View, v.receive D now data topic = x.map (f v))
    (hrest : ∀ m, x = .ok m → Triple (Among cs) (Has cs ps v) (rest m)
      (fun _ w => ∃ ns, Expiring cs ns ∧ Has cs ps (f (v.expire ns) m) w)
      (fun _ _ => False) fun _ => True) :
    Triple (Among cs) (Has cs ps v) (ofExcept x >>= rest)
      (fun _ w => ∃ ns now u, Expiring cs ns ∧ (∃ c ∈ cs, c.now = now) ∧
        (v.expire ns).receive D now data topic = .ok u ∧ Has cs ps u w)
      (fun e w => ∃ now, (∃ c ∈ cs, c.now = now) ∧ v.receive D now data topic = .error e ∧
        Has cs ps v w) fun _ => True := by
  refine Triple.bind (Q := fun m w => x = .ok m ∧ Has cs ps v w) (Triple.ofExcept ?_ ?_)
    fun m => ?_
  · intro m w hx h
    exact ⟨hx, h⟩
  · intro e w hx h
    refine ⟨now, hnow, ?_, h⟩
    rw [hreceive, hx]
    rfl
  · apply Triple.given
    intro hx
    refine (hrest m hx).conseq (fun _ h => h) ?_ fun _ _ h => h.elim
    rintro _ w ⟨ns, hns, h⟩
    refine ⟨ns, now, _, hns, hnow, ?_, h⟩
    rw [hreceive, hx]
    rfl

/-- **A payload is handled as `View.receive` says.** -/
theorem handleMessage_healthy (hcs : cs ≠ []) (topic : Topic) (data : Json) :
    Triple (Among cs) (Has cs ps v) (handleMessage D (some topic) data)
      (fun _ w => ∃ ns now u, Expiring cs ns ∧ (∃ c ∈ cs, c.now = now) ∧
        (v.expire ns).receive D now data topic = .ok u ∧ Has cs ps u w)
      (fun e w => ∃ now, (∃ c ∈ cs, c.now = now) ∧ v.receive D now data topic = .error e ∧
        Has cs ps v w) fun _ => True := by
  obtain ⟨c₀, hc₀⟩ := List.exists_mem_of_ne_nil cs hcs
  cases topic with
  | blocks =>
    refine construct_healthy (f := fun v (block : BlockModel) => { v with
      redis := Function.update v.redis block.number (some (isoformat block.timestamp)) })
      ⟨c₀, hc₀, rfl⟩ (fun _ => rfl) fun block _ => ?_
    apply Has.service
    intro c w hc h
    obtain ⟨ns, hns, hhas, hview⟩ := h.settled
    rw [hc.2.fault .redis]
    refine ⟨(), _, rfl, ns, hns, h.queue, h.error, h.polled, [], by simp, ?_⟩
    exact congrArg (fun u : View => { u with
      redis := Function.update u.redis block.number (some (isoformat block.timestamp)) }) hview
  | transactions =>
    refine Triple.bind datetimeNow_healthy fun now => ?_
    apply Triple.given
    intro hnow
    refine construct_healthy (f := fun v tx => { v with txBatch := v.txBatch ++ [tx] }) hnow
      (fun _ => rfl) fun tx _ => Triple.modifyState fun w h => ?_
    obtain ⟨ns, hns, hhas, hview⟩ := h.settled
    refine ⟨ns, hns, h.queue, h.error, h.polled, [], by simp, ?_⟩
    exact congrArg (fun u : View => { u with txBatch := u.txBatch ++ [tx] }) hview
  | tokenTransfers =>
    refine Triple.bind datetimeNow_healthy fun now => ?_
    apply Triple.given
    intro hnow
    refine construct_healthy (f := fun v tt => { v with
      tokenBatch := v.tokenBatch ++ (v.dated tt).toList }) hnow (fun _ => rfl) fun tt _ => ?_
    refine Triple.bind (enrichTokenTimestamp_healthy tt) fun enriched => ?_
    apply Triple.of_exists
    intro ns
    apply Triple.given
    intro hns
    apply Triple.given
    intro hdated
    cases enriched with
    | none =>
      refine Triple.pure fun w h => ⟨ns, hns, ?_⟩
      rw [← hdated, Option.toList_none, List.append_nil]
      exact h
    | some tt' =>
      refine Triple.modifyState fun w h => ⟨ns, hns, ?_⟩
      obtain ⟨ms, hms, hview⟩ := h.view
      rw [← hdated]
      refine ⟨h.queue, h.error, h.polled, ms, hms, ?_⟩
      exact congrArg (fun u : View => { u with tokenBatch := u.tokenBatch ++ [tt'] }) hview

/-! ### A round -/

/-- JSON, but neither an object nor `null`: `Model(**data)` is a `TypeError`. -/
def Bare (D : Deployment) (pos : Position) : Prop :=
  ∃ raw data, D.message pos = some raw ∧ payload raw = some data ∧ ∀ fields, data ≠ .obj fields

theorem construct_eq_error {α : Type} {validate : Fields → Option α} {data : Json} {e : Exc}
    (h : construct validate data = .error e) :
    (e = .typeError ∧ ∀ fields, data ≠ .obj fields) ∨
      e = .validationError ∧ ∃ fields, data = .obj fields := by
  cases data with
  | obj fields =>
    right
    refine ⟨?_, fields, rfl⟩
    unfold construct at h
    dsimp only at h
    split at h
    · cases h
    · exact (Except.error.inj h).symm
  | _ =>
    left
    exact ⟨(Except.error.inj h).symm, by simp⟩

theorem map_eq_error {α β : Type} {x : Except Exc α} {f : α → β} {e : Exc}
    (h : x.map f = .error e) : x = .error e := by
  cases x with
  | error e' =>
    cases h
    rfl
  | ok a => cases h

theorem View.receive_eq_error {now : Timestamp} {data : Json} {topic : Topic} {e : Exc}
    (h : v.receive D now data topic = .error e) :
    (e = .typeError ∧ ∀ fields, data ≠ .obj fields) ∨
      e = .validationError ∧ ∃ fields, data = .obj fields := by
  cases topic with
  | blocks => exact construct_eq_error (map_eq_error h)
  | transactions => exact construct_eq_error (map_eq_error h)
  | tokenTransfers => exact construct_eq_error (map_eq_error h)

theorem View.receive_eq_ok {now : Timestamp} {data : Json} {topic : Topic} {u : View}
    (h : v.receive D now data topic = .ok u) : ∃ fields, data = .obj fields := by
  have hmap : ∀ {α : Type} {validate : Fields → Option α} (f : α → View),
      (construct validate data).map f = .ok u → ∃ fields, data = .obj fields := by
    intro α validate f hf
    cases hx : construct validate data with
    | error e =>
      rw [hx] at hf
      cases hf
    | ok a =>
      obtain ⟨fields, rfl, -⟩ := construct_eq_ok.mp hx
      exact ⟨fields, rfl⟩
  cases topic with
  | blocks => exact hmap _ h
  | transactions => exact hmap _ h
  | tokenTransfers => exact hmap _ h

theorem not_bare {pos : Position} {raw : RawValue} (hm : D.message pos = some raw)
    (h : ∀ data, payload raw = some data → ∃ fields, data = .obj fields) : ¬Bare D pos := by
  rintro ⟨raw', data, hm', hp, hne⟩
  obtain rfl := Option.some.inj (hm.symm.trans hm')
  obtain ⟨fields, rfl⟩ := h data hp
  exact hne fields rfl

/-- A round up to its flush: nothing at the end of the loop, or whether the flush is tried. -/
def beforeFlush (D : Deployment) : Prog (Option Bool) := do
  let running ← Call.isRunning
  if running then
    let (topic, data) ← Call.poll D
    match data with
    | some data =>
      let handled ← handleOrSkip D topic data
      pure (some handled)
    | none => pure (some true)
  else pure none

/-- The rest of the round. -/
def flushAfter (D : Deployment) : Option Bool → Prog Bool
  | none => pure false
  | some handled => do
    when handled (flushIfFull D)
    pure true

theorem round_eq (D : Deployment) : round D = beforeFlush D >>= flushAfter D := by
  unfold beforeFlush round
  rw [Exec.bind_assoc]
  congr 1
  funext running
  cases running with
  | false => rfl
  | true =>
    rw [if_pos rfl, if_pos rfl, Exec.bind_assoc]
    congr 1
    funext polled
    obtain ⟨topic, data⟩ := polled
    cases data with
    | none => rfl
    | some data =>
      show _ = (handleOrSkip D topic data >>= fun handled => pure (some handled)) >>= flushAfter D
      rw [Exec.bind_assoc]
      rfl

/-- The events of a round, and the view before its flush. -/
inductive Came (D : Deployment) (cs : List Choice) (v : View) : List Event → View → Prop
  | nothing : Came D cs v [] v
  | message {ns : List ℤ} {pos : Position} {raw : RawValue} {now : Timestamp}
      (hns : Expiring cs ns) (hm : D.message pos = some raw) (hnow : ∃ c ∈ cs, c.now = now) :
      Came D cs v (ns.map .expired ++ [.message pos raw now])
        ((v.expire ns).arrive D (.message pos raw now))

namespace Came

variable {es : List Event} {u : View}

theorem from_run (h : Came D cs v es u) : ∀ e ∈ es, e.From D cs := by
  intro e he
  cases h with
  | nothing => cases he
  | message hns hm hnow =>
    rcases List.mem_append.mp he with he | he
    · obtain ⟨n, hn, rfl⟩ := List.mem_map.mp he
      exact hns n hn
    · obtain rfl := List.mem_singleton.mp he
      exact ⟨hm, hnow⟩

/-- After the flush the events are replayed. -/
theorem settle (h : Came D cs v es u) (hv : v.settle D = v) : u.settle D = v.replay D es := by
  cases h with
  | nothing => exact hv
  | message hns hm hnow =>
    rw [View.replay_append, View.replay_expired hv]
    rfl

end Came

theorem positions_append (es es' : List Event) :
    positions (es ++ es') = positions es ++ positions es' := List.filterMap_append

theorem positions_message (ns : List ℤ) (pos : Position) (raw : RawValue) (now : Timestamp) :
    positions (ns.map .expired ++ [.message pos raw now]) = [pos] := by
  have hnil : positions (ns.map .expired) = [] := by
    apply List.filterMap_eq_nil_iff.mpr
    intro e he
    obtain ⟨n, -, rfl⟩ := List.mem_map.mp he
    rfl
  rw [positions_append, hnil]
  rfl

theorem poll_healthy {E : Exc → World → Prop} :
    Triple (Among cs) (Has cs ps v) (Call.poll D)
      (fun r w => cs ≠ [] ∧ (r.2 = none ∧ Has cs ps v w ∨
        ∃ pos raw, D.message pos = some raw ∧ r = Call.decodeMessage pos.topic raw ∧
          Has cs (pos :: ps) v w)) E fun _ => True := by
  apply Has.service
  intro c w hc h
  have hne : cs ≠ [] := List.ne_nil_of_mem hc.1
  cases hp : c.poll with
  | nothing => exact ⟨_, w, rfl, hne, .inl ⟨rfl, h⟩⟩
  | partitionEof => exact ⟨_, w, rfl, hne, .inl ⟨rfl, h⟩⟩
  | failed => exact absurd hp hc.2.poll
  | message topic partition =>
    cases hm : D.message ⟨topic, partition, w.position topic partition⟩ with
    | none =>
      dsimp only
      rw [hm]
      exact ⟨_, w, rfl, hne, .inl ⟨rfl, h⟩⟩
    | some raw =>
      dsimp only
      rw [hm]
      refine ⟨_, _, rfl, hne, .inr ⟨_, raw, hm, rfl, ?_⟩⟩
      exact { h with polled := congrArg (_ :: ·) h.polled }

/-- A payload is handled, or skipped, or raises past the loop's `except`. -/
theorem handleOrSkip_healthy (hcs : cs ≠ []) {pos : Position} {raw : RawValue} {data : Json}
    (hm : D.message pos = some raw) (hp : payload raw = some data) :
    Triple (Among cs) (Has cs ps v) (handleOrSkip D (some pos.topic) data)
      (fun handled w => ∃ es u, Came D cs v es u ∧ positions es = [pos] ∧ ¬Bare D pos ∧
        (handled = false → u = v) ∧ Has cs ps u w)
      (fun _ w => ∃ es, Came D cs v es v ∧ positions es = [pos] ∧ Bare D pos ∧ Has cs ps v w)
      fun _ => True := by
  have harrive : ∀ ns now, (v.expire ns).arrive D (.message pos raw now) =
      ((v.expire ns).receive D now data pos.topic).toOption.getD (v.expire ns) := by
    intro ns now
    unfold View.arrive
    dsimp only
    rw [hp]
    rfl
  have hpayload : ∀ {fields}, data = .obj fields → ¬Bare D pos := by
    intro fields hdata
    apply not_bare hm
    intro data' hp'
    obtain rfl := Option.some.inj (hp.symm.trans hp')
    exact ⟨fields, hdata⟩
  have hrefused : ∀ {now e}, (∃ c ∈ cs, c.now = now) → v.receive D now data pos.topic = .error e →
      Came D cs v [.message pos raw now] v := by
    intro now e hnow he
    have hcame := Came.message (v := v) (expiring_nil cs) hm hnow
    rw [harrive] at hcame
    have hsame : (v.expire []).receive D now data pos.topic = .error e := he
    rw [hsame] at hcame
    exact hcame
  unfold handleOrSkip
  apply Triple.tryCatch (F := fun e w => ∃ now, (∃ c ∈ cs, c.now = now) ∧
    v.receive D now data pos.topic = .error e ∧ Has cs ps v w)
  · refine Triple.bind (handleMessage_healthy hcs pos.topic data) fun _ => Triple.pure ?_
    rintro w ⟨ns, now, u, hns, hnow, hreceive, h⟩
    obtain ⟨fields, hdata⟩ := View.receive_eq_ok hreceive
    have hcame := Came.message (v := v) hns hm hnow
    rw [harrive, hreceive] at hcame
    exact ⟨_, u, hcame, positions_message ns pos raw now, hpayload hdata, by simp, h⟩
  · intro e
    apply Triple.of_exists
    intro now
    apply Triple.given
    intro hnow
    apply Triple.given
    intro he
    have hcame := hrefused hnow he
    rcases View.receive_eq_error he with ⟨rfl, hbare⟩ | ⟨rfl, fields, hdata⟩
    · refine Triple.ite (fun hfalse => by cases hfalse) fun _ => Triple.raise fun w h => ?_
      exact ⟨_, hcame, rfl, ⟨raw, data, hm, hp, hbare⟩, h⟩
    · refine Triple.ite (fun _ => Triple.pure fun w h => ?_) fun hfalse => absurd rfl hfalse
      exact ⟨_, v, hcame, rfl, hpayload hdata, fun _ => rfl, h⟩

theorem beforeFlush_healthy (hv : v.settle D = v) :
    Triple (Among cs) (Has cs ps v) (beforeFlush D)
      (fun flushing w => ∃ es u, Came D cs v es u ∧ (∀ pos ∈ positions es, ¬Bare D pos) ∧
        (flushing ≠ some true → u.settle D = u) ∧ Has cs ((positions es).reverse ++ ps) u w)
      (fun _ w => ∃ es, Came D cs v es v ∧ (∃ pos ∈ positions es, Bare D pos) ∧
        Has cs ((positions es).reverse ++ ps) v w) fun _ => True := by
  have hnothing : ∀ flushing : Option Bool, ∀ w, Has cs ps v w →
      ∃ es u, Came D cs v es u ∧ (∀ pos ∈ positions es, ¬Bare D pos) ∧
        (flushing ≠ some true → u.settle D = u) ∧ Has cs ((positions es).reverse ++ ps) u w :=
    fun _ w h => ⟨[], v, .nothing, by simp [positions], fun _ => hv, h⟩
  refine Triple.bind (Q := fun _ => Has cs ps v) (Has.service ?_) fun running => ?_
  · intro c w hc h
    exact ⟨_, w, rfl, h⟩
  · apply Triple.ite
    · intro _
      refine Triple.bind poll_healthy fun polled => ?_
      apply Triple.given
      intro hcs
      obtain ⟨topic, data⟩ := polled
      rintro w cs' (⟨hnone, h⟩ | ⟨pos, raw, hm, hr, h⟩) hH
      · obtain rfl : data = none := hnone
        exact Triple.pure (fun w h => hnothing _ w h) w cs' h hH
      · cases hp : payload raw with
        | none =>
          obtain rfl : data = none := (congrArg Prod.snd hr).trans (decodeMessage_of_none hp)
          obtain ⟨c, hc⟩ := List.exists_mem_of_ne_nil cs hcs
          have hcame := Came.message (v := v) (expiring_nil cs) hm ⟨c, hc, rfl⟩
          have harrive : (v.expire []).arrive D (.message pos raw c.now) = v := by
            unfold View.arrive
            dsimp only
            rw [hp]
            rfl
          rw [harrive] at hcame
          refine Triple.pure (P := Has cs (pos :: ps) v) (fun w h => ?_) w cs' h hH
          refine ⟨_, v, hcame, ?_, fun _ => hv, h⟩
          intro pos' hpos
          obtain rfl : pos' = pos := List.mem_singleton.mp hpos
          apply not_bare hm
          intro data hdata
          rw [hp] at hdata
          cases hdata
        | some data' =>
          obtain ⟨rfl, rfl⟩ := Prod.mk.inj (hr.trans (decodeMessage_of_some hp))
          refine Triple.bind (P := Has cs (pos :: ps) v) ((handleOrSkip_healthy hcs hm hp).conseq
            (fun _ h => h) (fun _ _ h => h) ?_) (fun handled => Triple.pure ?_) w cs' h hH
          · rintro _ w ⟨es, hcame, hpos, hbare, h⟩
            refine ⟨es, hcame, ⟨pos, ?_, hbare⟩, ?_⟩
            · rw [hpos]
              exact List.mem_cons_self
            · rw [hpos]
              exact h
          · rintro w ⟨es, u, hcame, hpos, hbare, hskip, h⟩
            refine ⟨es, u, hcame, ?_, ?_, ?_⟩
            · rw [hpos]
              simpa using hbare
            · intro hne
              have hfalse : handled = false := by simpa using hne
              rw [hskip hfalse, hv]
            · rw [hpos]
              exact h
    · intro _
      exact Triple.pure fun w h => hnothing _ w h

/-! ### A run -/

/-- The run from `w₀` has replayed the events. -/
structure Absorbed (D : Deployment) (cs : List Choice) (w₀ : World) (es : List Event) (w : World) :
    Prop where
  from_run : ∀ e ∈ es, e.From D cs
  has : Has cs ((positions es).reverse ++ w₀.polled) (w₀.view.replay D es) w

variable {w₀ : World}

theorem Absorbed.came {es es' : List Event} {u : View} (hw : w₀.view.settle D = w₀.view)
    (hes : ∀ e ∈ es, e.From D cs) (hcame : Came D cs (w₀.view.replay D es) es' u)
    (h : Has cs ((positions es').reverse ++ ((positions es).reverse ++ w₀.polled)) (u.settle D) w) :
    Absorbed D cs w₀ (es ++ es') w := by
  refine ⟨fun e he => ?_, ?_⟩
  · rcases List.mem_append.mp he with he | he
    · exact hes e he
    · exact hcame.from_run e he
  · rw [positions_append, List.reverse_append, List.append_assoc, View.replay_append,
      ← hcame.settle (View.replay_settled hw)]
    exact h

/-- **A round replays its events**, and raises on a bare message only. -/
theorem round_healthy (hw : w₀.view.settle D = w₀.view) :
    Triple (Among cs) (fun w => ∃ es, Absorbed D cs w₀ es w ∧ ∀ pos ∈ positions es, ¬Bare D pos)
      (round D)
      (fun _ w => ∃ es, Absorbed D cs w₀ es w ∧ ∀ pos ∈ positions es, ¬Bare D pos)
      (fun _ w => ∃ es, Absorbed D cs w₀ es w ∧ ∃ pos ∈ positions es, Bare D pos)
      fun _ => True := by
  apply Triple.of_exists
  rintro es w cs' ⟨⟨hes, h⟩, hbare⟩ hH
  have hv : (w₀.view.replay D es).settle D = w₀.view.replay D es := View.replay_settled hw
  have hall : ∀ {es'}, (∀ pos ∈ positions es', ¬Bare D pos) →
      ∀ pos ∈ positions (es ++ es'), ¬Bare D pos := by
    intro es' hes' pos hpos
    rw [positions_append] at hpos
    rcases List.mem_append.mp hpos with hpos | hpos
    · exact hbare pos hpos
    · exact hes' pos hpos
  rw [round_eq]
  refine Triple.bind ((beforeFlush_healthy hv).conseq (fun _ h => h) (fun _ _ h => h) ?_)
    (fun flushing => ?_) w cs' h hH
  · rintro _ w ⟨es', hcame, ⟨pos, hpos, hb⟩, h⟩
    refine ⟨es ++ es', .came hw hes hcame ?_, pos, ?_, hb⟩
    · rw [hv]
      exact h
    · rw [positions_append]
      exact List.mem_append_right _ hpos
  · apply Triple.of_exists
    intro es'
    apply Triple.of_exists
    intro u
    apply Triple.given
    intro hcame
    apply Triple.given
    intro hbare'
    apply Triple.given
    intro hsettled
    have hdone : ∀ w, Has cs ((positions es').reverse ++ ((positions es).reverse ++ w₀.polled))
        (u.settle D) w → ∃ es, Absorbed D cs w₀ es w ∧ ∀ pos ∈ positions es, ¬Bare D pos :=
      fun w h => ⟨es ++ es', .came hw hes hcame h, hall hbare'⟩
    match flushing with
    | none =>
      refine Triple.pure fun w h => hdone w ?_
      rw [hsettled (by simp)]
      exact h
    | some handled =>
      refine Triple.bind (Q := fun _ => Has cs ((positions es').reverse ++
        ((positions es).reverse ++ w₀.polled)) (u.settle D)) ?_ fun _ => Triple.pure hdone
      apply Triple.when
      · intro _
        exact flushIfFull_healthy
      · intro w hfalse h
        rw [hsettled (by simpa using hfalse)]
        exact h

/-- The messages `ps` of a run from `w₀` are handled: no exception leaves the loop, and
what is left is their replay, to which the refused ones add nothing. -/
structure ContentsHandled {α : Type} (D : Deployment) (cs : List Choice) (w₀ : World)
    (ps : List Position) (r : Result World Choice Exc α) : Prop where
  returns : ∀ e, r.outcome ≠ .raised e
  replayed : ∃ es, (∀ e ∈ es, e.From D cs) ∧ positions es = ps ∧
    r.state.view = w₀.view.replay D es ∧
    r.state.view = w₀.view.replay D (es.filter (Event.valid D)) ∧
    ∀ before e after, es = before ++ e :: after → e.valid D = false →
      w₀.view.replay D (before ++ [e]) = w₀.view.replay D before

/-- The messages of the run are handled exactly when none is bare. -/
def ContentsLaw {α : Type} (D : Deployment) (cs : List Choice) (w₀ : World)
    (r : Result World Choice Exc α) : Prop :=
  ∃ ps, r.state.polled = ps.reverse ++ w₀.polled ∧
    (ContentsHandled D cs w₀ ps r ↔ ∀ pos ∈ ps, ¬Bare D pos)

theorem contentsLaw_of_meets {α : Type} (hw : w₀.view.settle D = w₀.view)
    {r : Result World Choice Exc α} (hcut : r.outcome ≠ .cut)
    (h : r.Meets (Among cs)
      (fun _ w => ∃ es, Absorbed D cs w₀ es w ∧ ∀ pos ∈ positions es, ¬Bare D pos)
      (fun _ w => ∃ es, Absorbed D cs w₀ es w ∧ ∃ pos ∈ positions es, Bare D pos)
      fun _ => True) : ContentsLaw D cs w₀ r := by
  obtain ⟨outcome, w, rest⟩ := r
  replace h := h.2
  cases outcome with
  | cut => exact absurd rfl hcut
  | raised e =>
    obtain ⟨es, hes, pos, hpos, hbare⟩ := h
    refine ⟨positions es, hes.has.polled, fun hhandled => ?_, fun hnone => ?_⟩
    · exact absurd rfl (hhandled.returns e)
    · exact absurd hbare (hnone pos hpos)
  | ok a =>
    obtain ⟨es, hes, hbare⟩ := h
    refine ⟨positions es, hes.has.polled, fun _ => hbare, fun _ => ⟨by simp, ?_⟩⟩
    obtain ⟨ns, hns, hview⟩ := hes.has.view
    have hexpired : positions (ns.map .expired) = [] := by
      apply List.filterMap_eq_nil_iff.mpr
      intro e he
      obtain ⟨n, -, rfl⟩ := List.mem_map.mp he
      rfl
    have hreplay : w.view = w₀.view.replay D (es ++ ns.map .expired) := by
      rw [View.replay_append, View.replay_expired (View.replay_settled hw)]
      exact hview
    refine ⟨es ++ ns.map .expired, ?_, ?_, hreplay, ?_, ?_⟩
    · intro e he
      rcases List.mem_append.mp he with he | he
      · exact hes.from_run e he
      · obtain ⟨n, hn, rfl⟩ := List.mem_map.mp he
        exact hns n hn
    · rw [positions_append, hexpired, List.append_nil]
    · rw [View.replay_filter hw]
      exact hreplay
    · intro before e after _ he
      rw [View.replay_append]
      exact View.absorb_of_not_valid (View.replay_settled hw) he

theorem restart_settled (D : Deployment) (w : World) : w.restart.view.settle D = w.restart.view :=
  View.settle_of_empty rfl rfl

theorem Absorbed.start (D : Deployment) (cs : List Choice) (w : World) :
    Absorbed D cs w.restart [] w.restart :=
  ⟨by simp, rfl, rfl, rfl, [], by simp, rfl⟩

/-- **Whatever its messages contain, a healthy run handles them all, unless one is JSON
but neither an object nor `null`.** -/
theorem contents_handled_iff (D : Deployment) (w : World) (cs : List Choice)
    (hcs : ∀ c ∈ cs, c.Healthy) :
    (∀ n, (iterations (round D) n w.restart cs).outcome ≠ .cut →
      ContentsLaw D cs w.restart (iterations (round D) n w.restart cs)) ∧
    ((loop (round D) w.restart cs).outcome ≠ .cut →
      ContentsLaw D cs w.restart (loop (round D) w.restart cs)) := by
  have hw := restart_settled D w
  have hstart : ∃ es, Absorbed D cs w.restart es w.restart ∧ ∀ pos ∈ positions es, ¬Bare D pos :=
    ⟨[], .start D cs w, by simp [positions]⟩
  have hamong : ∀ c ∈ cs, Among cs c := fun c hc => ⟨hc, hcs c hc⟩
  have hround : Triple (Among cs) _ (round D) _ _ _ := round_healthy hw
  constructor
  · intro n hcut
    apply contentsLaw_of_meets hw hcut
    refine (Triple.iterations (J := fun w' => ∃ es, Absorbed D cs w.restart es w' ∧
      ∀ pos ∈ positions es, ¬Bare D pos) (Q := fun w' => ∃ es, Absorbed D cs w.restart es w' ∧
      ∀ pos ∈ positions es, ¬Bare D pos) ?_ n).post ?_ w.restart cs hstart hamong
    · refine hround.post fun again w' h => ?_
      cases again <;> exact h
    · intro again w' h
      cases again <;> exact h
  · intro hcut
    apply contentsLaw_of_meets hw hcut
    refine Triple.loop (fun _ _ => trivial) (hround.post fun again w' h => ?_) w.restart cs hstart
      hamong
    cases again <;> exact h

/-! ### A message that stops the consumer -/

/-- A call that goes well; the broker has delivered what it was given. -/
def Choice.prompt (poll : Poll) : Choice := { background := [.delivered 0], poll }

theorem Choice.healthy_prompt {poll : Poll} (h : poll ≠ .failed) : (Choice.prompt poll).Healthy :=
  ⟨fun _ => rfl, h, List.mem_singleton_self _, fun i error hmem => by simp [Choice.prompt] at hmem⟩

/-- The messages of one partition of `blocks`. -/
def blockLog (messages : List RawValue) : Deployment where
  log := fun topic partition => if topic = .blocks ∧ partition = 0 then messages else []
  pydantic := .plain

/-- Two rounds, over messages of `blocks`. -/
def twoPolls : List Choice :=
  [.prompt .nothing, .prompt (.message .blocks 0), .prompt .nothing, .prompt .nothing,
    .prompt (.message .blocks 0)]

theorem healthy_twoPolls : ∀ c ∈ twoPolls, c.Healthy := by
  intro c hc
  simp only [twoPolls, List.mem_cons, List.not_mem_nil, or_false] at hc
  rcases hc with rfl | rfl | rfl | rfl | rfl <;> exact Choice.healthy_prompt (by simp)

/-- A block, and bytes that are no text. -/
def blockAndNoise : Deployment :=
  blockLog [.json (.obj [("number", .int 7), ("timestamp", .int 1700000000)]), .undecodable]

theorem contents_blockAndNoise :
    ContentsLaw blockAndNoise twoPolls (World.initial .empty fun _ => none).restart
      (iterations (round blockAndNoise) 2 (World.initial .empty fun _ => none).restart twoPolls) :=
  (contents_handled_iff blockAndNoise (World.initial .empty fun _ => none) twoPolls
    healthy_twoPolls).1 2 (by decide +kernel)

/-- **The text `5` stops the consumer**: `BlockModel(**5)` is no `ValidationError`. -/
theorem number_stops_consumer :
    (∀ c ∈ twoPolls, c.Healthy) ∧
      (loop (round (blockLog [.json (.int 5)]))
        (World.initial .empty fun _ => none).restart twoPolls).outcome = .raised .typeError := by
  refine ⟨healthy_twoPolls, ?_⟩
  decide +kernel

end Consumer

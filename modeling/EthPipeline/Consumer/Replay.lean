import EthPipeline.Consumer.Refinement
import EthPipeline.Consumer.TableView

/-!
# Batches, retries and redelivery

`deliver` is one message alone: the record its model makes of it, with the
timestamp Redis knows if it has none, goes into its table.

* `batched_eq_one_by_one`: however the flushes of a process fail, once the last
  one went through the tables are those of delivering what was polled one by one.
* `replayed_eq_once`: however often messages are redelivered, once everything is
  committed the tables are those of delivering each message once, if the
  timestamps are convertible and Redis answers a message the same way every time.
* `replay_duplicates`: a message with `"timestamp": null` redelivered at another
  time is stored twice.
-/

namespace Consumer

/-! ### One message alone -/

def recordTransaction (D : Deployment) (now : Timestamp) : RawValue → Option TransactionModel
  | .json data => (construct (TransactionModel.validate D.pydantic now) data).toOption
  | _ => none

def recordTokenTransfer (D : Deployment) (now : Timestamp) (answer : ℤ → Option IsoText)
    (raw : RawValue) : Option TokenTransferModel :=
  match raw with
  | .json data =>
    (construct (TokenTransferModel.validate D.pydantic now) data).toOption.bind fun tt =>
      (tt.timestamp <|> (answer tt.blockNumber).map fromisoformat).map fun t =>
        { tt with timestamp := some t }
  | _ => none

/-- One message delivered on its own, at the time `now`, Redis answering its
lookups by `answer`. -/
def deliver (D : Deployment) (now : Timestamp) (answer : Position → ℤ → Option IsoText)
    (T : Tables) (pos : Position) : Option Tables :=
  match pos.topic with
  | .blocks => some T
  | .transactions =>
    T.insertTransactionsBatch ((D.message pos).bind (recordTransaction D now)).toList
  | .tokenTransfers =>
    T.insertTokenTransfersBatch ((D.message pos).bind (recordTokenTransfer D now (answer pos))).toList

def deliverAll (D : Deployment) (now : Timestamp) (answer : Position → ℤ → Option IsoText)
    (T : Tables) (ps : List Position) : Option Tables :=
  ps.foldlM (deliver D now answer) T

section Views

variable (D : Deployment) (now : Timestamp) (answer : Position → ℤ → Option IsoText)

def transactionView : TableView TransactionRow.key TransactionRow.ofModel where
  table := fun w => w.db.transactions
  batch := World.txBatch
  record := fun pos =>
    if pos.topic = .transactions then (D.message pos).bind (recordTransaction D now) else none

def tokenTransferView : TableView TokenTransferRow.key TokenTransferRow.ofModel where
  table := fun w => w.db.tokenTransfers
  batch := World.tokenBatch
  record := fun pos =>
    if pos.topic = .tokenTransfers then
      (D.message pos).bind (recordTokenTransfer D now (answer pos))
    else none

variable {D now answer}

theorem transactionView_record_of_ne {pos : Position} (h : pos.topic ≠ .transactions) :
    (transactionView D now).record pos = none :=
  if_neg h

theorem tokenTransferView_record_of_ne {pos : Position} (h : pos.topic ≠ .tokenTransfers) :
    (tokenTransferView D now answer).record pos = none :=
  if_neg h

/-- Inserting record by record is inserting them all. -/
theorem deliverAll_eq_some {ps : List Position} {T U : Tables}
    (htx : T.transactions.storeAll TransactionRow.ofModel
      (ps.filterMap (transactionView D now).record) = some U.transactions)
    (htt : T.tokenTransfers.storeAll TokenTransferRow.ofModel
      (ps.filterMap (tokenTransferView D now answer).record) = some U.tokenTransfers) :
    deliverAll D now answer T ps = some U := by
  induction ps generalizing T with
  | nil =>
    simp only [List.filterMap_nil, Keyed.storeAll_nil, Option.some.injEq] at htx htt
    cases T
    cases U
    simp only at htx htt
    rw [htx, htt]
    rfl
  | cons pos ps ih =>
    have hsplit : ∀ {β : Type} (f : Position → Option β),
        (pos :: ps).filterMap f = (f pos).toList ++ ps.filterMap f := by
      intro β f
      cases hf : f pos <;> simp [hf]
    rw [hsplit] at htx htt
    obtain ⟨t, ht, ht'⟩ := Keyed.storeAll_split htx
    obtain ⟨u, hu, hu'⟩ := Keyed.storeAll_split htt
    have hone : deliver D now answer T pos = some ⟨t, u⟩ := by
      unfold deliver
      simp only [transactionView, tokenTransferView] at ht hu
      cases htopic : pos.topic with
      | blocks =>
        simp only [htopic, reduceCtorEq, if_false, Option.toList_none, Keyed.storeAll_nil,
          Option.some.injEq] at ht hu
        rw [← ht, ← hu]
      | transactions =>
        simp only [htopic, reduceCtorEq, if_true, if_false, Option.toList_none,
          Keyed.storeAll_nil, Option.some.injEq] at ht hu
        rw [← hu]
        simp only [Tables.insertTransactionsBatch, ht, Option.map_some]
      | tokenTransfers =>
        simp only [htopic, reduceCtorEq, if_true, if_false, Option.toList_none,
          Keyed.storeAll_nil, Option.some.injEq] at ht hu
        rw [← ht]
        simp only [Tables.insertTokenTransfersBatch, hu, Option.map_some]
    show (deliver D now answer T pos >>= fun T => deliverAll D now answer T ps) = some U
    rw [hone]
    exact ih ht' hu'

/-- One delivery adds at most one row. -/
theorem deliverAll_rows_le {ps : List Position} {T U : Tables}
    (h : deliverAll D now answer T ps = some U) :
    U.transactions.rows.length ≤ T.transactions.rows.length + ps.length := by
  induction ps generalizing T with
  | nil =>
    obtain rfl := Option.some.inj h
    exact Nat.le_refl _
  | cons pos ps ih =>
    obtain ⟨T', hT, hU⟩ := Option.bind_eq_some_iff.mp h
    have hone : T'.transactions.rows.length ≤ T.transactions.rows.length + 1 := by
      unfold deliver at hT
      cases htopic : pos.topic with
      | blocks =>
        rw [htopic] at hT
        obtain rfl := Option.some.inj hT
        exact Nat.le_succ _
      | transactions =>
        rw [htopic] at hT
        have hle := Keyed.length_storeAll_le (Tables.insertTransactionsBatch_eq_some hT).1
        have hrecord : ((D.message pos).bind (recordTransaction D now)).toList.length ≤ 1 := by
          cases (D.message pos).bind (recordTransaction D now) <;> simp
        omega
      | tokenTransfers =>
        rw [htopic] at hT
        rw [(Tables.insertTokenTransfersBatch_eq_some hT).2]
        exact Nat.le_succ _
    have hrest := ih hU
    rw [List.length_cons]
    omega

/-! ### Steady histories -/

/-- The timestamp an accepted record carries is one `parse_eth_timestamp` can
convert. -/
def Dated (D : Deployment) (pos : Position) : Prop :=
  pos.topic ≠ .blocks → ∀ data, D.message pos = some (.json data) →
    ¬Rejects D pos.topic (.json data) → Convertible data

/-- What a redelivery depends on is the same every time: the timestamp is in the
message or in Redis, which answers the lookups of a message the same way. -/
structure Steady (D : Deployment) (answer : Position → ℤ → Option IsoText) (w : World) :
    Prop where
  dated : ∀ pos ∈ w.polled, Dated D pos
  answers : ∀ l ∈ w.lookups, l.2.2 = answer l.1 l.2.1
  redisErrors : IdleRedisErrors w

variable {calm : Prop} {w w' : World} {hand hand' : Option Position}

theorem Steady.of_grows (hg : Grows w w') (h : Steady D answer w') : Steady D answer w where
  dated := fun pos hpos => h.dated pos (hg.polled.subset hpos)
  answers := fun l hl => h.answers l (hg.lookups hl)
  redisErrors := fun n hn => h.redisErrors n (hg.redisErrors hn)

theorem recordTransaction_of_accepts (now : Timestamp) {pos : Position} {raw : RawValue}
    {now' : Timestamp} {tx : TransactionModel} (hd : Dated D pos) (hm : D.message pos = some raw)
    (ht : pos.topic = .transactions) (ha : AcceptsTransaction D raw now' tx) :
    recordTransaction D now raw = some tx := by
  obtain ⟨data, rfl, hc⟩ := ha
  have haccepted : ¬Rejects D pos.topic (.json data) := by
    rw [ht]
    exact fun hr => hr now' tx ⟨data, rfl, hc⟩
  have hconv := hd (by simp [ht]) data hm haccepted
  rw [recordTransaction, transaction_construct_congr hconv now' now hc]
  rfl

theorem recordTransaction_of_rejects {raw : RawValue} (hr : Rejects D .transactions raw) :
    recordTransaction D now raw = none := by
  cases raw with
  | tombstone => rfl
  | undecodable => rfl
  | json data =>
    rw [recordTransaction]
    cases hc : construct (TransactionModel.validate D.pydantic now) data with
    | error e => rfl
    | ok tx => exact absurd ⟨data, rfl, hc⟩ (hr now tx)

theorem recordTokenTransfer_of_accepts (now : Timestamp) (answer : ℤ → Option IsoText)
    {pos : Position} {raw : RawValue} {now' : Timestamp} {tt : TokenTransferModel}
    (hd : Dated D pos) (hm : D.message pos = some raw)
    (ht : pos.topic = .tokenTransfers) (ha : AcceptsTokenTransfer D raw now' tt) :
    recordTokenTransfer D now answer raw =
      (tt.timestamp <|> (answer tt.blockNumber).map fromisoformat).map fun t =>
        { tt with timestamp := some t } := by
  obtain ⟨data, rfl, hc⟩ := ha
  have haccepted : ¬Rejects D pos.topic (.json data) := by
    rw [ht]
    exact fun hr => hr now' tt ⟨data, rfl, hc⟩
  have hconv := hd (by simp [ht]) data hm haccepted
  rw [recordTokenTransfer, tokenTransfer_construct_congr hconv now' now hc]
  rfl

theorem recordTokenTransfer_of_rejects {answer : ℤ → Option IsoText} {raw : RawValue}
    (hr : Rejects D .tokenTransfers raw) : recordTokenTransfer D now answer raw = none := by
  cases raw with
  | tombstone => rfl
  | undecodable => rfl
  | json data =>
    rw [recordTokenTransfer]
    cases hc : construct (TokenTransferModel.validate D.pydantic now) data with
    | error e => rfl
    | ok tt => exact absurd ⟨data, rfl, hc⟩ (hr now tt)

/-- What a step does to the table of transactions. -/
theorem transactions_move (hstep : Step D calm (w, hand) (w', hand')) (hs : Steady D answer w')
    (hhand : ∀ pos, hand = some pos → pos ∈ w.polled) :
    Move D (transactionView D now) (w, hand) (w', hand') := by
  have hsteady := hs.of_grows hstep.grows
  have hother : ∀ {pos : Position}, pos.topic ≠ .transactions →
      (transactionView D now).batch w = (transactionView D now).batch w ++
        ((transactionView D now).record pos).toList := by
    intro pos hne
    rw [transactionView_record_of_ne hne, Option.toList_none, List.append_nil]
  cases hstep with
  | quiet => exact .idle rfl rfl rfl rfl rfl
  | lookup => exact .idle rfl rfl rfl rfl rfl
  | redisError => exact .idle rfl rfl rfl rfl rfl
  | hand => exact .idle rfl rfl rfl rfl rfl
  | poll hm hpos => exact .poll hm hpos rfl rfl
  | cache _ ht => exact .handle rfl rfl rfl rfl (hother (by simp [ht]))
  | appendTokenTransfer _ ht => exact .handle rfl rfl rfl rfl (hother (by simp [ht]))
  | skip _ ht => exact .handle rfl rfl rfl rfl (hother (by simp [ht]))
  | @reject _ pos raw hm hr =>
    refine .handle rfl rfl rfl rfl ?_
    by_cases ht : pos.topic = .transactions
    · rw [ht] at hr
      simp [transactionView, ht, hm, recordTransaction_of_rejects hr]
    · exact hother ht
  | @appendTransaction _ pos _ _ _ hm ht ha =>
    refine .handle rfl rfl rfl rfl ?_
    have hrecord := recordTransaction_of_accepts now (hsteady.dated pos (hhand pos rfl)) hm ht ha
    simp [transactionView, ht, hm, hrecord]
  | store hT hU =>
    obtain ⟨h1, -⟩ := Tables.insertTransactionsBatch_eq_some hT
    obtain ⟨-, h2⟩ := Tables.insertTokenTransfersBatch_eq_some hU
    exact .store rfl rfl rfl (h1.trans (congrArg some h2.symm)) rfl
  | commit hst _ hl =>
    obtain rfl := hsteady.redisErrors.hand_none hl
    exact .commit (Tables.insertTransactionsBatch_eq_some hst.1).1 rfl rfl rfl rfl rfl
  | clear hst =>
    exact .clear (Tables.insertTransactionsBatch_eq_some hst.1).1 rfl rfl rfl rfl rfl

/-- What a step does to the table of token transfers. -/
theorem tokenTransfers_move (hstep : Step D calm (w, hand) (w', hand'))
    (hs : Steady D answer w') (hhand : ∀ pos, hand = some pos → pos ∈ w.polled) :
    Move D (tokenTransferView D now answer) (w, hand) (w', hand') := by
  have hsteady := hs.of_grows hstep.grows
  have hother : ∀ {pos : Position}, pos.topic ≠ .tokenTransfers →
      (tokenTransferView D now answer).batch w = (tokenTransferView D now answer).batch w ++
        ((tokenTransferView D now answer).record pos).toList := by
    intro pos hne
    rw [tokenTransferView_record_of_ne hne, Option.toList_none, List.append_nil]
  cases hstep with
  | quiet => exact .idle rfl rfl rfl rfl rfl
  | lookup => exact .idle rfl rfl rfl rfl rfl
  | redisError => exact .idle rfl rfl rfl rfl rfl
  | hand => exact .idle rfl rfl rfl rfl rfl
  | poll hm hpos => exact .poll hm hpos rfl rfl
  | cache _ ht => exact .handle rfl rfl rfl rfl (hother (by simp [ht]))
  | appendTransaction _ ht => exact .handle rfl rfl rfl rfl (hother (by simp [ht]))
  | @reject _ pos raw hm hr =>
    refine .handle rfl rfl rfl rfl ?_
    by_cases ht : pos.topic = .tokenTransfers
    · rw [ht] at hr
      simp [tokenTransferView, ht, hm, recordTokenTransfer_of_rejects hr]
    · exact hother ht
  | @skip _ pos _ _ tt hm ht ha hnone hl =>
    refine .handle rfl rfl rfl rfl ?_
    have hrecord := recordTokenTransfer_of_accepts now (answer pos)
      (hsteady.dated pos (hhand pos rfl)) hm ht ha
    have hanswer : answer pos tt.blockNumber = none := (hsteady.answers _ hl).symm
    simp [tokenTransferView, ht, hm, hrecord, hnone, hanswer]
  | @appendTokenTransfer _ pos _ _ tt t hm ht ha hat =>
    refine .handle rfl rfl rfl rfl ?_
    have hrecord := recordTokenTransfer_of_accepts now (answer pos)
      (hsteady.dated pos (hhand pos rfl)) hm ht ha
    rcases hat with hat | ⟨hnone, hl⟩
    · simp [tokenTransferView, ht, hm, hrecord, hat]
    · have hanswer : answer pos tt.blockNumber = some (isoformat t) := (hsteady.answers _ hl).symm
      simp [tokenTransferView, ht, hm, hrecord, hnone, hanswer]
  | store hT hU =>
    obtain ⟨-, h1⟩ := Tables.insertTransactionsBatch_eq_some hT
    obtain ⟨h2, -⟩ := Tables.insertTokenTransfersBatch_eq_some hU
    rw [h1] at h2
    exact .store rfl rfl rfl h2 rfl
  | commit hst _ hl =>
    obtain rfl := hsteady.redisErrors.hand_none hl
    exact .commit (Tables.insertTokenTransfersBatch_eq_some hst.2).1 rfl rfl rfl rfl rfl
  | clear hst =>
    exact .clear (Tables.insertTokenTransfersBatch_eq_some hst.2).1 rfl rfl rfl rfl rfl

end Views

/-! ### Batching -/

/-- The message carries a timestamp that `parse_eth_timestamp` converts. -/
def CarriesTimestamp (D : Deployment) (pos : Position) : Prop :=
  ∀ fields : Fields, D.message pos = some (.json (.obj fields)) →
    ∃ v, fields.timestamp = some v ∧ (ethTimestamp v).isSome

variable {D : Deployment} {now : Timestamp} {answer : Position → ℤ → Option IsoText} {calm : Prop}
  {w w' : World} {hand hand' : Option Position}

theorem CarriesTimestamp.dated {pos : Position} (h : CarriesTimestamp D pos) : Dated D pos := by
  intro _ data hm _ fields v hdata hv
  subst hdata
  obtain ⟨v', hv', hsome⟩ := h fields hm
  rw [hv] at hv'
  exact Option.some.inj hv' ▸ hsome

/-- A transfer that carries a timestamp is not looked up. -/
theorem CarriesTimestamp.timestamp_ne_none {pos : Position} {raw : RawValue}
    {tt : TokenTransferModel} (h : CarriesTimestamp D pos) (hm : D.message pos = some raw)
    (ha : AcceptsTokenTransfer D raw now tt) : tt.timestamp ≠ none := by
  obtain ⟨data, rfl, hc⟩ := ha
  obtain ⟨(fields : Fields), rfl, hv⟩ := construct_eq_ok.mp hc
  obtain ⟨v, hv', -⟩ := h fields hm
  rw [(TokenTransferModel.validate_eq_some hv now).1, hv']
  simp

/-- No block was polled, and every message polled carries its timestamp. -/
def AllCarry (D : Deployment) (w : World) : Prop :=
  ∀ pos ∈ w.polled, pos.topic ≠ .blocks ∧ CarriesTimestamp D pos

/-- Then Redis is not asked. -/
theorem Step.redis_unused (hstep : Step D calm (w, hand) (w', hand')) (hc : AllCarry D w)
    (hhand : ∀ pos, hand = some pos → pos ∈ w.polled) (h : w.lookups = [] ∧ w.redisErrors = []) :
    w'.lookups = [] ∧ w'.redisErrors = [] := by
  cases hstep with
  | @lookup _ pos _ _ _ hm _ ha hnone =>
    exact absurd hnone ((hc pos (hhand pos rfl)).2.timestamp_ne_none hm ha)
  | @redisError _ pos _ hm hu =>
    rcases hu with hb | ⟨-, now, tt, ha, hnone⟩
    · exact absurd hb (hc pos (hhand pos rfl)).1
    · exact absurd hnone ((hc pos (hhand pos rfl)).2.timestamp_ne_none hm ha)
  | _ => exact h

/-- **Batching is transparent.**  However the calls of a process fail, if it ends
with nothing buffered, its tables are those of delivering the messages polled one
by one. -/
theorem batched_eq_one_by_one (D : Deployment) (db : Tables) (redis : ℤ → Option IsoText)
    (cs : List Choice) (now : Timestamp) (answer : Position → ℤ → Option IsoText)
    (hend : (main D (World.initial db redis) cs).outcome ≠ .cut)
    (hcarry : AllCarry D (main D (World.initial db redis) cs).state)
    (hflushed : (main D (World.initial db redis) cs).state.isBuffered = false) :
    let w := (main D (World.initial db redis) cs).state
    deliverAll D now answer db w.polled.reverse = some w.db := by
  intro w
  have hended : Ended D False (World.initial db redis, none) w :=
    main_ends D rfl rfl (fun _ _ h => h.elim) hend
  obtain ⟨hand, hsteps, hhand⟩ := hended.at_hand
  -- the invariant of the run: Redis is not asked, and both tables follow the arrivals
  have hinv : AllCarry D w → (w.lookups = [] ∧ w.redisErrors = []) ∧
      Arrived (transactionView D now) db.transactions w hand ∧
      Arrived (tokenTransferView D now answer) db.tokenTransfers w hand := by
    refine Steps.invariant (P := fun w hand => AllCarry D w →
      (w.lookups = [] ∧ w.redisErrors = []) ∧
      Arrived (transactionView D now) db.transactions w hand ∧
      Arrived (tokenTransferView D now answer) db.tokenTransfers w hand) ?_ hsteps ?_
    · intro w hand w' hand' hstep ih hcarry
      have hcarry' : AllCarry D w := fun pos hpos => hcarry pos (hstep.grows.polled.subset hpos)
      obtain ⟨hunused, htx, htt⟩ := ih hcarry'
      have hmem : ∀ pos, hand = some pos → pos ∈ w.polled := fun pos hpos =>
        List.mem_of_mem_head? (htx.last pos hpos)
      have hunused' := hstep.redis_unused hcarry' hmem hunused
      have hsteady : Steady D answer w' :=
        ⟨fun pos hpos => (hcarry pos hpos).2.dated, by simp [hunused'.1],
          by simp [IdleRedisErrors, hunused'.2]⟩
      exact ⟨hunused', htx.move (transactions_move hstep hsteady hmem),
        htt.move (tokenTransfers_move hstep hsteady hmem)⟩
    · exact fun _ => ⟨⟨rfl, rfl⟩, Arrived.start rfl rfl rfl, Arrived.start rfl rfl rfl⟩
  obtain ⟨⟨-, herr⟩, htx, htt⟩ := hinv hcarry
  have hnone : hand = none := by
    cases hand with
    | none => rfl
    | some pos => exact absurd herr (hhand rfl)
  subst hnone
  have hempty : w.txBatch = [] ∧ w.tokenBatch = [] := by simpa [World.isBuffered] using hflushed
  refine deliverAll_eq_some (htx.table_eq ?_) (htt.table_eq ?_)
  · show w.db.transactions.storeAll _ w.txBatch = _
    rw [hempty.1]
    exact Keyed.storeAll_nil _
  · show w.db.tokenTransfers.storeAll _ w.tokenBatch = _
    rw [hempty.2]
    exact Keyed.storeAll_nil _

/-- One transaction with the given timestamp field, and batches of one. -/
def oneTransaction (timestamp : Json) : Deployment where
  log
    | .transactions, 0 =>
      [.json (.obj [("hash", .str "0xa1"), ("timestamp", timestamp), ("from_address", .str "0xb1")])]
    | _, _ => []
  pydantic := .plain
  batchSize := 1

theorem carriesTimestamp_oneTransaction {v : Json} (h : (ethTimestamp v).isSome) :
    CarriesTimestamp (oneTransaction v) ⟨.transactions, 0, 0⟩ := by
  intro fields hm
  have hfields : fields =
      [("hash", .str "0xa1"), ("timestamp", v), ("from_address", .str "0xb1")] := by
    simpa [Deployment.message, oneTransaction, eq_comm] using hm
  exact ⟨v, by rw [hfields]; rfl, h⟩

/-- The first flush gets no connection, the one at the end goes through. -/
theorem retried_batch_eq_one_by_one :
    let w := (main (oneTransaction (.int 1700000000)) (World.initial .empty fun _ => none)
      ([.well, .well, .well, .well, .next .transactions, .clock 1, .fails, .stop] ++
        List.replicate 9 .well)).state
    deliverAll (oneTransaction (.int 1700000000)) 2 (fun _ _ => none) .empty w.polled.reverse
      = some w.db := by
  refine batched_eq_one_by_one _ _ _ _ _ _ (by decide +kernel) ?_ (by decide +kernel)
  have hpolled : ∀ pos ∈ (main (oneTransaction (.int 1700000000)) (World.initial .empty fun _ => none)
      ([.well, .well, .well, .well, .next .transactions, .clock 1, .fails, .stop] ++
        List.replicate 9 .well)).state.polled, pos = ⟨.transactions, 0, 0⟩ := by
    decide +kernel
  intro pos hpos
  rw [hpolled pos hpos]
  exact ⟨by decide, carriesTimestamp_oneTransaction (by decide +kernel)⟩

/-! ### Redelivery -/

/-- **Redelivery is idempotent in a steady history**: once everything is
committed, the tables are those of delivering each message of the log once. -/
theorem replayed_eq_once (D : Deployment) (db : Tables) (redis : ℤ → Option IsoText)
    (css : List (List Choice)) (now : Timestamp) (answer : Position → ℤ → Option IsoText)
    (hsingle : ∀ topic p, topic ≠ .blocks → p ≠ 0 → D.log topic p = [])
    (hsteady : Steady D answer (sessions D (World.initial db redis) css))
    (hcommitted : ∀ topic, topic ≠ .blocks →
      (sessions D (World.initial db redis) css).committed topic 0 = (D.log topic 0).length) :
    deliverAll D now answer db (logPositions D .transactions ++ logPositions D .tokenTransfers)
      = some (sessions D (World.initial db redis) css).db := by
  obtain ⟨hand, hreach⟩ := sessions_reachable D (World.initial db redis) css
  generalize sessions D (World.initial db redis) css = w at hreach hsteady hcommitted
  have hinv : HandIsLast w hand ∧
      Replayed D (transactionView D now) .transactions db.transactions w hand ∧
      Replayed D (tokenTransferView D now answer) .tokenTransfers db.tokenTransfers w hand := by
    refine hreach.invariant (P := fun w hand => Steady D answer w → HandIsLast w hand ∧
      Replayed D (transactionView D now) .transactions db.transactions w hand ∧
      Replayed D (tokenTransferView D now answer) .tokenTransfers db.tokenTransfers w hand)
      ?_ ?_ ?_ hsteady
    · exact fun _ => ⟨fun pos hpos => by simp at hpos, Replayed.start rfl rfl,
        Replayed.start rfl rfl⟩
    · intro w hand w' hand' hstep ih hsteady
      obtain ⟨hlast, htx, htt⟩ := ih (hsteady.of_grows hstep.grows)
      have hmem : ∀ pos, hand = some pos → pos ∈ w.polled := fun pos hpos =>
        List.mem_of_mem_head? (hlast pos hpos)
      refine ⟨hstep.handIsLast hlast, ?_, ?_⟩
      · refine htx.move (fun p hp => hsingle _ p (by simp) hp)
          (fun _ => transactionView_record_of_ne) ?_
        exact transactions_move hstep hsteady hmem
      · refine htt.move (fun p hp => hsingle _ p (by simp) hp)
          (fun _ => tokenTransferView_record_of_ne) ?_
        exact tokenTransfers_move hstep hsteady hmem
    · intro w hand ih hsteady
      obtain ⟨-, htx, htt⟩ := ih (hsteady.of_grows (Grows.restart w))
      exact ⟨fun pos hpos => by simp at hpos, htx.restart rfl rfl, htt.restart rfl rfl⟩
  obtain ⟨-, htx, htt⟩ := hinv
  have htx := htx.table_eq (hcommitted _ (by simp))
  have htt := htt.table_eq (hcommitted _ (by simp))
  refine deliverAll_eq_some ?_ ?_
  · have hnil : (logPositions D .tokenTransfers).filterMap (transactionView D now).record = [] :=
      filterMap_logPositions_eq_nil (fun _ => transactionView_record_of_ne) (by simp)
    rw [List.filterMap_append, hnil, List.append_nil]
    exact htx
  · have hnil : (logPositions D .transactions).filterMap (tokenTransferView D now answer).record
        = [] := filterMap_logPositions_eq_nil (fun _ => tokenTransferView_record_of_ne) (by simp)
    rw [List.filterMap_append, hnil, List.nil_append]
    exact htt

/-- The transaction is stored, its offset is not committed, and the process is
killed; the next one polls it again, at another time. -/
def deliveredTwice : List (List Choice) :=
  [[.well, .well, .well, .well, .next .transactions, .clock 1, .well, .well, .well, .well, .fails],
    [.well, .well, .well, .well, .next .transactions, .clock 2] ++ List.replicate 6 .well]

theorem deliveredTwice_eq_once :
    deliverAll (oneTransaction (.int 1700000000)) 3 (fun _ _ => none) .empty
        (logPositions (oneTransaction (.int 1700000000)) .transactions ++
          logPositions (oneTransaction (.int 1700000000)) .tokenTransfers)
      = some (sessions (oneTransaction (.int 1700000000)) (World.initial .empty fun _ => none)
          deliveredTwice).db := by
  refine replayed_eq_once _ _ _ _ _ _ ?_ ⟨?_, by decide +kernel, by decide +kernel⟩ ?_
  · intro topic p _ hp
    cases topic <;> cases p <;> first | rfl | exact absurd rfl hp
  · have hpolled : ∀ pos ∈ (sessions (oneTransaction (.int 1700000000))
        (World.initial .empty fun _ => none) deliveredTwice).polled,
        pos = ⟨.transactions, 0, 0⟩ := by
      decide +kernel
    intro pos hpos
    rw [hpolled pos hpos]
    exact (carriesTimestamp_oneTransaction (by decide +kernel)).dated
  · intro topic hne
    cases topic with
    | blocks => exact absurd rfl hne
    | transactions => decide +kernel
    | tokenTransfers => decide +kernel

/-- **A null timestamp is the time of processing**, so the redelivered message has
another key and is stored again: two rows, where one delivery makes one. -/
theorem replay_duplicates :
    let w := sessions (oneTransaction .null) (World.initial .empty fun _ => none) deliveredTwice
    (∀ topic, w.committed topic 0 = ((oneTransaction .null).log topic 0).length) ∧
      ∀ now answer, deliverAll (oneTransaction .null) now answer .empty
        (logPositions (oneTransaction .null) .transactions ++
          logPositions (oneTransaction .null) .tokenTransfers) ≠ some w.db := by
  refine ⟨fun topic => by cases topic <;> decide +kernel, fun now answer h => ?_⟩
  have htwo : (sessions (oneTransaction .null) (World.initial .empty fun _ => none)
      deliveredTwice).db.transactions.rows.length = 2 := by
    decide +kernel
  have hone := deliverAll_rows_le h
  rw [htwo] at hone
  exact absurd hone (by decide +kernel)

end Consumer

import EthPipeline.Consumer.World

/-!
# The consumer

`src/consumer/main.py` with the producer of `kafka_client.py`, function by
function.  `sessions` is a whole history: processes started one after the other,
each run over the choices its environment makes until it ends or is killed.

* `loop_round`: the loop of `main` is `while running`, however many rounds it takes.
-/

namespace Consumer

open Exec

/-- The records of a world that a flush works on. -/
def World.isBuffered (w : World) : Bool := !w.txBatch.isEmpty || !w.tokenBatch.isEmpty

/-- `except Exception`. -/
def exceptException {α : Type} (body : Prog α) (handler : Exc → Prog α) : Prog α :=
  tryCatch body fun e => if e.isException then handler e else raise e

/-- `tx.value / 10**18` is a true division: past the largest double it raises. -/
def buildWhaleAlertPayload (tx : TransactionModel) : Except Exc WhaleAlert :=
  match Binary64.divInt tx.value (10 ^ 18) with
  | some valueEth =>
    .ok { hash := tx.hash, timestamp := isoformat tx.timestamp, fromAddress := tx.fromAddress,
          toAddress := tx.toAddress, value := tx.value, valueEth }
  | none => .error .overflowError

/-- `KafkaProducerClient.send_message`. -/
def sendMessage (alert : WhaleAlert) : Prog Unit := do
  Call.produce alert
  Call.pollProducer

/-- `KafkaProducerClient.flush`: the error of a failed delivery is kept until
here, and is raised and forgotten. -/
def producerFlush : Prog Unit := do
  let remaining ← Call.flushProducer
  if remaining ≠ 0 then
    raise (.runtimeError s!"Kafka producer failed to flush {remaining} message(s)")
  else
    let w ← getState
    match w.error with
    | some err =>
      modifyState fun w => { w with error := none }
      raise (.runtimeError s!"Kafka message delivery failed: {err}")
    | none => pure ()

def whaleTransactions (D : Deployment) (transactions : List TransactionModel) :
    List TransactionModel :=
  transactions.filter fun tx => D.whaleThresholdWei ≤ tx.value

def publishWhaleAlerts (D : Deployment) (transactions : List TransactionModel) : Prog ℕ := do
  let whales := whaleTransactions D transactions
  forEach whales fun tx => do
    let alert ← ofExcept (buildWhaleAlertPayload tx)
    sendMessage alert
  when (whales ≠ []) producerFlush
  pure whales.length

/-- The body of the `try` in `flush_batches`. -/
def flushBody (D : Deployment) : Prog Unit := do
  Call.probe .postgres .databaseError   -- conn.autocommit = False
  let w ← getState
  when (w.txBatch ≠ []) (Call.execute (·.insertTransactionsBatch w.txBatch))
  when (w.tokenBatch ≠ []) (Call.execute (·.insertTokenTransfersBatch w.tokenBatch))
  Call.commitTransaction
  let _ ← publishWhaleAlerts D w.txBatch
  Call.commitOffsets
  modifyState fun w => { w with txBatch := [], tokenBatch := [] }

def flushBatches (D : Deployment) : Prog Unit := do
  Call.getConnection
  tryFinally
    (exceptException (flushBody D) fun e => do
      Call.rollback
      raise e)
    Call.releaseConnection

/-- The retries of `enrich_token_timestamp`. -/
def retryLookup (blockNumber : ℤ) : ℕ → Option IsoText → Prog (Option IsoText)
  | 0, cachedTime => pure cachedTime
  | retries + 1, cachedTime => do
    if cachedTime.isNone then
      Call.sleep
      let cachedTime ← Call.getBlockTimestamp blockNumber
      retryLookup blockNumber retries cachedTime
    else pure cachedTime

/-- `enrich_token_timestamp`: the transfer with its timestamp, or nothing when
it is skipped. -/
def enrichTokenTimestamp (tt : TokenTransferModel) : Prog (Option TokenTransferModel) := do
  if tt.timestamp.isSome then pure (some tt)
  else
    let cachedTime ← Call.getBlockTimestamp tt.blockNumber
    let cachedTime ← retryLookup tt.blockNumber 10 cachedTime
    match cachedTime with
    | none =>
      modifyState fun w => { w with skipped := w.current :: w.skipped }   -- logger.warning
      pure none
    | some text => pure (some { tt with timestamp := some (fromisoformat text) })

/-- The inner `try` of the loop: one message. -/
def handleMessage (D : Deployment) (topic : Option Topic) (data : Json) : Prog Unit :=
  match topic with
  | some .blocks => do
    let block ← ofExcept (construct (BlockModel.validate D.pydantic) data)
    Call.cacheBlockTimestamp block.number (isoformat block.timestamp)
  | some .transactions => do
    let now ← Call.datetimeNow
    let tx ← ofExcept (construct (TransactionModel.validate D.pydantic now) data)
    modifyState fun w => { w with txBatch := w.txBatch ++ [tx] }
  | some .tokenTransfers => do
    let now ← Call.datetimeNow
    let tt ← ofExcept (construct (TokenTransferModel.validate D.pydantic now) data)
    let enriched ← enrichTokenTimestamp tt
    match enriched with
    | some tt => modifyState fun w => { w with tokenBatch := w.tokenBatch ++ [tt] }
    | none => pure ()
  | none => pure ()

/-- `except ValidationError: continue`: whether the rest of the round runs. -/
def handleOrSkip (D : Deployment) (topic : Option Topic) (data : Json) : Prog Bool :=
  tryCatch (do handleMessage D topic data; pure true)
    fun e => if e = .validationError then pure false else raise e

def flushIfFull (D : Deployment) : Prog Unit := do
  let w ← getState
  when (D.batchSize ≤ w.buffered) (exceptException (flushBatches D) fun _ => pure ())

/-- One round of `while running`; `false` ends the loop. -/
def round (D : Deployment) : Prog Bool := do
  let running ← Call.isRunning
  if running then
    let (topic, data) ← Call.poll D
    match data with
    | some data =>
      let handled ← handleOrSkip D topic data
      when handled (flushIfFull D)
      pure true
    | none =>
      flushIfFull D
      pure true
  else pure false

/-- The `finally` of `main`. -/
def shutdown (D : Deployment) : Prog Unit := do
  let w ← getState
  when w.isBuffered (exceptException (flushBatches D) fun _ => pure ())
  tryFinally
    (exceptException producerFlush fun _ => pure ())   -- producer_client.close()
    (do
      Call.probe .kafka .kafkaException                -- kafka_client.close()
      Call.probe .postgres .databaseError)             -- db_manager.close_all()

/-! ### The loop -/

section InTurn

open InTurn

variable (D : Deployment)

theorem inTurn_exceptException {α : Type} {body : Prog α} {handler : Exc → Prog α}
    (hbody : InTurn body) (hhandler : ∀ e, InTurn (handler e)) :
    InTurn (exceptException body handler) :=
  tryCatch hbody fun e => ite (hhandler e) (raise e)

theorem inTurn_producerFlush : InTurn producerFlush := by
  refine bind (call _) fun remaining => ite (raise _) (bind getState fun w => ?_)
  cases w.error with
  | some err => exact bind (modifyState _) fun _ => raise _
  | none => exact pure ()

theorem inTurn_publishWhaleAlerts (txs : List TransactionModel) :
    InTurn (publishWhaleAlerts D txs) := by
  refine bind (forEach _ fun tx => ?_) fun _ => bind (when inTurn_producerFlush) fun _ => pure _
  exact bind (ofExcept _) fun alert => bind (call _) fun _ => call _

theorem inTurn_flushBatches : InTurn (flushBatches D) := by
  have hbody : InTurn (flushBody D) := by
    refine bind (call _) fun _ => bind getState fun w => bind (when (call _)) fun _ => ?_
    refine bind (when (call _)) fun _ => bind (call _) fun _ => ?_
    refine bind (inTurn_publishWhaleAlerts D _) fun _ => bind (call _) fun _ => modifyState _
  refine bind (call _) fun _ => tryFinally (inTurn_exceptException hbody fun e => ?_) (call _)
  exact bind (call _) fun _ => raise e

theorem inTurn_retryLookup (blockNumber : ℤ) (retries : ℕ) (cachedTime : Option IsoText) :
    InTurn (retryLookup blockNumber retries cachedTime) := by
  induction retries generalizing cachedTime with
  | zero => exact pure _
  | succ retries ih =>
    refine ite ?_ (pure _)
    exact bind (call _) fun _ => bind (call _) fun cachedTime => ih cachedTime

theorem inTurn_enrichTokenTimestamp (tt : TokenTransferModel) :
    InTurn (enrichTokenTimestamp tt) := by
  refine ite (pure _) (bind (call _) fun cachedTime => ?_)
  refine bind (inTurn_retryLookup _ _ _) fun cachedTime => ?_
  cases cachedTime with
  | none => exact bind (modifyState _) fun _ => pure _
  | some text => exact pure _

theorem inTurn_handleMessage (topic : Option Topic) (data : Json) :
    InTurn (handleMessage D topic data) := by
  cases topic with
  | none => exact pure ()
  | some topic =>
    cases topic with
    | blocks => exact bind (ofExcept _) fun block => call _
    | transactions => exact bind (call _) fun now => bind (ofExcept _) fun tx => modifyState _
    | tokenTransfers =>
      refine bind (call _) fun now => bind (ofExcept _) fun tt => ?_
      refine bind (inTurn_enrichTokenTimestamp tt) fun enriched => ?_
      cases enriched with
      | some tt => exact modifyState _
      | none => exact pure ()

theorem inTurn_flushIfFull : InTurn (flushIfFull D) :=
  bind getState fun _ => when (inTurn_exceptException (inTurn_flushBatches D) fun _ => pure ())

/-- A round reads the flag, and that is a call. -/
theorem round_productive : Productive (round D) := by
  unfold round Call.isRunning service
  refine productive_of_call fun running => ?_
  refine ite (bind (call _) fun polled => ?_) (pure _)
  obtain ⟨topic, data⟩ := polled
  cases data with
  | none => exact bind (inTurn_flushIfFull D) fun _ => pure _
  | some data =>
    have hhandled : InTurn (handleOrSkip D topic data) := by
      refine tryCatch (bind (inTurn_handleMessage D topic data) fun _ => pure _) fun e => ?_
      exact ite (pure _) (raise e)
    exact bind hhandled fun _ => bind (when (inTurn_flushIfFull D)) fun _ => pure _

end InTurn

/-- **The loop of `main` is `while running`**: it never runs out of rounds. -/
theorem loop_round (D : Deployment) : loop (round D) =
    (round D >>= fun again => if again then loop (round D) else pure ()) :=
  funext fun w => funext fun cs => loop_eq (round_productive D) w cs

def mainLoop (D : Deployment) : Prog Unit :=
  tryFinally
    (tryCatch (loop (round D)) fun e => if e = .keyboardInterrupt then pure () else raise e)
    (shutdown D)

/-- A manager's constructor that `main` tries: whether it worked. -/
def attempt (on : Service) (error : Exc) : Prog Bool :=
  exceptException (do Call.probe on error; pure true) fun _ => pure false

def main (D : Deployment) : Prog Unit := do
  let database ← attempt .postgres .databaseError
  if database then
    Call.probe .kafka .kafkaException   -- KafkaConsumerClient(), KafkaProducerClient(), subscribe()
    let redis ← attempt .redis .redisError
    if redis then mainLoop D
    else
      producerFlush
      Call.probe .kafka .kafkaException
      Call.probe .postgres .databaseError
  else pure ()

/-- A history: the processes started one after the other, each over its choices;
the last one may be cut anywhere. -/
def sessions (D : Deployment) (w : World) : List (List Choice) → World
  | [] => w
  | cs :: rest => sessions D (main D w.restart cs).state rest

end Consumer

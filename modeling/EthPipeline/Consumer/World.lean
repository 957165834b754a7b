import EthPipeline.Base.Exec
import EthPipeline.Consumer.Db

/-!
# The consumer's world and its service calls

Everything a run of `src/consumer/main.py` reads or changes: the Kafka log and
the group's committed offsets, the two tables, the Redis cache, the broker's
acknowledgements, and the memory of the process.  Every call of a service is one
`service`: first the world moves on by itself (`Background`: a signal, a delivery
report, a key that expires), then the call goes as its `Fault` says.

`later_after` says once what the background can change; `Triple.service` is the
rule of a call.
-/

namespace Consumer

/-- The three topics of `KafkaConsumerClient`. -/
inductive Topic where
  | blocks
  | transactions
  | tokenTransfers
  deriving DecidableEq, Repr

/-- Where a message is in the log. -/
structure Position where
  topic : Topic
  partition : ℕ
  offset : ℕ
  deriving DecidableEq, Repr

/-- What is fixed while the consumer runs: the log of each partition, pydantic,
and the settings. -/
structure Deployment where
  log : Topic → ℕ → List RawValue
  pydantic : Pydantic
  batchSize : ℤ := 100
  whaleThresholdWei : ℤ := 100 * 10 ^ 18

def Deployment.message (D : Deployment) (pos : Position) : Option RawValue :=
  (D.log pos.topic pos.partition)[pos.offset]?

/-- `build_whale_alert_payload`. -/
structure WhaleAlert where
  hash : String
  timestamp : IsoText
  fromAddress : String
  toAddress : Option String
  value : ℤ
  valueEth : ℚ
  deriving DecidableEq, Repr

/-- An alert in the producer's queue and its delivery report, once there is one:
`none` for success, or the error. -/
structure InFlight where
  alert : WhaleAlert
  report : Option (Option String)
  deriving DecidableEq, Repr

structure World where
  /- outside the process -/
  committed : Topic → ℕ → ℕ
  db : Tables
  redis : ℤ → Option IsoText
  acked : List WhaleAlert
  /- the process -/
  running : Bool
  position : Topic → ℕ → ℕ
  txBatch : List TransactionModel
  tokenBatch : List TokenTransferModel
  queue : List InFlight
  error : Option String
  conn : Option Tables
  leased : ℕ
  /- history: the messages polled (newest first), the keys written to Redis and
  the lookups with their answers, each with its message, the transfers skipped,
  the number of buffered records at each Redis call that raised, and each alert
  handed to the producer with the tables committed at that moment -/
  polled : List Position
  cached : List (Position × ℤ × IsoText)
  lookups : List (Position × ℤ × Option IsoText)
  skipped : List Position
  redisErrors : List ℕ
  handed : List (WhaleAlert × Tables)

namespace World

/-- The position of the last message polled. -/
def current (w : World) : Position := w.polled.headD ⟨.blocks, 0, 0⟩

def buffered (w : World) : ℕ := w.txBatch.length + w.tokenBatch.length

/-- The message at `pos` is polled. -/
def take (w : World) (pos : Position) : World :=
  { w with
    position := fun t p =>
      if t = pos.topic ∧ p = pos.partition then pos.offset + 1 else w.position t p
    polled := pos :: w.polled }

/-- Before the first start: nothing consumed; tables and cache as they are. -/
def initial (db : Tables) (redis : ℤ → Option IsoText) : World where
  committed := fun _ _ => 0
  db := db
  redis := redis
  acked := []
  running := true
  position := fun _ _ => 0
  txBatch := []
  tokenBatch := []
  queue := []
  error := none
  conn := none
  leased := 0
  polled := []
  cached := []
  lookups := []
  skipped := []
  redisErrors := []
  handed := []

/-- A new process: it starts at the group's committed offsets. -/
def restart (w : World) : World :=
  { w with
    running := true
    position := w.committed
    txBatch := []
    tokenBatch := []
    queue := []
    error := none
    conn := none
    leased := 0 }

end World

/-! ### The environment -/

/-- How a call goes: well; an exception before it did anything; an exception
after it did all; no exception, and nothing done. -/
inductive Fault where
  | none
  | before
  | after
  | lost
  deriving DecidableEq, Repr

inductive Background where
  | signal
  | delivered (i : ℕ)
  | undelivered (i : ℕ) (error : String)
  | expired (blockNumber : ℤ)

/-- What `Consumer.poll` comes back with. -/
inductive Poll where
  | nothing
  | partitionEof
  | failed
  | message (topic : Topic) (partition : ℕ)

inductive Service where
  | kafka
  | redis
  | postgres
  deriving DecidableEq, Repr

structure Choice where
  background : List Background := []
  fault : Service → Fault := fun _ => .none
  poll : Poll := .nothing
  now : Timestamp := 0

/-- The call goes well, and nothing else happens. -/
def Choice.well : Choice := {}

/-- A message is polled. -/
def Choice.next (topic : Topic) : Choice := { poll := .message topic 0 }

/-- A call that raises without having done anything. -/
def Choice.fails : Choice := { fault := fun _ => .before }

/-- The clock reads `t`. -/
def Choice.clock (t : Timestamp) : Choice := { now := t }

/-- A signal asks the process to end. -/
def Choice.stop : Choice := { background := [.signal] }

/-- Redis and Postgres do what they are asked, and no key expires. -/
structure Choice.Calm (c : Choice) : Prop where
  redis : c.fault .redis = .none
  postgres : c.fault .postgres = .none
  kept : ∀ n, .expired n ∉ c.background

namespace World

/-- The delivery report of the `i`-th alert of the queue comes in. -/
def deliver (w : World) (i : ℕ) (error : Option String) : World :=
  match w.queue[i]? with
  | some ⟨alert, none⟩ =>
    { w with
      queue := w.queue.set i ⟨alert, some error⟩
      acked := if error = none then alert :: w.acked else w.acked }
  | _ => w

def background (w : World) : Background → World
  | .signal => { w with running := false }
  | .delivered i => w.deliver i none
  | .undelivered i error => w.deliver i (some error)
  | .expired n => { w with redis := Function.update w.redis n none }

def after (w : World) (bs : List Background) : World := bs.foldl background w

/-- The queue later on: the same alerts in the same order, those reported
delivered acknowledged. -/
def QueueLater (acked : List WhaleAlert) (q q' : List InFlight) : Prop :=
  List.Forall₂ (fun x y => y.alert = x.alert ∧
    (y.report = some none → x.report = some none ∨ y.alert ∈ acked)) q q'

theorem queueLater_refl (acked : List WhaleAlert) (q : List InFlight) : QueueLater acked q q := by
  induction q with
  | nil => exact .nil
  | cons x q ih => exact .cons ⟨rfl, .inl⟩ ih

theorem queueLater_set (acked : List WhaleAlert) (q : List InFlight) (i : ℕ) (x y : InFlight)
    (hx : q[i]? = some x) (ha : y.alert = x.alert) (hr : y.report = some none → y.alert ∈ acked) :
    QueueLater acked q (q.set i y) := by
  induction q generalizing i with
  | nil => simp at hx
  | cons z q ih =>
    cases i with
    | zero =>
      obtain rfl : z = x := by simpa using hx
      exact .cons ⟨ha, fun h => .inr (hr h)⟩ (queueLater_refl acked q)
    | succ i => exact .cons ⟨rfl, .inl⟩ (ih i (by simpa using hx))

theorem queueLater_trans {a a' : List WhaleAlert} {p q r : List InFlight} (hsub : a ⊆ a')
    (h : QueueLater a p q) (g : QueueLater a' q r) : QueueLater a' p r := by
  induction h generalizing r with
  | nil => exact g
  | cons hxy _ ih =>
    cases g with
    | cons hyz g =>
      refine .cons ⟨hyz.1.trans hxy.1, fun hz => ?_⟩ (ih g)
      rcases hyz.2 hz with hy | ha
      · rcases hxy.2 hy with hx | ha
        · exact .inl hx
        · exact .inr (hyz.1 ▸ hsub ha)
      · exact .inr ha

/-- **What the background can change**: the running flag, the delivery reports,
the acknowledgements (which only grow), and the cache. -/
def Later (w : World) (bs : List Background) (w' : World) : Prop :=
  ∃ running queue acked redis, w' = { w with running, queue, acked, redis } ∧
    w.acked ⊆ acked ∧ QueueLater acked w.queue queue ∧
    ((∀ n, .expired n ∉ bs) → redis = w.redis)

theorem later_refl (w : World) (bs : List Background) : w.Later bs w :=
  ⟨_, _, _, _, rfl, fun _ h => h, queueLater_refl _ _, fun _ => rfl⟩

theorem later_deliver (w : World) (i : ℕ) (error : Option String) (bs : List Background) :
    w.Later bs (w.deliver i error) := by
  unfold deliver
  split
  · next alert hx =>
    refine ⟨_, _, _, _, rfl, ?_, queueLater_set _ _ i _ _ hx rfl ?_, fun _ => rfl⟩
    · split
      · exact List.subset_cons_self _ _
      · exact fun _ h => h
    · intro he
      rw [if_pos (by simpa using he)]
      exact List.mem_cons_self
  · exact later_refl w bs

theorem later_background (w : World) (b : Background) (bs : List Background) :
    w.Later (b :: bs) (w.background b) := by
  cases b with
  | signal => exact ⟨_, _, _, _, rfl, fun _ h => h, queueLater_refl _ _, fun _ => rfl⟩
  | delivered i => exact later_deliver w i none _
  | undelivered i error => exact later_deliver w i (some error) _
  | expired n =>
    exact ⟨_, _, _, _, rfl, fun _ h => h, queueLater_refl _ _,
      fun h => absurd List.mem_cons_self (h n)⟩

theorem later_after (w : World) (bs : List Background) : w.Later bs (w.after bs) := by
  induction bs generalizing w with
  | nil => exact later_refl w []
  | cons b bs ih =>
    obtain ⟨r, q, a, m, he, ha, hq, hm⟩ := later_background w b bs
    obtain ⟨r', q', a', m', he', ha', hq', hm'⟩ := ih (w.background b)
    rw [he] at he' ha' hq' hm'
    refine ⟨r', q', a', m', ?_, fun _ h => ha' (ha h), queueLater_trans ha' hq hq', fun h => ?_⟩
    · show (w.background b).after bs = _
      rw [he, he']
    · exact (hm' fun n hn => h n (List.mem_cons_of_mem _ hn)).trans (hm h)

end World

/-! ### Calls -/

/-- A program of the consumer. -/
abbrev Prog (α : Type) : Type := Exec World Choice Exc α

/-- A call: the world moves on, then the call goes. -/
def service {α : Type} (f : Choice → World → Except Exc α × World) : Prog α :=
  Exec.call fun c w => f c (w.after c.background)

/-- The background keeps an assertion. -/
def Stable (H : Choice → Prop) (P : World → Prop) : Prop :=
  ∀ c w, H c → P w → P (w.after c.background)

theorem Triple.service {α : Type} {H : Choice → Prop} {P I : World → Prop} {Q : α → World → Prop}
    {E : Exc → World → Prop} {f : Choice → World → Except Exc α × World} (hP : Stable H P)
    (hI : ∀ w, P w → I w) (hok : ∀ c w a w', H c → P w → f c w = (.ok a, w') → Q a w')
    (herr : ∀ c w e w', H c → P w → f c w = (.error e, w') → E e w') :
    Exec.Triple H P (Consumer.service f) Q E I :=
  Exec.Triple.call hI (fun c w a w' hc hw h => hok c _ a w' hc (hP c w hc hw) h)
    (fun c w e w' hc hw h => herr c _ e w' hc (hP c w hc hw) h)

namespace Call

/-- A service that only answers or raises. -/
def probe (on : Service) (error : Exc) : Prog Unit :=
  service fun c w => if c.fault on = .none then (.ok (), w) else (.error error, w)

/-- Reading the flag `running`, which the signal handler clears. -/
def isRunning : Prog Bool := service fun _ w => (.ok w.running, w)

def datetimeNow : Prog Timestamp := service fun c w => (.ok c.now, w)

def sleep : Prog Unit := service fun _ w => (.ok (), w)

/-- What `KafkaConsumerClient.poll` makes of a message: its topic and its data. -/
def decodeMessage (topic : Topic) : RawValue → Option Topic × Option Json
  | .tombstone => (some topic, none)
  | .undecodable => (none, none)
  | .json .null => (some topic, none)
  | .json data => (some topic, some data)

/-- `Consumer.poll`, with the errors of `KafkaConsumerClient.poll`. -/
def poll (D : Deployment) : Prog (Option Topic × Option Json) := service fun c w =>
  match c.poll with
  | .nothing => (.ok (none, none), w)
  | .partitionEof => (.ok (none, none), w)
  | .failed => (.error .kafkaException, w)
  | .message topic partition =>
    match D.message ⟨topic, partition, w.position topic partition⟩ with
    | none => (.ok (none, none), w)
    | some raw =>
      (.ok (decodeMessage topic raw), w.take ⟨topic, partition, w.position topic partition⟩)

/-- `Consumer.commit`: the group's offsets become the consumer's positions. -/
def commitOffsets : Prog Unit := service fun c w =>
  match c.fault .kafka with
  | .none => (.ok (), { w with committed := w.position })
  | .before => (.error .kafkaException, w)
  | .after => (.error .kafkaException, { w with committed := w.position })
  | .lost => (.ok (), w)

/-- `cache_block_timestamp`. -/
def cacheBlockTimestamp (blockNumber : ℤ) (timestamp : IsoText) : Prog Unit := service fun c w =>
  let w' := { w with
    redis := Function.update w.redis blockNumber (some timestamp)
    cached := (w.current, blockNumber, timestamp) :: w.cached }
  match c.fault .redis with
  | .none => (.ok (), w')
  | .after => (.error .redisError, w')
  | _ => (.error .redisError, { w with redisErrors := w.buffered :: w.redisErrors })

/-- `get_block_timestamp`. -/
def getBlockTimestamp (blockNumber : ℤ) : Prog (Option IsoText) := service fun c w =>
  if c.fault .redis = .none then
    (.ok (w.redis blockNumber),
      { w with lookups := (w.current, blockNumber, w.redis blockNumber) :: w.lookups })
  else (.error .redisError, { w with redisErrors := w.buffered :: w.redisErrors })

def getConnection : Prog Unit := service fun c w =>
  if c.fault .postgres = .none then (.ok (), { w with conn := some w.db, leased := w.leased + 1 })
  else (.error .poolError, w)

def releaseConnection : Prog Unit := service fun _ w =>
  (.ok (), { w with conn := none, leased := w.leased - 1 })

/-- A statement on the open connection; an error leaves the transaction as it
was, to be rolled back. -/
def execute (statement : Tables → Option Tables) : Prog Unit := service fun c w =>
  match c.fault .postgres, w.conn.bind statement with
  | .none, some T => (.ok (), { w with conn := some T })
  | _, _ => (.error .databaseError, w)

/-- `conn.commit()`: the transaction becomes the database, as a whole. -/
def commitTransaction : Prog Unit := service fun c w =>
  match c.fault .postgres with
  | .none => (.ok (), { w with db := w.conn.getD w.db })
  | .after => (.error .databaseError, { w with db := w.conn.getD w.db })
  | _ => (.error .databaseError, w)

def rollback : Prog Unit := service fun c w =>
  if c.fault .postgres = .none then (.ok (), { w with conn := w.conn.map fun _ => w.db })
  else (.error .databaseError, w)

/-- `Producer.produce`: the alert goes into the queue. -/
def produce (alert : WhaleAlert) : Prog Unit := service fun c w =>
  let w := { w with handed := (alert, w.db) :: w.handed }
  let w' := { w with queue := w.queue ++ [⟨alert, none⟩] }
  match c.fault .kafka with
  | .none => (.ok (), w')
  | .after => (.error .bufferError, w')
  | _ => (.error .bufferError, w)

/-- The delivery callbacks that are due: a failed delivery sets `_error`. -/
def servedError (error : Option String) (queue : List InFlight) : Option String :=
  queue.foldl (fun e q => match q.report with | some (some err) => some err | _ => e) error

def serve (w : World) : World :=
  { w with
    queue := w.queue.filter (·.report.isNone)
    error := servedError w.error w.queue }

/-- `Producer.poll(0)`. -/
def pollProducer : Prog Unit := service fun _ w => (.ok (), serve w)

/-- `Producer.flush()`: how many messages are still in the queue. -/
def flushProducer : Prog ℕ := service fun _ w => (.ok (serve w).queue.length, serve w)

end Call

end Consumer

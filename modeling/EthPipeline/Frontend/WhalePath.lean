import EthPipeline.Backend.Broadcast
import EthPipeline.Base.Traverse
import EthPipeline.Consumer.Announced
import EthPipeline.Frontend.WhaleHook

/-!
# From the topic to the dashboards

The consumer, the servers and the pages that show whales, side by side.  An alert that the
consumer hands over gets into the topic late, more than once or not at all; each server
polls it in an order of its own, and a page reads the frames of its websockets and the
answers of `GET /api/v1/whales` whenever they come.

* `shown_stored`: what a page shows is a whale of the topic that is a row of the database.
* `committed_delivered`: a whale below the committed offset has an alert, and a server that
  polls the alert sends it to every websocket that is registered then.
-/

namespace WhalePath

open Backend Consumer Run

/-- What is fixed: the consumer's deployment with the tables and the cache it starts from,
the limit of websockets, the browser, and the page that opened a websocket of a server. -/
structure Setting where
  deployment : Deployment
  tables : Tables
  redis : ℤ → Option IsoText
  maxConnections : ℕ
  browser : Frontend.Browser
  page : ℕ → ℕ → ℕ

/-- How the database answers the query for recent whales. -/
structure Planner where
  rows : Database → ℤ → ℕ → List WhaleRow
  answers : ∀ (db : Database) (thresholdWei : ℤ) (limit : ℕ),
    db.RecentWhales thresholdWei limit (rows db thresholdWei limit)

structure Path where
  /- the processes of the consumer that have ended or were killed, and the last one: the
  choices its environment has made so far -/
  ended : List (List Choice)
  running : List Choice
  /- for each server, what it gets of the topic, and its hub -/
  topic : ℕ → List Consumer.WhaleAlert
  hub : ℕ → Hub
  /- how many frames of a websocket of a server its page has read -/
  read : ℕ → ℕ → ℕ
  /- for each page, the answers on their way to it, and its list -/
  answers : ℕ → List (List WhaleTransaction)
  shown : ℕ → List Frontend.WhaleAlert

inductive Event where
  /- the consumer makes its next call; a process is started -/
  | called (c : Choice)
  | started
  /- the alert handed over in the `i`-th place is the next that server `k` finds in the topic -/
  | arrived (k i : ℕ)
  | hub (k : ℕ) (e : Backend.Event)
  /- the page of a websocket reads its next frame -/
  | frame (k ws : ℕ) (fresh now : String)
  /- a server answers a page, and the page gets one of its answers -/
  | answered (page : ℕ) (planner : Planner) (addressLabels : String → Option AddressLabel)
  | response (page i : ℕ)

def Path.initial : Path where
  ended := []
  running := []
  topic := fun _ => []
  hub := fun _ => Hub.initial
  read := fun _ _ => 0
  answers := fun _ => []
  shown := fun _ => []

namespace Path

variable (S : Setting) (p : Path)

def world : World :=
  sessions S.deployment (World.initial S.tables S.redis) (p.ended ++ [p.running])

/-- The messages of the topic, as server `k` polls them. -/
def stream (k : ℕ) : List RawValue := (p.topic k).map fun a => .json (.obj (alertPayload a))

/-- The database as a server reads it. -/
def database (addressLabels : String → Option AddressLabel) : Database where
  stored := (p.world S).db
  tokens := fun _ => none
  addressLabels := addressLabels

end Path

/-- The object a message is sent as. -/
def data : Message → Payload
  | .ping => [("type", .str "ping")]
  | .alert payload => payload

/-- The frames of a websocket. -/
def frames (h : Hub) (ws : ℕ) : List Message :=
  h.sent.filterMap fun s => if s.1 = ws then some s.2 else none

/-- `limit` of `GET /api/v1/whales`, which the page does not set. -/
def limit : ℕ := 50

def step (S : Setting) (p : Path) : Event → Option Path
  | .called c => some { p with running := p.running ++ [c] }
  | .started => some { p with ended := p.ended ++ [p.running], running := [] }
  | .arrived k i => (p.world S).handed.reverse[i]?.map fun handed =>
      { p with topic := Function.update p.topic k (p.topic k ++ [handed.1]) }
  | .hub k e => (Hub.step S.maxConnections (p.stream k) (p.hub k) e).map fun hub =>
      { p with hub := Function.update p.hub k hub }
  | .frame k ws fresh now => (frames (p.hub k) ws)[p.read k ws]?.map fun message =>
      { p with
        read := Function.update p.read k (Function.update (p.read k) ws (p.read k ws + 1))
        shown := Function.update p.shown (S.page k ws)
          (Frontend.onMessage (p.shown (S.page k ws)) (data message) fresh now) }
  | .answered page planner addressLabels =>
    match getRecentWhales ⟨fun thresholdWei limit =>
        some (planner.rows (p.database S addressLabels) thresholdWei limit)⟩ limit with
    | .ok response => some
      { p with answers := Function.update p.answers page (p.answers page ++ [response.whales]) }
    | .error _ => some p
  | .response page i => (p.answers page)[i]?.map fun whales =>
      { p with
        answers := Function.update p.answers page ((p.answers page).eraseIdx i)
        shown := Function.update p.shown page
          (Frontend.onResponse S.browser (p.shown page) (whales.map (·.payload))) }

def run (S : Setting) (events : List Event) : Path := runs (step S) Path.initial events

/-! ### The consumer takes nothing back -/

variable {S : Setting} {p p' : Path} {e : Event}

/-- The consumer's world only grows. -/
theorem world_onward (h : step S p e = some p') : (p.world S).Onward (p'.world S) := by
  have hinit := genuine_initial S.deployment S.tables S.redis
  cases e with
  | called c =>
    obtain rfl := Option.some.inj h
    exact sessions_later hinit p.ended p.running [c] []
  | started =>
    obtain rfl := Option.some.inj h
    have hlater := sessions_later hinit p.ended p.running [] [[]]
    rw [List.append_nil] at hlater
    have heq : p.ended ++ [p.running] ++ [[]] = p.ended ++ p.running :: [[]] := by simp
    show (p.world S).ledger.Onward (sessions S.deployment _ (p.ended ++ [p.running] ++ [[]])).ledger
    rw [heq]
    exact hlater
  | arrived k i =>
    obtain ⟨handed, -, rfl⟩ := Option.map_eq_some_iff.mp h
    exact .refl _
  | hub k e =>
    obtain ⟨hub, -, rfl⟩ := Option.map_eq_some_iff.mp h
    exact .refl _
  | frame k ws fresh now =>
    obtain ⟨message, -, rfl⟩ := Option.map_eq_some_iff.mp h
    exact .refl _
  | answered page planner addressLabels =>
    simp only [step] at h
    split at h
    · obtain rfl := Option.some.inj h
      exact .refl _
    · obtain rfl := Option.some.inj h
      exact .refl _
  | response page i =>
    obtain ⟨whales, -, rfl⟩ := Option.map_eq_some_iff.mp h
    exact .refl _

/-! ### What an entry stands for -/

/-- An entry of a page when the tables are `db`: it was made of the alert of a stored whale,
or of an answer with a row of at least 100 ETH. -/
inductive Backed (D : Deployment) (db : Tables) : Frontend.WhaleAlert → Prop
  | live {handed : Consumer.WhaleAlert × Tables} {tx : TransactionModel} {fresh now : String}
      {a : Frontend.WhaleAlert} (h : StoredWhale D db handed tx)
      (ha : Frontend.liveAlert (alertPayload handed.1) fresh now = some a) : Backed D db a
  | fetched {database : Database} {row : TransactionRow} {w : WhaleTransaction}
      (hrow : row ∈ db.transactions.rows) (hwhale : Database.AtLeast whaleThresholdWei row)
      (hw : whaleTransaction (database.whaleRow row) = some w) :
      Backed D db (Frontend.fetchedAlert w.payload)

theorem Backed.mono {D : Deployment} {db db' : Tables} {a : Frontend.WhaleAlert}
    (h : Backed D db a) (hle : db.Le db') : Backed D db' a := by
  cases h with
  | live h ha => exact .live { h with kept := h.kept.trans hle } ha
  | fetched hrow hwhale hw => exact .fetched (hle.transactions.subset hrow) hwhale hw

/-- The rows of an answer are whales of the database. -/
theorem backed_of_answer {D : Deployment} {database : Database} {planner : Planner}
    {response : WhaleListResponse} (h : getRecentWhales ⟨fun thresholdWei limit =>
      some (planner.rows database thresholdWei limit)⟩ limit = .ok response)
    {w : WhaleTransaction} (hw : w ∈ response.whales) :
    Backed D database.stored (Frontend.fetchedAlert w.payload) := by
  rw [getRecentWhales, orFetchError_eq_ok] at h
  obtain ⟨rows, hrepo, hrest⟩ := Option.bind_eq_some_iff.mp h
  obtain rfl := Option.some.inj hrepo
  obtain ⟨whales, hwhales, heq⟩ := Option.bind_eq_some_iff.mp hrest
  obtain rfl := Option.some.inj heq
  obtain ⟨r, hr, hserved⟩ := Traverse.exists_source hwhales hw
  obtain ⟨found, hfound, hrows⟩ := planner.answers database whaleThresholdWei limit
  rw [hrows] at hr
  obtain ⟨row, hrow, rfl⟩ := List.mem_map.mp hr
  obtain ⟨hstored, hwhale⟩ := List.mem_filter.mp (hfound.subset hrow)
  exact .fetched hstored (of_decide_eq_true hwhale) hserved

/-- What comes into a list with a frame. -/
theorem mem_onMessage {shown : List Frontend.WhaleAlert} {data : Payload} {fresh now : String}
    {a : Frontend.WhaleAlert} (ha : a ∈ Frontend.onMessage shown data fresh now) :
    a ∈ shown ∨ Frontend.liveAlert data fresh now = some a := by
  unfold Frontend.onMessage at ha
  split at ha
  · next alert halert =>
    unfold Feed.prepend at ha
    split at ha
    · exact .inl ha
    · rcases List.mem_cons.mp (List.mem_of_mem_take ha) with rfl | ha
      · exact .inr halert
      · exact .inl ha
  · exact .inl ha

/-! ### The hubs over a growing topic -/

theorem consumed_step {maxConnections : ℕ} {stream : List RawValue} {h h' : Hub}
    {e : Backend.Event} (hs : Hub.step maxConnections stream h e = some h')
    (hle : h.consumed ≤ stream.length) : h'.consumed ≤ stream.length := by
  have hbroadcast : ∀ (h : Hub) (b : Broadcaster) (m : Message),
      (h.broadcast b m).consumed = h.consumed := by
    intro h b m
    unfold Hub.broadcast
    split
    · rfl
    · rfl
  cases Backend.Step.of_step hs with
  | accepted ws hmem => exact (register_frame h ws).2.2.2.2.2 ▸ hle
  | polledUndecodable raw _ hraw _ => exact (List.getElem?_eq_some_iff.mp hraw).1
  | polledAlert raw payload _ hraw _ =>
    rw [hbroadcast]
    exact (List.getElem?_eq_some_iff.mp hraw).1
  | pingDue _ =>
    rw [hbroadcast]
    exact hle
  | _ => exact hle

theorem delivering_append {stream : List RawValue} {h : Hub} (hd : Delivering stream h)
    (hle : h.consumed ≤ stream.length) (more : List RawValue) : Delivering (stream ++ more) h := by
  have hinOrder : h.begun.map (·.1) =
      ((stream ++ more).take h.consumed).filterMap decodeWhaleAlert := by
    rw [List.take_append_of_le_length hle]
    exact hd.inOrder
  exact { hd with inOrder := hinOrder }

/-- A frame is a ping, or an alert of the topic. -/
theorem alert_of_frame {alerts : List Consumer.WhaleAlert} {h : Hub} {ws : ℕ} {message : Message}
    (hd : Delivering (alerts.map fun a => .json (.obj (alertPayload a))) h)
    (hm : message ∈ frames h ws) : message = .ping ∨ ∃ a ∈ alerts, message = .alert (alertPayload a) := by
  cases message with
  | ping => exact .inl rfl
  | alert payload =>
    refine .inr ?_
    have hreceived : payload ∈ h.received ws := by
      obtain ⟨s, hs, hsent⟩ := List.mem_filterMap.mp hm
      refine List.mem_filterMap.mpr ⟨s, hs, ?_⟩
      obtain ⟨hws, heq⟩ := Option.ite_none_right_eq_some.mp hsent
      rw [if_pos hws, Option.some.inj heq]
      rfl
    have hdue : payload ∈ h.due ws := by
      rw [← hd.split ws]
      exact List.mem_append_left _ hreceived
    have hbegun : payload ∈ h.begun.map (·.1) := by
      obtain ⟨begun, hbegun, rfl⟩ := List.mem_map.mp hdue
      exact List.mem_map_of_mem (List.mem_filter.mp hbegun).1
    rw [hd.inOrder] at hbegun
    obtain ⟨raw, hraw, hdecode⟩ := List.mem_filterMap.mp hbegun
    obtain ⟨a, ha, rfl⟩ := List.mem_map.mp (List.mem_of_mem_take hraw)
    exact ⟨a, ha, congrArg Message.alert (decode_alertPayload hdecode)⟩

/-! ### The invariant -/

structure Sound (S : Setting) (p : Path) : Prop where
  topic : ∀ k, ∀ a ∈ p.topic k, ∃ T, (a, T) ∈ (p.world S).handed
  consumed : ∀ k, (p.hub k).consumed ≤ (p.stream k).length
  delivering : ∀ k, Delivering (p.stream k) (p.hub k)
  answers : ∀ page, ∀ whales ∈ p.answers page, ∀ w ∈ whales,
    Backed S.deployment (p.world S).db (Frontend.fetchedAlert w.payload)
  shown : ∀ page, ∀ a ∈ p.shown page, Backed S.deployment (p.world S).db a

theorem sound_initial (S : Setting) : Sound S Path.initial where
  topic := fun _ _ h => by cases h
  consumed := fun _ => Nat.le_refl 0
  delivering := fun _ => delivering_initial
  answers := fun _ _ h => by cases h
  shown := fun _ _ h => by cases h

/-- The consumer goes on, and nothing else happens. -/
theorem Sound.onward (hp : Sound S p) {ended : List (List Choice)} {running : List Choice}
    (h : (p.world S).Onward (Path.world S { p with ended, running })) :
    Sound S { p with ended, running } where
  topic := fun k a ha => by
    obtain ⟨T, hT⟩ := hp.topic k a ha
    exact ⟨T, h.handed.subset hT⟩
  consumed := hp.consumed
  delivering := hp.delivering
  answers := fun page whales hwhales w hw => (hp.answers page whales hwhales w hw).mono h.db
  shown := fun page a ha => (hp.shown page a ha).mono h.db

theorem forall_update {β : Type} {f : ℕ → β} {k : ℕ} {b : β} {P : ℕ → β → Prop}
    (hf : ∀ k', P k' (f k')) (hb : P k b) : ∀ k', P k' (Function.update f k b k') :=
  (Function.forall_update_iff f P).mpr ⟨hb, fun k' _ => hf k'⟩

theorem sound_step (h : step S p e = some p') (hp : Sound S p) : Sound S p' := by
  have honward := world_onward h
  cases e with
  | called c =>
    obtain rfl := Option.some.inj h
    exact hp.onward honward
  | started =>
    obtain rfl := Option.some.inj h
    exact hp.onward honward
  | arrived k i =>
    obtain ⟨handed, hhanded, rfl⟩ := Option.map_eq_some_iff.mp h
    have hmem : handed ∈ (p.world S).handed :=
      List.mem_reverse.mp (List.mem_of_getElem? hhanded)
    have hstream : ∀ k', Path.stream
        { p with topic := Function.update p.topic k (p.topic k ++ [handed.1]) } k' =
          p.stream k' ∨ k' = k ∧ Path.stream
        { p with topic := Function.update p.topic k (p.topic k ++ [handed.1]) } k' =
          p.stream k ++ [.json (.obj (alertPayload handed.1))] := by
      intro k'
      by_cases hk : k' = k
      · subst hk
        exact .inr ⟨rfl, by simp [Path.stream]⟩
      · exact .inl (by simp [Path.stream, hk])
    refine ⟨?_, ?_, ?_, hp.answers, hp.shown⟩
    · refine forall_update (P := fun _ topic => ∀ a ∈ topic, ∃ T, (a, T) ∈ (p.world S).handed)
        hp.topic fun a ha => ?_
      rcases List.mem_append.mp ha with ha | ha
      · exact hp.topic k a ha
      · obtain rfl := List.mem_singleton.mp ha
        exact ⟨handed.2, hmem⟩
    · intro k'
      rcases hstream k' with heq | ⟨rfl, heq⟩
      · rw [heq]
        exact hp.consumed k'
      · rw [heq, List.length_append]
        exact Nat.le_add_right_of_le (hp.consumed k')
    · intro k'
      rcases hstream k' with heq | ⟨rfl, heq⟩
      · rw [heq]
        exact hp.delivering k'
      · rw [heq]
        exact delivering_append (hp.delivering k') (hp.consumed k') _
  | hub k e =>
    obtain ⟨hub, hhub, rfl⟩ := Option.map_eq_some_iff.mp h
    refine ⟨hp.topic, ?_, ?_, hp.answers, hp.shown⟩
    · exact forall_update (P := fun k' (hub : Hub) => hub.consumed ≤ (p.stream k').length) hp.consumed
        (consumed_step hhub (hp.consumed k))
    · exact forall_update (P := fun k' hub => Delivering (p.stream k') hub) hp.delivering
        ((hp.delivering k).step (.of_step hhub))
  | frame k ws fresh now =>
    obtain ⟨message, hmessage, rfl⟩ := Option.map_eq_some_iff.mp h
    refine ⟨hp.topic, hp.consumed, hp.delivering, hp.answers, ?_⟩
    refine forall_update (P := fun _ shown => ∀ a ∈ shown, Backed S.deployment (p.world S).db a)
      hp.shown fun a ha => ?_
    rcases mem_onMessage ha with ha | ha
    · exact hp.shown _ a ha
    · rcases alert_of_frame (hp.delivering k) (List.mem_of_getElem? hmessage) with rfl | ⟨b, hb, rfl⟩
      · cases ha
      · obtain ⟨T, hT⟩ := hp.topic k b hb
        obtain ⟨tx, hstored⟩ := storedWhale_of_handed hT
        exact .live hstored ha
  | answered page planner addressLabels =>
    simp only [step] at h
    split at h
    · next response hresponse =>
      obtain rfl := Option.some.inj h
      refine ⟨hp.topic, hp.consumed, hp.delivering, ?_, hp.shown⟩
      refine forall_update (P := fun _ (answers : List (List WhaleTransaction)) =>
        ∀ whales ∈ answers, ∀ w ∈ whales,
          Backed S.deployment (p.world S).db (Frontend.fetchedAlert w.payload))
        hp.answers fun whales hwhales => ?_
      rcases List.mem_append.mp hwhales with hwhales | hwhales
      · exact hp.answers page whales hwhales
      · obtain rfl := List.mem_singleton.mp hwhales
        exact fun w hw => backed_of_answer hresponse hw
    · obtain rfl := Option.some.inj h
      exact hp
  | response page i =>
    obtain ⟨whales, hwhales, rfl⟩ := Option.map_eq_some_iff.mp h
    have hmem : whales ∈ p.answers page := List.mem_of_getElem? hwhales
    refine ⟨hp.topic, hp.consumed, hp.delivering, ?_, ?_⟩
    · exact forall_update (P := fun _ (answers : List (List WhaleTransaction)) =>
        ∀ whales ∈ answers, ∀ w ∈ whales,
          Backed S.deployment (p.world S).db (Frontend.fetchedAlert w.payload))
        hp.answers fun whales hwhales => hp.answers page whales (List.mem_of_mem_eraseIdx hwhales)
    · refine forall_update (P := fun _ shown => ∀ a ∈ shown,
        Backed S.deployment (p.world S).db a) hp.shown fun a ha => ?_
      rcases Feed.mem_of_mem_merge ha with ha | ha
      · exact hp.shown page a ha
      · rw [List.map_map] at ha
        obtain ⟨w, hw, rfl⟩ := List.mem_map.mp ha
        exact hp.answers page whales hmem w hw

theorem sound_run (S : Setting) (events : List Event) : Sound S (run S events) :=
  runs_invariant (P := Sound S) (fun _ _ _ => sound_step) events (sound_initial S)

/-- **What a page shows is in the database**: in every run of the consumer, the topic, the
servers and the pages. -/
theorem shown_stored (S : Setting) (events : List Event) (page : ℕ) :
    let p := run S events
    ∀ a ∈ p.shown page, Backed S.deployment (p.world S).db a :=
  (sound_run S events).shown page

/-- A transaction of 150 ETH in the log, and one page. -/
def oneWhale : Setting where
  deployment := {
    log := fun topic partition =>
      if topic = .transactions ∧ partition = 0 then
        [.json (.obj [("hash", .str "0xaa"), ("timestamp", .int 1700000000),
          ("from_address", .str "0xa"), ("value", .int (150 * 10 ^ 18))])]
      else []
    pydantic := .plain
    batchSize := 1 }
  tables := .empty
  redis := fun _ => none
  maxConnections := 10
  browser := Frontend.atThatInstant
  page := fun _ _ => 0

/-- Calls that go well, while the broker delivers what it was given. -/
def calls (n : ℕ) : List Event := List.replicate n (.called { background := [.delivered 0] })

/-- The way of the transaction to the page. -/
def itsPath : List Event :=
  calls 4 ++ [.called (.next .transactions)] ++ calls 12 ++
    [.hub 0 (.connect 7), .hub 0 (.accepted 7), .arrived 0 0, .hub 0 .polled,
      .hub 0 (.start .alerts 0), .frame 0 7 "1700000000123-0.5" ""]

example : ((run oneWhale itsPath).shown 0).map (·.fromAddress) = [some "0xa"] := by decide +kernel

/-! ### Nothing is lost on the way -/

/-- The alert of a committed whale. -/
theorem acked_of_committed (S : Setting) (p : Path) {pos : Position} {raw : RawValue}
    {now : Timestamp} {tx : TransactionModel} (htopic : pos.topic = .transactions)
    (hraw : S.deployment.message pos = some raw)
    (hcommitted : pos.offset < (p.world S).committed pos.topic pos.partition)
    (htx : AcceptsTransaction S.deployment raw now tx)
    (hwhale : S.deployment.whaleThresholdWei ≤ tx.value) :
    ∃ a ∈ (p.world S).acked, a.hash = tx.hash := by
  obtain ⟨hand, hreach⟩ := sessions_reachable S.deployment (World.initial S.tables S.redis)
    (p.ended ++ [p.running])
  have hacc : Accounted (transactionEffect S.deployment) (p.world S) hand := by
    refine hreach.invariant (Accounted.initial S.tables S.redis) ?_ fun w hand h => h.restart
    intro w hand w' hand' hs h
    exact h.step (fun pos hl => (hl pos rfl).1) hs
  exact (hacc.settled_of_lt htopic hraw hcommitted now tx htx).2 hwhale

/-- An alert that a server has polled was broadcast. -/
theorem begun_of_consumed (hp : Sound S p) {k i : ℕ} {a : Consumer.WhaleAlert}
    (hi : i < (p.hub k).consumed) (ha : (p.topic k)[i]? = some a)
    (hvalue : (Binary64.ofInt a.value).isSome) :
    ∃ registered, (alertPayload a, registered) ∈ (p.hub k).begun := by
  have hdecode : decodeWhaleAlert (.json (.obj (alertPayload a))) = some (alertPayload a) := by
    obtain ⟨x, hx⟩ := Option.isSome_iff_exists.mp hvalue
    have hlookup : (alertPayload a).lookup "value" = some (.int a.value) := rfl
    have hset : ∀ y : PyFloat, setdefault (alertPayload a) "value_eth" (.float y) = alertPayload a :=
      fun _ => rfl
    simp [decodeWhaleAlert, hlookup, ethOfWei, Json.toFloat, hx, hset]
  have hraw : (.json (.obj (alertPayload a)) : RawValue) ∈ (p.stream k).take (p.hub k).consumed := by
    refine List.mem_of_getElem? (i := i) ?_
    rw [List.getElem?_take_of_lt hi, Path.stream, List.getElem?_map, ha]
    rfl
  have hbegun : alertPayload a ∈ (p.hub k).begun.map (·.1) := by
    rw [(hp.delivering k).inOrder]
    exact List.mem_filterMap.mpr ⟨_, hraw, hdecode⟩
  obtain ⟨⟨payload, registered⟩, hmem, rfl⟩ := List.mem_map.mp hbegun
  exact ⟨registered, hmem⟩

/-- **A committed whale is announced**: it has an acknowledged alert, and a server that has
polled the alert has sent it to every websocket registered then, or is about to. -/
theorem committed_delivered (S : Setting) (events : List Event) :
    let p := run S events
    ∀ pos raw now tx, pos.topic = .transactions → S.deployment.message pos = some raw →
      pos.offset < (p.world S).committed pos.topic pos.partition →
      AcceptsTransaction S.deployment raw now tx → S.deployment.whaleThresholdWei ≤ tx.value →
      ∃ a ∈ (p.world S).acked, a.hash = tx.hash ∧
        ∀ k i, i < (p.hub k).consumed → (p.topic k)[i]? = some a →
          (Binary64.ofInt a.value).isSome →
          ∃ registered, (alertPayload a, registered) ∈ (p.hub k).begun ∧
            ∀ ws ∈ registered, alertPayload a ∈ (p.hub k).received ws ++ (p.hub k).pending ws := by
  intro p pos raw now tx htopic hraw hcommitted htx hwhale
  obtain ⟨a, ha, hhash⟩ := acked_of_committed S p htopic hraw hcommitted htx hwhale
  have hsound := sound_run S events
  refine ⟨a, ha, hhash, fun k i hi hai hvalue => ?_⟩
  obtain ⟨registered, hbegun⟩ := begun_of_consumed hsound hi hai hvalue
  refine ⟨registered, hbegun, fun ws hws => ?_⟩
  rw [(hsound.delivering k).split ws]
  exact List.mem_map.mpr ⟨_, List.mem_filter.mpr ⟨hbegun, decide_eq_true hws⟩, rfl⟩

end WhalePath

import EthPipeline.Backend.Payloads
import EthPipeline.Base.Feed
import EthPipeline.Base.Run

/-!
# The dashboard's list of whales

The two updates of `messages` in `src/frontend/src/hooks/useWhaleWebSocket.ts`:
a message of the websocket, and a response of `GET /api/v1/whales`.

* `erase_run`: without the transactions its entries come from, the list is the
  hook's own.
* `id_shownLive`: a live entry has a fresh id, and not the hash.
* `sources_nodup_of_distinguishable`: a transaction appears once in every run in
  which no alert and no row of a response comes for a transaction whose entry
  stands under another id.
* `alert_twice_shown_twice`: the same alert, twice.
-/

namespace Frontend

open Backend Consumer Run

structure WhaleAlert where
  id : Option String
  txHash : Option String
  fromAddress : Option String
  toAddress : Option String
  value : Option PyFloat
  valueEth : Option PyFloat
  fromLabel : Option String
  toLabel : Option String
  blockNumber : Option PyFloat
  timestamp : Option String
  deriving DecidableEq, Repr

def maxAlerts : ℕ := 50

/-- `new Date(text).getTime()`; `none` is `NaN`. -/
structure Browser where
  getTime : String → Option ℤ

/-- A field with the type the interface gives it. -/
def text (data : Payload) (name : String) : Option String :=
  match data.lookup name with
  | some (.str s) => some s
  | _ => none

def number (data : Payload) (name : String) : Option PyFloat :=
  match data.lookup name with
  | some (.int n) => some (PyFloat.ofRat n)
  | some (.float x) => some x
  | _ => none

/-- `s || other`. -/
def orElse (s : Option String) (other : Option String) : Option String :=
  match s with
  | some s => if s = "" then other else some s
  | none => other

def orZero (x : Option PyFloat) : PyFloat :=
  match x with
  | some x => if x.truthy && x ≠ .nan then x else .finite 0
  | none => .finite 0

/-- The alert made of a message; `none` is a heartbeat.  `fresh` is the text of
`Date.now()` and `Math.random()`, and `now` that of `new Date()`. -/
def liveAlert (data : Payload) (fresh now : String) : Option WhaleAlert :=
  if text data "type" = some "ping" then none
  else some {
    id := orElse (text data "tx_hash") (some fresh)
    txHash := orElse (text data "tx_hash") (some "")
    fromAddress := orElse (text data "from_address") (some "")
    toAddress := orElse (text data "to_address") (some "")
    value := some (orZero (number data "value"))
    valueEth := some (orZero (number data "value_eth"))
    fromLabel := text data "from_label"
    toLabel := text data "to_label"
    blockNumber := number data "block_number"
    timestamp := orElse (text data "timestamp") (some now) }

/-- The alert made of a row of the response. -/
def fetchedAlert (w : Payload) : WhaleAlert where
  id := orElse (text w "hash") (text w "tx_hash")
  txHash := orElse (text w "hash") (text w "tx_hash")
  fromAddress := text w "from_address"
  toAddress := text w "to_address"
  value := number w "value"
  valueEth := number w "value_eth"
  fromLabel := text w "from_label"
  toLabel := text w "to_label"
  blockNumber := number w "block_number"
  timestamp := text w "timestamp"

/-- `new Date(alert.timestamp || 0).getTime()`. -/
def time (B : Browser) (a : WhaleAlert) : Option ℤ :=
  match orElse a.timestamp none with
  | some s => B.getTime s
  | none => some 0

/-- The comparator does not put `b` before `a`: it gives no positive number. -/
def newestFirst (B : Browser) (a b : WhaleAlert) : Bool :=
  match time B a, time B b with
  | some ta, some tb => tb ≤ ta
  | _, _ => true

/-! ### The hook -/

inductive HookEvent where
  | message (data : Payload) (fresh now : String)
  | response (whales : List Payload)

def onMessage (messages : List WhaleAlert) (data : Payload) (fresh now : String) :
    List WhaleAlert :=
  match liveAlert data fresh now with
  | some alert => Feed.prepend WhaleAlert.id maxAlerts messages alert
  | none => messages

def onResponse (B : Browser) (messages : List WhaleAlert) (whales : List Payload) :
    List WhaleAlert :=
  Feed.merge WhaleAlert.id (newestFirst B) maxAlerts messages (whales.map fetchedAlert)

def hookStep (B : Browser) (messages : List WhaleAlert) : HookEvent → List WhaleAlert
  | .message data fresh now => onMessage messages data fresh now
  | .response whales => onResponse B messages whales

/-! ### The hook behind the consumer and the backend -/

/-- An entry of the list, and the hash of the transaction it is about. -/
structure Shown where
  alert : WhaleAlert
  source : String
  deriving DecidableEq, Repr

/-- A relayed alert for a transaction, or a response with its rows. -/
inductive Event where
  | live (tx : TransactionModel) (fresh now : String)
  | history (whales : List WhaleTransaction)

def shownLive (tx : TransactionModel) (data : Payload) (fresh now : String) : Option Shown :=
  (liveAlert data fresh now).map fun alert => ⟨alert, tx.hash⟩

def shownFetched (w : WhaleTransaction) : Shown := ⟨fetchedAlert w.payload, w.hash⟩

/-- A transaction without a payload to send is no event. -/
def step (B : Browser) (shown : List Shown) : Event → Option (List Shown)
  | .live tx fresh now =>
    (relay tx).map fun data =>
      match shownLive tx data fresh now with
      | some s => Feed.prepend (·.alert.id) maxAlerts shown s
      | none => shown
  | .history whales =>
    some (Feed.merge (·.alert.id) (fun a b => newestFirst B a.alert b.alert) maxAlerts shown
      (whales.map shownFetched))

def run (B : Browser) (events : List Event) : List Shown := runs (step B) [] events

/-- What the hook gets of an event. -/
def Event.wire : Event → Option HookEvent
  | .live tx fresh now => (relay tx).map fun data => .message data fresh now
  | .history whales => some (.response (whales.map (·.payload)))

theorem erase_step (B : Browser) (shown : List Shown) (e : Event) :
    (step B shown e).map (·.map (·.alert)) = e.wire.map (hookStep B (shown.map (·.alert))) := by
  cases e with
  | live tx fresh now =>
    simp only [step, Event.wire, Option.map_map]
    refine congrArg (fun f => Option.map f (relay tx)) (funext fun data => ?_)
    simp only [Function.comp_apply, hookStep, onMessage, shownLive]
    cases liveAlert data fresh now with
    | none => rfl
    | some alert => exact Feed.map_prepend (fun _ => rfl) shown _
  | history whales =>
    simp only [step, Event.wire, Option.map_some, hookStep, onResponse]
    have hmerge : (Feed.merge (·.alert.id) (fun a b => newestFirst B a.alert b.alert) maxAlerts
        shown (whales.map shownFetched)).map Shown.alert =
        Feed.merge WhaleAlert.id (newestFirst B) maxAlerts (shown.map Shown.alert)
          ((whales.map shownFetched).map Shown.alert) := by
      refine Feed.map_merge ?_ ?_ shown _
      · exact fun _ => rfl
      · exact fun _ _ => rfl
    rw [List.map_map] at hmerge ⊢
    exact congrArg some hmerge

/-- **Without the sources the run is the hook's own.** -/
theorem erase_run (B : Browser) (events : List Event) :
    (run B events).map (·.alert) = (events.filterMap Event.wire).foldl (hookStep B) [] := by
  have hfrom : ∀ shown : List Shown, (runs (step B) shown events).map (·.alert) =
      (events.filterMap Event.wire).foldl (hookStep B) (shown.map (·.alert)) := by
    induction events with
    | nil => exact fun _ => rfl
    | cons e events ih =>
      intro shown
      have herase := erase_step B shown e
      have hnext : runs (step B) shown (e :: events) = runs (step B) (next (step B) shown e) events :=
        rfl
      rw [hnext, ih]
      cases hstep : step B shown e with
      | none =>
        rw [hstep, Option.map_none] at herase
        have hwire : e.wire = none := by simpa using herase.symm
        rw [next_of_none hstep, List.filterMap_cons, hwire]
      | some shown' =>
        rw [hstep, Option.map_some] at herase
        obtain ⟨wire, hwire, heq⟩ := Option.map_eq_some_iff.mp herase.symm
        rw [next_of_some hstep, List.filterMap_cons, hwire, List.foldl_cons, heq]
  exact hfrom []

/-! ### A transaction appears once -/

/-- **A live entry never has the hash of its transaction**: the hook reads a field
that the alert does not have, and takes the fresh id. -/
theorem id_shownLive {tx : TransactionModel} {data : Payload} {fresh now : String}
    (hrelay : relay tx = some data) :
    ∃ s, shownLive tx data fresh now = some s ∧ s.alert.id = some fresh ∧
      s.alert.txHash = some "" := by
  obtain ⟨-, htx, htype⟩ := lookup_relay hrelay
  have htext : text data "tx_hash" = none := by rw [text, htx]
  have hping : text data "type" ≠ some "ping" := by
    rw [text, htype]
    simp
  refine ⟨_, by rw [shownLive, liveAlert, if_neg hping]; rfl, ?_, ?_⟩
  · show orElse (text data "tx_hash") (some fresh) = some fresh
    rw [htext]
    rfl
  · show orElse (text data "tx_hash") (some "") = some ""
    rw [htext]
    rfl

/-- What comes for a transaction that is in the list comes with the id of its
entry; an alert never does. -/
def Distinguishable (shown : List Shown) : Event → Prop
  | .live tx _ _ => ∀ p ∈ shown, p.source ≠ tx.hash
  | .history whales => ∀ w ∈ whales, ∀ p ∈ shown, p.source = w.hash →
    p.alert.id = (shownFetched w).alert.id

instance (shown : List Shown) (e : Event) : Decidable (Distinguishable shown e) :=
  match e with
  | .live tx _ _ => inferInstanceAs (Decidable (∀ p ∈ shown, p.source ≠ tx.hash))
  | .history whales => inferInstanceAs (Decidable (∀ w ∈ whales, ∀ p ∈ shown, p.source = w.hash →
      p.alert.id = (shownFetched w).alert.id))

/-- The id of a fetched entry is a function of its transaction. -/
theorem id_shownFetched (w : WhaleTransaction) :
    (shownFetched w).alert.id = orElse (some w.hash) none := rfl

theorem nodup_step {B : Browser} {shown shown' : List Shown} {e : Event}
    (hs : step B shown e = some shown') (hd : Distinguishable shown e)
    (hnodup : (shown.map (·.source)).Nodup) : (shown'.map (·.source)).Nodup := by
  cases e with
  | live tx fresh now =>
    obtain ⟨data, -, rfl⟩ := Option.map_eq_some_iff.mp hs
    cases hlive : shownLive tx data fresh now with
    | none => exact hnodup
    | some s =>
      have hsource : s.source = tx.hash := by
        obtain ⟨alert, -, rfl⟩ := Option.map_eq_some_iff.mp hlive
        rfl
      refine Feed.nodup_prepend hnodup fun p hp => ?_
      rw [hsource]
      exact hd p hp
  | history whales =>
    obtain rfl := Option.some.inj hs
    refine Feed.nodup_merge hnodup fun a ha p hp hsource => ?_
    obtain ⟨w, hw, rfl⟩ := List.mem_map.mp ha
    rcases List.mem_append.mp hp with hp | hp
    · exact hd w hw p hp hsource
    · obtain ⟨v, -, rfl⟩ := List.mem_map.mp hp
      have hhash : v.hash = w.hash := hsource
      rw [id_shownFetched, id_shownFetched, hhash]

/-- **A transaction appears once** in every run whose events are distinguishable. -/
theorem sources_nodup_of_distinguishable (B : Browser) (events : List Event)
    (hmeets : Meets (step B) Distinguishable [] events) :
    ((run B events).map (·.source)).Nodup := by
  refine runs_invariant_of_meets (P := fun shown => (shown.map (·.source)).Nodup) ?_ hmeets ?_
  · intro shown e shown' hs hd hnodup
    exact nodup_step hs hd hnodup
  · exact List.nodup_nil

/-- A transaction of 100 ETH. -/
def whale (hash : String) : TransactionModel where
  hash := hash
  timestamp := 1700000000000000
  fromAddress := "0xb1"
  toAddress := some "0xb2"
  value := 100 * 10 ^ 18
  gasPrice := 0

/-- The same in a response. -/
def served (hash : String) : WhaleTransaction where
  hash := hash
  timestamp := 1700000000000000
  fromAddress := "0xb1"
  toAddress := "0xb2"
  valueEth := .finite 100
  labels := ⟨none, none, none, none⟩

/-- A browser, on texts of that instant. -/
def atThatInstant : Browser := ⟨fun _ => some 1700000000000⟩

/-- An alert, and twice a response with another whale. -/
theorem other_whales_nodup :
    ((run atThatInstant [.history [served "0xa1"], .live (whale "0xa2") "1700000000123-0.25" "",
      .history [served "0xa1"]]).map (·.source)).Nodup :=
  sources_nodup_of_distinguishable _ _ (by decide +kernel)

/-- **The same alert twice**: the hook looks for its hash under another name,
gives the two an id each, and shows both. -/
theorem alert_twice_shown_twice :
    ¬((run atThatInstant [.live (whale "0xa1") "1700000000123-0.25" "",
      .live (whale "0xa1") "1700000000456-0.75" ""]).map
      (·.source)).Nodup := by
  decide +kernel

end Frontend

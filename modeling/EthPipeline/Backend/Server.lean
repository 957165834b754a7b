import Mathlib
import EthPipeline.Base.Run
import EthPipeline.Base.Locks
import EthPipeline.Backend.Services

/-!
# The requests of one backend process

The HTTP endpoints of `src/backend/api` with everything their coroutines share: the
connection pool (`get_db` and `get_pool` of `core/db.py`), the two locks of
`services/token_service.py` and `gas_service.py`, and Redis.  An event is what
happens from one `await` of a request to the next, or the expiry of a Redis key.

A request of `GET /tokens/trending` has a connection from its start to its end; a
request of `GET /gas` takes one for each query.  Both look into the cache before
and after they take their lock.

* `key_injective`: two requests share a cache key only if they ask the same.
* `load_dump`: what the cache gives back is the response that was stored.
-/

namespace Backend

open Run

/-! ### The cached responses -/

/-- A row of the trending query; `tokens` has names and symbols that are `NULL`. -/
structure TrendingRow where
  address : String
  symbol : Option String
  name : Option String
  transferCount : ℤ
  deriving DecidableEq, Repr

structure TrendingToken where
  address : String
  symbol : String
  name : String
  transferCount : ℤ
  deriving DecidableEq, Repr

structure TrendingTokensResponse where
  trendingTokens : List TrendingToken
  deriving DecidableEq, Repr

structure GasMetricsResponse where
  averageGasPriceGwei : PyFloat
  deriving DecidableEq, Repr

/-- `symbol: str` and `name: str` refuse `None`. -/
def trendingToken (row : TrendingRow) : Option TrendingToken := do
  let symbol ← row.symbol
  let name ← row.name
  return { address := row.address, symbol, name, transferCount := row.transferCount }

def trendingTokensResponse (rows : List TrendingRow) : Option TrendingTokensResponse :=
  (rows.mapM trendingToken).map .mk

def TrendingToken.json (t : TrendingToken) : Json :=
  .obj [("address", .str t.address), ("symbol", .str t.symbol), ("name", .str t.name),
    ("transfer_count", .int t.transferCount)]

/-- The value whose text is `model_dump_json()`. -/
def TrendingTokensResponse.json (r : TrendingTokensResponse) : Json :=
  .obj [("trending_tokens", .arr (r.trendingTokens.map TrendingToken.json))]

def str? : Json → Option String
  | .str s => some s
  | _ => none

def int? : Json → Option ℤ
  | .int n => some n
  | _ => none

def TrendingToken.ofJson : Json → Option TrendingToken
  | .obj fields => do
    let address ← fields.lookup "address" >>= str?
    let symbol ← fields.lookup "symbol" >>= str?
    let name ← fields.lookup "name" >>= str?
    let transferCount ← fields.lookup "transfer_count" >>= int?
    return { address, symbol, name, transferCount }
  | _ => none

/-- `TrendingTokensResponse(**data)`. -/
def TrendingTokensResponse.ofJson : Json → Option TrendingTokensResponse
  | .obj fields =>
    match fields.lookup "trending_tokens" with
    | some (.arr items) => (items.mapM TrendingToken.ofJson).map .mk
    | _ => none
  | _ => none

@[simp] theorem TrendingToken.ofJson_json (t : TrendingToken) : ofJson t.json = some t := rfl

@[simp] theorem TrendingTokensResponse.ofJson_json (r : TrendingTokensResponse) :
    ofJson r.json = some r := by
  have hitems : (r.trendingTokens.map TrendingToken.json).mapM TrendingToken.ofJson
      = some r.trendingTokens := by
    induction r.trendingTokens with
    | nil => rfl
    | cons t ts ih => rw [List.map_cons, List.mapM_cons, ih, TrendingToken.ofJson_json]; rfl
  change ((r.trendingTokens.map TrendingToken.json).mapM TrendingToken.ofJson).map
    TrendingTokensResponse.mk = some r
  rw [hitems]
  rfl

/-- `round(x, 2)`: the nearest hundredth of the float's exact value. -/
def round2 : PyFloat → PyFloat
  | .finite q => .ofRat (Binary64.roundHalfEven (q * 100) / 100)
  | x => x

/-- `round(avg_wei / 1e9, 2)`, with `0.0` for no price at all. -/
def gasMetricsResponse (avgWei : Option ℚ) : GasMetricsResponse :=
  let avg : PyFloat := (avgWei.map .ofRat).getD (.finite 0)
  ⟨round2 (avg.divBy (10 ^ 9))⟩

inductive LockName where
  | trending
  | gasMetrics
  deriving DecidableEq, Repr

/-- The requests that use the cache. -/
inductive CachedRequest where
  | trending (limit hours : ℤ)
  | gasMetrics
  deriving DecidableEq, Repr

inductive Response where
  | trending (r : TrendingTokensResponse)
  | gasMetrics (r : GasMetricsResponse)
  deriving DecidableEq, Repr

/-- What Redis holds under a key: the text of a JSON value, or the text of a float. -/
inductive Cached where
  | json (v : Json)
  | float (x : PyFloat)

/-- What the database answers. -/
inductive Rows where
  | trending (rows : List TrendingRow)
  | average (avg : Option ℚ)
  | other
  deriving DecidableEq, Repr

namespace CachedRequest

/-- `_trending_lock` and `_gas_metrics_lock`: one for all limits and hours. -/
def lock : CachedRequest → LockName
  | trending _ _ => .trending
  | gasMetrics => .gasMetrics

/-- `cache_key`. -/
def key : CachedRequest → String
  | trending limit hours => "trending_tokens:" ++ (hours.repr ++ ("h:limit_" ++ limit.repr))
  | gasMetrics => "cache:gas_metrics:5min"

/-- The response made from a cached text; `none` is an exception. -/
def load : CachedRequest → Cached → Option Response
  | trending _ _, .json v => (TrendingTokensResponse.ofJson v).map .trending
  | gasMetrics, .float x => some (.gasMetrics ⟨x⟩)
  | _, _ => none

end CachedRequest

def Response.dump : Response → Cached
  | .trending r => .json r.json
  | .gasMetrics r => .float r.averageGasPriceGwei

/-! ### The state of the process -/

/-- How a request ends. -/
inductive Outcome where
  | fromCache (r : Response)
  | fromQuery (r : Response)
  | failed (e : DatabaseFetchError)
  /- `get_db` has raised, before the endpoint runs -/
  | raised
  deriving DecidableEq, Repr

/-- `Database query failed`. -/
def queryFailed : Outcome := .failed ⟨"Database query failed"⟩

/-- Where a request that uses the cache is. -/
inductive CachedPc where
  /- `get_db` waits in `acquire()` -/
  | connecting
  /- the first (second) `GET` is sent; Redis has answered -/
  | getting (second : Bool)
  | got (second : Bool) (cached : Option Cached)
  /- in `async with` of the lock -/
  | awaitingLock
  /- `pool.fetchrow` waits for a connection; a query (the fallback query) runs -/
  | fetching (fallback : Bool)
  | querying (fallback : Bool)
  /- `SET` is sent; Redis has executed it -/
  | setting (r : Response)
  | wasSet (r : Response)
  /- the coroutine is over, and `get_db` gives its connection back -/
  | closing (outcome : Outcome)
  | done (outcome : Outcome)

/-- The endpoints that only query. -/
inductive Endpoint where
  | allTokens
  | searchTokens
  | tokenTrends
  | recentWhales
  | walletHistory
  deriving DecidableEq, Repr

namespace Endpoint

/-- How often an endpoint awaits an answer; the history of a wallet takes two queries. -/
def queries : Endpoint → ℕ
  | walletHistory => 2
  | _ => 1

/-- The search asks Elasticsearch. -/
def usesPool : Endpoint → Bool
  | searchTokens => false
  | _ => true

end Endpoint

inductive PlainPc where
  | connecting
  | running (left : ℕ)
  | closing
  | done
  deriving DecidableEq, Repr

inductive Task where
  | cached (c : CachedRequest) (pc : CachedPc)
  | plain (endpoint : Endpoint) (pc : PlainPc)

structure Server where
  tasks : ℕ → Option Task
  /- the requests that have a connection of the pool -/
  connections : Finset ℕ
  locks : LockName → FifoLock ℕ
  cache : String → Option Cached
  /- history: the responses built from the answers of queries -/
  built : List (CachedRequest × Response)

def Server.initial : Server where
  tasks := fun _ => none
  connections := ∅
  locks := fun _ => .free
  cache := fun _ => none
  built := []

/-- What a request asks for. -/
inductive Request where
  | cached (c : CachedRequest)
  | plain (endpoint : Endpoint)
  deriving DecidableEq, Repr

/-- What happens to a request. -/
inductive Action where
  /- it gets a connection; `acquire()` of `get_db` raises -/
  | acquired
  | refused
  /- it gets the lock -/
  | granted
  /- Redis executes its command -/
  | executed
  /- it goes on -/
  | resumed
  /- the database answers its query, or the query fails -/
  | answered (rows : Rows)
  | failed
  deriving DecidableEq, Repr

inductive ServerEvent where
  | arrived (p : ℕ) (request : Request)
  | expired (key : String)
  | task (p : ℕ) (action : Action)
  deriving DecidableEq, Repr

namespace Server

/-! ### The coroutines -/

def goto (s : Server) (p : ℕ) (t : Task) : Server :=
  { s with tasks := Function.update s.tasks p (some t) }

def setLock (s : Server) (l : LockName) (lock : FifoLock ℕ) : Server :=
  { s with locks := Function.update s.locks l lock }

def connect (s : Server) (p : ℕ) : Server := { s with connections := insert p s.connections }

def disconnect (s : Server) (p : ℕ) : Server := { s with connections := s.connections.erase p }

/-- After the second look: the trending query uses the request's connection, the gas
query asks the pool for one. -/
def query (s : Server) (p : ℕ) (c : CachedRequest) : Server :=
  match c with
  | .trending _ _ => s.goto p (.cached c (.querying false))
  | .gasMetrics => s.goto p (.cached c (.fetching false))

/-- `if redis_manager.redis:` and the second `GET`. -/
def lookAgain (redis : Bool) (s : Server) (p : ℕ) (c : CachedRequest) : Server :=
  if redis then s.goto p (.cached c (.getting true)) else s.query p c

/-- `async with lock`. -/
def enter (redis : Bool) (s : Server) (p : ℕ) (c : CachedRequest) : Server :=
  let l := s.locks c.lock
  if l.holder = none ∧ l.waiters = [] then lookAgain redis (s.setLock c.lock (l.take p)) p c
  else (s.setLock c.lock (l.wait p)).goto p (.cached c .awaitingLock)

/-- `if redis_manager.redis:` and the first `GET`. -/
def look (redis : Bool) (s : Server) (p : ℕ) (c : CachedRequest) : Server :=
  if redis then s.goto p (.cached c (.getting false)) else enter redis s p c

/-- The coroutine leaves `async with`. -/
def leave (s : Server) (p : ℕ) (c : CachedRequest) (outcome : Outcome) : Server :=
  (s.setLock c.lock (s.locks c.lock).release).goto p (.cached c (.closing outcome))

/-- The answer of the cache as a response; a text that is not one is an error. -/
def served (c : CachedRequest) (v : Cached) : Outcome :=
  match c.load v with
  | some r => .fromCache r
  | none => queryFailed

/-- The response is there, and is put into the cache. -/
def store (redis : Bool) (s : Server) (p : ℕ) (c : CachedRequest) (r : Response) : Server :=
  let s := { s with built := s.built ++ [(c, r)] }
  if redis then s.goto p (.cached c (.setting r)) else s.leave p c (.fromQuery r)

/-- The answer of a query.  Without an average of the last five minutes the latest
price is asked for. -/
def answer (redis : Bool) (s : Server) (p : ℕ) (c : CachedRequest) (fallback : Bool) :
    Rows → Option Server
  | .trending rows =>
    match c with
    | .trending _ _ =>
      match trendingTokensResponse rows with
      | some r => some (store redis s p c (.trending r))
      | none => some (s.leave p c queryFailed)
    | .gasMetrics => none
  | .average avg =>
    match c with
    | .trending _ _ => none
    | .gasMetrics =>
      if avg = none ∧ fallback = false then
        some ((s.disconnect p).goto p (.cached c (.fetching true)))
      else some (store redis (s.disconnect p) p c (.gasMetrics (gasMetricsResponse avg)))
  | .other => none

/-- A failed query; the gas query gives its connection back. -/
def fail (s : Server) (p : ℕ) (c : CachedRequest) : Server :=
  match c with
  | .trending _ _ => s.leave p c queryFailed
  | .gasMetrics => (s.disconnect p).leave p c queryFailed

def arrive (redis : Bool) (s : Server) (p : ℕ) : Request → Server
  | .cached c =>
    match c with
    | .trending _ _ => s.goto p (.cached c .connecting)
    | .gasMetrics => look redis s p c
  | .plain e => s.goto p (.plain e (if e.usesPool then .connecting else .running e.queries))

def actCached (redis : Bool) (maxSize : ℕ) (s : Server) (p : ℕ) (c : CachedRequest) :
    CachedPc → Action → Option Server
  | .connecting, .acquired =>
    if s.connections.card < maxSize then some (look redis (s.connect p) p c) else none
  -- a free connection that cannot be opened
  | .connecting, .refused =>
    if s.connections.card < maxSize then some (s.goto p (.cached c (.done .raised))) else none
  | .getting second, .executed => some (s.goto p (.cached c (.got second (s.cache c.key))))
  | .got false (some v), .resumed => some (s.goto p (.cached c (.closing (served c v))))
  | .got true (some v), .resumed => some (s.leave p c (served c v))
  | .got false none, .resumed => some (enter redis s p c)
  | .got true none, .resumed => some (s.query p c)
  | .awaitingLock, .granted =>
    let l := s.locks c.lock
    if l.holder = none ∧ l.waiters.head? = some p then
      some (lookAgain redis (s.setLock c.lock l.grant) p c)
    else none
  | .fetching fallback, .acquired =>
    if s.connections.card < maxSize then
      some ((s.connect p).goto p (.cached c (.querying fallback)))
    else none
  | .querying fallback, .answered rows => answer redis s p c fallback rows
  -- the same, in the `try` of the service
  | .fetching _, .failed => if s.connections.card < maxSize then some (s.fail p c) else none
  | .querying _, .failed => some (s.fail p c)
  | .setting r, .executed =>
    some ({ s with cache := Function.update s.cache c.key (some r.dump) }.goto p
      (.cached c (.wasSet r)))
  | .wasSet r, .resumed => some (s.leave p c (.fromQuery r))
  | .closing outcome, .resumed => some ((s.disconnect p).goto p (.cached c (.done outcome)))
  | _, _ => none

def actPlain (maxSize : ℕ) (s : Server) (p : ℕ) (e : Endpoint) :
    PlainPc → Action → Option Server
  | .connecting, .acquired =>
    if s.connections.card < maxSize then
      some ((s.connect p).goto p (.plain e (.running e.queries)))
    else none
  | .connecting, .refused =>
    if s.connections.card < maxSize then some (s.goto p (.plain e .done)) else none
  | .running left, .answered .other =>
    some (s.goto p (.plain e (if left ≤ 1 then .closing else .running (left - 1))))
  | .running _, .failed => some (s.goto p (.plain e .closing))
  | .closing, .resumed => some ((s.disconnect p).goto p (.plain e .done))
  | _, _ => none

def step (redis : Bool) (maxSize : ℕ) (s : Server) : ServerEvent → Option Server
  | .arrived p request =>
    match s.tasks p with
    | none => some (arrive redis s p request)
    | some _ => none
  | .expired key => some { s with cache := Function.update s.cache key none }
  | .task p action =>
    match s.tasks p with
    | some (.cached c pc) => actCached redis maxSize s p c pc action
    | some (.plain e pc) => actPlain maxSize s p e pc action
    | none => none

/-- The state after the events, for a Redis that is there or not and a pool of
`maxSize` connections. -/
def run (redis : Bool) (maxSize : ℕ) (events : List ServerEvent) : Server :=
  runs (step redis maxSize) initial events

end Server

/-! ### The cache and its keys -/

/-- The response a request can build. -/
def CachedRequest.Builds : CachedRequest → Response → Prop
  | .trending _ _, .trending _ => True
  | .gasMetrics, .gasMetrics _ => True
  | _, _ => False

theorem CachedRequest.load_dump {c : CachedRequest} {r : Response} (h : c.Builds r) :
    c.load r.dump = some r := by
  cases c with
  | trending limit hours =>
    cases r with
    | trending r =>
      change (TrendingTokensResponse.ofJson r.json).map Response.trending = some (.trending r)
      rw [TrendingTokensResponse.ofJson_json]
      rfl
    | gasMetrics r => exact absurd h id
  | gasMetrics =>
    cases r with
    | trending r => exact absurd h id
    | gasMetrics r => rfl

theorem h_not_mem_repr (n : ℤ) : 'h' ∉ n.repr.toList := by
  have hnat : ∀ m : ℕ, 'h' ∉ m.repr.toList := by
    intro m hm
    rw [Nat.toList_repr] at hm
    exact absurd (Nat.isDigit_of_mem_toDigits (by decide) (by decide) hm) (by decide)
  cases n with
  | ofNat m => exact hnat m
  | negSucc m =>
    intro hm
    rw [show Int.repr (Int.negSucc m) = "-" ++ (m + 1).repr from rfl, String.toList_append,
      List.mem_append] at hm
    rcases hm with hm | hm
    · exact absurd hm (by decide)
    · exact hnat _ hm

/-- What stands before the first `h` of each side is the same. -/
theorem append_h_inj {as bs as' bs' : List Char} (ha : 'h' ∉ as) (hb : 'h' ∉ bs)
    (h : as ++ 'h' :: as' = bs ++ 'h' :: bs') : as = bs ∧ as' = bs' := by
  induction as generalizing bs with
  | nil =>
    cases bs with
    | nil => exact ⟨rfl, (List.cons.inj h).2⟩
    | cons b bs => exact absurd (List.cons.inj h).1 fun hb' => hb (hb' ▸ List.mem_cons_self)
  | cons a as ih =>
    cases bs with
    | nil => exact absurd (List.cons.inj h).1.symm fun ha' => ha (ha' ▸ List.mem_cons_self)
    | cons b bs =>
      obtain ⟨hab, hrest⟩ := List.cons.inj h
      obtain ⟨hs, hs'⟩ := ih (fun hm => ha (List.mem_cons_of_mem _ hm))
        (fun hm => hb (List.mem_cons_of_mem _ hm)) hrest
      exact ⟨by rw [hab, hs], hs'⟩

theorem CachedRequest.key_trending_ne (limit hours : ℤ) :
    (trending limit hours).key ≠ gasMetrics.key := by
  intro h
  have hkeys : "trending_tokens:" ++ (hours.repr ++ ("h:limit_" ++ limit.repr)) =
      "cache:gas_metrics:5min" := h
  have hhead := congrArg (fun s => s.toList.head?) hkeys
  rw [String.toList_append, List.head?_append_of_ne_nil _ (by decide)] at hhead
  exact absurd hhead (by decide)

/-- **Requests with one key ask the same.** -/
theorem CachedRequest.key_injective : Function.Injective CachedRequest.key := by
  intro c c' h
  cases c with
  | trending limit hours =>
    cases c' with
    | trending limit' hours' =>
      have hkeys : "trending_tokens:" ++ (hours.repr ++ ("h:limit_" ++ limit.repr)) =
          "trending_tokens:" ++ (hours'.repr ++ ("h:limit_" ++ limit'.repr)) := h
      have hlist := congrArg String.toList hkeys
      simp only [String.toList_append, List.append_cancel_left_eq] at hlist
      obtain ⟨hhours, hrest⟩ : hours.repr.toList = hours'.repr.toList ∧
          ":limit_".toList ++ limit.repr.toList = ":limit_".toList ++ limit'.repr.toList :=
        append_h_inj (h_not_mem_repr hours) (h_not_mem_repr hours') hlist
      rw [List.append_cancel_left_eq] at hrest
      rw [Int.repr_injective (String.toList_inj.mp hhours),
        Int.repr_injective (String.toList_inj.mp hrest)]
    | gasMetrics => exact absurd h (key_trending_ne limit hours)
  | gasMetrics =>
    cases c' with
    | trending limit' hours' => exact absurd h.symm (key_trending_ne limit' hours')
    | gasMetrics => rfl

end Backend

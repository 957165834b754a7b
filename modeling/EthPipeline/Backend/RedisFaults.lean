import EthPipeline.Base.ReadThrough
import EthPipeline.Backend.Server

/-!
# Requests while Redis fails

`get_trending_tokens` of `src/backend/services/token_service.py` and
`get_gas_metrics` of `gas_service.py`, for one request: every answer of Redis and of
the database is a choice of the environment, and so is every exception.  All of it
stands in one `try`, whose handler blames the database.  What other requests do shows
in the answers alone; the lock of the second look never fails.

* `cache_optional_iff`: when a request returns what it returns without Redis.
* `failed_write_is_an_error`: the database has answered, and the `SET` raises.
-/

namespace Backend

open ReadThrough

/-- What `GET` gives: nothing, the empty text, or the text of a value. -/
inductive Reply where
  | missing
  | empty
  | entry (v : Cached)

/-- How the commands of one request go; `none` is an exception. -/
structure Redis where
  get : Look → String → Option Reply
  set : String → Cached → ℕ → Option Unit

structure RedisManager where
  redis : Option Redis

/-- `connect`: a client that does not answer `PING` is given up. -/
def RedisManager.connect (client : Redis) (ping : Bool) : RedisManager where
  redis := if ping then some client else none

/-- How the query of the trending tokens goes. -/
structure TokenRepository where
  getTrendingTokens : ℤ → ℤ → Option (List TrendingRow)

/-- How the two queries of the gas price go: `AVG` of no row is `NULL`, and so is the
latest price of an empty table. -/
structure GasRepository where
  averageGasPrice : Option (Option ℚ)
  latestGasPrice : Option (Option ℚ)

def GasRepository.getAverageGasPriceLast5Minutes (repo : GasRepository) : Option (Option ℚ) := do
  match ← repo.averageGasPrice with
  | some price => return some price
  | none => repo.latestGasPrice

/-- What a request makes of a reply: a response, no entry, or an exception.  The
trending query tests `if cached_data`, the gas query `if cached_data is not None`. -/
def CachedRequest.read (c : CachedRequest) : Reply → Option (Option Response)
  | .missing => some none
  | .empty =>
    match c with
    | .trending _ _ => some none
    | .gasMetrics => none
  | .entry v => (c.load v).map some

/-- The commands of a request: its key, and an entry that lives for 60 seconds. -/
def Redis.cache (redis : Redis) (c : CachedRequest) : Cache Reply Response where
  get look := redis.get look c.key
  set r := redis.set c.key r.dump 60

def getTrendingTokens (manager : RedisManager) (repo : TokenRepository) (limit hours : ℤ) :
    Except DatabaseFetchError Response :=
  let c := CachedRequest.trending limit hours
  orFetchError <| fetch c.read (manager.redis.map (·.cache c)) do
    let rows ← repo.getTrendingTokens hours limit
    let response ← trendingTokensResponse rows
    return .trending response

def getGasMetrics (manager : RedisManager) (repo : GasRepository) :
    Except DatabaseFetchError Response :=
  let c := CachedRequest.gasMetrics
  orFetchError <| fetch c.read (manager.redis.map (·.cache c)) do
    let avgWei ← repo.getAverageGasPriceLast5Minutes
    return .gasMetrics (gasMetricsResponse avgWei)

/-! ### Both requests -/

/-- The database, as one request finds it. -/
structure Repositories where
  tokens : TokenRepository
  gas : GasRepository

def CachedRequest.serve (manager : RedisManager) (repos : Repositories) :
    CachedRequest → Except DatabaseFetchError Response
  | trending limit hours => getTrendingTokens manager repos.tokens limit hours
  | gasMetrics => getGasMetrics manager repos.gas

/-- The queries of a request are answered, and by what. -/
def CachedRequest.answer (repos : Repositories) : CachedRequest → Option Rows
  | trending limit hours => (repos.tokens.getTrendingTokens hours limit).map .trending
  | gasMetrics => repos.gas.getAverageGasPriceLast5Minutes.map .average

/-- The response models accept every row of an answer: symbols and names are there. -/
def Rows.Complete : Rows → Prop
  | .trending rows => ∀ row ∈ rows, row.symbol ≠ none ∧ row.name ≠ none
  | _ => True

/-- The response that an answer becomes. -/
def Rows.response : Rows → Option Response
  | .trending rows => (trendingTokensResponse rows).map .trending
  | .average avg => some (.gasMetrics (gasMetricsResponse avg))
  | .other => none

/-- A request the database answers returns what it returns without Redis. -/
def CacheOptional (manager : RedisManager) (repos : Repositories) (c : CachedRequest) : Prop :=
  c.answer repos ≠ none → ∃ r, c.serve ⟨none⟩ repos = .ok r ∧ c.serve manager repos = .ok r

variable {manager : RedisManager} {repos : Repositories} {c : CachedRequest} {rows : Rows}

theorem trendingTokensResponse_isSome_iff (rows : List TrendingRow) :
    (trendingTokensResponse rows).isSome ↔ (Rows.trending rows).Complete := by
  change ((rows.mapM trendingToken).map TrendingTokensResponse.mk).isSome ↔ _
  rw [Option.isSome_map]
  induction rows with
  | nil => simp [Rows.Complete]
  | cons row rows ih =>
    have hrow : (trendingToken row).isSome ↔ row.symbol ≠ none ∧ row.name ≠ none := by
      rcases hsymbol : row.symbol with _ | symbol <;> rcases hname : row.name with _ | name <;>
        simp [trendingToken, hsymbol, hname]
    have hcons : ((row :: rows).mapM trendingToken).isSome ↔
        (trendingToken row).isSome ∧ (rows.mapM trendingToken).isSome := by
      rw [List.mapM_cons]
      rcases trendingToken row with _ | token <;> rcases rows.mapM trendingToken with _ | tokens <;>
        simp
    rw [hcons, hrow, ih]
    simp [Rows.Complete]

/-- Either request is a reading of the database through Redis. -/
theorem serve_eq (manager : RedisManager) (repos : Repositories) (c : CachedRequest) :
    c.serve manager repos = orFetchError
      (fetch c.read (manager.redis.map (·.cache c)) (c.answer repos >>= Rows.response)) := by
  cases c with
  | trending limit hours =>
    have hsource : (do
        let rows ← repos.tokens.getTrendingTokens hours limit
        let response ← trendingTokensResponse rows
        return Response.trending response) =
        (CachedRequest.trending limit hours).answer repos >>= Rows.response := by
      change _ = (repos.tokens.getTrendingTokens hours limit).map Rows.trending >>= Rows.response
      rcases repos.tokens.getTrendingTokens hours limit with _ | rows
      · rfl
      · change _ = (trendingTokensResponse rows).map Response.trending
        exact Option.map_eq_bind.symm
    rw [← hsource]
    rfl
  | gasMetrics =>
    have hsource : (do
        let avgWei ← repos.gas.getAverageGasPriceLast5Minutes
        return Response.gasMetrics (gasMetricsResponse avgWei)) =
        CachedRequest.gasMetrics.answer repos >>= Rows.response := by
      change _ = repos.gas.getAverageGasPriceLast5Minutes.map Rows.average >>= Rows.response
      rcases repos.gas.getAverageGasPriceLast5Minutes with _ | avgWei <;> rfl
    rw [← hsource]
    rfl

/-- Without Redis a request returns the response its answer becomes. -/
theorem serve_uncached (repos : Repositories) (c : CachedRequest) :
    c.serve ⟨none⟩ repos = orFetchError (c.answer repos >>= Rows.response) := by
  rw [serve_eq]
  change orFetchError (fetch c.read none _) = _
  rw [fetch_absent]

theorem response_isSome_iff (h : c.answer repos = some rows) :
    rows.response.isSome ↔ rows.Complete := by
  cases c with
  | trending limit hours =>
    obtain ⟨trendingRows, -, rfl⟩ := Option.map_eq_some_iff.mp h
    rw [← trendingTokensResponse_isSome_iff]
    change ((trendingTokensResponse trendingRows).map Response.trending).isSome ↔ _
    rw [Option.isSome_map]
  | gasMetrics =>
    obtain ⟨avg, -, rfl⟩ := Option.map_eq_some_iff.mp h
    exact iff_of_true rfl trivial

/-- **The cache is optional** for a request exactly if the response models accept the
rows of its answer, no command raises that it sends to Redis, and an entry that it
finds there is what these rows become. -/
theorem cache_optional_iff (manager : RedisManager) (repos : Repositories) (c : CachedRequest) :
    CacheOptional manager repos c ↔
      ∀ rows, c.answer repos = some rows → rows.Complete ∧
        ∀ redis r, manager.redis = some redis → rows.response = some r →
          (redis.cache c).Harmless c.read r := by
  constructor
  · intro h rows hrows
    obtain ⟨r, huncached, hserve⟩ := h (by rw [hrows]; exact Option.some_ne_none rows)
    rw [serve_uncached, orFetchError_eq_ok, hrows] at huncached
    have hr : rows.response = some r := huncached
    refine ⟨(response_isSome_iff hrows).mp (by rw [hr]; rfl), fun redis r' hredis hr' => ?_⟩
    rw [serve_eq, orFetchError_eq_ok, hrows, hredis] at hserve
    change fetch c.read (some (redis.cache c)) rows.response = some r at hserve
    rw [hr] at hserve hr'
    cases hr'
    exact fetch_eq_some_iff.mp hserve
  · intro h hanswer
    obtain ⟨rows, hrows⟩ := Option.ne_none_iff_exists'.mp hanswer
    obtain ⟨hcomplete, hharmless⟩ := h rows hrows
    obtain ⟨r, hr⟩ := Option.isSome_iff_exists.mp ((response_isSome_iff hrows).mpr hcomplete)
    refine ⟨r, ?_, ?_⟩
    · rw [serve_uncached, orFetchError_eq_ok, hrows]
      exact hr
    · rw [serve_eq, orFetchError_eq_ok, hrows]
      change fetch c.read (manager.redis.map (·.cache c)) rows.response = some r
      rw [hr]
      cases hredis : manager.redis with
      | none => exact fetch_absent
      | some redis => exact fetch_eq_some_iff.mpr (hharmless redis r hredis hr)

/-- A Redis that was there at the start of the process and cannot write any more. -/
def readOnlyRedis : RedisManager :=
  .connect { get := fun _ _ => some .missing, set := fun _ _ _ => none } true

/-- **A failed write is an error**: the database has given the average, and the request
says that the query failed. -/
theorem failed_write_is_an_error : ¬ ∀ manager repos c, CacheOptional manager repos c := by
  intro h
  let repos : Repositories := ⟨⟨fun _ _ => some []⟩, ⟨some (some 20000000000), none⟩⟩
  obtain ⟨r, -, hserve⟩ := h readOnlyRedis repos .gasMetrics (Option.some_ne_none _)
  have herror : CachedRequest.gasMetrics.serve readOnlyRedis repos =
      .error ⟨"Database query failed"⟩ := rfl
  rw [herror] at hserve
  cases hserve

end Backend

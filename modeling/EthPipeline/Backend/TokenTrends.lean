import EthPipeline.Backend.Services
import EthPipeline.Base.Grouping
import Mathlib.Data.Int.Interval
import Mathlib.Data.List.Sort

/-!
# The trends of a token

`get_token_trends_by_address` of `src/backend/repositories/token_repo.py` and
`get_token_trends` of `token_service.py`.  The window is the last `limit` widths
before now, and the buckets are aligned to an origin of their own, so the window
begins within a bucket.

* `getTokenTrends_correct`: every point but possibly the first has all transfers of
  its bucket, there are at most `limit + 1` points, and together they have all
  transfers of the window.
* `window_begins_within_bucket`: a window of one width, with two points.
-/

namespace Backend

open Consumer

/-- `time_bucket`: down to a multiple of the width from the origin. -/
def timeBucket (origin : ℤ) (width : ℕ) (t : ℤ) : ℤ := origin + width * ((t - origin) / width)

/-- The first instant a `TIMESTAMPTZ` can hold, in microseconds. -/
def minTimestamp : Timestamp := -210866803200000000

/-- `NOW() - width * limit`; `none` is an exception. -/
def windowStart (now : Timestamp) (width limit : ℕ) : Option Timestamp :=
  if minTimestamp ≤ now - width * limit then some (now - width * limit) else none

/-- `SUM(value)`: `NULL` values are skipped, and the sum of no value is `NULL`. -/
def sumValues (rows : List TokenTransferRow) : Option ℤ :=
  if rows.filterMap (·.value) = [] then none else some (rows.filterMap (·.value)).sum

structure TrendRow where
  bucket : Timestamp
  transferCount : ℕ
  totalValue : Option ℤ
  deriving DecidableEq, Repr

def trendRow (bucket : Timestamp) (rows : List TokenTransferRow) : TrendRow :=
  ⟨bucket, rows.length, sumValues rows⟩

/-- The rows that the query counts. -/
def windowRows (address : String) (start : Timestamp) (transfers : List TokenTransferRow) :
    List TokenTransferRow :=
  transfers.filter fun t => t.tokenAddress = address && start ≤ t.timestamp

/-- `GROUP BY bucket ORDER BY bucket ASC`, without a limit. -/
def trendRows (origin : ℤ) (width : ℕ) (rows : List TokenTransferRow) : List TrendRow :=
  (Grouping.groupBy (fun t => timeBucket origin width t.timestamp) trendRow rows).insertionSort
    fun a b => a.bucket ≤ b.bucket

def getTokenTrendsByAddress (origin : ℤ) (transfers : List TokenTransferRow) (now : Timestamp)
    (address : String) (width limit : ℕ) : Option (List TrendRow) :=
  (windowStart now width limit).map fun start =>
    trendRows origin width (windowRows address start transfers)

structure TokenTrendPoint where
  timeBucket : Timestamp
  transferCount : ℕ
  totalValue : PyFloat
  deriving DecidableEq, Repr

/-- `float(total) if total else 0.0`. -/
def totalOrZero (total : Option ℤ) : PyFloat :=
  match total with
  | some n => if n = 0 then .finite 0 else PyFloat.ofRat n
  | none => .finite 0

def tokenTrendPoint (row : TrendRow) : TokenTrendPoint :=
  ⟨row.bucket, row.transferCount, totalOrZero row.totalValue⟩

def getTokenTrends (origin : ℤ) (transfers : List TokenTransferRow) (now : Timestamp)
    (address : String) (width limit : ℕ) : Except DatabaseFetchError (List TokenTrendPoint) :=
  orFetchError ((getTokenTrendsByAddress origin transfers now address width limit).map
    fun rows => rows.map tokenTrendPoint)

/-! ### Buckets -/

section Buckets

variable {origin : ℤ} {width : ℕ} {t start : ℤ}

theorem timeBucket_le (hwidth : 0 < width) : timeBucket origin width t ≤ t := by
  have hpos : (0 : ℤ) < width := by exact_mod_cast hwidth
  have h := Int.mul_ediv_self_le (x := t - origin) (k := width) hpos.ne'
  unfold timeBucket
  omega

/-- A bucket that begins before an instant and has a later one is the bucket of it. -/
theorem timeBucket_eq_of_lt (hwidth : 0 < width) (hlt : timeBucket origin width t < start)
    (hle : start ≤ t) : timeBucket origin width t = timeBucket origin width start := by
  have hpos : (0 : ℤ) < width := by exact_mod_cast hwidth
  have hdiv : (start - origin) / width = (t - origin) / width := by
    have hnext := Int.lt_mul_ediv_self_add (x := t - origin) hpos
    refine Int.ediv_eq_iff_of_pos hpos |>.mpr ⟨?_, ?_⟩
    · unfold timeBucket at hlt
      rw [mul_comm] at hlt
      omega
    · rw [mul_comm] at hnext
      omega
  rw [timeBucket, timeBucket, hdiv]

/-- The buckets from a window of `n` widths are at most `n + 1`. -/
theorem length_le_of_buckets (hwidth : 0 < width) {n : ℕ} {buckets : List ℤ} (hnodup : buckets.Nodup)
    (hbuckets : ∀ b ∈ buckets, ∃ t, start ≤ t ∧ t ≤ start + width * n ∧
      b = timeBucket origin width t) : buckets.length ≤ n + 1 := by
  have hpos : (0 : ℤ) < width := by exact_mod_cast hwidth
  -- the numbers of the buckets lie between those of the two ends
  have hsub : buckets.toFinset ⊆ (Finset.Icc ((start - origin) / (width : ℤ))
      ((start - origin) / width + n)).image fun k => origin + width * k := by
    intro b hb
    obtain ⟨t, hle, hge, rfl⟩ := hbuckets b (List.mem_toFinset.mp hb)
    refine Finset.mem_image.mpr ⟨(t - origin) / width, Finset.mem_Icc.mpr ⟨?_, ?_⟩, rfl⟩
    · exact Int.ediv_le_ediv hpos (by omega)
    · rw [← Int.add_mul_ediv_left _ _ hpos.ne']
      exact Int.ediv_le_ediv hpos (by omega)
  have hcard := (Finset.card_le_card hsub).trans Finset.card_image_le
  rw [List.toFinset_card_of_nodup hnodup, Int.card_Icc] at hcard
  omega

end Buckets

/-! ### The points -/

/-- What `points` say about the transfers of a token since `start`. -/
structure TrendsOf (origin : ℤ) (width limit : ℕ) (now start : Timestamp)
    (ofToken : List TokenTransferRow) (points : List TokenTrendPoint) : Prop where
  increasing : points.Pairwise (·.timeBucket < ·.timeBucket)
  /-- A point counts the transfers of its bucket since `start`, and there is one. -/
  point : ∀ p ∈ points, ∃ t ∈ ofToken, start ≤ t.timestamp ∧
    p = tokenTrendPoint (trendRow (timeBucket origin width t.timestamp)
      (ofToken.filter fun u => start ≤ u.timestamp &&
        timeBucket origin width u.timestamp = timeBucket origin width t.timestamp))
  covers : ∀ t ∈ ofToken, start ≤ t.timestamp →
    ∃ p ∈ points, p.timeBucket = timeBucket origin width t.timestamp
  /-- It has all transfers of its bucket, but in the bucket that `start` is in. -/
  whole : ∀ p ∈ points, p.timeBucket = timeBucket origin width start ∨
    p = tokenTrendPoint (trendRow p.timeBucket
      (ofToken.filter fun u => timeBucket origin width u.timestamp = p.timeBucket))
  total : (points.map (·.transferCount)).sum =
    (ofToken.filter fun t => start ≤ t.timestamp).length
  short : (∀ t ∈ ofToken, t.timestamp ≤ now) → points.length ≤ limit + 1

section Rows

variable {origin : ℤ} {width : ℕ} {rows : List TokenTransferRow}

theorem mem_trendRows {row : TrendRow} :
    row ∈ trendRows origin width rows ↔ ∃ t ∈ rows,
      row = trendRow (timeBucket origin width t.timestamp)
        (rows.filter fun u =>
          timeBucket origin width u.timestamp = timeBucket origin width t.timestamp) := by
  rw [trendRows, List.mem_insertionSort, Grouping.mem_groupBy]

theorem nodup_buckets (rows : List TokenTransferRow) :
    ((trendRows origin width rows).map (·.bucket)).Nodup := by
  refine ((List.perm_insertionSort _ _).map _).nodup_iff.mpr ?_
  exact Grouping.nodup_groupBy (f := id) (fun _ _ => rfl) fun _ _ _ _ h => h

theorem pairwise_trendRows (rows : List TokenTransferRow) :
    (trendRows origin width rows).Pairwise (·.bucket < ·.bucket) := by
  have : IsTrans TrendRow fun a b => a.bucket ≤ b.bucket := ⟨fun _ _ _ => le_trans⟩
  have : Std.Total fun a b : TrendRow => a.bucket ≤ b.bucket := ⟨fun _ _ => le_total _ _⟩
  have hsorted : (trendRows origin width rows).Pairwise fun a b => a.bucket ≤ b.bucket :=
    List.pairwise_insertionSort _ _
  have hdistinct : (trendRows origin width rows).Pairwise fun a b => a.bucket ≠ b.bucket :=
    List.pairwise_map.mp (nodup_buckets rows)
  exact (hsorted.and hdistinct).imp fun h => lt_of_le_of_ne h.1 h.2

theorem sum_transferCount (rows : List TokenTransferRow) :
    ((trendRows origin width rows).map (·.transferCount)).sum = rows.length := by
  rw [trendRows, ((List.perm_insertionSort _ _).map _).sum_eq, Grouping.groupBy, List.map_map]
  exact Grouping.sum_length_parts (List.nodup_dedup _) fun t ht =>
    List.mem_dedup.mpr (List.mem_map_of_mem ht)

end Rows

theorem trendsOf_trendRows {origin : ℤ} {width limit : ℕ} {now : Timestamp}
    (ofToken : List TokenTransferRow) (hwidth : 0 < width) :
    TrendsOf origin width limit now (now - width * limit) ofToken
      ((trendRows origin width (ofToken.filter fun t => now - width * limit ≤ t.timestamp)).map
        tokenTrendPoint) := by
  set start := now - width * limit
  have hrows : ∀ row, row ∈ trendRows origin width (ofToken.filter fun t => start ≤ t.timestamp) ↔
      ∃ t ∈ ofToken, start ≤ t.timestamp ∧
        row = trendRow (timeBucket origin width t.timestamp)
          (ofToken.filter fun u => start ≤ u.timestamp &&
            timeBucket origin width u.timestamp = timeBucket origin width t.timestamp) := by
    intro row
    rw [mem_trendRows]
    simp only [List.mem_filter, decide_eq_true_eq, and_assoc, List.filter_filter, Bool.and_comm]
  refine ⟨?_, ?_, ?_, ?_, ?_, ?_⟩
  · exact List.pairwise_map.mpr (pairwise_trendRows _)
  · intro p hp
    obtain ⟨row, hrow, rfl⟩ := List.mem_map.mp hp
    obtain ⟨t, ht, hle, rfl⟩ := (hrows row).mp hrow
    exact ⟨t, ht, hle, rfl⟩
  · intro t ht hle
    exact ⟨_, List.mem_map_of_mem ((hrows _).mpr ⟨t, ht, hle, rfl⟩), rfl⟩
  · intro p hp
    obtain ⟨row, hrow, rfl⟩ := List.mem_map.mp hp
    obtain ⟨t, ht, hle, rfl⟩ := (hrows row).mp hrow
    by_cases hbegins : start ≤ timeBucket origin width t.timestamp
    · -- then no transfer of the bucket comes before the window
      refine .inr (congrArg tokenTrendPoint (congrArg (trendRow _) ?_))
      refine List.filter_congr fun u _ => ?_
      by_cases hu : timeBucket origin width u.timestamp = timeBucket origin width t.timestamp
      · have hafter : start ≤ u.timestamp := (hu ▸ hbegins).trans (timeBucket_le hwidth)
        simp [hu, hafter, tokenTrendPoint, trendRow]
      · simp [hu, tokenTrendPoint, trendRow]
    · exact .inl (timeBucket_eq_of_lt hwidth (not_le.mp hbegins) hle)
  · rw [List.map_map]
    exact sum_transferCount _
  · intro hnow
    rw [List.length_map, ← List.length_map (f := TrendRow.bucket)]
    refine @length_le_of_buckets origin width start hwidth limit _ (nodup_buckets _) fun b hb => ?_
    obtain ⟨row, hrow, rfl⟩ := List.mem_map.mp hb
    obtain ⟨t, ht, hle, rfl⟩ := (hrows row).mp hrow
    have hend : t.timestamp ≤ start + width * limit := by
      rw [sub_add_cancel]
      exact hnow t ht
    exact ⟨t.timestamp, hle, hend, rfl⟩

/-- **The trends of a token**: whole buckets, but for the one that the window begins in. -/
theorem getTokenTrends_correct (origin : ℤ) (transfers : List TokenTransferRow) (now : Timestamp)
    (address : String) (width limit : ℕ) (hwidth : 0 < width) :
    (∃ points, getTokenTrends origin transfers now address width limit = .ok points ∧
        minTimestamp ≤ now - width * limit ∧
        TrendsOf origin width limit now (now - width * limit)
          (transfers.filter fun t => t.tokenAddress = address) points) ∨
      getTokenTrends origin transfers now address width limit =
          .error ⟨"Database query failed"⟩ ∧
        now - width * limit < minTimestamp := by
  rw [getTokenTrends, getTokenTrendsByAddress, windowStart]
  split
  · next hstart =>
    refine .inl ⟨_, rfl, hstart, ?_⟩
    have hwindow : windowRows address (now - width * limit) transfers =
        (transfers.filter fun t => t.tokenAddress = address).filter
          fun t => now - width * limit ≤ t.timestamp := by
      rw [windowRows, List.filter_filter]
      simp only [Bool.and_comm]
    show TrendsOf _ _ _ _ _ _ ((trendRows origin width
      (windowRows address (now - width * limit) transfers)).map tokenTrendPoint)
    rw [hwindow]
    exact trendsOf_trendRows _ hwidth
  · next hstart => exact .inr ⟨rfl, not_le.mp hstart⟩

/-- A transfer of a token at a minute of the day. -/
def transferAt (minute : ℤ) : TokenTransferRow where
  transactionHash := "0xa1"
  logIndex := minute
  timestamp := minute * 60000000
  tokenAddress := "0xd1"
  fromAddress := "0xb1"
  toAddress := "0xb2"
  value := some 1

/-- The hour before half past one. -/
theorem trends_at_half_past_one :
    ∃ points, getTokenTrends 0 [transferAt 20, transferAt 40, transferAt 70] (90 * 60000000) "0xd1"
      3600000000 1 = .ok points ∧ points.length ≤ 2 := by
  rcases getTokenTrends_correct 0 [transferAt 20, transferAt 40, transferAt 70] (90 * 60000000)
    "0xd1" 3600000000 1 (by decide) with ⟨points, heq, -, htrends⟩ | ⟨-, hstart⟩
  · exact ⟨points, heq, htrends.short (by decide)⟩
  · exact absurd hstart (by decide)

/-- **A window of one width** begins within a bucket: it has two points, and the first
counts one of two transfers. -/
theorem window_begins_within_bucket :
    ∃ first second, getTokenTrends 0 [transferAt 20, transferAt 40, transferAt 70]
        (90 * 60000000) "0xd1" 3600000000 1 = .ok [first, second] ∧
      first.transferCount = 1 ∧
      ([transferAt 20, transferAt 40, transferAt 70].filter fun t =>
        t.tokenAddress = "0xd1" && timeBucket 0 3600000000 t.timestamp = first.timeBucket).length =
          2 := by
  exact ⟨⟨0, 1, .finite 1⟩, ⟨3600000000, 1, .finite 1⟩, by decide +kernel, rfl, by decide +kernel⟩

end Backend

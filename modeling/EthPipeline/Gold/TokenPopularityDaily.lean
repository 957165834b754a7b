import EthPipeline.Base.Ranking
import EthPipeline.Gold.TokenFlows
import EthPipeline.Gold.TopWhalesDaily

/-!
# The popular tokens of a day

`build_token_popularity_daily` of `src/gold/transform/token_popularity_daily.py`, the
score in exact arithmetic.  What `approx_count_distinct` estimates for a group is open,
and so is the order in which Spark adds the flows of the exchanges.

* `minMaxNorm_spec`: a normalised column.
* `popularityScore_eq`: the score is a function of the two counts.
* `popularity_ranked`: the rows, range and order of the scores, and the ranks they give.
-/

namespace Gold

open Silver

/-! ### The groups -/

structure TokenKey where
  dt : Option ℤ
  tokenAddress : Option String
  symbol : Option String
  tokenName : Option String
  deriving DecidableEq, Repr

def TokenFlow.key (row : TokenFlow) : TokenKey :=
  ⟨row.dt, row.tokenAddress, row.symbol, row.tokenName⟩

structure DailyBase where
  key : TokenKey
  txCount : ℕ
  totalVolume : Option ℚ
  uniqueAddresses : ℕ
  cexNetFlow : Option PyFloat
  deriving DecidableEq, Repr

/-- `concat_ws`: nulls are left out. -/
def concatWs (sep : String) (texts : List (Option String)) : String :=
  sep.intercalate (texts.filterMap id)

/-- The pair of addresses of a transfer, as a text. -/
def path (row : TokenFlow) : String := concatWs "_" [row.fromAddress, row.toAddress]

def dailyBase (spark : Summation) (estimate : TokenKey → List String → ℕ) (df : List TokenFlow) :
    List DailyBase :=
  Grouping.groupBy TokenFlow.key
    (fun key rows => ⟨key, rows.countP (·.transactionHash.isSome), totalVolume rows,
      estimate key (rows.map path), cexNetFlow spark rows⟩) df

/-! ### Scores, ranks and labels -/

def weightTxCount : ℚ := 55 / 100

def weightUniqueAddresses : ℚ := 45 / 100

def weightTotalVolume : ℚ := 0

/-- The double `0.0001`. -/
def cexFlowThreshold : ℚ := Binary64.nearest (1 / 10000)

/-- `_min_max_norm`: the column within its window. -/
def minMaxNorm (column : List (Option ℚ)) (value : Option ℚ) : Option ℚ := do
  let minVal ← (column.filterMap id).min?
  let maxVal ← (column.filterMap id).max?
  let value ← value
  let denom := if maxVal - minVal = 0 then 1 else maxVal - minVal
  return (value - minVal) / denom

/-- `Window.partitionBy("dt")`. -/
def sameDate (base : List DailyBase) (row : DailyBase) : List DailyBase :=
  base.filter fun other => other.key.dt = row.key.dt

def popularityScore (base : List DailyBase) (row : DailyBase) : Option ℚ := do
  let w := sameDate base row
  let nTx ← minMaxNorm (w.map fun other => some (other.txCount : ℚ)) (some row.txCount)
  let nAddr ← minMaxNorm (w.map fun other => some (other.uniqueAddresses : ℚ))
    (some row.uniqueAddresses)
  let nVol ← minMaxNorm (w.map (·.totalVolume)) row.totalVolume
  return Decimal.roundHalfUp 4
    (nTx * weightTxCount + nAddr * weightUniqueAddresses + nVol * weightTotalVolume)

def rankPopularity (base : List DailyBase) (row : DailyBase) : ℕ :=
  Ranking.rank (·.key.dt)
    (fun a b => less (popularityScore base b) (popularityScore base a)) base row

def popularityTier (rank : ℕ) : String :=
  if rank = 1 then "Top1" else if rank ≤ 3 then "Top3" else if rank ≤ 10 then "Top10"
  else if rank ≤ 50 then "Hot" else "Normal"

def cexFlowLabel (netFlow : Option PyFloat) : String :=
  match netFlow with
  | some x => if x.above cexFlowThreshold then "CEX_INFLOW"
      else if x.below (-cexFlowThreshold) then "CEX_OUTFLOW" else "NEUTRAL"
  | none => "NEUTRAL"

structure PopularityRow where
  dt : Option ℤ
  tokenAddress : Option String
  symbol : Option String
  tokenName : Option String
  rankPopularity : ℕ
  popularityTier : String
  popularityScore : Option ℚ
  txCount : ℕ
  totalVolume : Option ℚ
  uniqueAddresses : ℕ
  cexNetFlow : Option PyFloat
  cexFlowLabel : String
  deriving DecidableEq, Repr

def popularityRow (base : List DailyBase) (row : DailyBase) : PopularityRow where
  dt := row.key.dt
  tokenAddress := row.key.tokenAddress
  symbol := row.key.symbol
  tokenName := row.key.tokenName
  rankPopularity := rankPopularity base row
  popularityTier := popularityTier (rankPopularity base row)
  popularityScore := popularityScore base row
  txCount := row.txCount
  totalVolume := row.totalVolume
  uniqueAddresses := row.uniqueAddresses
  cexNetFlow := row.cexNetFlow
  cexFlowLabel := cexFlowLabel row.cexNetFlow

/-- `build_token_popularity_daily`. -/
def buildTokenPopularityDaily (rows : List TokenFlow) (date : ℤ)
    (estimate : TokenKey → List String → ℕ) (spark : Summation) : List PopularityRow :=
  let base := dailyBase spark estimate (onDate date rows)
  base.map (popularityRow base)

/-! ### The score -/

section score

/-- **A normalised column**: its values are scaled between bounds that depend on the
column alone. -/
theorem minMaxNorm_spec (column : List (Option ℚ)) (h : ∃ x, some x ∈ column) :
    ∃ lo hi, (∀ x, some x ∈ column → lo ≤ x ∧ x ≤ hi) ∧
      ∀ x, minMaxNorm column (some x) = some (Ranking.scaled lo hi x) := by
  obtain ⟨x, hx⟩ := h
  have hmem : ∀ y, some y ∈ column ↔ y ∈ column.filterMap id := by
    intro y
    simp [List.mem_filterMap]
  cases hmin : (column.filterMap id).min? with
  | none =>
    have hnil := List.min?_eq_none_iff.mp hmin
    have := (hmem x).mp hx
    rw [hnil] at this
    cases this
  | some lo =>
    cases hmax : (column.filterMap id).max? with
    | none =>
      have hnil := List.max?_eq_none_iff.mp hmax
      have := (hmem x).mp hx
      rw [hnil] at this
      cases this
    | some hi =>
      refine ⟨lo, hi, fun y hy => ⟨?_, ?_⟩, fun y => ?_⟩
      · exact (List.min?_eq_some_iff.mp hmin).2 y ((hmem y).mp hy)
      · exact (List.max?_eq_some_iff.mp hmax).2 y ((hmem y).mp hy)
      · unfold minMaxNorm
        rw [hmin, hmax]
        rfl

/-- The score of a group with `n` transfers and `m` paths, from the counts of all groups. -/
def countScore (txs addrs : List ℕ) (n m : ℕ) : Option ℚ := do
  let nTx ← minMaxNorm (txs.map fun count : ℕ => some (count : ℚ)) (some n)
  let nAddr ← minMaxNorm (addrs.map fun count : ℕ => some (count : ℚ)) (some m)
  return Decimal.roundHalfUp 4 (nTx * weightTxCount + nAddr * weightUniqueAddresses)

variable {base : List DailyBase} {row : DailyBase}

theorem sameDate_eq (hdt : ∀ other ∈ base, other.key.dt = row.key.dt) : sameDate base row = base :=
  List.filter_eq_self.mpr fun other hother => decide_eq_true (hdt other hother)

/-- **The score is a function of the two counts**, where every group has a volume. -/
theorem popularityScore_eq (hdt : ∀ other ∈ base, other.key.dt = row.key.dt)
    (hvolume : ∀ other ∈ base, other.totalVolume ≠ none) (hrow : row ∈ base) :
    popularityScore base row =
      countScore (base.map (·.txCount)) (base.map (·.uniqueAddresses)) row.txCount
        row.uniqueAddresses := by
  obtain ⟨volume, hvol⟩ := Option.ne_none_iff_exists'.mp (hvolume row hrow)
  obtain ⟨lo, hi, -, hnorm⟩ := minMaxNorm_spec (base.map (·.totalVolume))
    ⟨volume, List.mem_map.mpr ⟨row, hrow, hvol⟩⟩
  unfold popularityScore countScore
  rw [sameDate_eq hdt, hvol, List.map_map, List.map_map]
  dsimp only
  rw [hnorm volume]
  -- the volume has the weight zero
  simp only [weightTotalVolume, mul_zero, add_zero]
  rfl

/-- The scores of counts that occur lie between zero and one, in the order of the counts. -/
theorem countScore_spec (txs addrs : List ℕ) (htxs : txs ≠ []) (haddrs : addrs ≠ []) :
    ∃ score : ℕ → ℕ → ℚ, (∀ n m, countScore txs addrs n m = some (score n m)) ∧
      (∀ n ∈ txs, ∀ m ∈ addrs, 0 ≤ score n m ∧ score n m ≤ 1) ∧
      ∀ n n' m m', n ≤ n' → m ≤ m' → score n m ≤ score n' m' := by
  have hnorm : ∀ {counts : List ℕ}, counts ≠ [] → ∃ lo hi : ℚ, lo ≤ hi ∧
      (∀ n ∈ counts, lo ≤ (n : ℚ) ∧ (n : ℚ) ≤ hi) ∧
      ∀ x, minMaxNorm (counts.map fun count : ℕ => some (count : ℚ)) (some x) =
        some (Ranking.scaled lo hi x) := by
    intro counts hne
    obtain ⟨n, hn⟩ := List.exists_mem_of_ne_nil counts hne
    obtain ⟨lo, hi, hbounds, heq⟩ := minMaxNorm_spec
      (counts.map fun count : ℕ => some (count : ℚ)) ⟨n, List.mem_map.mpr ⟨n, hn, rfl⟩⟩
    have hmem : ∀ m ∈ counts, lo ≤ (m : ℚ) ∧ (m : ℚ) ≤ hi := fun m hm =>
      hbounds m (List.mem_map.mpr ⟨m, hm, rfl⟩)
    exact ⟨lo, hi, (hmem n hn).1.trans (hmem n hn).2, hmem, heq⟩
  obtain ⟨lo, hi, hle, hmem, heq⟩ := hnorm htxs
  obtain ⟨lo', hi', hle', hmem', heq'⟩ := hnorm haddrs
  refine ⟨fun n m => Decimal.roundHalfUp 4 (Ranking.scaled lo hi n * weightTxCount +
    Ranking.scaled lo' hi' m * weightUniqueAddresses), fun n m => ?_, fun n hn m hm => ?_,
    fun n n' m m' hn hm => ?_⟩
  · rw [countScore, heq, heq']
    rfl
  · obtain ⟨hlow, hhigh⟩ := Ranking.scaled_mem (hmem n hn).1 (hmem n hn).2
    obtain ⟨hlow', hhigh'⟩ := Ranking.scaled_mem (hmem' m hm).1 (hmem' m hm).2
    constructor
    · refine Decimal.roundHalfUp_nonneg ?_
      unfold weightTxCount weightUniqueAddresses
      positivity
    · have hone : Ranking.scaled lo hi (n : ℚ) * weightTxCount +
          Ranking.scaled lo' hi' (m : ℚ) * weightUniqueAddresses ≤ ((1 : ℤ) : ℚ) := by
        unfold weightTxCount weightUniqueAddresses
        push_cast
        linarith
      have h := Decimal.roundHalfUp_mono (s := 4) hone
      rw [Decimal.roundHalfUp_intCast, Int.cast_one] at h
      exact h
  · have htx := Ranking.scaled_mono hle (Nat.cast_le.mpr hn : (n : ℚ) ≤ n')
    have haddr := Ranking.scaled_mono hle' (Nat.cast_le.mpr hm : (m : ℚ) ≤ m')
    refine Decimal.roundHalfUp_mono ?_
    unfold weightTxCount weightUniqueAddresses
    linarith

end score

/-! ### The table -/

section table

variable {rows : List TokenFlow} {date : ℤ} {estimate : TokenKey → List String → ℕ}
  {spark : Summation}

/-- Every token has one symbol and one name. -/
def OneMetadata (rows : List TokenFlow) : Prop :=
  ∀ row ∈ rows, ∀ row' ∈ rows, row.tokenAddress = row'.tokenAddress →
    row.symbol = row'.symbol ∧ row.tokenName = row'.tokenName

instance (rows : List TokenFlow) : Decidable (OneMetadata rows) :=
  inferInstanceAs (Decidable (∀ row ∈ rows, ∀ row' ∈ rows, _ → _))

theorem sumOf_ne_none {values : List (Option ℚ)} (h : ∃ q, some q ∈ values) : sumOf values ≠ none := by
  obtain ⟨q, hq⟩ := h
  have hne : values.filterMap id ≠ [] :=
    List.ne_nil_of_mem (List.mem_filterMap.mpr ⟨some q, hq, rfl⟩)
  rw [sumOf, if_neg hne]
  exact Option.some_ne_none _

theorem dt_of_mem_dailyBase {g : DailyBase} (h : g ∈ dailyBase spark estimate (onDate date rows)) :
    g.key.dt = some date := by
  obtain ⟨row, hrow, rfl⟩ := Grouping.mem_groupBy.mp h
  obtain ⟨row, -, rfl⟩ := List.mem_map.mp hrow
  rfl

theorem totalVolume_ne_none (hamounts : ∀ row ∈ rows, row.amount ≠ none) {g : DailyBase}
    (h : g ∈ dailyBase spark estimate (onDate date rows)) : g.totalVolume ≠ none := by
  obtain ⟨row, hrow, rfl⟩ := Grouping.mem_groupBy.mp h
  have hamount : ∃ q, row.amount = some q := by
    obtain ⟨row', hrow', rfl⟩ := List.mem_map.mp hrow
    exact Option.ne_none_iff_exists'.mp (hamounts row' hrow')
  obtain ⟨q, hq⟩ := hamount
  have hpart : row ∈ (onDate date rows).filter fun other => other.key = row.key :=
    List.mem_filter.mpr ⟨hrow, decide_eq_true rfl⟩
  have hsum := sumOf_ne_none ⟨q, List.mem_map.mpr ⟨row, hpart, hq⟩⟩
  exact fun hnone => hsum (Option.map_eq_none_iff.mp hnone)

theorem nodup_tokenAddress (hmeta : OneMetadata rows) :
    ((buildTokenPopularityDaily rows date estimate spark).map (·.tokenAddress)).Nodup := by
  have hgroups :
      ((dailyBase spark estimate (onDate date rows)).map fun g => g.key.tokenAddress).Nodup := by
    refine Grouping.nodup_groupBy (f := TokenKey.tokenAddress) (fun _ _ => rfl)
      fun a ha c hc heq => ?_
    obtain ⟨a', ha', rfl⟩ := List.mem_map.mp ha
    obtain ⟨c', hc', rfl⟩ := List.mem_map.mp hc
    obtain ⟨hsymbol, hname⟩ := hmeta a' ha' c' hc' heq
    rw [TokenFlow.key, TokenFlow.key, TokenKey.mk.injEq]
    exact ⟨rfl, heq, hsymbol, hname⟩
  unfold buildTokenPopularityDaily
  rw [List.map_map]
  exact hgroups

/-- The scores of a day with amounts. -/
theorem popularityScore_of_mem (hamounts : ∀ row ∈ rows, row.amount ≠ none) {g : DailyBase}
    (hg : g ∈ dailyBase spark estimate (onDate date rows)) :
    popularityScore (dailyBase spark estimate (onDate date rows)) g =
      countScore ((dailyBase spark estimate (onDate date rows)).map (·.txCount))
        ((dailyBase spark estimate (onDate date rows)).map (·.uniqueAddresses)) g.txCount
        g.uniqueAddresses := by
  refine popularityScore_eq (fun other hother => ?_) (fun _ => totalVolume_ne_none hamounts) hg
  rw [dt_of_mem_dailyBase hother, dt_of_mem_dailyBase hg]

theorem rankPopularity_of_mem {g : DailyBase} (hg : g ∈ dailyBase spark estimate (onDate date rows)) :
    rankPopularity (dailyBase spark estimate (onDate date rows)) g =
      1 + (dailyBase spark estimate (onDate date rows)).countP fun other =>
        less (popularityScore (dailyBase spark estimate (onDate date rows)) g)
          (popularityScore (dailyBase spark estimate (onDate date rows)) other) := by
  refine Ranking.rank_eq_countP fun other hother => ?_
  rw [dt_of_mem_dailyBase hother, dt_of_mem_dailyBase hg]

/-- **The scores of a day**: a function of the two counts that grows with both. -/
theorem exists_score (hamounts : ∀ row ∈ rows, row.amount ≠ none) (date : ℤ)
    (estimate : TokenKey → List String → ℕ) (spark : Summation) :
    ∃ score : ℕ → ℕ → ℚ,
      (∀ g ∈ dailyBase spark estimate (onDate date rows),
        popularityScore (dailyBase spark estimate (onDate date rows)) g =
          some (score g.txCount g.uniqueAddresses) ∧
        0 ≤ score g.txCount g.uniqueAddresses ∧ score g.txCount g.uniqueAddresses ≤ 1) ∧
      ∀ n n' m m', n ≤ n' → m ≤ m' → score n m ≤ score n' m' := by
  by_cases hempty : dailyBase spark estimate (onDate date rows) = []
  · refine ⟨fun _ _ => 0, fun g hg => ?_, fun _ _ _ _ _ _ => le_refl 0⟩
    rw [hempty] at hg
    cases hg
  · obtain ⟨score, heq, hrange, hmono⟩ := countScore_spec
      ((dailyBase spark estimate (onDate date rows)).map (·.txCount))
      ((dailyBase spark estimate (onDate date rows)).map (·.uniqueAddresses))
      (by simpa using hempty) (by simpa using hempty)
    refine ⟨score, fun g hg => ⟨?_, hrange _ (List.mem_map_of_mem hg) _ (List.mem_map_of_mem hg)⟩,
      hmono⟩
    rw [popularityScore_of_mem hamounts hg, heq]

/-- A transfer gives its token a row. -/
theorem exists_row_of_flow (date : ℤ) (estimate : TokenKey → List String → ℕ) (spark : Summation)
    {row : TokenFlow} (hrow : row ∈ rows) :
    ∃ g ∈ buildTokenPopularityDaily rows date estimate spark, g.tokenAddress = row.tokenAddress := by
  unfold buildTokenPopularityDaily
  exact ⟨_, List.mem_map_of_mem (Grouping.mem_groupBy_map.mpr ⟨row, hrow, rfl⟩), rfl⟩

/-- A row is that of a token with a transfer. -/
theorem exists_flow_of_row {g : PopularityRow}
    (hg : g ∈ buildTokenPopularityDaily rows date estimate spark) :
    ∃ row ∈ rows, row.tokenAddress = g.tokenAddress := by
  unfold buildTokenPopularityDaily at hg
  obtain ⟨base, hbase, rfl⟩ := List.mem_map.mp hg
  obtain ⟨row, hrow, rfl⟩ := Grouping.mem_groupBy_map.mp hbase
  exact ⟨row, hrow, rfl⟩

/-- The rows of a table, their scores, and the ranks they give. -/
structure Ranked (rows : List TokenFlow) (table : List PopularityRow) : Prop where
  tokens : ∀ a, (∃ row ∈ table, row.tokenAddress = a) ↔ ∃ row ∈ rows, row.tokenAddress = a
  oneRow : (table.map (·.tokenAddress)).Nodup
  range : ∀ row ∈ table, ∃ score, row.popularityScore = some score ∧ 0 ≤ score ∧ score ≤ 1
  mono : ∀ a ∈ table, ∀ b ∈ table, b.txCount ≤ a.txCount → b.uniqueAddresses ≤ a.uniqueAddresses →
    (∃ score score', b.popularityScore = some score ∧ a.popularityScore = some score' ∧
      score ≤ score') ∧ a.rankPopularity ≤ b.rankPopularity
  rank : ∀ row ∈ table, ∀ score, row.popularityScore = some score →
    row.rankPopularity = 1 + table.countP fun other => other.popularityScore.any (score < ·)

theorem ranked_of_amounts (hamounts : ∀ row ∈ rows, row.amount ≠ none) (hmeta : OneMetadata rows) :
    Ranked rows (buildTokenPopularityDaily rows date estimate spark) := by
  obtain ⟨score, hscore, hmono⟩ := exists_score hamounts date estimate spark
  refine ⟨fun a => ⟨?_, ?_⟩, nodup_tokenAddress hmeta, fun row hrow => ?_, fun a ha b hb htx haddr => ?_,
    fun row hrow s hs => ?_⟩
  · rintro ⟨g, hg, rfl⟩
    exact exists_flow_of_row hg
  · rintro ⟨row, hrow, rfl⟩
    exact exists_row_of_flow date estimate spark hrow
  · obtain ⟨g, hg, rfl⟩ := List.mem_map.mp hrow
    exact ⟨_, hscore g hg⟩
  · obtain ⟨g, hg, rfl⟩ := List.mem_map.mp ha
    obtain ⟨g', hg', rfl⟩ := List.mem_map.mp hb
    have hle : score g'.txCount g'.uniqueAddresses ≤ score g.txCount g.uniqueAddresses :=
      hmono _ _ _ _ htx haddr
    refine ⟨⟨_, _, (hscore g' hg').1, (hscore g hg).1, hle⟩, ?_⟩
    show rankPopularity (dailyBase spark estimate (onDate date rows)) g ≤
      rankPopularity (dailyBase spark estimate (onDate date rows)) g'
    unfold rankPopularity
    refine Ranking.rank_le_rank ?_ fun other hother h => ?_
    · rw [dt_of_mem_dailyBase hg, dt_of_mem_dailyBase hg']
    · -- what beats the higher score beats the lower one
      rw [(hscore g hg).1, (hscore other hother).1, less_some] at h
      rw [(hscore g' hg').1, (hscore other hother).1, less_some]
      have hlt : score g.txCount g.uniqueAddresses < score other.txCount other.uniqueAddresses :=
        of_decide_eq_true h
      exact decide_eq_true (hle.trans_lt hlt)
  · obtain ⟨g, hg, rfl⟩ := List.mem_map.mp hrow
    have hs : popularityScore (dailyBase spark estimate (onDate date rows)) g = some s := hs
    show rankPopularity (dailyBase spark estimate (onDate date rows)) g = _
    unfold buildTokenPopularityDaily
    rw [rankPopularity_of_mem hg, List.countP_map, hs]
    simp only [less_some]
    rfl

/-! ### Independence of the amounts -/

/-- A row without its amount. -/
def TokenFlow.withoutAmount (row : TokenFlow) : TokenFlow := { row with amount := none }

/-- What the score and the rank of a group are computed from. -/
def DailyBase.counts (g : DailyBase) : TokenKey × ℕ × ℕ := (g.key, g.txCount, g.uniqueAddresses)

/-- What a row says of its token's rank. -/
def PopularityRow.ranking (row : PopularityRow) : TokenKey × Option ℚ × ℕ :=
  (⟨row.dt, row.tokenAddress, row.symbol, row.tokenName⟩, row.popularityScore, row.rankPopularity)

/-- Score and rank from the counts of all groups. -/
def rankingOf (cs : List (TokenKey × ℕ × ℕ)) (c : TokenKey × ℕ × ℕ) : TokenKey × Option ℚ × ℕ :=
  let score := fun c : TokenKey × ℕ × ℕ => countScore (cs.map (·.2.1)) (cs.map (·.2.2)) c.2.1 c.2.2
  (c.1, score c, 1 + cs.countP fun other => less (score c) (score other))

theorem counts_dailyBase :
    (dailyBase spark estimate (onDate date rows)).map DailyBase.counts =
      Grouping.groupBy (fun row : TokenFlow => TokenFlow.key { row with dt := some date })
        (fun key rows => (key, rows.countP (·.transactionHash.isSome),
          estimate key (rows.map path))) (rows.map TokenFlow.withoutAmount) := by
  rw [dailyBase, onDate, Grouping.groupBy_map, Grouping.groupBy_map]
  unfold Grouping.groupBy
  rw [List.map_map]
  refine List.map_congr_left fun k _ => ?_
  simp only [Function.comp_apply, DailyBase.counts, List.countP_map, List.map_map]
  rfl

/-- **The ranking of a day** comes from the counts of its groups. -/
theorem map_ranking (hamounts : ∀ row ∈ rows, row.amount ≠ none) :
    (buildTokenPopularityDaily rows date estimate spark).map PopularityRow.ranking =
      ((dailyBase spark estimate (onDate date rows)).map DailyBase.counts).map
        (rankingOf ((dailyBase spark estimate (onDate date rows)).map DailyBase.counts)) := by
  unfold buildTokenPopularityDaily
  rw [List.map_map, List.map_map]
  refine List.map_congr_left fun g hg => ?_
  have hscores : ∀ g' ∈ dailyBase spark estimate (onDate date rows),
      countScore (((dailyBase spark estimate (onDate date rows)).map DailyBase.counts).map (·.2.1))
        (((dailyBase spark estimate (onDate date rows)).map DailyBase.counts).map (·.2.2)) g'.txCount
        g'.uniqueAddresses = popularityScore (dailyBase spark estimate (onDate date rows)) g' := by
    intro g' hg'
    rw [popularityScore_of_mem hamounts hg', List.map_map, List.map_map]
    rfl
  refine Prod.ext rfl (Prod.ext (hscores g hg).symm ?_)
  show rankPopularity (dailyBase spark estimate (onDate date rows)) g = 1 + List.countP _ _
  rw [rankPopularity_of_mem hg, List.countP_map]
  refine congrArg (1 + ·) (List.countP_congr fun other hother => ?_)
  show less _ _ = true ↔ less (countScore _ _ g.txCount g.uniqueAddresses)
    (countScore _ _ other.txCount other.uniqueAddresses) = true
  rw [hscores g hg, hscores other hother]

/-- **The popularity of the tokens of a day**: every token has one row, scores lie between
zero and one and grow with both counts, ranks count the greater scores, and amounts do not
matter. -/
theorem popularity_ranked (hamounts : ∀ row ∈ rows, row.amount ≠ none) (hmeta : OneMetadata rows)
    (date : ℤ) (estimate : TokenKey → List String → ℕ) (spark : Summation) :
    Ranked rows (buildTokenPopularityDaily rows date estimate spark) ∧
      ∀ rows', rows'.map TokenFlow.withoutAmount = rows.map TokenFlow.withoutAmount →
        (∀ row ∈ rows', row.amount ≠ none) →
        (buildTokenPopularityDaily rows' date estimate spark).map PopularityRow.ranking =
          (buildTokenPopularityDaily rows date estimate spark).map PopularityRow.ranking := by
  refine ⟨ranked_of_amounts hamounts hmeta, fun rows' hsame hamounts' => ?_⟩
  rw [map_ranking hamounts, map_ranking hamounts', counts_dailyBase, counts_dailyBase, hsame]

end table

/-- A transfer of a token between two addresses. -/
def tokenTransfer (symbol sender receiver : String) (amount : ℚ) : TokenFlow where
  transactionHash := some "0x1"
  blockTimestamp := some 1780531200
  hour := some 0
  dt := some 20608
  tokenAddress := some symbol
  symbol := some symbol
  tokenName := some symbol
  fromAddress := some sender
  fromCategory := some "Unknown"
  toAddress := some receiver
  toCategory := some "Unknown"
  amount := some amount

/-- Three transfers of two tokens. -/
def twoTokens : List TokenFlow :=
  [tokenTransfer "DAI" "0xa" "0xb" 5, tokenTransfer "USDC" "0xa" "0xb" 1000,
    tokenTransfer "DAI" "0xb" "0xc" 7]

theorem twoTokens_ranked :
    Ranked twoTokens
        (buildTokenPopularityDaily twoTokens 20608 (fun _ paths => paths.dedup.length) .inOrder) ∧
      (buildTokenPopularityDaily (twoTokens.map fun row => { row with amount := some 0 }) 20608
        (fun _ paths => paths.dedup.length) .inOrder).map PopularityRow.ranking =
      (buildTokenPopularityDaily twoTokens 20608
        (fun _ paths => paths.dedup.length) .inOrder).map PopularityRow.ranking :=
  ⟨(popularity_ranked (by decide) (by decide) 20608 (fun _ paths => paths.dedup.length)
      .inOrder).1,
    (popularity_ranked (by decide) (by decide) 20608 (fun _ paths => paths.dedup.length)
      .inOrder).2 _ (by decide) (by decide)⟩

end Gold

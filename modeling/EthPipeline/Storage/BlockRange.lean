import EthPipeline.Base.Timeline
import EthPipeline.Data.Json

/-!
# The block range of a date

`get_block_number_by_date` of `src/storage/utils/block.py` and
`calculate_block_range` of the three extraction DAGs.  Etherscan is a parameter.

* `range_exact_iff_dayOver`: the range is that of its date exactly when the date
  is over.
* `k8s_range_exact`: the DAG that takes the day before its logical date is right
  whenever it runs.
* `own_day_cut_off`: the one that takes the day itself runs ten minutes into it,
  and its range ends there.
-/

namespace Storage

def dayMicros : ℤ := 86400 * 1000000

/-- The text of a date; `strptime` reads back the day that `strftime` wrote. -/
structure DateText where
  day : ℤ
  deriving DecidableEq, Repr

def strftime (t : Timestamp) : DateText := ⟨t / dayMicros⟩

/-- `strptime`, and midnight in UTC. -/
def strptime (date : DateText) : Timestamp := date.day * dayMicros

/-- `int(t.timestamp())`, for an instant after 1970. -/
def unixSeconds (t : Timestamp) : ℤ := t / 1000000

inductive Closest where
  | before
  | after
  deriving DecidableEq, Repr

/-- The parameters of `getblocknobytime` that are not constants. -/
structure Request where
  timestamp : ℤ
  closest : Closest
  apiKey : String
  deriving DecidableEq, Repr

/-- The fields of the answer, as `str` shows them. -/
structure Response where
  status : String
  message : String
  result : String
  deriving DecidableEq, Repr

inductive Error where
  | request
  | valueError (message : String)
  | airflowFail (message : String)
  deriving DecidableEq, Repr

/-- Etherscan; `none` when the call fails. -/
abbrev Etherscan := Request → Option Response

/-- `isdigit` and `int`. -/
def blockNumber? (result : String) : Option ℕ :=
  let digits := result.toList
  if digits ≠ [] ∧ digits.all PyFloat.isDigit then some (PyFloat.natOfDigits digits) else none

/-- A date in the future is looked up at the present, downwards. -/
def blockRequest (now : Timestamp) (date : DateText) (apiKey : String) (closest : Closest) :
    Request :=
  if now < strptime date then ⟨unixSeconds now, .before, apiKey⟩
  else ⟨unixSeconds (strptime date), closest, apiKey⟩

def getBlockNumberByDate (E : Etherscan) (now : Timestamp) (date : DateText) (apiKey : String)
    (closest : Closest) : Except Error ℕ :=
  match E (blockRequest now date apiKey closest) with
  | none => .error .request
  | some data =>
    if data.status ≠ "1" then .error (.valueError ("Etherscan API 오류: " ++ data.result))
    else
      match blockNumber? data.result with
      | some n => .ok n
      | none => .error (.valueError ("Etherscan API 오류: " ++ data.result))

structure BlockRange where
  startBlock : ℤ
  endBlock : ℤ
  dateStr : DateText
  deriving DecidableEq, Repr

/-- `calculate_block_range` for a target date; the two lookups read the clock
one after the other. -/
def calculateBlockRange (E : Etherscan) (apiKey : Option String) (targetDate now₁ now₂ : Timestamp) :
    Except Error BlockRange :=
  match apiKey with
  | none | some "" => .error (.airflowFail "❌ ETHERSCAN_API_KEY 환경변수가 설정되지 않았습니다.")
  | some key => do
    let dateStr := strftime targetDate
    let nextDateStr := strftime (targetDate + dayMicros)
    let startBlock ← getBlockNumberByDate E now₁ dateStr key .after
    let endBlock ← getBlockNumberByDate E now₂ nextDateStr key .after
    return { startBlock, endBlock := endBlock - 1, dateStr }

/-- The extraction DAGs: `eth_etl_dag`, `eth_etl_dag_gke`, `eth_etl_dag_k8s`. -/
inductive Dag where
  | etl
  | gke
  | k8s
  deriving DecidableEq, Repr

/-- The first two take the day of the logical date, the third the day before. -/
def Dag.targetDate (dag : Dag) (logicalDate : Timestamp) : Timestamp :=
  match dag with
  | .etl | .gke => logicalDate
  | .k8s => logicalDate - dayMicros

def Dag.calculateBlockRange (dag : Dag) (E : Etherscan) (apiKey : Option String)
    (logicalDate now₁ now₂ : Timestamp) : Except Error BlockRange :=
  Storage.calculateBlockRange E apiKey (dag.targetDate logicalDate) now₁ now₂

/-! ### The lookups -/

/-- What Etherscan answers about the chain is right. -/
structure Answers (chain : Timeline) (E : Etherscan) : Prop where
  after : ∀ t key data n, E ⟨t, .after, key⟩ = some data → data.status = "1" →
    blockNumber? data.result = some n → chain.IsFirst t n
  before : ∀ t key data n, E ⟨t, .before, key⟩ = some data → data.status = "1" →
    blockNumber? data.result = some n → chain.IsLast t n

variable {chain : Timeline} {E : Etherscan} {now now₁ now₂ : Timestamp} {date : DateText}
  {key : String} {n : ℕ}

theorem getBlockNumberByDate_eq_ok {closest : Closest}
    (h : getBlockNumberByDate E now date key closest = .ok n) :
    ∃ data, E (blockRequest now date key closest) = some data ∧ data.status = "1" ∧
      blockNumber? data.result = some n := by
  unfold getBlockNumberByDate at h
  split at h
  · simp at h
  · next data hdata =>
    split at h
    · simp at h
    · next hstatus =>
      split at h
      · next m hm => exact ⟨data, hdata, not_not.mp hstatus, Except.ok.inj h ▸ hm⟩
      · simp at h

/-- Midnight, in seconds. -/
def midnight (day : ℤ) : ℤ := day * 86400

theorem strptime_eq (day : ℤ) : strptime ⟨day⟩ = midnight day * 1000000 :=
  (Int.mul_assoc day 86400 1000000).symm

theorem strptime_le_iff (day : ℤ) : strptime ⟨day⟩ ≤ now ↔ midnight day ≤ unixSeconds now := by
  rw [strptime_eq, unixSeconds, Int.le_ediv_iff_mul_le (by decide)]

theorem unixSeconds_strptime (day : ℤ) : unixSeconds (strptime ⟨day⟩) = midnight day := by
  rw [strptime_eq, unixSeconds, Int.mul_ediv_cancel _ (by decide)]

/-- A date that has begun is looked up at its midnight, another one at the present. -/
theorem lookup_cases (hE : Answers chain E)
    (h : getBlockNumberByDate E now date key .after = .ok n) :
    midnight date.day ≤ unixSeconds now ∧ chain.IsFirst (midnight date.day) n ∨
      unixSeconds now < midnight date.day ∧ chain.IsLast (unixSeconds now) n := by
  obtain ⟨data, hdata, hstatus, hn⟩ := getBlockNumberByDate_eq_ok h
  unfold blockRequest at hdata
  split at hdata
  · next hfuture =>
    have hlt := not_le.mpr hfuture
    rw [strptime_le_iff, not_le] at hlt
    exact .inr ⟨hlt, hE.before _ _ _ _ hdata hstatus hn⟩
  · next hpast =>
    rw [not_lt, strptime_le_iff] at hpast
    rw [unixSeconds_strptime] at hdata
    exact .inl ⟨hpast, hE.after _ _ _ _ hdata hstatus hn⟩

/-! ### The range -/

/-- The `n`-th block was made on a day. -/
def InDay (chain : Timeline) (day : ℤ) (n : ℕ) : Prop :=
  midnight day ≤ chain.time n ∧ chain.time n < midnight (day + 1)

instance (chain : Timeline) (day : ℤ) (n : ℕ) : Decidable (InDay chain day n) :=
  inferInstanceAs (Decidable (_ ∧ _))

/-- The range has the blocks of its date, and only these. -/
def BlockRange.Exact (chain : Timeline) (r : BlockRange) : Prop :=
  ∀ n : ℕ, (r.startBlock ≤ n ∧ n ≤ r.endBlock) ↔ InDay chain r.dateStr.day n

/-- The day has begun at the first lookup and is over at the second. -/
def DayOver (day : ℤ) (now₁ now₂ : Timestamp) : Prop :=
  midnight day ≤ unixSeconds now₁ ∧ midnight (day + 1) ≤ unixSeconds now₂

instance (day : ℤ) (now₁ now₂ : Timestamp) : Decidable (DayOver day now₁ now₂) :=
  inferInstanceAs (Decidable (_ ∧ _))

/-- A day without blocks that is not over has an empty range, unless blocks came
between two lookups before it. -/
def EmptyDay (chain : Timeline) (day : ℤ) (now₁ now₂ : Timestamp) : Prop :=
  (∀ n, ¬InDay chain day n) ∧ unixSeconds now₂ < midnight (day + 1) ∧
    (unixSeconds now₁ < midnight day →
      ∀ n, ¬(unixSeconds now₁ < chain.time n ∧ chain.time n ≤ unixSeconds now₂))

theorem ediv_add_day (t : ℤ) : (t + dayMicros) / dayMicros = t / dayMicros + 1 := by
  unfold dayMicros
  omega

theorem calculateBlockRange_eq_ok {apiKey : Option String} {targetDate : Timestamp} {r : BlockRange}
    (h : calculateBlockRange E apiKey targetDate now₁ now₂ = .ok r) :
    ∃ key s e, r = ⟨(s : ℕ), (e : ℕ) - 1, strftime targetDate⟩ ∧
      getBlockNumberByDate E now₁ (strftime targetDate) key .after = .ok s ∧
        getBlockNumberByDate E now₂ ⟨(strftime targetDate).day + 1⟩ key .after = .ok e := by
  have hnext : strftime (targetDate + dayMicros) = ⟨(strftime targetDate).day + 1⟩ := by
    exact congrArg DateText.mk (ediv_add_day targetDate)
  unfold calculateBlockRange at h
  split at h
  · simp at h
  · simp at h
  · next key _ =>
    rw [hnext] at h
    cases hs : getBlockNumberByDate E now₁ (strftime targetDate) key .after with
    | error e => simp [hs, bind, Except.bind] at h
    | ok s =>
      cases he : getBlockNumberByDate E now₂ ⟨(strftime targetDate).day + 1⟩ key .after with
      | error e => simp [hs, he, bind, Except.bind] at h
      | ok e =>
        simp only [hs, he, bind, Except.bind, pure, Except.pure] at h
        exact ⟨key, s, e, (Except.ok.inj h).symm, hs, he⟩

/-- The blocks from `s` on and before `e` are those of the day. -/
def Covers (chain : Timeline) (day : ℤ) (s e : ℕ) : Prop :=
  ∀ n, s ≤ n ∧ n < e ↔ InDay chain day n

section Cases

variable {day : ℤ} {s e : ℕ}

theorem covers_of_midnights (hs : chain.IsFirst (midnight day) s)
    (he : chain.IsFirst (midnight (day + 1)) e) : Covers chain day s e := by
  intro n
  rw [hs.le_iff, he.lt_iff]
  rfl

/-- The day is running, and the last block so far is cut off. -/
theorem covers_running_iff (hs : chain.IsFirst (midnight day) s)
    (he : chain.IsLast (unixSeconds now₂) e) (hrunning : unixSeconds now₂ < midnight (day + 1)) :
    Covers chain day s e ↔ ∀ n, ¬InDay chain day n := by
  constructor
  · intro hcovers n hn
    have hne : n < e := ((hcovers n).mpr hn).2
    have hlater : chain.time n < chain.time e := chain.increasing n e hne
    have hin : InDay chain day e := ⟨hn.1.trans hlater.le, lt_of_le_of_lt he.1 hrunning⟩
    exact lt_irrefl e ((hcovers e).mpr hin).2
  · intro hnone n
    refine iff_of_false ?_ (hnone n)
    rintro ⟨hsn, hne⟩
    have hpast : chain.time n ≤ unixSeconds now₂ := he.le_iff.mp hne.le
    exact hnone n ⟨hs.le_iff.mp hsn, lt_of_le_of_lt hpast hrunning⟩

/-- A block found before the day is none of the day's. -/
theorem not_inDay_of_isLast (hs : chain.IsLast (unixSeconds now₁) s)
    (hfuture : unixSeconds now₁ < midnight day) : ¬InDay chain day s := by
  intro hin
  have hlt : chain.time s < midnight day := lt_of_le_of_lt hs.1 hfuture
  exact absurd hin.1 (not_le.mpr hlt)

theorem not_covers_of_early (hs : chain.IsLast (unixSeconds now₁) s)
    (hfuture : unixSeconds now₁ < midnight day) (he : chain.IsFirst (midnight (day + 1)) e) :
    ¬Covers chain day s e := by
  intro hcovers
  have hday : midnight day < midnight (day + 1) := by
    unfold midnight
    omega
  have hse : s < e := he.lt_iff.mpr (lt_of_le_of_lt hs.1 (hfuture.trans hday))
  exact not_inDay_of_isLast hs hfuture ((hcovers s).mp ⟨le_rfl, hse⟩)

/-- Both lookups were at the present: only an empty range can be right. -/
theorem covers_present_iff (hs : chain.IsLast (unixSeconds now₁) s)
    (hfuture : unixSeconds now₁ < midnight day) (he : chain.IsLast (unixSeconds now₂) e) :
    Covers chain day s e ↔ (∀ n, ¬InDay chain day n) ∧
      ∀ n, ¬(unixSeconds now₁ < chain.time n ∧ chain.time n ≤ unixSeconds now₂) := by
  constructor
  · intro hcovers
    have hes : e ≤ s := by
      by_contra hlt
      have hse : s < e := not_le.mp hlt
      exact not_inDay_of_isLast hs hfuture ((hcovers s).mp ⟨le_rfl, hse⟩)
    constructor
    · intro n hn
      have hrange := (hcovers n).mpr hn
      omega
    · rintro n ⟨hafter, hbefore⟩
      have hsn : s < n := hs.lt_iff.mpr hafter
      have hne : n ≤ e := he.le_iff.mpr hbefore
      omega
  · rintro ⟨hnone, hbetween⟩ n
    refine iff_of_false ?_ (hnone n)
    rintro ⟨hsn, hne⟩
    have hse : s < e := by omega
    exact hbetween e ⟨hs.lt_iff.mp hse, he.1⟩

/-- **A range is exact when and only when its day is over**, days without blocks
apart. -/
theorem covers_iff_dayOver
    (hs : midnight day ≤ unixSeconds now₁ ∧ chain.IsFirst (midnight day) s ∨
      unixSeconds now₁ < midnight day ∧ chain.IsLast (unixSeconds now₁) s)
    (he : midnight (day + 1) ≤ unixSeconds now₂ ∧ chain.IsFirst (midnight (day + 1)) e ∨
      unixSeconds now₂ < midnight (day + 1) ∧ chain.IsLast (unixSeconds now₂) e) :
    Covers chain day s e ↔ DayOver day now₁ now₂ ∨ EmptyDay chain day now₁ now₂ := by
  unfold DayOver EmptyDay
  rcases hs with ⟨hbegun, hs⟩ | ⟨hfuture, hs⟩ <;> rcases he with ⟨hover, he⟩ | ⟨hrunning, he⟩
  · exact iff_of_true (covers_of_midnights hs he) (.inl ⟨hbegun, hover⟩)
  · have hnotOver := not_le.mpr hrunning
    have hnotFuture := not_lt.mpr hbegun
    rw [covers_running_iff hs he hrunning]
    tauto
  · have hnotBegun := not_le.mpr hfuture
    have hnotRunning := not_lt.mpr hover
    refine iff_of_false (not_covers_of_early hs hfuture he) ?_
    tauto
  · have hnotBegun := not_le.mpr hfuture
    rw [covers_present_iff hs hfuture he]
    tauto

end Cases

theorem exact_iff_of_eq_ok (hE : Answers chain E) {apiKey : Option String} {targetDate : Timestamp}
    {r : BlockRange} (hr : calculateBlockRange E apiKey targetDate now₁ now₂ = .ok r) :
    r.Exact chain ↔
      DayOver r.dateStr.day now₁ now₂ ∨ EmptyDay chain r.dateStr.day now₁ now₂ := by
  obtain ⟨key, s, e, rfl, hstart, hend⟩ := calculateBlockRange_eq_ok hr
  rw [← covers_iff_dayOver (lookup_cases hE hstart) (lookup_cases hE hend)]
  refine forall_congr' fun n => iff_congr ?_ Iff.rfl
  show ((s : ℤ) ≤ n ∧ (n : ℤ) ≤ (e : ℤ) - 1) ↔ s ≤ n ∧ n < e
  omega

/-- **The range of a date**, for every DAG, every logical date and every time at
which the two lookups run; and the ranges of two days that are over meet. -/
theorem range_exact_iff_dayOver (chain : Timeline) (E : Etherscan) (hE : Answers chain E)
    (dag : Dag) (apiKey : Option String) (logicalDate now₁ now₂ : Timestamp) (r : BlockRange)
    (hr : dag.calculateBlockRange E apiKey logicalDate now₁ now₂ = .ok r) :
    (r.Exact chain ↔
      DayOver r.dateStr.day now₁ now₂ ∨ EmptyDay chain r.dateStr.day now₁ now₂) ∧
      ∀ (logicalDate' now₁' now₂' : Timestamp) (r' : BlockRange),
        dag.calculateBlockRange E apiKey logicalDate' now₁' now₂' = .ok r' →
          r'.dateStr.day = r.dateStr.day + 1 → DayOver r.dateStr.day now₁ now₂ →
            DayOver r'.dateStr.day now₁' now₂' → r'.startBlock = r.endBlock + 1 := by
  constructor
  · exact exact_iff_of_eq_ok hE hr
  · intro logicalDate' now₁' now₂' r' hr' hday hover hover'
    obtain ⟨key, s, e, rfl, -, hend⟩ := calculateBlockRange_eq_ok hr
    obtain ⟨key', s', e', rfl, hstart', -⟩ := calculateBlockRange_eq_ok hr'
    have hs' := lookup_cases hE hstart'
    rw [hday] at hs' hover'
    rcases lookup_cases hE hend with ⟨-, hnext⟩ | ⟨hrunning, -⟩
    · rcases hs' with ⟨-, hfirst⟩ | ⟨hfuture, -⟩
      · have hle : s' ≤ e := hfirst.le_iff.mpr hnext.1
        have hge : e ≤ s' := hnext.le_iff.mpr hfirst.1
        show (s' : ℤ) = (e : ℤ) - 1 + 1
        omega
      · exact absurd hover'.1 (not_le.mpr hfuture)
    · exact absurd hover.2 (not_le.mpr hrunning)

/-! ### The three DAGs -/

/-- The day before the logical date is over when the run starts. -/
theorem dayOver_k8s {logicalDate : ℤ} (h₁ : logicalDate ≤ now₁) (h₂ : logicalDate ≤ now₂) :
    DayOver (strftime (Dag.k8s.targetDate logicalDate)).day now₁ now₂ := by
  have hday : ∀ t : ℤ, midnight ((t - dayMicros) / dayMicros + 1) ≤ t / 1000000 := by
    intro t
    unfold midnight dayMicros
    omega
  have hmono : ∀ t : ℤ, logicalDate ≤ t → logicalDate / 1000000 ≤ t / 1000000 := by
    intro t ht
    omega
  have hbegin : midnight ((logicalDate - dayMicros) / dayMicros) ≤
      midnight ((logicalDate - dayMicros) / dayMicros + 1) := by
    unfold midnight
    omega
  exact ⟨hbegin.trans ((hday logicalDate).trans (hmono now₁ h₁)),
    (hday logicalDate).trans (hmono now₂ h₂)⟩

/-- **The day before is always right.** -/
theorem k8s_range_exact (hE : Answers chain E) {apiKey : Option String} {logicalDate : ℤ}
    {r : BlockRange} (hr : Dag.k8s.calculateBlockRange E apiKey logicalDate now₁ now₂ = .ok r)
    (h₁ : logicalDate ≤ now₁) (h₂ : logicalDate ≤ now₂) : r.Exact chain := by
  rw [exact_iff_of_eq_ok hE hr]
  obtain ⟨key, s, e, rfl, -, -⟩ := calculateBlockRange_eq_ok hr
  exact .inl (dayOver_k8s h₁ h₂)

/-- A block every twelve seconds. -/
def everyTwelve : Timeline where
  time n := 12 * n
  increasing := by
    intro m n h
    show (12 * m : ℤ) < 12 * n
    omega

/-- Etherscan on 2024-10-04 at 00:10, for its midnight, the one before, and the
present. -/
def thatMorning : Etherscan
  | ⟨1727913600, .after, _⟩ => some ⟨"1", "OK", "143992800"⟩
  | ⟨1728000000, .after, _⟩ => some ⟨"1", "OK", "144000000"⟩
  | ⟨1728000600, .before, _⟩ => some ⟨"1", "OK", "144000050"⟩
  | _ => none

theorem isFirst_everyTwelve (n : ℕ) : everyTwelve.IsFirst (12 * n) n := by
  refine ⟨le_rfl, fun m hm => ?_⟩
  have hm : (12 * n : ℤ) ≤ 12 * m := hm
  omega

theorem isLast_everyTwelve (n : ℕ) : everyTwelve.IsLast (12 * n) n := by
  refine ⟨le_rfl, fun m hm => ?_⟩
  have hm : (12 * m : ℤ) ≤ 12 * n := hm
  omega

theorem thatMorning_answers : Answers everyTwelve thatMorning where
  after := by
    intro t key data n hdata _ hn
    unfold thatMorning at hdata
    split at hdata
    · next heq =>
      obtain ⟨rfl, -⟩ := Request.mk.inj heq
      obtain rfl := Option.some.inj hdata
      have hblock : n = 143992800 := Option.some.inj (hn.symm.trans (by decide +kernel))
      exact hblock ▸ isFirst_everyTwelve _
    · next heq =>
      obtain ⟨rfl, -⟩ := Request.mk.inj heq
      obtain rfl := Option.some.inj hdata
      have hblock : n = 144000000 := Option.some.inj (hn.symm.trans (by decide +kernel))
      exact hblock ▸ isFirst_everyTwelve _
    · next heq => simp at heq
    · simp at hdata
  before := by
    intro t key data n hdata _ hn
    unfold thatMorning at hdata
    split at hdata
    · next heq => simp at heq
    · next heq => simp at heq
    · next heq =>
      obtain ⟨rfl, -⟩ := Request.mk.inj heq
      obtain rfl := Option.some.inj hdata
      have hblock : n = 144000050 := Option.some.inj (hn.symm.trans (by decide +kernel))
      exact hblock ▸ isLast_everyTwelve _
    · simp at hdata

/-- 2024-10-04 at 00:10, in microseconds. -/
def tenPastMidnight : Timestamp := 1728000600 * 1000000

/-- The run of `eth_etl_dag_k8s` at that time. -/
theorem k8s_that_morning :
    (⟨143992800, 143999999, ⟨19999⟩⟩ : BlockRange).Exact everyTwelve :=
  (range_exact_iff_dayOver everyTwelve thatMorning thatMorning_answers .k8s (some "key")
    tenPastMidnight tenPastMidnight tenPastMidnight _ (by decide +kernel)).1.mpr
    (.inl (by decide +kernel))

/-- **The run of `eth_etl_dag_gke` at that time**: the date is the one that has
just begun, the range ends with the last block but one, and the rest of the day
is in no range. -/
theorem own_day_cut_off :
    Dag.gke.calculateBlockRange thatMorning (some "key") tenPastMidnight tenPastMidnight
        tenPastMidnight = .ok ⟨144000000, 144000049, ⟨20000⟩⟩ ∧
      ¬(⟨144000000, 144000049, ⟨20000⟩⟩ : BlockRange).Exact everyTwelve := by
  refine ⟨by decide +kernel, fun hexact => ?_⟩
  have hin : InDay everyTwelve 20000 144000050 := by decide +kernel
  have hle := ((hexact 144000050).mpr hin).2
  exact absurd hle (by decide)

end Storage

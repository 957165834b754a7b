import EthPipeline.Silver.WhaleTxns
import EthPipeline.Base.Grouping

/-!
# The whales of a day

`build_top_whales_daily` of `src/gold/transform/top_whales_daily.py`, over what
`read_silver` returns of the table `whale_txns`.

* `mem_buildTopWhalesDaily`: what the row of an address has of the table.
* `exists_row_of_sender`, `exists_row_of_receiver`: every address has a row.
-/

namespace Gold

open Silver

/-- The column `dt` is replaced by the date of the run. -/
def withDate (date : ℤ) (rows : List WhaleRow) : List WhaleRow :=
  rows.map fun row => { row with dt := some date }

/-! ### The totals of an address -/

structure SentTotal where
  address : Option String
  dt : Option ℤ
  totalSentEth : Option ℚ
  txCountAsSender : ℕ
  hfSent : Option ℤ
  deriving DecidableEq, Repr

structure ReceivedTotal where
  address : Option String
  dt : Option ℤ
  totalRecvEth : Option ℚ
  txCountAsReceiver : ℕ
  deriving DecidableEq, Repr

/-- `max(flag_high_freq.cast("int"))`. -/
def maxFlag (rows : List WhaleRow) : Option ℤ :=
  (rows.filterMap fun row => row.flagHighFreq.map fun flag => if flag then 1 else 0).max?

def sent (df : List WhaleRow) : List SentTotal :=
  Grouping.groupBy (fun row => (row.fromAddress, row.dt))
    (fun key rows => ⟨key.1, key.2, sumEth (rows.map (·.valueEth)),
      rows.countP (·.hash.isSome), maxFlag rows⟩) df

def recv (df : List WhaleRow) : List ReceivedTotal :=
  Grouping.groupBy (fun row => (row.toAddress, row.dt))
    (fun key rows => ⟨key.1, key.2, sumEth (rows.map (·.valueEth)),
      rows.countP (·.hash.isSome)⟩) df

/-- `on=["address", "dt"]`. -/
def joinKey (address : Option String) (dt : Option ℤ) : Option (String × ℤ) :=
  address.bind fun a => dt.map fun d => (a, d)

/-- A row of the outer join after both `fillna`. -/
structure Joined where
  address : Option String
  dt : Option ℤ
  totalSentEth : ℚ
  txCountAsSender : ℕ
  hfSent : ℤ
  totalRecvEth : ℚ
  txCountAsReceiver : ℕ
  deriving DecidableEq, Repr

def fillna (row : Option SentTotal × Option ReceivedTotal) : Joined where
  address := (row.1.bind (·.address)).or (row.2.bind (·.address))
  dt := (row.1.bind (·.dt)).or (row.2.bind (·.dt))
  totalSentEth := (row.1.bind (·.totalSentEth)).getD 0
  txCountAsSender := (row.1.map (·.txCountAsSender)).getD 0
  hfSent := (row.1.bind (·.hfSent)).getD 0
  totalRecvEth := (row.2.bind (·.totalRecvEth)).getD 0
  txCountAsReceiver := (row.2.map (·.txCountAsReceiver)).getD 0

def joined (df : List WhaleRow) : List Joined :=
  (Join.outer (fun s : SentTotal => joinKey s.address s.dt)
    (fun r : ReceivedTotal => joinKey r.address r.dt) (sent df) (recv df)).map fillna

/-! ### Labels and ranks -/

/-- The type of the amounts, and of their sums and differences. -/
def ethType : DecimalType := ⟨38, 18⟩

def netFlowEth (row : Joined) : Option ℚ :=
  (Decimal.sub ethType ethType row.totalRecvEth row.totalSentEth).bind
    (Decimal.round (Decimal.addType ethType ethType) 6)

def totalActivityEth (row : Joined) : Option ℚ :=
  (Decimal.add ethType ethType row.totalSentEth row.totalRecvEth).bind
    (Decimal.round (Decimal.addType ethType ethType) 6)

def positionLabel (netFlow : Option ℚ) : String :=
  match netFlow with
  | some q => if 0 < q then "Accumulator" else if q < 0 then "Dumper" else "Neutral"
  | none => "Neutral"

def assignWhaleTier (activity : Option ℚ) : String :=
  match activity with
  | some q => if 1000 ≤ q then "Humpback" else if 500 ≤ q then "Whale"
      else if 100 ≤ q then "Shark" else "Crab"
  | none => "Crab"

/-- How Spark orders a column: nulls are least. -/
def less (a b : Option ℚ) : Bool :=
  match a, b with
  | _, none => false
  | none, some _ => true
  | some a, some b => a < b

theorem less_some (a : ℚ) (b : Option ℚ) : less (some a) b = b.any (a < ·) := by
  cases b with
  | none => rfl
  | some b => rfl

/-- `rank()` over the rows of the date: one more than the rows that come before. -/
def rank (before : Joined → Joined → Bool) (rows : List Joined) (row : Joined) : ℕ :=
  1 + rows.countP fun other => other.dt = row.dt && before other row

/-! ### The entity of an address -/

structure EntityRow where
  address : Option String
  dt : Option ℤ
  entityName : String
  entityCategory : String
  deriving DecidableEq, Repr

structure EntityCount where
  entity : EntityRow
  cnt : ℕ
  deriving DecidableEq, Repr

def combinedEntities (df : List WhaleRow) : List EntityRow :=
  let fromEntities := df.map fun row =>
    (⟨row.fromAddress, row.dt, row.fromEntity, row.fromCategory⟩ : EntityRow)
  let toEntities := df.map fun row =>
    (⟨row.toAddress, row.dt, row.toEntity, row.toCategory⟩ : EntityRow)
  fromEntities.filter (·.address.isSome) ++ toEntities.filter (·.address.isSome)

/-- `when(entity_name == "Unknown", 0).otherwise(1)`. -/
def specific (row : EntityCount) : ℕ := if row.entity.entityName = "Unknown" then 0 else 1

/-- `orderBy(specific.desc(), _cnt.desc())`. -/
def Preferred (a b : EntityCount) : Prop :=
  specific b < specific a ∨ specific a = specific b ∧ b.cnt ≤ a.cnt

instance : DecidableRel Preferred := fun _ _ => inferInstanceAs (Decidable (_ ∨ _ ∧ _))

abbrev EntityOrder := Window.Sorting Preferred

theorem Preferred.trans {a b c : EntityCount} (hab : Preferred a b) (hbc : Preferred b c) :
    Preferred a c := by
  unfold Preferred at *
  omega

theorem Preferred.total (a b : EntityCount) : Preferred a b ∨ Preferred b a := by
  unfold Preferred
  omega

/-- Sorting the counts as they come. -/
def insertionEntityOrder : EntityOrder :=
  Window.Sorting.insertion _ (fun _ _ _ => Preferred.trans) Preferred.total

section build

variable (rows : List WhaleRow) (date : ℤ) (byEntity : EntityOrder)

/-- The first row of each address. -/
def entityMap (df : List WhaleRow) : List EntityRow :=
  let counts := Grouping.groupBy id (fun entity rows => (⟨entity, rows.length⟩ : EntityCount))
    (combinedEntities df)
  ((Window.overParts (fun c : EntityCount => (c.entity.address, c.entity.dt)) List.length
    (byEntity.run counts)).filter fun p => p.2 = 1).map fun p => p.1.entity

structure TopWhaleRow where
  dt : Option ℤ
  address : Option String
  entityName : Option String
  entityCategory : Option String
  whaleTier : String
  positionLabel : String
  netFlowEth : Option ℚ
  totalSentEth : ℚ
  totalRecvEth : ℚ
  totalActivityEth : Option ℚ
  totalTxCount : ℕ
  txCountAsSender : ℕ
  txCountAsReceiver : ℕ
  rankAccumulator : ℕ
  rankDumper : ℕ
  rankActivity : ℕ
  flagHighFreq : Bool
  deriving DecidableEq, Repr

def topWhaleRow (all : List Joined) (row : Joined × Option EntityRow) : TopWhaleRow where
  dt := row.1.dt
  address := row.1.address
  entityName := row.2.map (·.entityName)
  entityCategory := row.2.map (·.entityCategory)
  whaleTier := assignWhaleTier (totalActivityEth row.1)
  positionLabel := positionLabel (netFlowEth row.1)
  netFlowEth := netFlowEth row.1
  totalSentEth := row.1.totalSentEth
  totalRecvEth := row.1.totalRecvEth
  totalActivityEth := totalActivityEth row.1
  totalTxCount := row.1.txCountAsSender + row.1.txCountAsReceiver
  txCountAsSender := row.1.txCountAsSender
  txCountAsReceiver := row.1.txCountAsReceiver
  rankAccumulator := rank (fun a b => less (netFlowEth b) (netFlowEth a)) all row.1
  rankDumper := rank (fun a b => less (netFlowEth a) (netFlowEth b)) all row.1
  rankActivity := rank (fun a b => less (totalActivityEth b) (totalActivityEth a)) all row.1
  flagHighFreq := row.1.hfSent ≠ 0

/-- `build_top_whales_daily`. -/
def buildTopWhalesDaily : List TopWhaleRow :=
  let df := withDate date rows
  let result := joined df
  (Join.left (fun row : Joined => joinKey row.address row.dt)
    (fun entity : EntityRow => joinKey entity.address entity.dt) result
    (entityMap byEntity df)).map (topWhaleRow result)

end build

/-! ### The row of an address -/

section address

variable (rows : List WhaleRow) (date : ℤ) {byEntity : EntityOrder}

/-- What an address has sent, and received. -/
def sentTotal (address : Option String) : SentTotal :=
  let part := rows.filter fun row => row.fromAddress = address
  ⟨address, some date, sumEth (part.map (·.valueEth)), part.countP (·.hash.isSome), maxFlag part⟩

def receivedTotal (address : Option String) : ReceivedTotal :=
  let part := rows.filter fun row => row.toAddress = address
  ⟨address, some date, sumEth (part.map (·.valueEth)), part.countP (·.hash.isSome)⟩

/-- The row of an address, with what it has sent and received. -/
def addressRow (address : Option String) : Joined :=
  fillna (some (sentTotal rows date address), some (receivedTotal rows date address))

variable {rows date}

theorem maxFlag_withDate : maxFlag (withDate date rows) = maxFlag rows := by
  unfold maxFlag withDate
  rw [List.filterMap_map]
  rfl

/-- The greatest flag is not zero exactly when one is set. -/
theorem maxFlag_ne_zero_iff {part : List WhaleRow} :
    (maxFlag part).getD 0 ≠ 0 ↔ ∃ row ∈ part, row.flagHighFreq = some true := by
  have hmem : ∀ n : ℤ, n ∈ (part.filterMap fun row => row.flagHighFreq.map fun flag =>
      if flag then 1 else 0) ↔ ∃ row ∈ part, ∃ flag, row.flagHighFreq = some flag ∧
        (if flag then 1 else 0) = n := by
    intro n
    simp only [List.mem_filterMap, Option.map_eq_some_iff]
  unfold maxFlag
  cases hmax : (part.filterMap fun row => row.flagHighFreq.map fun flag =>
      if flag then (1 : ℤ) else 0).max? with
  | none =>
    have hnil := List.max?_eq_none_iff.mp hmax
    constructor
    · intro h
      exact absurd rfl h
    · rintro ⟨row, hrow, htrue⟩
      have hone := (hmem 1).mpr ⟨row, hrow, true, htrue, rfl⟩
      rw [hnil] at hone
      cases hone
  | some m =>
    obtain ⟨hin, hle⟩ := List.max?_eq_some_iff.mp hmax
    rw [Option.getD_some]
    constructor
    · intro hne
      obtain ⟨row, hrow, flag, hflag, hm⟩ := (hmem m).mp hin
      cases flag with
      | true => exact ⟨row, hrow, hflag⟩
      | false => exact absurd hm.symm hne
    · rintro ⟨row, hrow, htrue⟩
      have := hle 1 ((hmem 1).mpr ⟨row, hrow, true, htrue, rfl⟩)
      omega

theorem mem_sent {s : SentTotal} :
    s ∈ sent (withDate date rows) ↔ ∃ row ∈ rows, s = sentTotal rows date row.fromAddress := by
  have hflag : ∀ part, maxFlag (withDate date part) = maxFlag part := fun _ => maxFlag_withDate
  unfold withDate at hflag
  unfold sent withDate sentTotal
  rw [Grouping.mem_groupBy_map]
  simp only [Prod.mk.injEq, and_true, List.map_map, List.countP_map, hflag]
  rfl

theorem mem_recv {r : ReceivedTotal} :
    r ∈ recv (withDate date rows) ↔ ∃ row ∈ rows, r = receivedTotal rows date row.toAddress := by
  unfold recv withDate receivedTotal
  rw [Grouping.mem_groupBy_map]
  simp only [Prod.mk.injEq, and_true, List.map_map, List.countP_map]
  rfl

theorem joinKey_inj {a b : Option String} {d : ℤ} (h : joinKey a (some d) = joinKey b (some d)) :
    a = b := by
  cases a with
  | none =>
    cases b with
    | none => rfl
    | some b => cases h
  | some a =>
    cases b with
    | none => cases h
    | some b =>
      cases h
      rfl

/-- An address without rows on a side has nothing there. -/
theorem sentTotal_of_none {a : Option String} (h : ∀ row ∈ rows, row.fromAddress ≠ a) :
    sentTotal rows date a = ⟨a, some date, none, 0, none⟩ := by
  have hpart : rows.filter (fun row => decide (row.fromAddress = a)) = [] :=
    List.filter_eq_nil_iff.mpr fun row hrow => by simpa using h row hrow
  unfold sentTotal
  dsimp only
  rw [hpart]
  rfl

theorem receivedTotal_of_none {a : Option String} (h : ∀ row ∈ rows, row.toAddress ≠ a) :
    receivedTotal rows date a = ⟨a, some date, none, 0⟩ := by
  have hpart : rows.filter (fun row => decide (row.toAddress = a)) = [] :=
    List.filter_eq_nil_iff.mpr fun row hrow => by simpa using h row hrow
  unfold receivedTotal
  dsimp only
  rw [hpart]
  rfl

/-- **What the outer join has of an address** is what it has sent and received, where
no sender is null. -/
theorem mem_joined (hnull : ∀ row ∈ rows, row.fromAddress ≠ none) {j : Joined}
    (hj : j ∈ joined (withDate date rows)) : ∃ a, j = addressRow rows date a := by
  unfold joined at hj
  obtain ⟨⟨x, y⟩, hmem, rfl⟩ := List.mem_map.mp hj
  rcases Join.mem_outer.mp hmem with ⟨s, hs, rfl, hright⟩ | ⟨r, hr, hnone, rfl, rfl⟩
  · obtain ⟨row, hrow, rfl⟩ := mem_sent.mp hs
    refine ⟨row.fromAddress, ?_⟩
    rcases hright with ⟨r, hr, rfl⟩ | ⟨hnone, rfl⟩
    · obtain ⟨hr, hkey, -⟩ := Join.mem_found.mp hr
      obtain ⟨row', -, rfl⟩ := mem_recv.mp hr
      have haddress : row.fromAddress = row'.toAddress := joinKey_inj hkey
      rw [addressRow, haddress]
    · -- nobody has sent to this address
      have hreceived : ∀ row' ∈ rows, row'.toAddress ≠ row.fromAddress := by
        intro row' hrow' heq
        have hfound : receivedTotal rows date row'.toAddress ∈ Join.found
            (fun s : SentTotal => joinKey s.address s.dt)
            (fun r : ReceivedTotal => joinKey r.address r.dt) (recv (withDate date rows))
            (sentTotal rows date row.fromAddress) := by
          refine Join.mem_found.mpr ⟨mem_recv.mpr ⟨row', hrow', rfl⟩, ?_, ?_⟩
          · rw [heq]
            rfl
          · obtain ⟨a, ha⟩ := Option.ne_none_iff_exists'.mp (hnull row hrow)
            simp [sentTotal, joinKey, ha]
        rw [hnone] at hfound
        cases hfound
      rw [addressRow, receivedTotal_of_none hreceived]
      simp [fillna, sentTotal]
  · obtain ⟨row, hrow, rfl⟩ := mem_recv.mp hr
    refine ⟨row.toAddress, ?_⟩
    -- this address has sent nothing
    have hsent : ∀ row' ∈ rows, row'.fromAddress ≠ row.toAddress := by
      intro row' hrow' heq
      have hfound : sentTotal rows date row'.fromAddress ∈ Join.found
          (fun r : ReceivedTotal => joinKey r.address r.dt)
          (fun s : SentTotal => joinKey s.address s.dt) (sent (withDate date rows))
          (receivedTotal rows date row.toAddress) := by
        refine Join.mem_found.mpr ⟨mem_sent.mpr ⟨row', hrow', rfl⟩, ?_, ?_⟩
        · rw [heq]
          rfl
        · obtain ⟨a, ha⟩ := Option.ne_none_iff_exists'.mp (hnull row' hrow')
          simp [receivedTotal, joinKey, ← heq, ha]
      rw [hnone] at hfound
      cases hfound
    rw [addressRow, sentTotal_of_none hsent]
    simp [fillna, receivedTotal]

@[simp] theorem address_addressRow (a : Option String) : (addressRow rows date a).address = a := by
  simp [addressRow, fillna, sentTotal, receivedTotal]

/-- **The row of an address** has what the address has sent and received. -/
theorem mem_buildTopWhalesDaily (hnull : ∀ row ∈ rows, row.fromAddress ≠ none) {g : TopWhaleRow}
    (hg : g ∈ buildTopWhalesDaily rows date byEntity) :
    ∃ all entity, g = topWhaleRow all (addressRow rows date g.address, entity) := by
  unfold buildTopWhalesDaily at hg
  obtain ⟨⟨j, entity⟩, hmem, rfl⟩ := List.mem_map.mp hg
  obtain ⟨a, rfl⟩ := mem_joined hnull (Join.mem_left.mp hmem).1
  have ha : (topWhaleRow (joined (withDate date rows)) (addressRow rows date a, entity)).address = a :=
    address_addressRow a
  exact ⟨_, entity, by rw [ha]⟩

theorem exists_row_of_joined (byEntity : EntityOrder) {j : Joined}
    (hj : j ∈ joined (withDate date rows)) :
    ∃ g ∈ buildTopWhalesDaily rows date byEntity, g.address = j.address := by
  obtain ⟨entity, hmem⟩ : ∃ entity, (j, entity) ∈ Join.left
      (fun row : Joined => joinKey row.address row.dt)
      (fun entity : EntityRow => joinKey entity.address entity.dt)
      (joined (withDate date rows)) (entityMap byEntity (withDate date rows)) :=
    Join.exists_mem_left hj
  exact ⟨_, List.mem_map_of_mem hmem, rfl⟩

/-- Every sender has a row, and every receiver. -/
theorem exists_row_of_sender (hnull : ∀ row ∈ rows, row.fromAddress ≠ none) {row : WhaleRow}
    (hrow : row ∈ rows) :
    ∃ g ∈ buildTopWhalesDaily rows date byEntity, g.address = row.fromAddress := by
  have hs : sentTotal rows date row.fromAddress ∈ sent (withDate date rows) :=
    mem_sent.mpr ⟨row, hrow, rfl⟩
  obtain ⟨y, hmem⟩ : ∃ y, (some (sentTotal rows date row.fromAddress), y) ∈ Join.outer
      (fun s : SentTotal => joinKey s.address s.dt) (fun r : ReceivedTotal => joinKey r.address r.dt)
      (sent (withDate date rows)) (recv (withDate date rows)) := Join.exists_mem_outer_left hs
  obtain ⟨g, hg, haddress⟩ := exists_row_of_joined byEntity (List.mem_map_of_mem hmem)
  obtain ⟨a, ha⟩ := Option.ne_none_iff_exists'.mp (hnull row hrow)
  refine ⟨g, hg, haddress.trans ?_⟩
  simp [fillna, sentTotal, ha]

theorem exists_row_of_receiver {row : WhaleRow} (hrow : row ∈ rows) :
    ∃ g ∈ buildTopWhalesDaily rows date byEntity, g.address = row.toAddress := by
  have hr : receivedTotal rows date row.toAddress ∈ recv (withDate date rows) :=
    mem_recv.mpr ⟨row, hrow, rfl⟩
  obtain ⟨x, hmem⟩ : ∃ x, (x, some (receivedTotal rows date row.toAddress)) ∈ Join.outer
      (fun s : SentTotal => joinKey s.address s.dt) (fun r : ReceivedTotal => joinKey r.address r.dt)
      (sent (withDate date rows)) (recv (withDate date rows)) := Join.exists_mem_outer_right hr
  obtain ⟨g, hg, haddress⟩ := exists_row_of_joined byEntity (List.mem_map_of_mem hmem)
  refine ⟨g, hg, haddress.trans ?_⟩
  rcases Join.mem_outer.mp hmem with ⟨s, hs, rfl, ⟨b, hb, hsome⟩ | ⟨-, hnone⟩⟩ | ⟨r, -, -, rfl, hsome⟩
  · cases hsome
    obtain ⟨row', -, rfl⟩ := mem_sent.mp hs
    have hkey : row'.fromAddress = row.toAddress := joinKey_inj (Join.mem_found.mp hb).2.1
    simp [fillna, sentTotal, receivedTotal, hkey]
  · cases hnone
  · simp [fillna, receivedTotal]

/-! ### The columns of the totals -/

variable {g : TopWhaleRow}

theorem txCountAsSender_of_mem (hnull : ∀ row ∈ rows, row.fromAddress ≠ none)
    (hg : g ∈ buildTopWhalesDaily rows date byEntity) :
    g.txCountAsSender =
      (rows.filter fun row => row.fromAddress = g.address).countP (·.hash.isSome) := by
  obtain ⟨all, entity, heq⟩ := mem_buildTopWhalesDaily hnull hg
  exact congrArg TopWhaleRow.txCountAsSender heq

theorem txCountAsReceiver_of_mem (hnull : ∀ row ∈ rows, row.fromAddress ≠ none)
    (hg : g ∈ buildTopWhalesDaily rows date byEntity) :
    g.txCountAsReceiver =
      (rows.filter fun row => row.toAddress = g.address).countP (·.hash.isSome) := by
  obtain ⟨all, entity, heq⟩ := mem_buildTopWhalesDaily hnull hg
  exact congrArg TopWhaleRow.txCountAsReceiver heq

theorem totalSentEth_of_mem (hnull : ∀ row ∈ rows, row.fromAddress ≠ none)
    (hg : g ∈ buildTopWhalesDaily rows date byEntity) :
    g.totalSentEth = (sumEth ((rows.filter fun row => row.fromAddress = g.address).map
      (·.valueEth))).getD 0 := by
  obtain ⟨all, entity, heq⟩ := mem_buildTopWhalesDaily hnull hg
  exact congrArg TopWhaleRow.totalSentEth heq

theorem totalRecvEth_of_mem (hnull : ∀ row ∈ rows, row.fromAddress ≠ none)
    (hg : g ∈ buildTopWhalesDaily rows date byEntity) :
    g.totalRecvEth = (sumEth ((rows.filter fun row => row.toAddress = g.address).map
      (·.valueEth))).getD 0 := by
  obtain ⟨all, entity, heq⟩ := mem_buildTopWhalesDaily hnull hg
  exact congrArg TopWhaleRow.totalRecvEth heq

theorem flagHighFreq_iff (hnull : ∀ row ∈ rows, row.fromAddress ≠ none)
    (hg : g ∈ buildTopWhalesDaily rows date byEntity) :
    g.flagHighFreq = true ↔
      ∃ row ∈ rows, row.fromAddress = g.address ∧ row.flagHighFreq = some true := by
  obtain ⟨all, entity, heq⟩ := mem_buildTopWhalesDaily hnull hg
  have hflag : g.flagHighFreq = decide
      ((maxFlag (rows.filter fun row => row.fromAddress = g.address)).getD 0 ≠ 0) :=
    congrArg TopWhaleRow.flagHighFreq heq
  rw [hflag, decide_eq_true_iff, maxFlag_ne_zero_iff]
  simp only [List.mem_filter, decide_eq_true_eq, and_assoc]

end address

end Gold

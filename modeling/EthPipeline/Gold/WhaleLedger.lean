import EthPipeline.Gold.TotalsAgree

/-!
# The ledger of a day

What the rows of `top_whales_daily` say together of the rows of `whale_txns`.

* `nodup_address`: an address has one row.
* `totalActivityEth_of_room`: the activity of an address is never null.
* `ledger_conserved`: no amount and no transaction is lost or counted twice.
* `WhaleDay.of_silver`: what the Silver job writes is such a day.
-/

namespace Gold

open Silver

/-- A day of `whale_txns` with senders and hashes: amounts are of the type of their
column, and what an address sends, or receives, has room in it. -/
structure WhaleDay (rows : List WhaleRow) : Prop where
  senders : ∀ row ∈ rows, row.fromAddress ≠ none
  hashes : ∀ row ∈ rows, row.hash ≠ none
  values : ∀ row ∈ rows, ∀ q, row.valueEth = some q → Decimal.Fits ethType q
  sent : ∀ a, |totalEth ((rows.filter fun row => row.fromAddress = a).map (·.valueEth))| < 10 ^ 20
  received : ∀ a,
    |totalEth ((rows.filter fun row => row.toAddress = a).map (·.valueEth))| < 10 ^ 20

/-- The rows of Gold are a ledger of the rows of Silver. -/
structure Ledger (rows : List WhaleRow) (top : List TopWhaleRow) : Prop where
  oneRow : (top.map (·.address)).Nodup
  addresses : ∀ a, (∃ g ∈ top, g.address = a) ↔
    ∃ row ∈ rows, row.fromAddress = a ∨ row.toAddress = a
  sentEth : (top.map (·.totalSentEth)).sum = totalEth (rows.map (·.valueEth))
  recvEth : (top.map (·.totalRecvEth)).sum = totalEth (rows.map (·.valueEth))
  sentTxs : (top.map (·.txCountAsSender)).sum = rows.length
  recvTxs : (top.map (·.txCountAsReceiver)).sum = rows.length
  rankActivity : ∀ g ∈ top, ∃ activity, g.totalActivityEth = some activity ∧
    g.rankActivity = 1 + top.countP fun other => other.totalActivityEth.any (activity < ·)

variable {rows : List WhaleRow} {date : ℤ} {byEntity : EntityOrder}

/-! ### One row for an address -/

section address

theorem dt_withDate {row : WhaleRow} (h : row ∈ withDate date rows) : row.dt = some date := by
  obtain ⟨row, -, rfl⟩ := List.mem_map.mp h
  rfl

/-- Keys of one date are as different as their addresses. -/
theorem nodup_joinKey {α : Type} {as : List α} {address : α → Option String} {dt : α → Option ℤ}
    (hdt : ∀ a ∈ as, dt a = some date) (h : (as.map address).Nodup) :
    (as.map fun a => joinKey (address a) (dt a)).Nodup := by
  have hkeys : (as.map fun a => joinKey (address a) (dt a)) =
      (as.map address).map fun address => joinKey address (some date) := by
    rw [List.map_map]
    exact List.map_congr_left fun a ha => by rw [hdt a ha]; rfl
  rw [hkeys]
  exact h.map fun _ _ => joinKey_inj

theorem nodup_sent : ((sent (withDate date rows)).map (·.address)).Nodup := by
  refine Grouping.nodup_groupBy (f := Prod.fst) (fun _ _ => rfl) fun a ha c hc heq => ?_
  exact Prod.ext heq ((dt_withDate ha).trans (dt_withDate hc).symm)

theorem nodup_recv : ((recv (withDate date rows)).map (·.address)).Nodup := by
  refine Grouping.nodup_groupBy (f := Prod.fst) (fun _ _ => rfl) fun a ha c hc heq => ?_
  exact Prod.ext heq ((dt_withDate ha).trans (dt_withDate hc).symm)

theorem nodup_joined (hnull : ∀ row ∈ rows, row.fromAddress ≠ none) :
    ((joined (withDate date rows)).map (·.address)).Nodup := by
  have hsent : ∀ s ∈ sent (withDate date rows), s.address ≠ none ∧ s.dt = some date := by
    intro s hs
    obtain ⟨row, hrow, rfl⟩ := mem_sent.mp hs
    exact ⟨hnull row hrow, rfl⟩
  have hrecv : ∀ r ∈ recv (withDate date rows), r.dt = some date := by
    intro r hr
    obtain ⟨row, -, rfl⟩ := mem_recv.mp hr
    rfl
  unfold joined
  rw [List.map_map]
  refine Join.nodup_outer (f := SentTotal.address) (g := ReceivedTotal.address) ?_ ?_ ?_ nodup_sent
    nodup_recv ?_
  · intro s hs y
    obtain ⟨a, ha⟩ := Option.ne_none_iff_exists'.mp (hsent s hs).1
    simp [fillna, ha]
  · intro r
    simp [fillna]
  · intro s _
    exact Join.length_found_le_one (nodup_joinKey hrecv nodup_recv) s
  · intro s hs r hr heq
    obtain ⟨hsome, hdt⟩ := hsent s hs
    obtain ⟨a, ha⟩ := Option.ne_none_iff_exists'.mp hsome
    refine List.ne_nil_of_mem (Join.mem_found.mpr ⟨hs, ?_, ?_⟩)
    · rw [← heq, hdt, hrecv r hr]
    · rw [← heq, hrecv r hr, ha]
      exact Option.some_ne_none _

theorem mem_combinedEntities {entity : EntityRow}
    (h : entity ∈ combinedEntities (withDate date rows)) : entity.dt = some date := by
  unfold combinedEntities at h
  rcases List.mem_append.mp h with h | h
  · obtain ⟨row, hrow, rfl⟩ := List.mem_map.mp (List.mem_filter.mp h).1
    exact dt_withDate hrow
  · obtain ⟨row, hrow, rfl⟩ := List.mem_map.mp (List.mem_filter.mp h).1
    exact dt_withDate hrow

theorem mem_entityMap {entity : EntityRow} (h : entity ∈ entityMap byEntity (withDate date rows)) :
    entity.dt = some date := by
  obtain ⟨p, hp, rfl⟩ := List.mem_map.mp h
  have hrun := List.mem_map_of_mem (f := fun p => id p.1) (List.mem_filter.mp hp).1
  rw [Window.map_overParts id, List.map_id] at hrun
  obtain ⟨entity, hentity, hcount⟩ := Grouping.mem_groupBy.mp ((byEntity.perm _).mem_iff.mp hrun)
  have hfirst : p.1.entity = entity := congrArg EntityCount.entity hcount
  rw [hfirst]
  exact mem_combinedEntities hentity

/-- An address has one entity. -/
theorem nodup_entityMap : ((entityMap byEntity (withDate date rows)).map (·.address)).Nodup := by
  have hparts : ((entityMap byEntity (withDate date rows)).map fun e => (e.address, e.dt)).Nodup := by
    unfold entityMap
    rw [List.map_map]
    exact Window.nodup_first (fun c : EntityCount => (c.entity.address, c.entity.dt)) _
  have hdate : (entityMap byEntity (withDate date rows)).map (fun e => (e.address, e.dt)) =
      ((entityMap byEntity (withDate date rows)).map (·.address)).map fun a => (a, some date) := by
    rw [List.map_map]
    exact List.map_congr_left fun e he => by rw [mem_entityMap he]; rfl
  rw [hdate] at hparts
  exact hparts.of_map _

/-- **A column of the result** that comes from the outer join alone. -/
theorem map_buildTopWhalesDaily {γ : Type} {column : TopWhaleRow → γ} {f : Joined → γ}
    (h : ∀ all j entity, column (topWhaleRow all (j, entity)) = f j) :
    (buildTopWhalesDaily rows date byEntity).map column = (joined (withDate date rows)).map f := by
  have hone : ∀ j ∈ joined (withDate date rows),
      (Join.found (fun row : Joined => joinKey row.address row.dt)
        (fun entity : EntityRow => joinKey entity.address entity.dt)
        (entityMap byEntity (withDate date rows)) j).length ≤ 1 :=
    fun j _ => Join.length_found_le_one (nodup_joinKey (fun _ => mem_entityMap) nodup_entityMap) j
  unfold buildTopWhalesDaily
  rw [List.map_map, ← Join.map_left f hone]
  exact List.map_congr_left fun p _ => h _ p.1 p.2

/-- **An address has one row.** -/
theorem nodup_address (hnull : ∀ row ∈ rows, row.fromAddress ≠ none) :
    ((buildTopWhalesDaily rows date byEntity).map (·.address)).Nodup := by
  rw [map_buildTopWhalesDaily (f := Joined.address) fun _ _ _ => rfl]
  exact nodup_joined hnull

/-- The addresses of the result are those of the senders and the receivers. -/
theorem exists_address_iff (hnull : ∀ row ∈ rows, row.fromAddress ≠ none) {a : Option String} :
    (∃ g ∈ buildTopWhalesDaily rows date byEntity, g.address = a) ↔
      ∃ row ∈ rows, row.fromAddress = a ∨ row.toAddress = a := by
  constructor
  · rintro ⟨g, hg, rfl⟩
    have hmem := List.mem_map_of_mem (f := TopWhaleRow.address) hg
    rw [map_buildTopWhalesDaily (f := Joined.address) fun _ _ _ => rfl] at hmem
    obtain ⟨j, hj, hja⟩ := List.mem_map.mp hmem
    obtain ⟨⟨x, y⟩, hxy, rfl⟩ := List.mem_map.mp hj
    rw [← hja]
    rcases Join.mem_outer.mp hxy with ⟨s, hs, rfl, -⟩ | ⟨r, hr, -, rfl, rfl⟩
    · obtain ⟨row, hrow, rfl⟩ := mem_sent.mp hs
      obtain ⟨b, hb⟩ := Option.ne_none_iff_exists'.mp (hnull row hrow)
      exact ⟨row, hrow, .inl (by simp [fillna, sentTotal, hb])⟩
    · obtain ⟨row, hrow, rfl⟩ := mem_recv.mp hr
      exact ⟨row, hrow, .inr (by simp [fillna, receivedTotal])⟩
  · rintro ⟨row, hrow, rfl | rfl⟩
    · exact exists_row_of_sender hnull hrow
    · exact exists_row_of_receiver hrow

end address

/-! ### Amounts, transactions and ranks -/

section ledger

theorem totalEth_map (f : WhaleRow → Option ℚ) :
    totalEth (rows.map f) = (rows.map fun row => (f row).getD 0).sum := by
  unfold totalEth
  induction rows with
  | nil => rfl
  | cons row rows ih =>
    rw [List.map_cons, List.map_cons, List.sum_cons, ← ih]
    cases f row with
    | none => simp
    | some q => simp

/-- The sum of some rows of the day. -/
theorem WhaleDay.sumEth_getD (h : WhaleDay rows) (p : WhaleRow → Bool)
    (hroom : |totalEth ((rows.filter p).map (·.valueEth))| < 10 ^ 20) :
    (sumEth ((rows.filter p).map (·.valueEth))).getD 0 =
      totalEth ((rows.filter p).map (·.valueEth)) := by
  refine Silver.sumEth_getD (fun q hq => ?_) hroom
  obtain ⟨row, hrow, heq⟩ := List.mem_map.mp hq
  exact h.values row (List.mem_filter.mp hrow).1 q heq

variable {g : TopWhaleRow}

theorem WhaleDay.totalSentEth (h : WhaleDay rows)
    (hg : g ∈ buildTopWhalesDaily rows date byEntity) :
    g.totalSentEth =
      totalEth ((rows.filter fun row => row.fromAddress = g.address).map (·.valueEth)) := by
  rw [totalSentEth_of_mem h.senders hg]
  exact h.sumEth_getD _ (h.sent _)

theorem WhaleDay.totalRecvEth (h : WhaleDay rows)
    (hg : g ∈ buildTopWhalesDaily rows date byEntity) :
    g.totalRecvEth =
      totalEth ((rows.filter fun row => row.toAddress = g.address).map (·.valueEth)) := by
  rw [totalRecvEth_of_mem h.senders hg]
  exact h.sumEth_getD _ (h.received _)

/-- Every row is counted. -/
theorem WhaleDay.countP_hash (h : WhaleDay rows) (p : WhaleRow → Bool) :
    (rows.filter p).countP (·.hash.isSome) = (rows.filter p).length := by
  rw [List.countP_eq_length]
  intro row hrow
  exact Option.isSome_iff_ne_none.mpr (h.hashes row (List.mem_filter.mp hrow).1)

/-- The activity of an address is never null. -/
theorem totalActivityEth_of_room {j : Joined} (hsent : |j.totalSentEth| < 10 ^ 20)
    (hrecv : |j.totalRecvEth| < 10 ^ 20) : ∃ activity, totalActivityEth j = some activity := by
  have hsum : |j.totalSentEth + j.totalRecvEth| ≤ (2 * 10 ^ 20 : ℕ) := by
    have := abs_add_le j.totalSentEth j.totalRecvEth
    push_cast
    linarith
  have hadd := Decimal.cast_of_abs_le (t := Decimal.addType ethType ethType) hsum (by decide)
  have hround := Decimal.cast_of_abs_le (t := Decimal.roundType (Decimal.addType ethType ethType) 6)
    (Decimal.abs_roundHalfUp_le (s := (Decimal.addType ethType ethType).scale) hsum) (by decide)
  rw [totalActivityEth, Decimal.add, hadd, Option.bind_some]
  exact ⟨_, hround⟩

theorem WhaleDay.totalActivityEth (h : WhaleDay rows) {j : Joined}
    (hj : j ∈ joined (withDate date rows)) : ∃ activity, totalActivityEth j = some activity := by
  obtain ⟨a, rfl⟩ := mem_joined h.senders hj
  have hpart : ∀ p : WhaleRow → Bool, |totalEth ((rows.filter p).map (·.valueEth))| < 10 ^ 20 →
      |(sumEth ((rows.filter p).map (·.valueEth))).getD 0| < 10 ^ 20 := by
    intro p hroom
    rwa [h.sumEth_getD p hroom]
  exact totalActivityEth_of_room (hpart _ (h.sent a)) (hpart _ (h.received a))

/-- A rank counts the rows with more activity. -/
theorem WhaleDay.rankActivity (h : WhaleDay rows)
    (hg : g ∈ buildTopWhalesDaily rows date byEntity) :
    ∃ activity, g.totalActivityEth = some activity ∧
      g.rankActivity = 1 + (buildTopWhalesDaily rows date byEntity).countP
        fun other => other.totalActivityEth.any (activity < ·) := by
  have hcolumn : (buildTopWhalesDaily rows date byEntity).map TopWhaleRow.totalActivityEth =
      (joined (withDate date rows)).map Gold.totalActivityEth :=
    map_buildTopWhalesDaily fun _ _ _ => rfl
  unfold buildTopWhalesDaily at hg
  obtain ⟨⟨j, entity⟩, hmem, rfl⟩ := List.mem_map.mp hg
  have hj : j ∈ joined (withDate date rows) := (Join.mem_left.mp hmem).1
  obtain ⟨activity, hactivity⟩ := h.totalActivityEth hj
  have hdate : ∀ j' ∈ joined (withDate date rows), j'.dt = some date := by
    intro j' hj'
    obtain ⟨a, rfl⟩ := mem_joined h.senders hj'
    rfl
  refine ⟨activity, hactivity, ?_⟩
  have hcount : ∀ rows' : List TopWhaleRow,
      rows'.countP (fun other => other.totalActivityEth.any (activity < ·)) =
        (rows'.map (·.totalActivityEth)).countP fun other => other.any (activity < ·) := by
    intro rows'
    rw [List.countP_map]
    rfl
  rw [hcount, hcolumn, List.countP_map]
  refine congrArg (1 + ·) (List.countP_congr fun other hother => ?_)
  show (decide (other.dt = j.dt) && less (Gold.totalActivityEth j) (Gold.totalActivityEth other)) =
    true ↔ (Gold.totalActivityEth other).any (activity < ·) = true
  rw [hdate other hother, hdate j hj, hactivity, less_some, decide_eq_true rfl, Bool.true_and]

/-- **The ledger of a day**: no amount and no transaction is lost, or counted twice. -/
theorem ledger_conserved (h : WhaleDay rows) (date : ℤ) (byEntity : EntityOrder) :
    Ledger rows (buildTopWhalesDaily rows date byEntity) := by
  have hnodup : ((buildTopWhalesDaily rows date byEntity).map (·.address)).Nodup :=
    nodup_address h.senders
  have hfrom : ∀ row ∈ rows, row.fromAddress ∈
      (buildTopWhalesDaily rows date byEntity).map (·.address) := fun row hrow =>
    List.mem_map.mpr ((exists_address_iff h.senders).mpr ⟨row, hrow, .inl rfl⟩)
  have hto : ∀ row ∈ rows, row.toAddress ∈
      (buildTopWhalesDaily rows date byEntity).map (·.address) := fun row hrow =>
    List.mem_map.mpr ((exists_address_iff h.senders).mpr ⟨row, hrow, .inr rfl⟩)
  refine ⟨hnodup, fun _ => exists_address_iff h.senders, ?_, ?_, ?_, ?_, fun _ => h.rankActivity⟩
  · rw [totalEth_map, ← Grouping.sum_parts hnodup _ hfrom, List.map_map]
    refine congrArg List.sum (List.map_congr_left fun g hg => ?_)
    rw [h.totalSentEth hg, totalEth_map]
    rfl
  · rw [totalEth_map, ← Grouping.sum_parts hnodup _ hto, List.map_map]
    refine congrArg List.sum (List.map_congr_left fun g hg => ?_)
    rw [h.totalRecvEth hg, totalEth_map]
    rfl
  · rw [← Grouping.sum_length_parts hnodup hfrom, List.map_map]
    refine congrArg List.sum (List.map_congr_left fun g hg => ?_)
    rw [txCountAsSender_of_mem h.senders hg, h.countP_hash]
    rfl
  · rw [← Grouping.sum_length_parts hnodup hto, List.map_map]
    refine congrArg List.sum (List.map_congr_left fun g hg => ?_)
    rw [txCountAsReceiver_of_mem h.senders hg, h.countP_hash]
    rfl

end ledger

/-- What the Silver job writes of transactions with a hash is such a day. -/
theorem WhaleDay.of_silver {txns : List SilverTransaction} {threshold : PyFloat}
    {file : Option (List Label)} {fromLabels toLabels : KnownLabels file} {byFrom : SenderOrder}
    {byTo : ReceiverOrder}
    (hrows : rows.Perm (buildWhaleTxns txns date threshold fromLabels toLabels byFrom byTo))
    (hday : LedgerDay txns date threshold) (hfit : SumsFit txns date threshold)
    (hhashes : ∀ row ∈ rows, row.hash ≠ none) : WhaleDay rows := by
  have hamount : ∀ row ∈ rows, Amount row.valueEth := fun row hrow =>
    hday.amount_stored (p := fun _ => true) hrows row.valueEth
      (List.mem_map_of_mem (List.mem_filter.mpr ⟨hrow, rfl⟩))
  have hnonneg : ∀ p : WhaleRow → Bool, 0 ≤ totalEth ((rows.filter p).map (·.valueEth)) :=
    fun p => totalEth_nonneg (hday.amount_stored hrows)
  refine ⟨hday.sender_ne_none hrows, hhashes, fun row hrow q hq => ?_, fun a => ?_, fun a => ?_⟩
  · obtain ⟨r, hr, hfits, -⟩ := hamount row hrow
    rw [hq] at hr
    cases hr
    exact hfits
  · rw [abs_of_nonneg (hnonneg _)]
    exact (hfit.room hrows a).1
  · rw [abs_of_nonneg (hnonneg _)]
    exact (hfit.room hrows a).2

theorem flaggedDay_conserved : Ledger (silverOf flaggedDay) (goldOf flaggedDay) :=
  ledger_conserved (WhaleDay.of_silver (List.Perm.refl _) (ledgerDay_transfers (by norm_num))
    (SumsFit.of_total (ledgerDay_transfers (by norm_num)) (by decide +kernel)) (by decide +kernel))
    20608 insertionEntityOrder

end Gold

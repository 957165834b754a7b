import EthPipeline.Silver.WhaleTxns
import EthPipeline.Base.Grouping

/-!
# The running totals of whales

The rows of `whale_txns` carry running totals of their sender and receiver, over an
order that Spark may choose.  The greatest of them are the totals of the day, in
every order.

* `isGreatest_cumulTxCount`: the transactions of a sender.
* `isGreatest_sent`: the amounts of a sender, with the number of its transactions.
* `isGreatest_cumulRecvEth`: the amounts of a receiver.
* `exists_flagHighFreq_iff`: when a row of a sender is flagged.
-/

namespace Silver

/-! ### Amounts -/

/-- The sum of amounts, however large. -/
def totalEth (values : List (Option ℚ)) : ℚ := (values.filterMap id).sum

/-- An amount above zero, of the type of its column. -/
def Amount (value : Option ℚ) : Prop := ∃ q, value = some q ∧ Decimal.Fits ⟨38, 18⟩ q ∧ 0 < q

variable {values : List (Option ℚ)}

theorem amount_of_mem (h : ∀ v ∈ values, Amount v) {q : ℚ} (hq : q ∈ values.filterMap id) :
    Decimal.Fits ⟨38, 18⟩ q ∧ 0 < q := by
  obtain ⟨v, hv, rfl⟩ := List.mem_filterMap.mp hq
  obtain ⟨r, hr, hfits, hpos⟩ := h _ hv
  cases hr
  exact ⟨hfits, hpos⟩

theorem totalEth_nonneg (h : ∀ v ∈ values, Amount v) : 0 ≤ totalEth values :=
  List.sum_nonneg fun _ hq => (amount_of_mem h hq).2.le

/-- Amounts that are left out only lower the sum. -/
theorem totalEth_sublist {part : List (Option ℚ)} (h : part.Sublist values)
    (hvalues : ∀ v ∈ values, Amount v) : totalEth part ≤ totalEth values :=
  List.Sublist.sum_le_sum (h.filterMap id) fun _ hq => (amount_of_mem hvalues hq).2.le

theorem totalEth_mono {upto : List (Option ℚ)} (h : upto <+: values)
    (hvalues : ∀ v ∈ values, Amount v) : totalEth upto ≤ totalEth values :=
  totalEth_sublist h.sublist hvalues

theorem totalEth_perm {values' : List (Option ℚ)} (h : values.Perm values') :
    totalEth values = totalEth values' :=
  (h.filterMap id).sum_eq

/-- The sum of a column whose values add up to less than `10 ^ 20` has room. -/
theorem totalEth_room (hroom : |totalEth values| < 10 ^ 20) :
    |totalEth values| * 10 ^ 18 < 10 ^ (Decimal.sumType ⟨38, 18⟩).precision := by
  calc |totalEth values| * 10 ^ 18 < 10 ^ 20 * 10 ^ 18 := by gcongr
    _ = 10 ^ (Decimal.sumType ⟨38, 18⟩).precision := by norm_num [Decimal.sumType]

theorem fits_of_mem (h : ∀ q, some q ∈ values → Decimal.Fits ⟨38, 18⟩ q) :
    ∀ q ∈ values.filterMap id, Decimal.Fits ⟨38, 18⟩ q := by
  intro q hq
  obtain ⟨v, hv, rfl⟩ := List.mem_filterMap.mp hq
  exact h q hv

/-- **A sum with room is exact.** -/
theorem sumEth_of_room (hsome : ∃ q, some q ∈ values)
    (h : ∀ q, some q ∈ values → Decimal.Fits ⟨38, 18⟩ q) (hroom : |totalEth values| < 10 ^ 20) :
    sumEth values = some (totalEth values) := by
  obtain ⟨q, hq⟩ := hsome
  have hne : values.filterMap id ≠ [] :=
    List.ne_nil_of_mem (List.mem_filterMap.mpr ⟨some q, hq, rfl⟩)
  exact Decimal.sum_of_room hne (fits_of_mem h) (totalEth_room hroom)

/-- A sum with room that is filled with zero where there are no values. -/
theorem sumEth_getD (h : ∀ q, some q ∈ values → Decimal.Fits ⟨38, 18⟩ q)
    (hroom : |totalEth values| < 10 ^ 20) : (sumEth values).getD 0 = totalEth values :=
  Decimal.sum_getD (fits_of_mem h) (totalEth_room hroom)

/-- Below `10 ^ 20` the sum of a column is exact. -/
theorem sumEth_eq_totalEth (hne : values ≠ []) (h : ∀ v ∈ values, Amount v)
    (hroom : totalEth values < 10 ^ 20) : sumEth values = some (totalEth values) := by
  refine sumEth_of_room ?_ (fun q hq => ?_) ?_
  · obtain ⟨v, hv⟩ := List.exists_mem_of_ne_nil values hne
    obtain ⟨q, rfl, -⟩ := h v hv
    exact ⟨q, hv⟩
  · obtain ⟨r, hr, hfits, -⟩ := h _ hq
    cases hr
    exact hfits
  · rwa [abs_of_nonneg (totalEth_nonneg h)]

/-! ### The rows of the windows -/

section stored

variable {txns : List SilverTransaction} {date : ℤ} {threshold : PyFloat}
  {file : Option (List Label)} {fromLabels toLabels : KnownLabels file}
  {byFrom : SenderOrder} {byTo : ReceiverOrder} {stored : List WhaleRow} {γ : Type}

theorem transaction_mem_of_mem_run {l : LabelledTransaction}
    (hl : l ∈ byFrom.run (labelledTransactions txns date threshold fromLabels toLabels)) :
    l.transaction ∈ whaleTransactions txns date threshold := by
  rw [← map_transaction_labelledTransactions txns date threshold fromLabels toLabels]
  exact List.mem_map_of_mem ((byFrom.perm _).mem_iff.mp hl)

theorem transaction_mem_of_mem_sent {s : SentTransaction}
    (hs : s ∈ byTo.run (sentTransactions txns date threshold fromLabels toLabels byFrom)) :
    s.labelled.transaction ∈ whaleTransactions txns date threshold := by
  have hlabelled := (map_labelled_sentTransactions txns date threshold fromLabels toLabels
    byFrom).mem_iff.mp (List.mem_map_of_mem ((byTo.perm _).mem_iff.mp hs))
  rw [← map_transaction_labelledTransactions txns date threshold fromLabels toLabels]
  exact List.mem_map_of_mem hlabelled

theorem dt_of_mem {t : SilverTransaction} (ht : t ∈ whaleTransactions txns date threshold) :
    t.dt = some date := by
  obtain ⟨t', -, rfl⟩ := List.mem_map.mp (List.mem_filter.mp ht).1
  rfl

/-- The window of the senders, over the rows of the date. -/
theorem over_senderKey :
    Window.overParts LabelledTransaction.senderKey sentTotals
        (byFrom.run (labelledTransactions txns date threshold fromLabels toLabels)) =
      Window.overParts (fun l : LabelledTransaction => l.transaction.fromAddress) sentTotals
        (byFrom.run (labelledTransactions txns date threshold fromLabels toLabels)) := by
  refine Window.overParts_congr fun a ha b hb => ?_
  unfold LabelledTransaction.senderKey
  rw [dt_of_mem (transaction_mem_of_mem_run ha), dt_of_mem (transaction_mem_of_mem_run hb),
    Prod.mk.injEq, and_iff_left rfl]

theorem over_receiverKey :
    Window.overParts (fun s : SentTransaction => s.labelled.receiverKey) receivedTotal
        (byTo.run (sentTransactions txns date threshold fromLabels toLabels byFrom)) =
      Window.overParts (fun s : SentTransaction => s.labelled.transaction.toAddress) receivedTotal
        (byTo.run (sentTransactions txns date threshold fromLabels toLabels byFrom)) := by
  refine Window.overParts_congr fun a ha b hb => ?_
  unfold LabelledTransaction.receiverKey
  rw [dt_of_mem (transaction_mem_of_mem_sent ha), dt_of_mem (transaction_mem_of_mem_sent hb),
    Prod.mk.injEq, and_iff_left rfl]

/-- The transactions of a sender, in the order of its window. -/
def sentBy (txns : List SilverTransaction) (date : ℤ) (threshold : PyFloat)
    (fromLabels toLabels : KnownLabels file) (byFrom : SenderOrder) (a : Option String) :
    List LabelledTransaction :=
  (byFrom.run (labelledTransactions txns date threshold fromLabels toLabels)).filter
    fun l => l.transaction.fromAddress = a

/-- The transactions of a receiver, in the order of its window. -/
def receivedBy (txns : List SilverTransaction) (date : ℤ) (threshold : PyFloat)
    (fromLabels toLabels : KnownLabels file) (byFrom : SenderOrder) (byTo : ReceiverOrder)
    (a : Option String) : List SentTransaction :=
  (byTo.run (sentTransactions txns date threshold fromLabels toLabels byFrom)).filter
    fun s => s.labelled.transaction.toAddress = a

theorem amount_sentBy (hamount : ∀ t ∈ whaleTransactions txns date threshold, Amount t.valueEth)
    (a : Option String) :
    ∀ v ∈ (sentBy txns date threshold fromLabels toLabels byFrom a).map (·.transaction.valueEth),
      Amount v := by
  intro v hv
  obtain ⟨l, hl, rfl⟩ := List.mem_map.mp hv
  exact hamount _ (transaction_mem_of_mem_run (List.mem_filter.mp hl).1)

/-! ### The rows, without their running totals -/

variable
  (hstored : stored.Perm (buildWhaleTxns txns date threshold fromLabels toLabels byFrom byTo))

include hstored

/-- A column that the totals of the receivers leave alone. -/
theorem map_stored_sent
    (g : WhaleRow → γ) (g' : SentTransaction → γ) (hg : ∀ row x, g (whaleRow (row, x)) = g' row) :
    (stored.map g).Perm
      ((sentTransactions txns date threshold fromLabels toLabels byFrom).map g') := by
  refine (hstored.map g).trans ?_
  unfold buildWhaleTxns
  rw [List.map_map]
  refine (List.Perm.of_eq ?_).trans ((byTo.perm _).map g')
  exact (List.map_congr_left fun p _ => hg p.1 p.2).trans (Window.map_overParts g')

/-- A column that no running total touches. -/
theorem map_stored_labelled (g : WhaleRow → γ) (g' : LabelledTransaction → γ)
    (hg : ∀ row x, g (whaleRow (row, x)) = g' row.labelled) :
    (stored.map g).Perm
      ((byFrom.run (labelledTransactions txns date threshold fromLabels toLabels)).map g') := by
  have hsent := (map_labelled_sentTransactions txns date threshold fromLabels toLabels byFrom).map g'
  rw [List.map_map] at hsent
  exact (map_stored_sent hstored g (fun row => g' row.labelled) hg).trans
    (hsent.trans ((byFrom.perm _).map g').symm)

/-- A column of the transactions. -/
theorem map_stored_transaction (g : WhaleRow → γ) (g' : SilverTransaction → γ)
    (hg : ∀ row x, g (whaleRow (row, x)) = g' row.labelled.transaction) :
    (stored.map g).Perm ((whaleTransactions txns date threshold).map g') := by
  refine (map_stored_labelled hstored g (fun l => g' l.transaction) hg).trans ?_
  rw [← map_transaction_labelledTransactions txns date threshold fromLabels toLabels, List.map_map]
  exact (byFrom.perm _).map _

/-! ### The totals of a sender -/

theorem exists_stored_sent_iff (P : Option String → Option ℚ × ℕ → Prop) :
    (∃ row ∈ stored, P row.fromAddress (row.cumulSentEth, row.cumulTxCount)) ↔
      ∃ l x, (l, x) ∈ Window.overParts (fun l : LabelledTransaction => l.transaction.fromAddress)
          sentTotals (byFrom.run (labelledTransactions txns date threshold fromLabels toLabels)) ∧
        P l.transaction.fromAddress x := by
  have hsent := Grouping.exists_mem_iff (map_stored_sent hstored
    (fun row => (row.fromAddress, row.cumulSentEth, row.cumulTxCount))
    (fun s => (s.labelled.transaction.fromAddress, s.cumulSentEth, s.cumulTxCount))
    fun _ _ => rfl) fun y => P y.1 y.2
  rw [hsent]
  unfold sentTransactions
  rw [over_senderKey]
  simp only [List.mem_map, Prod.exists]
  constructor
  · rintro ⟨_, ⟨l, q, n, hmem, rfl⟩, hP⟩
    exact ⟨l, q, n, hmem, hP⟩
  · rintro ⟨l, q, n, hmem, hP⟩
    exact ⟨_, ⟨l, q, n, hmem, rfl⟩, hP⟩

/-- The columns of a sender are those of its transactions. -/
theorem perm_sentBy (g : WhaleRow → γ) (g' : LabelledTransaction → γ)
    (hg : ∀ row x, g (whaleRow (row, x)) = g' row.labelled) (a : Option String) :
    ((stored.filter fun row => row.fromAddress = a).map g).Perm
      ((sentBy txns date threshold fromLabels toLabels byFrom a).map g') := by
  refine Grouping.perm_part (map_stored_labelled hstored (fun row => (row.fromAddress, g row))
    (fun l => (l.transaction.fromAddress, g' l)) fun row x => ?_) a
  exact Prod.ext rfl (hg row x)

theorem countP_sentBy (a : Option String) :
    (stored.filter fun row => row.fromAddress = a).countP (·.hash.isSome) =
      (sentBy txns date threshold fromLabels toLabels byFrom a).countP
        (·.transaction.hash.isSome) := by
  have h := (perm_sentBy hstored (·.hash) (·.transaction.hash) (fun _ _ => rfl) a).countP_eq
    Option.isSome
  rw [List.countP_map, List.countP_map] at h
  exact h

theorem totalEth_sentBy (a : Option String) :
    totalEth ((stored.filter fun row => row.fromAddress = a).map (·.valueEth)) =
      totalEth ((sentBy txns date threshold fromLabels toLabels byFrom a).map
        (·.transaction.valueEth)) :=
  totalEth_perm (perm_sentBy hstored (·.valueEth) (·.transaction.valueEth) (fun _ _ => rfl) a)

/-- What grows along the transactions of a sender is greatest on its last row. -/
theorem isGreatest_sentBy [Preorder γ]
    {a : Option String} (hsome : ∃ row ∈ stored, row.fromAddress = a)
    (value : Option ℚ × ℕ → Option γ) (total : List LabelledTransaction → γ)
    (hvalue : ∀ upto, upto <+: sentBy txns date threshold fromLabels toLabels byFrom a →
      upto ≠ [] → value (sentTotals upto) = some (total upto))
    (hgrows : ∀ upto, upto <+: sentBy txns date threshold fromLabels toLabels byFrom a →
      total upto ≤ total (sentBy txns date threshold fromLabels toLabels byFrom a)) :
    IsGreatest {y | ∃ row ∈ stored, row.fromAddress = a ∧
        value (row.cumulSentEth, row.cumulTxCount) = some y}
      (total (sentBy txns date threshold fromLabels toLabels byFrom a)) := by
  obtain ⟨l, hl, rfl⟩ := (Grouping.exists_mem_iff (map_stored_labelled hstored (·.fromAddress)
    (·.transaction.fromAddress) fun _ _ => rfl) (· = a)).mp hsome
  have hset : {y | ∃ row ∈ stored, row.fromAddress = l.transaction.fromAddress ∧
      value (row.cumulSentEth, row.cumulTxCount) = some y} = {y | ∃ b x,
        (b, x) ∈ Window.overParts (fun l : LabelledTransaction => l.transaction.fromAddress) sentTotals
          (byFrom.run (labelledTransactions txns date threshold fromLabels toLabels)) ∧
        b.transaction.fromAddress = l.transaction.fromAddress ∧ value x = some y} := by
    ext y
    exact exists_stored_sent_iff hstored
      fun b x => b = l.transaction.fromAddress ∧ value x = some y
  rw [hset]
  exact Window.isGreatest_overParts hl hvalue hgrows

/-- **The transactions of a sender**: the greatest `cumul_tx_count`. -/
theorem isGreatest_cumulTxCount {a : Option String} (hsome : ∃ row ∈ stored, row.fromAddress = a) :
    IsGreatest {n | ∃ row ∈ stored, row.fromAddress = a ∧ row.cumulTxCount = n}
      ((stored.filter fun row => row.fromAddress = a).countP (·.hash.isSome)) := by
  have hgreatest := isGreatest_sentBy hstored hsome (fun x => some x.2)
    (fun part => part.countP (·.transaction.hash.isSome)) (fun _ _ _ => rfl)
    fun upto hupto => hupto.sublist.countP_le
  simp only [Option.some.injEq] at hgreatest
  rw [countP_sentBy hstored]
  exact hgreatest

/-- **The amounts of a sender**: the greatest `cumul_sent_eth`, together with the
greatest `cumul_tx_count`. -/
theorem isGreatest_sent (hamount : ∀ t ∈ whaleTransactions txns date threshold, Amount t.valueEth)
    {a : Option String} (hsome : ∃ row ∈ stored, row.fromAddress = a)
    (hroom : totalEth ((stored.filter fun row => row.fromAddress = a).map (·.valueEth)) < 10 ^ 20) :
    IsGreatest {y : ℚ × ℕ | ∃ row ∈ stored, row.fromAddress = a ∧
        row.cumulSentEth = some y.1 ∧ row.cumulTxCount = y.2}
      (totalEth ((stored.filter fun row => row.fromAddress = a).map (·.valueEth)),
        (stored.filter fun row => row.fromAddress = a).countP (·.hash.isSome)) := by
  rw [countP_sentBy hstored, totalEth_sentBy hstored]
  rw [totalEth_sentBy hstored] at hroom
  have hvalues : ∀ v ∈ (sentBy txns date threshold fromLabels toLabels byFrom a).map
      (·.transaction.valueEth), Amount v := amount_sentBy hamount a
  have hgrows : ∀ upto, upto <+: sentBy txns date threshold fromLabels toLabels byFrom a →
      totalEth (upto.map (·.transaction.valueEth)) ≤ totalEth
        ((sentBy txns date threshold fromLabels toLabels byFrom a).map (·.transaction.valueEth)) :=
    fun upto hupto => totalEth_mono (hupto.map _) hvalues
  have hsum : ∀ upto, upto <+: sentBy txns date threshold fromLabels toLabels byFrom a → upto ≠ [] →
      sumEth (upto.map (·.transaction.valueEth)) =
        some (totalEth (upto.map (·.transaction.valueEth))) := by
    intro upto hupto hne
    refine sumEth_eq_totalEth (by simpa using hne) (fun v hv => ?_) ?_
    · exact hvalues v ((hupto.map _).subset hv)
    · exact (hgrows upto hupto).trans_lt hroom
  have hset : {y : ℚ × ℕ | ∃ row ∈ stored, row.fromAddress = a ∧
        row.cumulSentEth = some y.1 ∧ row.cumulTxCount = y.2} =
      {y : ℚ × ℕ | ∃ row ∈ stored, row.fromAddress = a ∧
        ((row.cumulSentEth, row.cumulTxCount).1.map fun q =>
          (q, (row.cumulSentEth, row.cumulTxCount).2)) = some y} := by
    ext y
    refine exists_congr fun row => and_congr_right fun _ => and_congr_right fun _ => ?_
    cases row.cumulSentEth <;> simp [Prod.ext_iff]
  rw [hset]
  refine isGreatest_sentBy hstored hsome (fun x => x.1.map fun q => (q, x.2))
    (fun part => (totalEth (part.map (·.transaction.valueEth)),
      part.countP (·.transaction.hash.isSome))) (fun upto hupto hne => ?_) fun upto hupto => ?_
  · rw [sentTotals, hsum upto hupto hne, Option.map_some]
  · exact ⟨hgrows upto hupto, hupto.sublist.countP_le⟩

theorem isGreatest_cumulSentEth
    (hamount : ∀ t ∈ whaleTransactions txns date threshold, Amount t.valueEth)
    {a : Option String} (hsome : ∃ row ∈ stored, row.fromAddress = a)
    (hroom : totalEth ((stored.filter fun row => row.fromAddress = a).map (·.valueEth)) < 10 ^ 20) :
    IsGreatest {q | ∃ row ∈ stored, row.fromAddress = a ∧ row.cumulSentEth = some q}
      (totalEth ((stored.filter fun row => row.fromAddress = a).map (·.valueEth))) := by
  obtain ⟨⟨row, hrow, haddress, hq, -⟩, hupper⟩ := isGreatest_sent hstored hamount hsome hroom
  refine ⟨⟨row, hrow, haddress, hq⟩, ?_⟩
  rintro q ⟨row', hrow', haddress', hq'⟩
  have hle : (q, row'.cumulTxCount) ≤ _ := hupper ⟨row', hrow', haddress', hq', rfl⟩
  exact hle.1

theorem flagHighFreq_of_mem {row : WhaleRow} (hrow : row ∈ stored) :
    row.flagHighFreq = Sql.and (some (decide (5 ≤ row.cumulTxCount)))
      (row.cumulSentEth.map fun q => decide (500 ≤ q)) := by
  obtain ⟨p, -, rfl⟩ := List.mem_map.mp (hstored.mem_iff.mp hrow)
  rfl

/-- **A row of a sender is flagged** exactly when the sender has sent five transactions
and 500 ETH. -/
theorem exists_flagHighFreq_iff
    (hamount : ∀ t ∈ whaleTransactions txns date threshold, Amount t.valueEth)
    {a : Option String} (hsome : ∃ row ∈ stored, row.fromAddress = a)
    (hroom : totalEth ((stored.filter fun row => row.fromAddress = a).map (·.valueEth)) < 10 ^ 20) :
    (∃ row ∈ stored, row.fromAddress = a ∧ row.flagHighFreq = some true) ↔
      5 ≤ (stored.filter fun row => row.fromAddress = a).countP (·.hash.isSome) ∧
        500 ≤ totalEth ((stored.filter fun row => row.fromAddress = a).map (·.valueEth)) := by
  have hflag : ∀ row ∈ stored, row.flagHighFreq = some true ↔
      5 ≤ row.cumulTxCount ∧ ∃ q, row.cumulSentEth = some q ∧ 500 ≤ q := by
    intro row hrow
    rw [flagHighFreq_of_mem hstored hrow, Sql.and_eq_true_iff, Option.map_eq_some_iff]
    simp only [Option.some.injEq, decide_eq_true_eq]
  obtain ⟨hlast, hupper⟩ := isGreatest_sent hstored hamount hsome hroom
  constructor
  · rintro ⟨row, hrow, haddress, htrue⟩
    obtain ⟨h5, q, hq, h500⟩ := (hflag row hrow).mp htrue
    have hle : (q, row.cumulTxCount) ≤ _ := hupper ⟨row, hrow, haddress, hq, rfl⟩
    obtain ⟨htotal, hcount⟩ := hle
    exact ⟨h5.trans hcount, h500.trans htotal⟩
  · rintro ⟨h5, h500⟩
    obtain ⟨row, hrow, haddress, hq, hn⟩ := hlast
    exact ⟨row, hrow, haddress, (hflag row hrow).mpr ⟨h5.trans_eq hn.symm, _, hq, h500⟩⟩

/-! ### The totals of a receiver -/

theorem exists_stored_received_iff (P : Option String → Option ℚ → Prop) :
    (∃ row ∈ stored, P row.toAddress row.cumulRecvEth) ↔
      ∃ s x, (s, x) ∈ Window.overParts (fun s : SentTransaction => s.labelled.transaction.toAddress)
          receivedTotal
          (byTo.run (sentTransactions txns date threshold fromLabels toLabels byFrom)) ∧
        P s.labelled.transaction.toAddress x := by
  simp only [hstored.mem_iff]
  unfold buildWhaleTxns
  rw [over_receiverKey]
  simp only [List.mem_map, Prod.exists]
  constructor
  · rintro ⟨_, ⟨s, x, hmem, rfl⟩, hP⟩
    exact ⟨s, x, hmem, hP⟩
  · rintro ⟨s, x, hmem, hP⟩
    exact ⟨_, ⟨s, x, hmem, rfl⟩, hP⟩

theorem totalEth_receivedBy (a : Option String) :
    totalEth ((stored.filter fun row => row.toAddress = a).map (·.valueEth)) =
      totalEth ((receivedBy txns date threshold fromLabels toLabels byFrom byTo a).map
        (·.labelled.transaction.valueEth)) := by
  refine totalEth_perm (Grouping.perm_part ?_ a)
  exact (map_stored_sent hstored (fun row => (row.toAddress, row.valueEth))
    (fun s => (s.labelled.transaction.toAddress, s.labelled.transaction.valueEth))
    fun _ _ => rfl).trans ((byTo.perm _).map _).symm

/-- What grows along the transactions of a receiver is greatest on its last row. -/
theorem isGreatest_receivedBy {a : Option String} (hsome : ∃ row ∈ stored, row.toAddress = a)
    (total : List SentTransaction → ℚ)
    (hvalue : ∀ upto, upto <+: receivedBy txns date threshold fromLabels toLabels byFrom byTo a →
      upto ≠ [] → receivedTotal upto = some (total upto))
    (hgrows : ∀ upto, upto <+: receivedBy txns date threshold fromLabels toLabels byFrom byTo a →
      total upto ≤ total (receivedBy txns date threshold fromLabels toLabels byFrom byTo a)) :
    IsGreatest {q | ∃ row ∈ stored, row.toAddress = a ∧ row.cumulRecvEth = some q}
      (total (receivedBy txns date threshold fromLabels toLabels byFrom byTo a)) := by
  obtain ⟨s, hs, rfl⟩ := (Grouping.exists_mem_iff ((map_stored_sent hstored (·.toAddress)
    (·.labelled.transaction.toAddress) fun _ _ => rfl).trans ((byTo.perm _).map _).symm)
    (· = a)).mp hsome
  have hset : {q | ∃ row ∈ stored, row.toAddress = s.labelled.transaction.toAddress ∧
      row.cumulRecvEth = some q} = {q | ∃ b x,
        (b, x) ∈ Window.overParts (fun s : SentTransaction => s.labelled.transaction.toAddress)
          receivedTotal
          (byTo.run (sentTransactions txns date threshold fromLabels toLabels byFrom)) ∧
        b.labelled.transaction.toAddress = s.labelled.transaction.toAddress ∧
          id x = some q} := by
    ext q
    exact exists_stored_received_iff hstored
      fun b x => b = s.labelled.transaction.toAddress ∧ x = some q
  rw [hset]
  exact Window.isGreatest_overParts hs hvalue hgrows

/-- **The amounts of a receiver**: the greatest `cumul_recv_eth`. -/
theorem isGreatest_cumulRecvEth
    (hamount : ∀ t ∈ whaleTransactions txns date threshold, Amount t.valueEth)
    {a : Option String} (hsome : ∃ row ∈ stored, row.toAddress = a)
    (hroom : totalEth ((stored.filter fun row => row.toAddress = a).map (·.valueEth)) < 10 ^ 20) :
    IsGreatest {q | ∃ row ∈ stored, row.toAddress = a ∧ row.cumulRecvEth = some q}
      (totalEth ((stored.filter fun row => row.toAddress = a).map (·.valueEth))) := by
  rw [totalEth_receivedBy hstored] at hroom ⊢
  have hvalues : ∀ v ∈ (receivedBy txns date threshold fromLabels toLabels byFrom byTo a).map
      (·.labelled.transaction.valueEth), Amount v := by
    intro v hv
    obtain ⟨s, hs, rfl⟩ := List.mem_map.mp hv
    exact hamount _ (transaction_mem_of_mem_sent (List.mem_filter.mp hs).1)
  have hgrows : ∀ upto,
      upto <+: receivedBy txns date threshold fromLabels toLabels byFrom byTo a →
      totalEth (upto.map (·.labelled.transaction.valueEth)) ≤
        totalEth ((receivedBy txns date threshold fromLabels toLabels byFrom byTo a).map
          (·.labelled.transaction.valueEth)) :=
    fun upto hupto => totalEth_mono (hupto.map _) hvalues
  have hsum : ∀ upto,
      upto <+: receivedBy txns date threshold fromLabels toLabels byFrom byTo a → upto ≠ [] →
      receivedTotal upto = some (totalEth (upto.map (·.labelled.transaction.valueEth))) := by
    intro upto hupto hne
    unfold receivedTotal
    refine sumEth_eq_totalEth (by simpa using hne) (fun v hv => ?_) ?_
    · exact hvalues v ((hupto.map _).subset hv)
    · exact (hgrows upto hupto).trans_lt hroom
  refine isGreatest_receivedBy hstored hsome
    (fun part => totalEth (part.map (·.labelled.transaction.valueEth))) hsum fun upto hupto => ?_
  exact hgrows upto hupto

end stored

end Silver

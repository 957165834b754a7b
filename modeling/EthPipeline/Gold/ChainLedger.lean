import EthPipeline.Gold.WhaleLedger
import EthPipeline.Silver.ChainDay

/-!
# The ledger of a day of the chain

What `top_whales_daily` says about the blocks of a date, whatever the labels are and however
Spark orders the rows of `whale_txns`.

* `abs_totalEth_sub_le`: what the rounding of `value_eth` moves a sum by.
* `ledger_of_chain`: the row of an address has the whales that it sends and receives.
-/

namespace Gold

open Silver Storage.Etl

/-! ### Amounts of the chain -/

/-- What some transactions move, in ETH. -/
def movedEth (txs : List BronzeTransaction) : ℚ := ((txs.map fun t => t.value.getD 0).sum : ℕ) / 10 ^ 18

/-- What is said of the whales that an address is a side of: their number, and what they
move, with half a millionth of an ETH for the rounding of each. -/
structure SideTotals (whales : List BronzeTransaction) (count : ℕ) (total : ℚ) : Prop where
  count : count = whales.length
  total : |total - movedEth whales| ≤ whales.length / (2 * 10 ^ 6)

/-- The rows of Gold are a ledger of the whales. -/
structure ChainLedger (whales : List BronzeTransaction) (top : List TopWhaleRow) : Prop where
  oneRow : (top.map (·.address)).Nodup
  addresses : ∀ a, (∃ g ∈ top, g.address = a) ↔
    ∃ t ∈ whales, t.fromAddress = a ∨ t.toAddress = a
  sent : ∀ g ∈ top, SideTotals (whales.filter fun t => t.fromAddress = g.address)
    g.txCountAsSender g.totalSentEth
  received : ∀ g ∈ top, SideTotals (whales.filter fun t => t.toAddress = g.address)
    g.txCountAsReceiver g.totalRecvEth
  activity : ∀ g ∈ top, g.totalActivityEth = some (g.totalSentEth + g.totalRecvEth) ∧
    g.whaleTier = assignWhaleTier (some (g.totalSentEth + g.totalRecvEth))
  netFlow : ∀ g ∈ top, g.netFlowEth = some (g.totalRecvEth - g.totalSentEth) ∧
    g.positionLabel = positionLabel (some (g.totalRecvEth - g.totalSentEth))
  rankActivity : ∀ g ∈ top, g.rankActivity = 1 + top.countP fun other =>
    g.totalSentEth + g.totalRecvEth < other.totalSentEth + other.totalRecvEth
  highFreq : ∀ g ∈ top, g.flagHighFreq = true ↔ 5 ≤ g.txCountAsSender ∧ 500 ≤ g.totalSentEth

/-- Whales have senders, and do not move more ETH in a day than a sum has room for. -/
structure LedgerBlocks (node : Node) (date : ℤ) : Prop where
  senders : ∀ n, Storage.InDay node.chain date n → ∀ t ∈ node.transactions n, t.fromAddress ≠ none
  room : ∀ blocks, DayBlocks node.chain date blocks → movedEth (chainWhales node blocks) < 10 ^ 19

section amounts

variable {txs : List BronzeTransaction} {t : BronzeTransaction}

theorem movedEth_cons : movedEth (t :: txs) = (t.value.getD 0 : ℕ) / 10 ^ 18 + movedEth txs := by
  unfold movedEth
  rw [List.map_cons, List.sum_cons, Nat.cast_add, add_div]

/-- A whale that there is room for. -/
def Sized (t : BronzeTransaction) : Prop :=
  ∃ wei, t.value = some wei ∧ 100 * weiPerEth ≤ wei ∧ wei < 10 ^ 37

/-- The amount of a whale, as it is stored. -/
theorem Sized.valueEth (h : Sized t) : ∃ q, Silver.valueEth t.value = some q ∧
    (∃ n : ℤ, q * 10 ^ 6 = n) ∧ 100 ≤ q ∧ |q - (t.value.getD 0 : ℕ) / 10 ^ 18| ≤ 1 / (2 * 10 ^ 6) := by
  obtain ⟨wei, hwei, hlow, hhigh⟩ := h
  obtain ⟨q, hq, hle⟩ := valueEth_of_le hlow hhigh
  have hround : q = Decimal.roundHalfUp 6 ((wei : ℚ) / weiPerEth) :=
    Option.some.inj (hq.symm.trans (ethOfWei_eq hhigh))
  have hunit : ((weiPerEth : ℕ) : ℚ) = 10 ^ 18 := by norm_num [weiPerEth]
  refine ⟨q, by rw [hwei, hq], hround ▸ Decimal.roundHalfUp_exact 6 _, by exact_mod_cast hle, ?_⟩
  rw [hwei, Option.getD_some, hround, hunit]
  exact Decimal.abs_roundHalfUp_sub_le 6 _

theorem totalEth_cons_some (q : ℚ) (values : List (Option ℚ)) :
    totalEth (some q :: values) = q + totalEth values := rfl

/-- **What the rounding moves a sum by** is half a millionth for each transaction. -/
theorem abs_totalEth_sub_le (h : ∀ t ∈ txs, Sized t) :
    |totalEth (txs.map fun t => valueEth t.value) - movedEth txs| ≤ txs.length / (2 * 10 ^ 6) := by
  induction txs with
  | nil => simp [totalEth, movedEth]
  | cons t txs ih =>
    obtain ⟨ht, htxs⟩ := List.forall_mem_cons.mp h
    obtain ⟨q, hq, -, -, hround⟩ := ht.valueEth
    have hsplit : q + totalEth (txs.map fun t => valueEth t.value) -
        ((t.value.getD 0 : ℕ) / 10 ^ 18 + movedEth txs) =
          (q - (t.value.getD 0 : ℕ) / 10 ^ 18) +
            (totalEth (txs.map fun t => valueEth t.value) - movedEth txs) := by ring
    rw [List.map_cons, hq, totalEth_cons_some, movedEth_cons, hsplit, List.length_cons]
    push_cast
    calc _ ≤ |q - (t.value.getD 0 : ℕ) / 10 ^ 18| +
          |totalEth (txs.map fun t => valueEth t.value) - movedEth txs| := abs_add_le _ _
      _ ≤ 1 / (2 * 10 ^ 6) + txs.length / (2 * 10 ^ 6) := add_le_add hround (ih htxs)
      _ = (txs.length + 1) / (2 * 10 ^ 6) := by ring

/-- A sum of whales has six digits. -/
theorem exact_totalEth (h : ∀ t ∈ txs, Sized t) :
    ∃ n : ℤ, totalEth (txs.map fun t => valueEth t.value) * 10 ^ 6 = n := by
  refine Decimal.exact_sum fun q hq => ?_
  obtain ⟨v, hv, rfl⟩ := List.mem_filterMap.mp hq
  obtain ⟨t, ht, heq⟩ := List.mem_map.mp hv
  obtain ⟨r, hr, hexact, -⟩ := (h t ht).valueEth
  obtain rfl : r = q := Option.some.inj (hr.symm.trans heq)
  exact hexact

/-- What whales move is not less than half of what is stored of them. -/
theorem totalEth_le (h : ∀ t ∈ txs, Sized t) :
    totalEth (txs.map fun t => valueEth t.value) ≤ 2 * movedEth txs := by
  induction txs with
  | nil => simp [totalEth, movedEth]
  | cons t txs ih =>
    obtain ⟨ht, htxs⟩ := List.forall_mem_cons.mp h
    obtain ⟨q, hq, -, hle, hround⟩ := ht.valueEth
    have hbound := (abs_le.mp hround).2
    have hone : q ≤ 2 * ((t.value.getD 0 : ℕ) / 10 ^ 18) := by
      norm_num at hbound ⊢
      linarith
    rw [List.map_cons, hq, totalEth_cons_some, movedEth_cons]
    linarith [ih htxs]

end amounts

/-! ### The table of Silver -/

section silver

variable {node : Node} {date : ℤ} {blocks : List ℕ} {day : BronzeDay}
  {file : Option (List Label)} {fromLabels toLabels : KnownLabels file} {byFrom : SenderOrder}
  {byTo : ReceiverOrder} {stored : List WhaleRow} {byEntity : EntityOrder}
  {txns : List SilverTransaction} {threshold : PyFloat}

theorem sized_of_whale {t : BronzeTransaction} (ht : t ∈ chainWhales node blocks) : Sized t := by
  obtain ⟨hmem, hwhale⟩ := List.mem_filter.mp ht
  obtain ⟨n, -, hn⟩ := List.mem_flatMap.mp hmem
  obtain ⟨hvalue, -⟩ := of_decide_eq_true hwhale
  cases hwei : t.value with
  | none =>
    rw [hwei] at hvalue
    exact absurd hvalue (by decide)
  | some wei =>
    rw [hwei, Option.getD_some] at hvalue
    exact ⟨wei, hwei, hvalue, node.supply n t hn wei hwei⟩

theorem ledgerDay_of_chain (h : ChainDay node date blocks day) (hblocks : LedgerBlocks node date) :
    LedgerDay (readTxnEnriched (buildTxnEnriched day) date) date (.finite 100) := by
  refine ledgerDay_of_bronze day (show ((100 : ℕ) : ℚ) ≤ 100 by norm_num) fun t ht => ?_
  obtain ⟨t, hwhale, rfl⟩ := List.mem_map.mp (h.whaleTransactions.mem_iff.mp ht)
  obtain ⟨n, hn, hmem⟩ := List.mem_flatMap.mp (List.mem_filter.mp hwhale).1
  exact hblocks.senders n ((h.ofDay.mem n).mp hn) t hmem

/-- The amounts of a day have room together. -/
theorem totalEth_of_chain (h : ChainDay node date blocks day) (hblocks : LedgerBlocks node date) :
    totalEth ((whaleTransactions (readTxnEnriched (buildTxnEnriched day) date) date
      (.finite 100)).map (·.valueEth)) < 10 ^ 20 := by
  have hperm := totalEth_perm (h.whaleTransactions.map (·.valueEth))
  rw [List.map_map] at hperm
  have hsized : ∀ t ∈ chainWhales node blocks, Sized t := fun _ => sized_of_whale
  have hle := totalEth_le hsized
  have hroom := hblocks.room blocks h.ofDay
  calc _ = totalEth ((chainWhales node blocks).map fun t => valueEth t.value) := hperm
    _ ≤ 2 * movedEth (chainWhales node blocks) := hle
    _ < 10 ^ 20 := by linarith

theorem sumsFit_of_chain (h : ChainDay node date blocks day) (hblocks : LedgerBlocks node date) :
    SumsFit (readTxnEnriched (buildTxnEnriched day) date) date (.finite 100) :=
  SumsFit.of_total (ledgerDay_of_chain h hblocks) (totalEth_of_chain h hblocks)

variable (hstored : stored.Perm (buildWhaleTxns (readTxnEnriched (buildTxnEnriched day) date) date
  (.finite 100) fromLabels toLabels byFrom byTo))

include hstored in
/-- The columns of the chain. -/
theorem map_stored_chain (h : ChainDay node date blocks day) {γ : Type} (g : WhaleRow → γ)
    (g' : SilverTransaction → γ)
    (hg : ∀ row x, g (whaleRow (row, x)) = g' row.labelled.transaction) :
    (stored.map g).Perm ((chainWhales node blocks).map fun t => g' (readWhale node date t)) := by
  refine (map_stored_transaction hstored g g' hg).trans ((h.whaleTransactions.map g').trans ?_)
  rw [List.map_map]
  rfl

include hstored in
theorem whaleDay_of_chain (h : ChainDay node date blocks day) (hblocks : LedgerBlocks node date) :
    WhaleDay stored := by
  refine WhaleDay.of_silver hstored (ledgerDay_of_chain h hblocks) (sumsFit_of_chain h hblocks) ?_
  intro row hrow hnone
  obtain ⟨t, ht, hhash⟩ := (Grouping.exists_mem_iff (map_stored_chain hstored h (·.hash) (·.hash)
    fun _ _ => rfl) (· = none)).mp ⟨row, hrow, hnone⟩
  obtain ⟨n, -, hmem⟩ := List.mem_flatMap.mp (List.mem_filter.mp ht).1
  exact node.named n t hmem hhash

/-- **A side of the whales**: what the table has of an address is what the chain has. -/
theorem sideTotals_of_perm {whales : List BronzeTransaction} (hday : WhaleDay stored)
    (hsized : ∀ t ∈ whales, Sized t) {side : WhaleRow → Option String}
    {side' : BronzeTransaction → Option String}
    (hperm : (stored.map fun row => (side row, row.valueEth)).Perm
      (whales.map fun t => (side' t, valueEth t.value))) (a : Option String) :
    SideTotals (whales.filter fun t => side' t = a)
        ((stored.filter fun row => side row = a).countP (·.hash.isSome))
        (totalEth ((stored.filter fun row => side row = a).map (·.valueEth))) ∧
      ∃ n : ℤ, totalEth ((stored.filter fun row => side row = a).map (·.valueEth)) * 10 ^ 6 = n := by
  have hpart := Grouping.perm_part hperm a
  have hsized : ∀ t ∈ whales.filter (fun t => side' t = a), Sized t :=
    fun t ht => hsized t (List.mem_filter.mp ht).1
  rw [hday.countP_hash, totalEth_perm hpart]
  have hlength := hpart.length_eq
  rw [List.length_map, List.length_map] at hlength
  exact ⟨⟨hlength, abs_totalEth_sub_le hsized⟩, exact_totalEth hsized⟩

/-- The flag of an address, whether it sends or not. -/
theorem highFreq_iff (hledger : LedgerDay txns date threshold) (hfit : SumsFit txns date threshold)
    (hstored : stored.Perm (buildWhaleTxns txns date threshold fromLabels toLabels byFrom byTo))
    (hday : WhaleDay stored) {g : TopWhaleRow} (hg : g ∈ buildTopWhalesDaily stored date byEntity) :
    g.flagHighFreq = true ↔ 5 ≤ g.txCountAsSender ∧ 500 ≤ g.totalSentEth := by
  rw [flagHighFreq_iff hday.senders hg, txCountAsSender_of_mem hday.senders hg, hday.totalSentEth hg]
  by_cases hsome : ∃ row ∈ stored, row.fromAddress = g.address
  · exact exists_flagHighFreq_iff hstored hledger.amount hsome (hfit.room hstored g.address).1
  · -- an address that only receives
    have hpart : stored.filter (fun row => decide (row.fromAddress = g.address)) = [] :=
      List.filter_eq_nil_iff.mpr fun row hrow => by simpa using fun h => hsome ⟨row, hrow, h⟩
    refine iff_of_false (fun hflag => ?_) fun hboth => ?_
    · obtain ⟨row, hrow, haddress, -⟩ := hflag
      exact hsome ⟨row, hrow, haddress⟩
    · rw [hpart] at hboth
      exact absurd hboth.1 (by decide)

end silver

/-! ### The table of Gold -/

section gold

/-- An amount of six digits is not rounded. -/
theorem cast_round_six {q : ℚ} (hexact : ∃ n : ℤ, q * 10 ^ 6 = n) (hroom : |q| ≤ (2 * 10 ^ 20 : ℕ)) :
    (Decimal.cast (Decimal.addType ethType ethType) q).bind
      (Decimal.round (Decimal.addType ethType ethType) 6) = some q := by
  obtain ⟨n, hn⟩ := hexact
  have hscale : q * 10 ^ (Decimal.addType ethType ethType).scale = ((n * 10 ^ 11 : ℤ) : ℚ) := by
    show q * 10 ^ 17 = _
    push_cast
    rw [← hn]
    ring
  have hadd := Decimal.cast_of_abs_le (t := Decimal.addType ethType ethType) hroom (by decide)
  have hround := Decimal.cast_of_abs_le (t := Decimal.roundType (Decimal.addType ethType ethType) 6)
    hroom (by decide)
  rw [hadd, Decimal.roundHalfUp_of_exact hscale, Option.bind_some]
  exact hround.trans (congrArg some (Decimal.roundHalfUp_of_exact hn))

/-- **Activity and net flow are exact.** -/
theorem activity_netFlow_exact {j : Joined} (hsent : ∃ n : ℤ, j.totalSentEth * 10 ^ 6 = n)
    (hrecv : ∃ n : ℤ, j.totalRecvEth * 10 ^ 6 = n) (hsentRoom : |j.totalSentEth| < 10 ^ 20)
    (hrecvRoom : |j.totalRecvEth| < 10 ^ 20) :
    totalActivityEth j = some (j.totalSentEth + j.totalRecvEth) ∧
      netFlowEth j = some (j.totalRecvEth - j.totalSentEth) := by
  obtain ⟨n, hn⟩ := hsent
  obtain ⟨m, hm⟩ := hrecv
  constructor
  · refine cast_round_six ⟨n + m, ?_⟩ ?_
    · push_cast
      rw [add_mul, hn, hm]
    · have := abs_add_le j.totalSentEth j.totalRecvEth
      push_cast
      linarith
  · refine cast_round_six ⟨m - n, ?_⟩ ?_
    · push_cast
      rw [sub_mul, hn, hm]
    · have := abs_sub j.totalRecvEth j.totalSentEth
      push_cast
      linarith

/-- The columns of a row that come from what it has sent and received. -/
theorem amounts_of_mem {rows : List WhaleRow} {date : ℤ} {byEntity : EntityOrder}
    (hday : WhaleDay rows) {g : TopWhaleRow} (hg : g ∈ buildTopWhalesDaily rows date byEntity)
    (hsent : ∃ n : ℤ, g.totalSentEth * 10 ^ 6 = n) (hrecv : ∃ n : ℤ, g.totalRecvEth * 10 ^ 6 = n) :
    (g.totalActivityEth = some (g.totalSentEth + g.totalRecvEth) ∧
        g.whaleTier = assignWhaleTier (some (g.totalSentEth + g.totalRecvEth))) ∧
      g.netFlowEth = some (g.totalRecvEth - g.totalSentEth) ∧
        g.positionLabel = positionLabel (some (g.totalRecvEth - g.totalSentEth)) := by
  have hsentRoom : |g.totalSentEth| < 10 ^ 20 := hday.totalSentEth hg ▸ hday.sent g.address
  have hrecvRoom : |g.totalRecvEth| < 10 ^ 20 := hday.totalRecvEth hg ▸ hday.received g.address
  obtain ⟨all, entity, heq⟩ := mem_buildTopWhalesDaily hday.senders hg
  rw [heq] at hsent hrecv hsentRoom hrecvRoom ⊢
  obtain ⟨hactivity, hnet⟩ := activity_netFlow_exact hsent hrecv hsentRoom hrecvRoom
  exact ⟨⟨hactivity, congrArg assignWhaleTier hactivity⟩, hnet, congrArg positionLabel hnet⟩

end gold

/-- **The ledger of the chain.** -/
theorem ledger_of_chain {node : Node} {date : ℤ} {blocks : List ℕ} {day : BronzeDay}
    {file : Option (List Label)} {fromLabels toLabels : KnownLabels file} {byFrom : SenderOrder}
    {byTo : ReceiverOrder} {stored : List WhaleRow} (byEntity : EntityOrder)
    (h : ChainDay node date blocks day) (hblocks : LedgerBlocks node date)
    (hstored : stored.Perm (buildWhaleTxns (readTxnEnriched (buildTxnEnriched day) date) date
      (.finite 100) fromLabels toLabels byFrom byTo)) :
    ChainLedger (chainWhales node blocks) (buildTopWhalesDaily stored date byEntity) := by
  have hday := whaleDay_of_chain hstored h hblocks
  have hsized : ∀ t ∈ chainWhales node blocks, Sized t := fun _ => sized_of_whale
  have hsender := map_stored_chain hstored h (fun row => (row.fromAddress, row.valueEth))
    (fun t => (t.fromAddress, t.valueEth)) fun _ _ => rfl
  have hreceiver := map_stored_chain hstored h (fun row => (row.toAddress, row.valueEth))
    (fun t => (t.toAddress, t.valueEth)) fun _ _ => rfl
  have hsent : ∀ g ∈ buildTopWhalesDaily stored date byEntity,
      SideTotals ((chainWhales node blocks).filter fun t => t.fromAddress = g.address)
        g.txCountAsSender g.totalSentEth ∧ ∃ n : ℤ, g.totalSentEth * 10 ^ 6 = n := by
    intro g hg
    rw [txCountAsSender_of_mem hday.senders hg, hday.totalSentEth hg]
    exact sideTotals_of_perm hday hsized hsender g.address
  have hrecv : ∀ g ∈ buildTopWhalesDaily stored date byEntity,
      SideTotals ((chainWhales node blocks).filter fun t => t.toAddress = g.address)
        g.txCountAsReceiver g.totalRecvEth ∧ ∃ n : ℤ, g.totalRecvEth * 10 ^ 6 = n := by
    intro g hg
    rw [txCountAsReceiver_of_mem hday.senders hg, hday.totalRecvEth hg]
    exact sideTotals_of_perm hday hsized hreceiver g.address
  have hrow := fun g hg => amounts_of_mem (g := g) hday hg (hsent g hg).2 (hrecv g hg).2
  refine ⟨nodup_address hday.senders, fun a => ?_, fun g hg => (hsent g hg).1,
    fun g hg => (hrecv g hg).1, fun g hg => (hrow g hg).1, fun g hg => (hrow g hg).2,
    fun g hg => ?_, fun g hg =>
      highFreq_iff (ledgerDay_of_chain h hblocks) (sumsFit_of_chain h hblocks) hstored hday hg⟩
  · rw [exists_address_iff hday.senders]
    exact Grouping.exists_mem_iff (map_stored_chain hstored h
      (fun row => (row.fromAddress, row.toAddress)) (fun t => (t.fromAddress, t.toAddress))
      fun _ _ => rfl) fun sides => sides.1 = a ∨ sides.2 = a
  · obtain ⟨activity, hactivity, hrank⟩ := hday.rankActivity hg
    have hsame := Option.some.inj (hactivity.symm.trans (hrow g hg).1.1)
    rw [hrank, hsame]
    refine congrArg (1 + ·) (List.countP_congr fun other hother => ?_)
    rw [(hrow other hother).1.1, Option.any_some]

end Gold

import EthPipeline.Silver.Tables
import EthPipeline.Base.Decimal

/-!
# Transactions with their receipts

`build_txn_enriched` of `src/silver/transform/txn_enriched.py`.

* `valueEth_of_le`: a whole number of ETH is not lost by the rounding of `value_eth`.
* `valueEth_exact_iff`, `fee_exact_iff`: which amounts and which fees are exact.
* `keepsTransactions_iff`: when there is one row for each transaction.
-/

namespace Silver

/-- `WEI_PER_ETH`. -/
def weiPerEth : ℕ := 10 ^ 18

/-- An amount in wei as ETH: cast to `decimal(38,0)`, divided by a literal of 19 digits,
cast to `decimal(38,18)`. -/
def ethOfWei (wei : ℤ) : Option ℚ := do
  let amount ← Decimal.cast ⟨38, 0⟩ wei
  let quotient ← Decimal.divide ⟨38, 0⟩ ⟨19, 0⟩ amount weiPerEth
  Decimal.cast ⟨38, 18⟩ quotient

def valueEth (value : Option ℕ) : Option ℚ := value.bind fun wei => ethOfWei wei

/-- The product of two columns of 64 bits wraps around. -/
def timesLong (a b : Option ℤ) : Option ℤ := do
  let a ← a
  let b ← b
  return Int.bmod (a * b) (2 ^ 64)

structure EnrichedRow where
  hash : Option String
  blockNumber : Option ℤ
  blockTimestamp : Option ℤ
  fromAddress : Option String
  toAddress : Option String
  valueEth : Option ℚ
  txFeeEth : Option ℚ
  isSuccess : Option Bool
  isContractCall : Option Bool
  isContractDeploy : Option Bool
  dt : Option ℤ
  deriving DecidableEq, Repr

/-- The row of a transaction and the receipt the join has put beside it. -/
def enrichedRow (row : BronzeTransaction × Option BronzeReceipt) : EnrichedRow where
  hash := row.1.hash
  blockNumber := row.1.blockNumber
  blockTimestamp := row.1.blockTimestamp
  fromAddress := row.1.fromAddress
  toAddress := row.1.toAddress
  valueEth := valueEth row.1.value
  txFeeEth := (timesLong (row.2.bind (·.gasUsed)) (row.2.bind (·.effectiveGasPrice))).bind ethOfWei
  isSuccess := Sql.eq (row.2.bind (·.status)) (some 1)
  isContractCall :=
    Sql.and (Sql.and (some row.1.toAddress.isSome) (Sql.not (Sql.eq row.1.toAddress (some ""))))
      (Sql.not (Sql.eq row.1.input (some "0x")))
  isContractDeploy := Sql.or (some row.1.toAddress.isNone) (Sql.eq row.1.toAddress (some ""))
  dt := row.1.blockTimestamp.map toDate

/-- `build_txn_enriched`. -/
def buildTxnEnriched (day : BronzeDay) : List EnrichedRow :=
  (Join.left BronzeTransaction.hash BronzeReceipt.transactionHash (readBronze day.transactions)
    (readBronze day.receipts)).map enrichedRow

/-! ### The amount -/

/-- A quotient has 38 digits, its type six after the point: what is lost is lost there. -/
theorem ethOfWei_eq {wei : ℕ} (hwei : wei < 10 ^ 37) :
    ethOfWei wei = some (Decimal.roundHalfUp 6 ((wei : ℚ) / weiPerEth)) := by
  have hle : (wei : ℚ) / weiPerEth ≤ (10 ^ 19 : ℕ) := by
    rw [div_le_iff₀ (by norm_num [weiPerEth])]
    have : (wei : ℚ) < 10 ^ 37 := by exact_mod_cast hwei
    norm_num [weiPerEth] at this ⊢
    linarith
  have hpos : (0 : ℚ) ≤ (wei : ℚ) / weiPerEth := by positivity
  -- `decimal(38,0)` has room for it, and leaves it as it is
  have hcast : Decimal.cast ⟨38, 0⟩ (wei : ℚ) = some (wei : ℚ) := by
    apply Decimal.cast_of_fits
    apply Decimal.fits_natCast
    show wei * 10 ^ 0 < 10 ^ 38
    omega
  -- the quotient has 18 digits after the point
  have hexact : Decimal.roundHalfUp 38 ((wei : ℚ) / weiPerEth) = (wei : ℚ) / weiPerEth := by
    apply Decimal.roundHalfUp_of_exact (n := wei * 10 ^ 20)
    norm_num [weiPerEth]
    ring
  have hquotient : Decimal.divide ⟨38, 0⟩ ⟨19, 0⟩ (wei : ℚ) weiPerEth
      = some (Decimal.roundHalfUp 6 ((wei : ℚ) / weiPerEth)) := by
    unfold Decimal.divide
    rw [if_neg (by norm_num [weiPerEth]), hexact]
    exact Decimal.cast_of_le hpos hle (by norm_num [Decimal.divType, Decimal.adjust])
  have hupper : Decimal.roundHalfUp 6 ((wei : ℚ) / weiPerEth) ≤ (10 ^ 19 : ℕ) := by
    have := Decimal.roundHalfUp_mono (s := 6) hle
    rwa [show ((10 ^ 19 : ℕ) : ℚ) = ((10 ^ 19 : ℤ) : ℚ) by norm_cast,
      Decimal.roundHalfUp_intCast] at this
  -- and the column has room for the six
  have hdigits : Decimal.roundHalfUp 18 (Decimal.roundHalfUp 6 ((wei : ℚ) / weiPerEth)) =
      Decimal.roundHalfUp 6 ((wei : ℚ) / weiPerEth) := by
    obtain ⟨m, hm⟩ := Decimal.roundHalfUp_exact 6 ((wei : ℚ) / weiPerEth)
    apply Decimal.roundHalfUp_of_exact (n := m * 10 ^ 12)
    rw [show (10 : ℚ) ^ 18 = 10 ^ 6 * 10 ^ 12 by norm_num, ← mul_assoc, hm]
    push_cast
    rfl
  have hcolumn : Decimal.cast ⟨38, 18⟩ (Decimal.roundHalfUp 6 ((wei : ℚ) / weiPerEth)) =
      some (Decimal.roundHalfUp 6 ((wei : ℚ) / weiPerEth)) := by
    rw [Decimal.cast_of_le (Decimal.roundHalfUp_nonneg hpos) hupper (by norm_num), hdigits]
  unfold ethOfWei
  rw [show (((wei : ℕ) : ℤ) : ℚ) = (wei : ℚ) by norm_cast, hcast, Option.bind_eq_bind,
    Option.bind_some, hquotient, Option.bind_some, hcolumn]

/-- **Whole ETH survive the rounding**: an amount of `n` ETH or more has a `value_eth`
of `n` or more, up to `10 ^ 37` wei. -/
theorem valueEth_of_le {n wei : ℕ} (h : n * weiPerEth ≤ wei) (hwei : wei < 10 ^ 37) :
    ∃ q, valueEth (some wei) = some q ∧ (n : ℚ) ≤ q := by
  have hdiv : ((n : ℤ) : ℚ) ≤ (wei : ℚ) / weiPerEth := by
    rw [le_div_iff₀ (by norm_num [weiPerEth])]
    exact_mod_cast h
  refine ⟨_, ethOfWei_eq hwei, ?_⟩
  have hround := Decimal.roundHalfUp_mono (s := 6) hdiv
  rw [Decimal.roundHalfUp_intCast] at hround
  exact_mod_cast hround

/-- Six digits after the point are enough exactly for whole millionths of an ETH. -/
theorem ethOfWei_exact_iff {wei : ℕ} (hwei : wei < 10 ^ 37) :
    ethOfWei wei = some ((wei : ℚ) / 10 ^ 18) ↔ 10 ^ 12 ∣ wei := by
  have hunit : ((weiPerEth : ℕ) : ℚ) = 10 ^ 18 := by norm_num [weiPerEth]
  rw [ethOfWei_eq hwei, hunit]
  constructor
  · intro h
    obtain ⟨m, hm⟩ := Decimal.roundHalfUp_exact 6 ((wei : ℚ) / 10 ^ 18)
    rw [Option.some.inj h] at hm
    have hmul : (wei : ℚ) = m * 10 ^ 12 := by
      rw [← hm]
      ring
    have hint : (wei : ℤ) = m * 10 ^ 12 := by exact_mod_cast hmul
    have hdvd : (10 ^ 12 : ℤ) ∣ wei := ⟨m, by rw [hint, mul_comm]⟩
    exact_mod_cast hdvd
  · rintro ⟨m, rfl⟩
    congr 1
    apply Decimal.roundHalfUp_of_exact (n := m)
    push_cast
    ring

/-- An amount is of the type of its column. -/
theorem fits_valueEth {value : Option ℕ} {q : ℚ} (h : valueEth value = some q) :
    Decimal.Fits ⟨38, 18⟩ q := by
  obtain ⟨wei, -, hwei⟩ := Option.bind_eq_some_iff.mp h
  obtain ⟨amount, -, hwei⟩ := Option.bind_eq_some_iff.mp hwei
  obtain ⟨quotient, -, hcast⟩ := Option.bind_eq_some_iff.mp hwei
  exact Decimal.fits_of_cast hcast

/-- An amount is not below zero. -/
theorem valueEth_nonneg {value : Option ℕ} {q : ℚ} (h : valueEth value = some q) : 0 ≤ q := by
  obtain ⟨wei, -, hwei⟩ := Option.bind_eq_some_iff.mp h
  obtain ⟨amount, hamount, hwei⟩ := Option.bind_eq_some_iff.mp hwei
  obtain ⟨quotient, hquotient, hcast⟩ := Option.bind_eq_some_iff.mp hwei
  have hamount0 : 0 ≤ amount := by
    rw [(Decimal.cast_eq_some hamount).1]
    exact Decimal.roundHalfUp_nonneg (by positivity)
  have hquotient0 : 0 ≤ quotient := by
    unfold Decimal.divide at hquotient
    rw [if_neg (by norm_num [weiPerEth])] at hquotient
    rw [(Decimal.cast_eq_some hquotient).1]
    refine Decimal.roundHalfUp_nonneg (Decimal.roundHalfUp_nonneg ?_)
    positivity
  rw [(Decimal.cast_eq_some hcast).1]
  exact Decimal.roundHalfUp_nonneg hquotient0

/-! ### One row for each transaction -/

/-- The row without what the receipt gives. -/
def EnrichedRow.withoutReceipt (row : EnrichedRow) : EnrichedRow :=
  { row with txFeeEth := none, isSuccess := none }

/-- One row for each row of Bronze, with its columns. -/
def KeepsTransactions (day : BronzeDay) : Prop :=
  ((buildTxnEnriched day).map EnrichedRow.withoutReceipt).Perm
    ((readBronze day.transactions).map fun t => enrichedRow (t, none))

/-- No transaction has its receipt twice. -/
def ReceiptsOnce (day : BronzeDay) : Prop :=
  ∀ t ∈ readBronze day.transactions, ∀ hash, t.hash = some hash →
    ((readBronze day.receipts).map BronzeReceipt.transactionHash).count (some hash) ≤ 1

/-- **When the transactions are kept.** -/
theorem keepsTransactions_iff (day : BronzeDay) : KeepsTransactions day ↔ ReceiptsOnce day := by
  have hfound : ReceiptsOnce day ↔ ∀ t ∈ readBronze day.transactions,
      (Join.found BronzeTransaction.hash BronzeReceipt.transactionHash
        (readBronze day.receipts) t).length ≤ 1 :=
    forall₂_congr fun t _ => (Join.length_found_le_one_iff t).symm
  rw [hfound]
  constructor
  · intro hkeeps
    have hlength := hkeeps.length_eq
    simp only [buildTxnEnriched, List.length_map] at hlength
    exact Join.length_left_eq_iff.mp hlength
  · intro hone
    unfold KeepsTransactions buildTxnEnriched
    rw [Join.left_eq_map hone, List.map_map, List.map_map]
    exact List.Perm.refl _

/-! ### What the amount and the fee lose -/

/-- **`value_eth` is exact exactly for whole multiples of `10 ^ 12` wei**: in every row of
a transaction of less than `10 ^ 37` wei. -/
theorem valueEth_exact_iff (day : BronzeDay) {t : BronzeTransaction} {wei : ℕ}
    (ht : t ∈ readBronze day.transactions) (hvalue : t.value = some wei) (hwei : wei < 10 ^ 37) :
    (∀ joined ∈ Join.left BronzeTransaction.hash BronzeReceipt.transactionHash
        (readBronze day.transactions) (readBronze day.receipts), joined.1 = t →
      (enrichedRow joined).valueEth = some ((wei : ℚ) / 10 ^ 18)) ↔ 10 ^ 12 ∣ wei := by
  have hrow : ∀ r : Option BronzeReceipt, (enrichedRow (t, r)).valueEth = ethOfWei wei := by
    intro r
    show valueEth t.value = _
    rw [hvalue]
    rfl
  rw [← ethOfWei_exact_iff hwei]
  constructor
  · intro h
    obtain ⟨r, hr⟩ : ∃ r, (t, r) ∈ Join.left BronzeTransaction.hash BronzeReceipt.transactionHash
        (readBronze day.transactions) (readBronze day.receipts) := Join.exists_mem_left ht
    rw [← hrow r]
    exact h (t, r) hr rfl
  · rintro h ⟨t', r⟩ _ rfl
    rw [hrow]
    exact h

/-- A day with one transaction of `wei`. -/
def oneAmount (wei : ℕ) : BronzeDay where
  transactions := [[⟨some "0xaa", some 1, some 1700000000, some "0xa", some "0xb", some wei, none⟩]]
  receipts := []
  blocks := []
  tokenTransfers := []

theorem valueEth_wholeEth :
    (enrichedRow (⟨some "0xaa", some 1, some 1700000000, some "0xa", some "0xb", some (10 ^ 18), none⟩,
      none)).valueEth = some (((10 ^ 18 : ℕ) : ℚ) / 10 ^ 18) :=
  (valueEth_exact_iff (oneAmount (10 ^ 18)) List.mem_cons_self rfl (by norm_num)).mpr
    ⟨10 ^ 6, by norm_num⟩ _ List.mem_cons_self rfl

/-- **One wei is worth nothing.** -/
theorem valueEth_oneWei :
    (buildTxnEnriched (oneAmount 1)).map EnrichedRow.valueEth = [some 0] ∧
      (0 : ℚ) ≠ 1 / 10 ^ 18 := by
  constructor
  · decide +kernel
  · norm_num

/-- A product of two columns is the product while it has 63 bits. -/
theorem timesLong_eq_iff {a b : ℤ} (ha : 0 ≤ a) (hb : 0 ≤ b) :
    timesLong (some a) (some b) = some (a * b) ↔ a * b < 2 ^ 63 := by
  have hpos : 0 ≤ a * b := Int.mul_nonneg ha hb
  show some (Int.bmod (a * b) (2 ^ 64)) = _ ↔ _
  rw [Option.some_inj]
  constructor
  · intro h
    have hlt := Int.bmod_lt (x := a * b) (m := 2 ^ 64) (by norm_num)
    omega
  · intro h
    apply Int.bmod_eq_of_le
    · omega
    · omega

/-- The fee of a row. -/
theorem txFeeEth_eq (t : BronzeTransaction) {r : BronzeReceipt} {gas price : ℤ}
    (hgas : r.gasUsed = some gas) (hprice : r.effectiveGasPrice = some price) (hg : 0 ≤ gas)
    (hp : 0 ≤ price) (h : gas * price < 2 ^ 63) :
    (enrichedRow (t, some r)).txFeeEth =
      some (Decimal.roundHalfUp 6 (((gas * price).toNat : ℚ) / weiPerEth)) := by
  have hpos : 0 ≤ gas * price := Int.mul_nonneg hg hp
  show (timesLong r.gasUsed r.effectiveGasPrice).bind ethOfWei = _
  rw [hgas, hprice, (timesLong_eq_iff hg hp).mpr h, Option.bind_some]
  have hnat : gas * price = ((gas * price).toNat : ℤ) := by omega
  rw [hnat]
  apply ethOfWei_eq
  omega

/-- **The fee is right exactly while the product has 63 bits**: then it is not negative,
and no smaller receipt pays more. -/
theorem fee_exact_iff {r : BronzeReceipt} {gas price : ℤ} (hgas : r.gasUsed = some gas)
    (hprice : r.effectiveGasPrice = some price) (hg : 0 ≤ gas) (hp : 0 ≤ price) :
    (timesLong r.gasUsed r.effectiveGasPrice = some (gas * price) ↔ gas * price < 2 ^ 63) ∧
    (gas * price < 2 ^ 63 → ∀ t, ∃ fee, (enrichedRow (t, some r)).txFeeEth = some fee ∧ 0 ≤ fee ∧
      ∀ (t' : BronzeTransaction) (r' : BronzeReceipt) (gas' price' : ℤ), r'.gasUsed = some gas' →
        r'.effectiveGasPrice = some price' → 0 ≤ gas' → gas' ≤ gas → 0 ≤ price' → price' ≤ price →
        ∃ fee', (enrichedRow (t', some r')).txFeeEth = some fee' ∧ fee' ≤ fee) := by
  constructor
  · rw [hgas, hprice]
    exact timesLong_eq_iff hg hp
  · intro h t
    refine ⟨_, txFeeEth_eq t hgas hprice hg hp h, Decimal.roundHalfUp_nonneg (by positivity), ?_⟩
    intro t' r' gas' price' hgas' hprice' hg₀ hgle hp₀ hple
    have hle : gas' * price' ≤ gas * price := Int.mul_le_mul hgle hple hp₀ hg
    refine ⟨_, txFeeEth_eq t' hgas' hprice' hg₀ hp₀ (hle.trans_lt h), ?_⟩
    apply Decimal.roundHalfUp_mono
    have hnat : (gas' * price').toNat ≤ (gas * price).toNat := by omega
    gcongr

/-- A receipt of `gas` at `price`. -/
def receiptOf (gas price : ℤ) : BronzeReceipt := ⟨some "0xaa", some gas, some 1, some price⟩

theorem fee_oneTransfer :
    timesLong (receiptOf 21000 (10 ^ 10)).gasUsed (receiptOf 21000 (10 ^ 10)).effectiveGasPrice =
      some (21000 * 10 ^ 10) :=
  (fee_exact_iff (r := receiptOf 21000 (10 ^ 10)) rfl rfl (by norm_num) (by norm_num)).1.mpr
    (by norm_num)

/-- **Ten million gas at 1000 gwei pay a negative fee.** -/
theorem fee_negative :
    timesLong (receiptOf (10 ^ 7) (10 ^ 12)).gasUsed (receiptOf (10 ^ 7) (10 ^ 12)).effectiveGasPrice =
        some (10 ^ 19 - 2 ^ 64) ∧
      (enrichedRow (⟨some "0xaa", some 1, some 1700000000, some "0xa", some "0xb", some 0, none⟩,
        some (receiptOf (10 ^ 7) (10 ^ 12)))).txFeeEth = some (-8446744 / 10 ^ 6) := by
  constructor
  · decide +kernel
  · decide +kernel

end Silver

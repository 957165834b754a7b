import EthPipeline.Silver.TokenFlow
import EthPipeline.Silver.WhaleTxns

/-!
# The quality gate of the Silver layer

`src/jobs/silver_quality_check_job.py` with its three checks
(`src/silver/check`).  A frame knows the columns of the schema it was read with;
a query that names another column raises.

* `main_isOk_iff`: the job finishes exactly when no check gets past its reads.
* `gate_exact_iff`: when that agrees with the state of the data.
-/

namespace Silver

/-! ### Reading -/

/-- The folder of a date in a table. -/
inductive Partition (α : Type) where
  | missing
  | unreadable
  | rows (rows : List α)

/-- What the two gates after the queries object to. -/
inductive Critical where
  | lowSuccessRate (rate : PyFloat)
  | tooFewTransactions (count : ℕ)
  | abnormalAvgFee (fee : PyFloat)
  | absoluteDataLoss (count : ℕ)
  | noActiveTokens
  | nullValues (count : ℕ)
  | invalidWhaleValue (count : ℕ)
  deriving DecidableEq, Repr

inductive CheckError where
  /- of Spark -/
  | pathNotFound
  | scanFailed
  | analysis (e : AnalysisException)
  /- of the checks -/
  | dataLoss (silver bronze : ℕ)
  | gateFailed (errors : List Critical)
  | typeError
  deriving DecidableEq, Repr

structure Frame (α : Type) where
  schema : List String
  scan : Except CheckError (List α)

/-- `spark.read.schema(schema)`: only the path is looked at. -/
def Partition.read {α : Type} (schema : List String) : Partition α → Except CheckError (Frame α)
  | .missing => .error .pathNotFound
  | .unreadable => .ok ⟨schema, .error .scanFailed⟩
  | .rows found => .ok ⟨schema, .ok found⟩

namespace Frame

variable {α : Type}

def count (df : Frame α) : Except CheckError ℕ := df.scan.map List.length

/-- The rows for a query that names these columns. -/
def query (df : Frame α) (columns : List String) : Except CheckError (List α) :=
  match columns.find? fun column => column ∉ df.schema with
  | some column => .error (.analysis ⟨column⟩)
  | none => df.scan

end Frame

def enrichedTransactionSchema : List String :=
  ["hash", "block_number", "block_timestamp", "from_address", "to_address", "value_eth",
    "is_success", "dt"]

def whaleTxnSchema : List String :=
  ["hash", "block_timestamp", "hour", "dt", "from_address", "from_label", "from_entity",
    "from_category", "to_address", "to_label", "to_entity", "to_category", "value_eth",
    "cumul_sent_eth", "cumul_tx_count", "cumul_recv_eth", "whale_tier", "flow_type",
    "is_private_transaction", "flag_high_freq"]

def tokenFlowSchema : List String :=
  ["transaction_hash", "block_timestamp", "hour", "dt", "token_address", "symbol", "token_name",
    "from_address", "from_label", "from_category", "to_address", "to_label", "to_category",
    "amount"]

def transactionSchema : List String :=
  ["hash", "nonce", "block_hash", "block_number", "transaction_index", "from_address", "to_address",
    "value", "gas", "gas_price", "input", "block_timestamp", "max_fee_per_gas",
    "max_priority_fee_per_gas", "transaction_type"]

def tokenTransferSchema : List String :=
  ["token_address", "from_address", "to_address", "value", "transaction_hash", "log_index",
    "block_number"]

/-! ### The checks -/

section checks

variable {α β : Type}

/-- The `try` block of the first two checks: the Silver frame and the two row counts. -/
def readBoth (silverSchema bronzeSchema : List String) (silver : Partition α)
    (bronze : Partition β) : Except CheckError (Frame α × ℕ × ℕ) := do
  let df ← silver.read silverSchema
  let silverCount ← df.count
  let bronzeDf ← bronze.read bronzeSchema
  let bronzeCount ← bronzeDf.count
  return (df, silverCount, bronzeCount)

/-- `silver_count / bronze_count`, and `0` without Bronze rows. -/
def retentionRate (silverCount bronzeCount : ℕ) : PyFloat :=
  if 0 < bronzeCount then .ofRat (mkRat silverCount bronzeCount) else .finite 0

/-- `x < c` and `x > c` for a constant `c`, which is a double itself. -/
def below (x : PyFloat) (c : ℚ) : Bool :=
  match x with
  | .finite q => q < Binary64.nearest c
  | .inf negative => negative
  | .nan => false

def above (x : PyFloat) (c : ℚ) : Bool :=
  match x with
  | .finite q => Binary64.nearest c < q
  | .inf negative => !negative
  | .nan => false

def checkRetention (silverCount bronzeCount : ℕ) : Except CheckError Unit :=
  if below (retentionRate silverCount bronzeCount) (99 / 100) then
    .error (.dataLoss silverCount bronzeCount)
  else .ok ()

/-- The errors that were collected are raised together. -/
def raiseAny (errors : List Critical) : Except CheckError Unit :=
  if errors = [] then .ok () else .error (.gateFailed errors)

/-- `avg(is_success.cast("int"))`: nulls do not count. -/
def successRate (rows : List EnrichedRow) : Option PyFloat :=
  let flags := rows.filterMap (·.isSuccess)
  if flags = [] then none else some (.ofRat (mkRat (flags.count true) flags.length))

variable (mean : List ℚ → PyFloat)

/-- `avg(tx_fee_eth.cast("double"))`; `mean` is how Spark adds up doubles. -/
def avgFee (rows : List EnrichedRow) : Option PyFloat :=
  let fees := (rows.filterMap (·.txFeeEth)).map Binary64.nearest
  if fees = [] then none else some (mean fees)

/-- `run_kpi_check`. -/
def runKpiCheck (silver : Partition EnrichedRow) (bronze : Partition BronzeTransaction) :
    Except CheckError Unit :=
  match readBoth enrichedTransactionSchema transactionSchema silver bronze with
  | .error _ => .ok ()
  | .ok (df, silverCount, bronzeCount) => do
    checkRetention silverCount bronzeCount
    if silverCount = 0 then return ()
    let rows ← df.query
      ["is_success", "tx_fee_eth", "value_eth", "is_contract_call", "is_contract_deploy"]
    let _ ← df.query ["from_address", "to_address"]
    let _ ← df.query ["tx_type_label"]
    match successRate rows, avgFee mean rows with
    | some rate, some fee =>
      raiseAny ((if below rate (8 / 10) then [.lowSuccessRate rate] else []) ++
        (if silverCount < 1000 then [.tooFewTransactions silverCount] else []) ++
        (if above fee 1 then [.abnormalAvgFee fee] else []))
    -- a `None` cannot be formatted
    | _, _ => .error .typeError

/-- `run_token_flow_kpi_check`. -/
def runTokenFlowKpiCheck (silver : Partition FlowRow) (bronze : Partition BronzeTokenTransfer) :
    Except CheckError Unit :=
  match readBoth tokenFlowSchema tokenTransferSchema silver bronze with
  | .error _ => .ok ()
  | .ok (df, silverCount, bronzeCount) => do
    checkRetention silverCount bronzeCount
    let rows ← df.query ["token_address", "from_dex", "to_dex", "value_normalized"]
    let _ ← df.query ["symbol", "value_normalized"]
    let _ ← df.query ["block_timestamp"]
    let _ ← df.query ["from_dex", "to_dex"]
    let _ ← df.query ["token_address", "from_address", "to_address", "transaction_hash",
      "value_normalized"]
    let _ ← df.query ["from_dex", "to_dex"]
    let activeTokens := (rows.filterMap (·.tokenAddress)).dedup.length
    raiseAny ((if silverCount < 10 then [.absoluteDataLoss silverCount] else []) ++
      (if activeTokens < 1 then [.noActiveTokens] else []))

/-- A column that must not be null is. -/
def WhaleRow.hasNull (row : WhaleRow) : Bool :=
  row.hash.isNone || row.fromAddress.isNone || row.toAddress.isNone || row.valueEth.isNone

def WhaleRow.invalidValue (row : WhaleRow) : Bool :=
  match row.valueEth with
  | some q => q ≤ 0
  | none => false

/-- `run_whale_kpi_check`: only the path is read in the `try` block. -/
def runWhaleKpiCheck (silver : Partition WhaleRow) : Except CheckError Unit :=
  match silver.read whaleTxnSchema with
  | .error _ => .ok ()
  | .ok df => do
    let totalCount ← df.count
    let rows ← df.query ["hash", "from_address", "to_address", "value_eth"]
    let nullCounts := rows.countP WhaleRow.hasNull
    let invalidValueCount := rows.countP WhaleRow.invalidValue
    raiseAny ((if totalCount < 1 then [.absoluteDataLoss totalCount] else []) ++
      (if 0 < nullCounts then [.nullValues nullCounts] else []) ++
      (if 0 < invalidValueCount then [.invalidWhaleValue invalidValueCount] else []))
    let _ ← df.query ["has_flag", "flag_cex_deposit", "value_eth", "flag_cex_withdrawal",
      "flag_cex_to_cex", "flag_high_freq_sender", "from_address"]
    let _ ← df.query ["flag_cex_deposit", "to_label", "value_eth"]
    let _ ← df.query ["from_address", "value_eth", "from_label"]
    raiseAny (if totalCount < 1 then [.absoluteDataLoss totalCount] else [])

/-- The tables of a date that the job reads. -/
structure CheckedTables where
  txnEnriched : Partition EnrichedRow
  tokenFlow : Partition FlowRow
  whaleTxns : Partition WhaleRow
  transactions : Partition BronzeTransaction
  tokenTransfers : Partition BronzeTokenTransfer

/-- The error of a check, under the name of its table. -/
def failure (name : String) : Except CheckError Unit → List (String × CheckError)
  | .ok _ => []
  | .error e => [(name, e)]

/-- `main` of the job: all three checks run, and their errors are raised together. -/
def qualityCheckMain (tables : CheckedTables) : Except (List (String × CheckError)) Unit :=
  let errors := failure "txn_enriched" (runKpiCheck mean tables.txnEnriched tables.transactions) ++
    failure "token_flow" (runTokenFlowKpiCheck tables.tokenFlow tables.tokenTransfers) ++
    failure "whale_txns" (runWhaleKpiCheck tables.whaleTxns)
  if errors = [] then .ok () else .error errors

end checks

/-! ### When the job finishes -/

def Partition.Readable {α : Type} (p : Partition α) : Prop := ∃ rows, p = .rows rows

variable {α β : Type} {mean : List ℚ → PyFloat}

/-- A computation goes through when its first step does, and then the rest. -/
theorem isOk_bind_iff {ε γ δ : Type} {x : Except ε γ} {f : γ → Except ε δ} :
    (x >>= f).isOk = true ↔ ∃ a, x = .ok a ∧ (f a).isOk = true := by
  cases x with
  | error e => simp [Bind.bind, Except.bind, Except.isOk, Except.toBool]
  | ok a => simp [Bind.bind, Except.bind]

/-- A query that raises ends its check. -/
theorem isOk_bind_of_error {ε γ δ : Type} {x : Except ε γ} {f : γ → Except ε δ} {e : ε}
    (h : x = .error e) : (x >>= f).isOk = false := by
  rw [h]
  rfl

theorem Frame.query_eq_error {schema columns : List String} {column : String}
    {scan : Except CheckError (List α)}
    (h : columns.find? (fun column => column ∉ schema) = some column) :
    (⟨schema, scan⟩ : Frame α).query columns = .error (.analysis ⟨column⟩) := by
  unfold Frame.query
  rw [h]

/-- Without Silver rows the retention is zero. -/
theorem checkRetention_zero (bronzeCount : ℕ) :
    checkRetention 0 bronzeCount = .error (.dataLoss 0 bronzeCount) := by
  have hrate : retentionRate 0 bronzeCount = .finite 0 := by
    unfold retentionRate
    split
    · rw [show mkRat ((0 : ℕ) : ℤ) bronzeCount = 0 from Rat.zero_mkRat _]
      decide +kernel
    · rfl
  have hbelow : below (.finite 0) (99 / 100) = true := by decide +kernel
  unfold checkRetention
  rw [hrate, if_pos hbelow]

section reads

variable (silverSchema bronzeSchema : List String) {silver : Partition α} {bronze : Partition β}

/-- The `try` block raises unless both folders can be read. -/
theorem readBoth_eq_error (h : ¬ (silver.Readable ∧ bronze.Readable)) :
    ∃ e, readBoth silverSchema bronzeSchema silver bronze = .error e := by
  cases silver with
  | missing => exact ⟨_, rfl⟩
  | unreadable => exact ⟨_, rfl⟩
  | rows rs =>
    cases bronze with
    | missing => exact ⟨_, rfl⟩
    | unreadable => exact ⟨_, rfl⟩
    | rows bs => exact absurd ⟨⟨rs, rfl⟩, bs, rfl⟩ h

theorem readBoth_eq_ok (h : silver.Readable ∧ bronze.Readable) :
    ∃ rs silverCount bronzeCount, readBoth silverSchema bronzeSchema silver bronze
      = .ok (⟨silverSchema, .ok rs⟩, silverCount, bronzeCount) := by
  obtain ⟨⟨rs, rfl⟩, bs, rfl⟩ := h
  exact ⟨rs, _, _, rfl⟩

end reads

/-- **The first check** finishes exactly when it cannot read: past its reads it names
`tx_fee_eth`, which is not in the schema the table is read with. -/
theorem runKpiCheck_isOk_iff {silver : Partition EnrichedRow}
    {bronze : Partition BronzeTransaction} :
    (runKpiCheck mean silver bronze).isOk = true ↔ ¬ (silver.Readable ∧ bronze.Readable) := by
  unfold runKpiCheck
  by_cases h : silver.Readable ∧ bronze.Readable
  · obtain ⟨rs, silverCount, bronzeCount, hread⟩ :=
      readBoth_eq_ok enrichedTransactionSchema transactionSchema h
    have hquery : (⟨enrichedTransactionSchema, .ok rs⟩ : Frame EnrichedRow).query
        ["is_success", "tx_fee_eth", "value_eth", "is_contract_call", "is_contract_deploy"]
        = .error (.analysis ⟨"tx_fee_eth"⟩) := Frame.query_eq_error (by decide +kernel)
    rw [hread, iff_false_right (not_not_intro h)]
    dsimp only
    rw [isOk_bind_iff]
    rintro ⟨u, hretention, hrest⟩
    have hne : silverCount ≠ 0 := by
      intro hzero
      rw [hzero, checkRetention_zero] at hretention
      cases hretention
    rw [if_neg hne, isOk_bind_of_error hquery] at hrest
    cases hrest
  · obtain ⟨e, he⟩ := readBoth_eq_error enrichedTransactionSchema transactionSchema h
    rw [he]
    simp [h, Except.isOk, Except.toBool]

/-- **The second check** finishes exactly when it cannot read: past its reads it names
`from_dex`. -/
theorem runTokenFlowKpiCheck_isOk_iff {silver : Partition FlowRow}
    {bronze : Partition BronzeTokenTransfer} :
    (runTokenFlowKpiCheck silver bronze).isOk = true ↔
      ¬ (silver.Readable ∧ bronze.Readable) := by
  unfold runTokenFlowKpiCheck
  by_cases h : silver.Readable ∧ bronze.Readable
  · obtain ⟨rs, silverCount, bronzeCount, hread⟩ :=
      readBoth_eq_ok tokenFlowSchema tokenTransferSchema h
    have hquery : (⟨tokenFlowSchema, .ok rs⟩ : Frame FlowRow).query
        ["token_address", "from_dex", "to_dex", "value_normalized"]
        = .error (.analysis ⟨"from_dex"⟩) := Frame.query_eq_error (by decide +kernel)
    rw [hread, iff_false_right (not_not_intro h)]
    dsimp only
    rw [isOk_bind_iff]
    rintro ⟨u, -, hrest⟩
    rw [isOk_bind_of_error hquery] at hrest
    cases hrest
  · obtain ⟨e, he⟩ := readBoth_eq_error tokenFlowSchema tokenTransferSchema h
    rw [he]
    simp [h, Except.isOk, Except.toBool]

/-- **The third check** finishes exactly when there is no folder: past its reads it
names `has_flag`. -/
theorem runWhaleKpiCheck_isOk_iff {silver : Partition WhaleRow} :
    (runWhaleKpiCheck silver).isOk = true ↔ silver = .missing := by
  cases silver with
  | missing => exact iff_of_true rfl rfl
  | unreadable => exact iff_of_false Bool.false_ne_true (by simp)
  | rows rs =>
    have hquery : (⟨whaleTxnSchema, .ok rs⟩ : Frame WhaleRow).query
        ["has_flag", "flag_cex_deposit", "value_eth", "flag_cex_withdrawal", "flag_cex_to_cex",
          "flag_high_freq_sender", "from_address"]
        = .error (.analysis ⟨"has_flag"⟩) := Frame.query_eq_error (by decide +kernel)
    refine iff_of_false ?_ (by simp)
    unfold runWhaleKpiCheck Partition.read
    dsimp only
    -- whatever the first two queries and the gate say, the next query raises
    rw [isOk_bind_iff]
    rintro ⟨totalCount, -, hrest⟩
    obtain ⟨rows, -, hrest⟩ := isOk_bind_iff.mp hrest
    obtain ⟨u, -, hrest⟩ := isOk_bind_iff.mp hrest
    rw [isOk_bind_of_error hquery] at hrest
    cases hrest

/-! ### When the gate is right -/

/-- No check gets past its reads. -/
structure Unread (tables : CheckedTables) : Prop where
  transactions : ¬ (tables.txnEnriched.Readable ∧ tables.transactions.Readable)
  tokenTransfers : ¬ (tables.tokenFlow.Readable ∧ tables.tokenTransfers.Readable)
  whales : tables.whaleTxns = .missing

theorem failure_eq_nil_iff {name : String} {result : Except CheckError Unit} :
    failure name result = [] ↔ result.isOk = true := by
  cases result with
  | ok u => simp [failure, Except.isOk, Except.toBool]
  | error e => simp [failure, Except.isOk, Except.toBool]

/-- **The job finishes** exactly when no check gets past its reads. -/
theorem main_isOk_iff {tables : CheckedTables} :
    (qualityCheckMain mean tables).isOk = true ↔ Unread tables := by
  have hmain : (qualityCheckMain mean tables).isOk = true ↔
      (runKpiCheck mean tables.txnEnriched tables.transactions).isOk = true ∧
      (runTokenFlowKpiCheck tables.tokenFlow tables.tokenTransfers).isOk = true ∧
      (runWhaleKpiCheck tables.whaleTxns).isOk = true := by
    rw [← @failure_eq_nil_iff "txn_enriched", ← @failure_eq_nil_iff "token_flow",
      ← @failure_eq_nil_iff "whale_txns"]
    unfold qualityCheckMain
    dsimp only
    split
    · next herrors =>
      rw [List.append_eq_nil_iff, List.append_eq_nil_iff, and_assoc] at herrors
      exact ⟨fun _ => herrors, fun _ => rfl⟩
    · next herrors =>
      rw [List.append_eq_nil_iff, List.append_eq_nil_iff, and_assoc] at herrors
      exact ⟨fun h => absurd h Bool.false_ne_true, fun h => absurd h herrors⟩
  rw [hmain, runKpiCheck_isOk_iff, runTokenFlowKpiCheck_isOk_iff, runWhaleKpiCheck_isOk_iff]
  exact ⟨fun h => ⟨h.1, h.2.1, h.2.2⟩, fun h => ⟨h.transactions, h.tokenTransfers, h.whales⟩⟩

/-- At least 99% of the Bronze rows. -/
def Retained (silverCount bronzeCount : ℕ) : Prop :=
  0 < bronzeCount ∧ 99 * bronzeCount ≤ 100 * silverCount

/-- What the first check asks of the rows. -/
structure GoodTransactions (silver : List EnrichedRow) (bronze : List BronzeTransaction) :
    Prop where
  retained : Retained silver.length bronze.length
  enough : 1000 ≤ silver.length
  successRate : silver.filterMap (·.isSuccess) ≠ [] ∧
    8 * (silver.filterMap (·.isSuccess)).length ≤
      10 * (silver.filterMap (·.isSuccess)).count true
  avgFee : silver.filterMap (·.txFeeEth) ≠ [] ∧
    (silver.filterMap (·.txFeeEth)).sum ≤ (silver.filterMap (·.txFeeEth)).length

/-- What the second check asks of the rows. -/
structure GoodTransfers (silver : List FlowRow) (bronze : List BronzeTokenTransfer) : Prop where
  retained : Retained silver.length bronze.length
  enough : 10 ≤ silver.length
  active : ∃ row ∈ silver, row.tokenAddress ≠ none

/-- What the third check asks of the rows. -/
structure GoodWhales (silver : List WhaleRow) : Prop where
  some : silver ≠ []
  filled : ∀ row ∈ silver, row.hash ≠ none ∧ row.fromAddress ≠ none ∧ row.toAddress ≠ none
  positive : ∀ row ∈ silver, ∃ q, row.valueEth = .some q ∧ 0 < q

/-- Everything can be read, and passes every threshold. -/
structure Good (tables : CheckedTables) : Prop where
  transactions : ∃ silver bronze, tables.txnEnriched = .rows silver ∧
    tables.transactions = .rows bronze ∧ GoodTransactions silver bronze
  tokenTransfers : ∃ silver bronze, tables.tokenFlow = .rows silver ∧
    tables.tokenTransfers = .rows bronze ∧ GoodTransfers silver bronze
  whales : ∃ silver, tables.whaleTxns = .rows silver ∧ GoodWhales silver

/-- Data that pass have been read. -/
theorem Good.not_unread {tables : CheckedTables} (h : Good tables) : ¬ Unread tables := by
  intro hunread
  obtain ⟨silver, hsilver, -⟩ := h.whales
  rw [hunread.whales] at hsilver
  cases hsilver

/-- **The gate is right** about a date exactly when a check gets past its reads and the
data do not pass: it lets a date nobody read through, and rejects every good one. -/
theorem gate_exact_iff {tables : CheckedTables} :
    ((qualityCheckMain mean tables).isOk = true ↔ Good tables) ↔
      ¬ Unread tables ∧ ¬ Good tables := by
  rw [main_isOk_iff]
  constructor
  · intro h
    have hunread : ¬ Unread tables := fun hu => (h.mp hu).not_unread hu
    exact ⟨hunread, fun hgood => hunread (h.mpr hgood)⟩
  · rintro ⟨hunread, hgood⟩
    exact ⟨fun hu => absurd hu hunread, fun hg => absurd hg hgood⟩

/-- One row throughout, as often on both sides. -/
theorem goodTransactions_replicate {n : ℕ} (hn : 1000 ≤ n) {row : EnrichedRow} {fee : ℚ}
    (hsuccess : row.isSuccess = some true) (hfee : row.txFeeEth = some fee) (hone : fee ≤ 1)
    (bronze : BronzeTransaction) :
    GoodTransactions (List.replicate n row) (List.replicate n bronze) where
  retained := by
    rw [List.length_replicate, List.length_replicate]
    exact ⟨by omega, by omega⟩
  enough := by rwa [List.length_replicate]
  successRate := by
    rw [List.filterMap_replicate_of_some hsuccess, List.length_replicate,
      List.count_replicate_self]
    exact ⟨by rw [Ne, List.replicate_eq_nil_iff]; omega, by omega⟩
  avgFee := by
    rw [List.filterMap_replicate_of_some hfee, List.length_replicate, List.sum_replicate,
      nsmul_eq_mul]
    exact ⟨by rw [Ne, List.replicate_eq_nil_iff]; omega,
      mul_le_of_le_one_right (Nat.cast_nonneg n) hone⟩

theorem goodTransfers_replicate {n : ℕ} (hn : 10 ≤ n) {row : FlowRow}
    (hactive : row.tokenAddress ≠ none) (bronze : BronzeTokenTransfer) :
    GoodTransfers (List.replicate n row) (List.replicate n bronze) where
  retained := by
    rw [List.length_replicate, List.length_replicate]
    exact ⟨by omega, by omega⟩
  enough := by rwa [List.length_replicate]
  active := ⟨row, List.mem_replicate.mpr ⟨by omega, rfl⟩, hactive⟩

/-- A date that passes every threshold, with one row throughout each table. -/
def goodDate : CheckedTables where
  txnEnriched := .rows (List.replicate 1000
    ⟨some "0x1", some 1, some 1, some "0xa", some "0xb", some 100, some 1, some true,
      some false, some false, some 0⟩)
  tokenFlow := .rows (List.replicate 10
    ⟨some "0x1", some 1, some 0, some 0, some "0xc", some "T", some "Token", some "0xa",
      "Unknown", "Unknown", some "0xb", "Unknown", "Unknown", some (.finite 1)⟩)
  whaleTxns := .rows
    [⟨some "0x1", some 1, some 0, some 0, some "0xa", "Unknown", "Unknown", "Unknown",
      some "0xb", "Unknown", "Unknown", "Unknown", some 100, some 100, 1, some 100, "Shark",
      "PRIVATE_MOVE", true, some false⟩]
  transactions := .rows (List.replicate 1000
    ⟨some "0x1", some 1, some 1, some "0xa", some "0xb", some (10 ^ 20), some "0x"⟩)
  tokenTransfers := .rows (List.replicate 10
    ⟨some "0xc", some "0xa", some "0xb", some 1, some "0x1", some 1⟩)

theorem good_goodDate : Good goodDate where
  transactions :=
    ⟨_, _, rfl, rfl, goodTransactions_replicate (le_refl 1000) rfl rfl (le_refl 1) _⟩
  tokenTransfers :=
    ⟨_, _, rfl, rfl, goodTransfers_replicate (le_refl 10) (Option.some_ne_none _) _⟩
  whales := by
    refine ⟨_, rfl, List.cons_ne_nil _ _, ?_, ?_⟩
    · simp
    · simp

/-- A date without a folder passes, and the good one does not. -/
theorem gate_wrong_both_ways :
    ¬ ((qualityCheckMain (fun _ => .nan) ⟨.missing, .missing, .missing, .missing, .missing⟩).isOk
        = true ↔ Good ⟨.missing, .missing, .missing, .missing, .missing⟩) ∧
      ¬ ((qualityCheckMain (fun _ => .nan) goodDate).isOk = true ↔ Good goodDate) := by
  constructor
  · intro h
    obtain ⟨silver, hsilver, -⟩ := (h.mp rfl).whales
    cases hsilver
  · intro h
    exact good_goodDate.not_unread (main_isOk_iff.mp (h.mpr good_goodDate))

end Silver

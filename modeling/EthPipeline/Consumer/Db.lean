import EthPipeline.Base.Keyed
import EthPipeline.Consumer.Models

/-!
# The consumer's tables

`infra/postgres/init.sql` and `src/consumer/db.py`.  The two tables are keyed by
their primary keys; a batch goes in through `execute_values` with
`ON CONFLICT DO NOTHING`, which is `Keyed.storeAll` over the conversion of a
model to a row.  That conversion is the column types: a `VARCHAR(n)` refuses a
longer text, unless only blanks are in excess, and no text holds a NUL; an
`INTEGER` has 32 bits; an amount is `NUMERIC`, which holds every integer.
-/

namespace Consumer

/-- A value going into a `VARCHAR(n)` column; `none` is an error. -/
def varchar (n : ℕ) (s : String) : Option String :=
  if '\x00' ∈ s.toList then none
  else if s.length ≤ n then some s
  else if (s.toList.drop n).all (· = ' ') then some (String.ofList (s.toList.take n))
  else none

/-- A value going into an `INTEGER` column. -/
def int4 (n : ℤ) : Option ℤ := if -2 ^ 31 ≤ n ∧ n < 2 ^ 31 then some n else none

/-- The same for a column without `NOT NULL`. -/
def nullable {α : Type} (column : α → Option α) : Option α → Option (Option α)
  | none => some none
  | some a => (column a).map some

theorem nullable_eq_none {α : Type} {column : α → Option α} {a b : Option α}
    (h : nullable column a = some b) : b = none ↔ a = none := by
  cases a with
  | none => simpa [nullable, eq_comm] using h
  | some a =>
    obtain ⟨c, -, rfl⟩ := Option.map_eq_some_iff.mp h
    simp

structure TransactionRow where
  hash : String
  timestamp : Timestamp
  fromAddress : String
  toAddress : Option String
  value : Option ℤ
  gasPrice : Option ℤ
  deriving DecidableEq, Repr

structure TokenTransferRow where
  transactionHash : String
  logIndex : ℤ
  timestamp : Timestamp
  tokenAddress : String
  fromAddress : String
  toAddress : String
  value : Option ℤ
  deriving DecidableEq, Repr

namespace TransactionRow

/-- `PRIMARY KEY (hash, timestamp)`. -/
def key (r : TransactionRow) : String × Timestamp := (r.hash, r.timestamp)

def ofModel (tx : TransactionModel) : Option TransactionRow := do
  let hash ← varchar 66 tx.hash
  let fromAddress ← varchar 42 tx.fromAddress
  let toAddress ← nullable (varchar 42) tx.toAddress
  return { hash, timestamp := tx.timestamp, fromAddress, toAddress, value := some tx.value,
           gasPrice := some tx.gasPrice }

theorem ofModel_eq_some {tx : TransactionModel} {r : TransactionRow} (h : ofModel tx = some r) :
    varchar 66 tx.hash = some r.hash ∧ r.timestamp = tx.timestamp ∧ r.value = some tx.value ∧
      r.gasPrice = some tx.gasPrice ∧ (r.toAddress = none ↔ tx.toAddress = none) := by
  simp only [ofModel, Option.bind_eq_bind, Option.bind_eq_some_iff, Option.pure_def] at h
  obtain ⟨hash, h1, src, h2, dst, h3, h⟩ := h
  obtain rfl := Option.some.inj h
  exact ⟨h1, rfl, rfl, rfl, nullable_eq_none h3⟩

end TransactionRow

namespace TokenTransferRow

/-- `PRIMARY KEY (transaction_hash, log_index, timestamp)`. -/
def key (r : TokenTransferRow) : String × ℤ × Timestamp :=
  (r.transactionHash, r.logIndex, r.timestamp)

/-- The column `timestamp` is `NOT NULL`: a transfer without one is refused. -/
def ofModel (tt : TokenTransferModel) : Option TokenTransferRow := do
  let transactionHash ← varchar 66 tt.transactionHash
  let logIndex ← int4 tt.logIndex
  let timestamp ← tt.timestamp
  let tokenAddress ← varchar 42 tt.tokenAddress
  let fromAddress ← varchar 42 tt.fromAddress
  let toAddress ← varchar 42 tt.toAddress
  return { transactionHash, logIndex, timestamp, tokenAddress, fromAddress, toAddress,
           value := some tt.value }

theorem ofModel_eq_some {tt : TokenTransferModel} {r : TokenTransferRow} (h : ofModel tt = some r) :
    varchar 66 tt.transactionHash = some r.transactionHash ∧ r.logIndex = tt.logIndex ∧
      tt.timestamp = some r.timestamp ∧ r.value = some tt.value := by
  simp only [ofModel, Option.bind_eq_bind, Option.bind_eq_some_iff, Option.pure_def] at h
  obtain ⟨hash, h1, idx, h2, ts, h3, tok, h4, src, h5, dst, h6, h⟩ := h
  obtain rfl := Option.some.inj h
  refine ⟨h1, ?_, h3, rfl⟩
  unfold int4 at h2
  split at h2
  · exact (Option.some.inj h2).symm
  · simp at h2

end TokenTransferRow

abbrev TransactionTable := Keyed TransactionRow.key
abbrev TokenTransferTable := Keyed TokenTransferRow.key

/-- The two tables the consumer writes. -/
structure Tables where
  transactions : TransactionTable
  tokenTransfers : TokenTransferTable
  deriving DecidableEq

def Tables.empty : Tables := ⟨Keyed.empty, Keyed.empty⟩

/-- `insert_transactions_batch`; `none` is an error of the statement. -/
def Tables.insertTransactionsBatch (T : Tables) (txs : List TransactionModel) : Option Tables :=
  (T.transactions.storeAll TransactionRow.ofModel txs).map fun t => { T with transactions := t }

/-- `insert_token_transfers_batch`. -/
def Tables.insertTokenTransfersBatch (T : Tables) (tts : List TokenTransferModel) : Option Tables :=
  (T.tokenTransfers.storeAll TokenTransferRow.ofModel tts).map fun t => { T with tokenTransfers := t }

/-- A later state of the tables: rows are only added. -/
structure Tables.Le (T U : Tables) : Prop where
  transactions : T.transactions.rows <+: U.transactions.rows
  tokenTransfers : T.tokenTransfers.rows <+: U.tokenTransfers.rows

namespace Tables

theorem Le.refl (T : Tables) : T.Le T := ⟨List.prefix_rfl, List.prefix_rfl⟩

theorem Le.trans {T U V : Tables} (h : T.Le U) (g : U.Le V) : T.Le V :=
  ⟨h.1.trans g.1, h.2.trans g.2⟩

theorem insertTransactionsBatch_eq_some {T U : Tables} {txs : List TransactionModel}
    (h : T.insertTransactionsBatch txs = some U) :
    T.transactions.storeAll TransactionRow.ofModel txs = some U.transactions ∧
      U.tokenTransfers = T.tokenTransfers := by
  obtain ⟨t, ht, rfl⟩ := Option.map_eq_some_iff.mp h
  exact ⟨ht, rfl⟩

theorem insertTokenTransfersBatch_eq_some {T U : Tables} {tts : List TokenTransferModel}
    (h : T.insertTokenTransfersBatch tts = some U) :
    T.tokenTransfers.storeAll TokenTransferRow.ofModel tts = some U.tokenTransfers ∧
      U.transactions = T.transactions := by
  obtain ⟨t, ht, rfl⟩ := Option.map_eq_some_iff.mp h
  exact ⟨ht, rfl⟩

@[simp] theorem insertTransactionsBatch_nil (T : Tables) :
    T.insertTransactionsBatch [] = some T := by
  simp [insertTransactionsBatch]

@[simp] theorem insertTokenTransfersBatch_nil (T : Tables) :
    T.insertTokenTransfersBatch [] = some T := by
  simp [insertTokenTransfersBatch]

/-- **What a transaction of the database stored, it may store again.** -/
theorem insert_again {T U V : Tables} {txs : List TransactionModel}
    {tts : List TokenTransferModel} (hU : T.insertTransactionsBatch txs = some U)
    (hV : U.insertTokenTransfersBatch tts = some V) :
    V.insertTransactionsBatch txs = some V ∧ V.insertTokenTransfersBatch tts = some V := by
  obtain ⟨htx, -⟩ := insertTransactionsBatch_eq_some hU
  obtain ⟨htt, he⟩ := insertTokenTransfersBatch_eq_some hV
  have htx' : V.transactions.storeAll TransactionRow.ofModel txs = some V.transactions := by
    rw [he]
    exact Keyed.storeAll_of_subset htx fun _ h => h
  have htt' : V.tokenTransfers.storeAll TokenTransferRow.ofModel tts = some V.tokenTransfers :=
    Keyed.storeAll_of_subset htt fun _ h => h
  simp [insertTransactionsBatch, insertTokenTransfersBatch, htx', htt']

theorem insertTransactionsBatch_isSome {T : Tables} {txs : List TransactionModel}
    (h : ∀ tx ∈ txs, (TransactionRow.ofModel tx).isSome) :
    (T.insertTransactionsBatch txs).isSome := by
  rw [insertTransactionsBatch, Option.isSome_map, Keyed.storeAll, if_pos h]
  rfl

theorem insertTokenTransfersBatch_isSome {T : Tables} {tts : List TokenTransferModel}
    (h : ∀ tt ∈ tts, (TokenTransferRow.ofModel tt).isSome) :
    (T.insertTokenTransfersBatch tts).isSome := by
  rw [insertTokenTransfersBatch, Option.isSome_map, Keyed.storeAll, if_pos h]
  rfl

theorem le_insertTransactionsBatch {T U : Tables} {txs : List TransactionModel}
    (h : T.insertTransactionsBatch txs = some U) : T.Le U := by
  obtain ⟨h1, h2⟩ := insertTransactionsBatch_eq_some h
  exact ⟨Keyed.rows_prefix_storeAll h1, h2 ▸ List.prefix_rfl⟩

theorem le_insertTokenTransfersBatch {T U : Tables} {tts : List TokenTransferModel}
    (h : T.insertTokenTransfersBatch tts = some U) : T.Le U := by
  obtain ⟨h1, h2⟩ := insertTokenTransfersBatch_eq_some h
  exact ⟨h2 ▸ List.prefix_rfl, Keyed.rows_prefix_storeAll h1⟩

/-- A row with the hash of `h` as the column holds it. -/
def HasTransaction (T : Tables) (h : String) : Prop :=
  ∃ r ∈ T.transactions.rows, varchar 66 h = some r.hash

/-- A row with the hash and log index of a transfer. -/
def HasTokenTransfer (T : Tables) (h : String) (logIndex : ℤ) : Prop :=
  ∃ r ∈ T.tokenTransfers.rows, varchar 66 h = some r.transactionHash ∧ r.logIndex = logIndex

theorem HasTransaction.mono {T U : Tables} (hle : T.Le U) {h : String} (hT : T.HasTransaction h) :
    U.HasTransaction h := by
  obtain ⟨r, hr, he⟩ := hT
  exact ⟨r, hle.transactions.subset hr, he⟩

theorem HasTokenTransfer.mono {T U : Tables} (hle : T.Le U) {h : String} {i : ℤ}
    (hT : T.HasTokenTransfer h i) : U.HasTokenTransfer h i := by
  obtain ⟨r, hr, he⟩ := hT
  exact ⟨r, hle.tokenTransfers.subset hr, he⟩

/-- **Every transaction of an inserted batch has its row.** -/
theorem hasTransaction_of_insert {T U : Tables} {txs : List TransactionModel}
    (h : T.insertTransactionsBatch txs = some U) {tx : TransactionModel} (htx : tx ∈ txs) :
    U.HasTransaction tx.hash := by
  obtain ⟨r, hr, hk⟩ := Keyed.exists_row_of_storeAll (insertTransactionsBatch_eq_some h).1 htx
  obtain ⟨q, hq, he⟩ := Keyed.hasKey_iff.mp hk
  have hhash : q.hash = r.hash := congrArg Prod.fst he
  exact ⟨q, hq, by rw [hhash]; exact (TransactionRow.ofModel_eq_some hr).1⟩

theorem hasTokenTransfer_of_insert {T U : Tables} {tts : List TokenTransferModel}
    (h : T.insertTokenTransfersBatch tts = some U) {tt : TokenTransferModel} (htt : tt ∈ tts) :
    U.HasTokenTransfer tt.transactionHash tt.logIndex := by
  obtain ⟨r, hr, hk⟩ := Keyed.exists_row_of_storeAll (insertTokenTransfersBatch_eq_some h).1 htt
  obtain ⟨q, hq, he⟩ := Keyed.hasKey_iff.mp hk
  have hhash : q.transactionHash = r.transactionHash := congrArg Prod.fst he
  have hidx : q.logIndex = r.logIndex := congrArg (fun k => k.2.1) he
  obtain ⟨h1, h2, -⟩ := TokenTransferRow.ofModel_eq_some hr
  exact ⟨q, hq, by rw [hhash]; exact h1, by rw [hidx]; exact h2⟩

end Tables

end Consumer

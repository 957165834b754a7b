import EthPipeline.Base.Query
import EthPipeline.Consumer.Db

/-!
# The queries of the backend

`src/backend/repositories/whale_repo.py` and `wallet_repo.py` over the tables of
`infra/postgres/init.sql`.  A query is the relation between the tables and its
answers.  `tokens` and `address_labels` have the address as primary key, so a
`LEFT JOIN` with one of them finds a row or none.
-/

namespace Backend

open Consumer Query

/-- The only writer of `tokens` is `load_tokens_from_csv`, and its decimals are
never negative. -/
structure Token where
  symbol : Option String
  name : Option String
  decimals : Option ℕ
  deriving DecidableEq, Repr

structure AddressLabel where
  name : Option String
  category : Option String
  deriving DecidableEq, Repr

structure Database where
  stored : Tables
  tokens : String → Option Token
  addressLabels : String → Option AddressLabel

/-- The columns of the joined labels, in every query. -/
structure Labels where
  fromLabel : Option String
  toLabel : Option String
  fromCategory : Option String
  toCategory : Option String
  deriving DecidableEq, Repr

structure WhaleRow where
  hash : String
  timestamp : Timestamp
  fromAddress : String
  toAddress : Option String
  value : Option ℤ
  labels : Labels
  deriving DecidableEq, Repr

structure EthRow where
  hash : String
  timestamp : Timestamp
  fromAddress : String
  toAddress : Option String
  value : Option ℤ
  gasPrice : Option ℤ
  labels : Labels
  deriving DecidableEq, Repr

structure TokenRow where
  hash : String
  timestamp : Timestamp
  fromAddress : String
  toAddress : String
  value : Option ℤ
  symbol : Option String
  decimals : Option ℕ
  labels : Labels
  deriving DecidableEq, Repr

namespace Database

variable (db : Database)

def labels (fromAddress : String) (toAddress : Option String) : Labels :=
  let alFrom := db.addressLabels fromAddress
  let alTo := toAddress.bind db.addressLabels
  { fromLabel := alFrom.bind (·.name), toLabel := alTo.bind (·.name),
    fromCategory := alFrom.bind (·.category), toCategory := alTo.bind (·.category) }

def whaleRow (t : TransactionRow) : WhaleRow :=
  { hash := t.hash, timestamp := t.timestamp, fromAddress := t.fromAddress,
    toAddress := t.toAddress, value := t.value, labels := db.labels t.fromAddress t.toAddress }

def ethRow (t : TransactionRow) : EthRow :=
  { hash := t.hash, timestamp := t.timestamp, fromAddress := t.fromAddress,
    toAddress := t.toAddress, value := t.value, gasPrice := t.gasPrice,
    labels := db.labels t.fromAddress t.toAddress }

def tokenRow (t : TokenTransferRow) : TokenRow :=
  let token := db.tokens t.tokenAddress
  { hash := t.transactionHash, timestamp := t.timestamp, fromAddress := t.fromAddress,
    toAddress := t.toAddress, value := t.value, symbol := token.bind (·.symbol),
    decimals := token.bind (·.decimals), labels := db.labels t.fromAddress (some t.toAddress) }

/-- `WHERE value >= threshold`, which no `NULL` satisfies. -/
def AtLeast (threshold : ℤ) (t : TransactionRow) : Prop := t.value.any (threshold ≤ ·)

instance (threshold : ℤ) (t : TransactionRow) : Decidable (AtLeast threshold t) :=
  inferInstanceAs (Decidable (_ = true))

/-- The answers of `get_recent_whales`. -/
def RecentWhales (thresholdWei : ℤ) (limit : ℕ) (rows : List WhaleRow) : Prop :=
  ∃ found, Answer (Newer (·.timestamp)) limit
    (db.stored.transactions.rows.filter (AtLeast thresholdWei)) found ∧
      rows = found.map db.whaleRow

/-- The newest of those sent and the newest of those received, `UNION ALL`: what
an address sends to itself is there twice. -/
def Involving {ρ : Type} (time : ρ → Timestamp) (sent received : ρ → Bool) (limit : ℕ)
    (stored found : List ρ) : Prop :=
  ∃ outgoing incoming, Answer (Newer time) limit (stored.filter sent) outgoing ∧
    Answer (Newer time) limit (stored.filter received) incoming ∧
      Answer (Newer time) limit (outgoing ++ incoming) found

/-- The answers of `get_eth_transactions`. -/
def EthTransactions (address : String) (limit : ℕ) (rows : List EthRow) : Prop :=
  ∃ found, Involving TransactionRow.timestamp (·.fromAddress = address)
    (·.toAddress = some address) limit db.stored.transactions.rows found ∧
      rows = found.map db.ethRow

/-- The answers of `get_token_transfers`. -/
def TokenTransfers (address : String) (limit : ℕ) (rows : List TokenRow) : Prop :=
  ∃ found, Involving TokenTransferRow.timestamp (·.fromAddress = address)
    (·.toAddress = address) limit db.stored.tokenTransfers.rows found ∧
      rows = found.map db.tokenRow

end Database

/-! ### Repositories -/

/-- A repository; `none` is an exception of the query. -/
structure WhaleRepository where
  getRecentWhales : ℤ → ℕ → Option (List WhaleRow)

structure WalletRepository where
  getEthTransactions : String → ℕ → Option (List EthRow)
  getTokenTransfers : String → ℕ → Option (List TokenRow)

namespace Database

variable (db : Database)

def recentWhales (thresholdWei : ℤ) (limit : ℕ) : List WhaleRow :=
  (latest TransactionRow.timestamp limit
    (db.stored.transactions.rows.filter (AtLeast thresholdWei))).map db.whaleRow

def latestInvolving {ρ : Type} (time : ρ → Timestamp) (sent received : ρ → Bool) (limit : ℕ)
    (stored : List ρ) : List ρ :=
  latest time limit
    (latest time limit (stored.filter sent) ++ latest time limit (stored.filter received))

def ethTransactions (address : String) (limit : ℕ) : List EthRow :=
  (latestInvolving TransactionRow.timestamp (·.fromAddress = address) (·.toAddress = some address)
    limit db.stored.transactions.rows).map db.ethRow

def tokenTransfers (address : String) (limit : ℕ) : List TokenRow :=
  (latestInvolving TokenTransferRow.timestamp (·.fromAddress = address) (·.toAddress = address)
    limit db.stored.tokenTransfers.rows).map db.tokenRow

/-- The repositories over a database that keeps equal rows in the order of the
table. -/
def whaleRepository : WhaleRepository where
  getRecentWhales thresholdWei limit := some (db.recentWhales thresholdWei limit)

def walletRepository : WalletRepository where
  getEthTransactions address limit := some (db.ethTransactions address limit)
  getTokenTransfers address limit := some (db.tokenTransfers address limit)

theorem recentWhales_answers (thresholdWei : ℤ) (limit : ℕ) :
    db.RecentWhales thresholdWei limit (db.recentWhales thresholdWei limit) :=
  ⟨_, answer_latest _ _ _, rfl⟩

theorem involving_latest {ρ : Type} (time : ρ → Timestamp) (sent received : ρ → Bool) (limit : ℕ)
    (stored : List ρ) :
    Involving time sent received limit stored (latestInvolving time sent received limit stored) :=
  ⟨_, _, answer_latest _ _ _, answer_latest _ _ _, answer_latest _ _ _⟩

theorem ethTransactions_answers (address : String) (limit : ℕ) :
    db.EthTransactions address limit (db.ethTransactions address limit) :=
  ⟨_, involving_latest _ _ _ _ _, rfl⟩

theorem tokenTransfers_answers (address : String) (limit : ℕ) :
    db.TokenTransfers address limit (db.tokenTransfers address limit) :=
  ⟨_, involving_latest _ _ _ _ _, rfl⟩

end Database

/-! ### Where the rows come from -/

theorem Database.Involving.subset {ρ : Type} {time : ρ → Timestamp} {sent received : ρ → Bool}
    {limit : ℕ} {stored found : List ρ}
    (h : Involving time sent received limit stored found) : found ⊆ stored := by
  obtain ⟨outgoing, incoming, hout, hin, hboth⟩ := h
  intro r hr
  rcases List.mem_append.mp (hboth.subset hr) with h | h
  · exact (List.mem_filter.mp (hout.subset h)).1
  · exact (List.mem_filter.mp (hin.subset h)).1

variable {db : Database} {limit : ℕ}

theorem Database.RecentWhales.stored {thresholdWei : ℤ} {rows : List WhaleRow}
    (h : db.RecentWhales thresholdWei limit rows) {r : WhaleRow} (hr : r ∈ rows) :
    ∃ t ∈ db.stored.transactions.rows, r = db.whaleRow t := by
  obtain ⟨found, hfound, rfl⟩ := h
  obtain ⟨t, ht, rfl⟩ := List.mem_map.mp hr
  exact ⟨t, (List.mem_filter.mp (hfound.subset ht)).1, rfl⟩

theorem Database.EthTransactions.stored {address : String} {rows : List EthRow}
    (h : db.EthTransactions address limit rows) {r : EthRow} (hr : r ∈ rows) :
    ∃ t ∈ db.stored.transactions.rows, r = db.ethRow t := by
  obtain ⟨found, hfound, rfl⟩ := h
  obtain ⟨t, ht, rfl⟩ := List.mem_map.mp hr
  exact ⟨t, hfound.subset ht, rfl⟩

theorem Database.TokenTransfers.stored {address : String} {rows : List TokenRow}
    (h : db.TokenTransfers address limit rows) {r : TokenRow} (hr : r ∈ rows) :
    ∃ t ∈ db.stored.tokenTransfers.rows, r = db.tokenRow t := by
  obtain ⟨found, hfound, rfl⟩ := h
  obtain ⟨t, ht, rfl⟩ := List.mem_map.mp hr
  exact ⟨t, hfound.subset ht, rfl⟩

end Backend

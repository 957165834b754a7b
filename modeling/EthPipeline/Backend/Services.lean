import EthPipeline.Backend.Repositories
import EthPipeline.Consumer.Refinement

/-!
# Serving the stored rows

`src/backend/services/whale_service.py` and `wallet_service.py` with the response
models of `src/backend/models/schemas.py`.  A row that does not become a
response model is an exception, and one exception turns the whole response into
`DatabaseFetchError`.

* `served_iff_to_addresses`: over the tables any history of the consumer leaves,
  the two services serve their rows exactly when no transaction among them is a
  contract creation (and no token has more than 308 decimals).
* `contract_creation_not_served`: the consumer stores a contract creation, and
  the list of recent whales is an error.
-/

namespace Backend

open Consumer

structure WhaleTransaction where
  hash : String
  timestamp : Timestamp
  fromAddress : String
  toAddress : String
  valueEth : PyFloat
  labels : Labels
  deriving DecidableEq, Repr

structure WhaleListResponse where
  whales : List WhaleTransaction
  deriving DecidableEq, Repr

structure EthTransactionHistory where
  hash : String
  timestamp : Timestamp
  type : String
  fromAddress : String
  toAddress : String
  valueEth : PyFloat
  gasPriceGwei : Option PyFloat
  labels : Labels
  deriving DecidableEq, Repr

structure TokenTransferHistory where
  hash : String
  timestamp : Timestamp
  type : String
  fromAddress : String
  toAddress : String
  symbol : String
  value : PyFloat
  labels : Labels
  deriving DecidableEq, Repr

structure WalletHistoryResponse where
  address : String
  ethTransactions : List EthTransactionHistory
  tokenTransfers : List TokenTransferHistory
  deriving DecidableEq, Repr

structure DatabaseFetchError where
  message : String
  deriving DecidableEq, Repr

/-! ### Rows to models -/

/-- `float(v)` of a `NUMERIC` column: it goes through the decimal text, so a
number that is too large is an infinity, and `NULL` is a `TypeError`. -/
def floatOfNumeric (v : Option ℤ) : Option PyFloat := v.map fun n => PyFloat.ofRat n

/-- `x / 10 ** decimals`: the power is an integer, and becomes a float if it can. -/
def divByPow (x : PyFloat) (decimals : ℕ) : Option PyFloat :=
  (Binary64.ofInt (10 ^ decimals)).map x.divBy

/-- `row['decimals'] if row['decimals'] else 18`. -/
def decimalsOrDefault (decimals : Option ℕ) : ℕ :=
  match decimals with
  | some d => if d = 0 then 18 else d
  | none => 18

def direction (lower : String → String) (address fromAddress : String) : String :=
  let fromAddr := if fromAddress = "" then "" else lower fromAddress
  if fromAddr = address then "OUT" else "IN"

/-- `to_address: str` refuses `None`. -/
def whaleTransaction (row : WhaleRow) : Option WhaleTransaction := do
  let value ← floatOfNumeric row.value
  let toAddress ← row.toAddress
  return { hash := row.hash, timestamp := row.timestamp, fromAddress := row.fromAddress,
           toAddress, valueEth := value.divBy (10 ^ 18), labels := row.labels }

def gasPriceGwei (gasPrice : Option ℤ) : Option PyFloat :=
  match gasPrice with
  | some n => if n = 0 then none else some ((PyFloat.ofRat n).divBy (10 ^ 9))
  | none => none

def ethTransactionHistory (lower : String → String) (address : String) (row : EthRow) :
    Option EthTransactionHistory := do
  let value ← floatOfNumeric row.value
  let toAddress ← row.toAddress
  return { hash := row.hash, timestamp := row.timestamp,
           type := direction lower address row.fromAddress, fromAddress := row.fromAddress,
           toAddress, valueEth := value.divBy (10 ^ 18), gasPriceGwei := gasPriceGwei row.gasPrice,
           labels := row.labels }

def tokenTransferHistory (lower : String → String) (address : String) (row : TokenRow) :
    Option TokenTransferHistory := do
  let amount ← floatOfNumeric row.value
  let value ← divByPow amount (decimalsOrDefault row.decimals)
  return { hash := row.hash, timestamp := row.timestamp,
           type := direction lower address row.fromAddress, fromAddress := row.fromAddress,
           toAddress := row.toAddress,
           symbol := if row.symbol.getD "" = "" then "UNKNOWN" else row.symbol.getD "",
           value, labels := row.labels }

/-! ### The services -/

def whaleThresholdWei : ℤ := 100 * 10 ^ 18

/-- `except Exception: raise DatabaseFetchError(...)`. -/
def orFetchError {α : Type} (body : Option α) : Except DatabaseFetchError α :=
  match body with
  | some a => .ok a
  | none => .error ⟨"Database query failed"⟩

def getRecentWhales (repo : WhaleRepository) (limit : ℕ) :
    Except DatabaseFetchError WhaleListResponse :=
  orFetchError do
    let rows ← repo.getRecentWhales whaleThresholdWei limit
    let whales ← rows.mapM whaleTransaction
    return { whales }

def getWalletHistory (lower : String → String) (repo : WalletRepository) (address : String)
    (limit : ℕ) : Except DatabaseFetchError WalletHistoryResponse :=
  let address := lower address
  orFetchError do
    let ethRows ← repo.getEthTransactions address limit
    let tokenRows ← repo.getTokenTransfers address limit
    let ethTransactions ← ethRows.mapM (ethTransactionHistory lower address)
    let tokenTransfers ← tokenRows.mapM (tokenTransferHistory lower address)
    return { address, ethTransactions, tokenTransfers }

/-! ### Which rows become models -/

variable {lower : String → String} {address : String}

theorem whaleTransaction_isSome_iff {row : WhaleRow} (hvalue : row.value.isSome) :
    (whaleTransaction row).isSome ↔ row.toAddress ≠ none := by
  obtain ⟨v, hv⟩ := Option.isSome_iff_exists.mp hvalue
  cases hto : row.toAddress <;> simp [whaleTransaction, floatOfNumeric, hv, hto]

theorem ethTransactionHistory_isSome_iff {row : EthRow} (hvalue : row.value.isSome) :
    (ethTransactionHistory lower address row).isSome ↔ row.toAddress ≠ none := by
  obtain ⟨v, hv⟩ := Option.isSome_iff_exists.mp hvalue
  cases hto : row.toAddress <;> simp [ethTransactionHistory, floatOfNumeric, hv, hto]

theorem pow_lt_iff_le {b k n : ℕ} (hb : 1 < b) (hlt : b ^ k < n) (hle : n ≤ b ^ (k + 1)) (d : ℕ) :
    b ^ d < n ↔ d ≤ k := by
  constructor
  · intro hd
    have hpow : b ^ d < b ^ (k + 1) := lt_of_lt_of_le hd hle
    have hexp : d < k + 1 := (Nat.pow_lt_pow_iff_right hb).mp hpow
    omega
  · intro hd
    have hpow : b ^ d ≤ b ^ k := Nat.pow_le_pow_right (Nat.zero_lt_of_lt hb) hd
    exact lt_of_le_of_lt hpow hlt

theorem divByPow_isSome_iff (x : PyFloat) (d : ℕ) : (divByPow x d).isSome ↔ d ≤ 308 := by
  have habs : (10 ^ d : ℤ).natAbs = 10 ^ d := by simp [Int.natAbs_pow]
  rw [divByPow, Option.isSome_map, Binary64.ofInt_isSome_iff, habs]
  exact pow_lt_iff_le (by decide) (by decide +kernel) (by decide +kernel) d

theorem decimalsOrDefault_le_iff (decimals : Option ℕ) :
    decimalsOrDefault decimals ≤ 308 ↔ ∀ d, decimals = some d → d ≤ 308 := by
  cases decimals with
  | none => simp [decimalsOrDefault]
  | some d =>
    rw [decimalsOrDefault]
    split
    · next hd => simp [hd]
    · simp

theorem tokenTransferHistory_isSome_iff {row : TokenRow} (hvalue : row.value.isSome) :
    (tokenTransferHistory lower address row).isSome ↔ ∀ d, row.decimals = some d → d ≤ 308 := by
  obtain ⟨v, hv⟩ := Option.isSome_iff_exists.mp hvalue
  rw [← decimalsOrDefault_le_iff, ← divByPow_isSome_iff (PyFloat.ofRat v)]
  cases hpow : divByPow (PyFloat.ofRat v) (decimalsOrDefault row.decimals) <;>
    simp [tokenTransferHistory, floatOfNumeric, hv, hpow]

/-- All rows become models, one for each. -/
theorem mapM_serves_iff {α β κ : Type} {model : α → Option β} {rowKey : α → κ} {key : β → κ}
    (hkey : ∀ a b, model a = some b → key b = rowKey a) (rows : List α) :
    (∃ models, rows.mapM model = some models ∧ models.map key = rows.map rowKey) ↔
      ∀ r ∈ rows, (model r).isSome := by
  induction rows with
  | nil => simp
  | cons r rows ih =>
    rw [List.mapM_cons, List.forall_mem_cons, ← ih]
    constructor
    · rintro ⟨models, hmodels, hkeys⟩
      obtain ⟨m, hm, hrest⟩ := Option.bind_eq_some_iff.mp hmodels
      obtain ⟨ms, hms, heq⟩ := Option.bind_eq_some_iff.mp hrest
      obtain rfl := Option.some.inj heq
      exact ⟨by rw [hm]; rfl, ms, hms, (List.cons.inj hkeys).2⟩
    · rintro ⟨hr, ms, hms, hkeys⟩
      obtain ⟨m, hm⟩ := Option.isSome_iff_exists.mp hr
      refine ⟨m :: ms, by simp [hm, hms], ?_⟩
      rw [List.map_cons, List.map_cons, hkeys, hkey r m hm]

theorem hash_whaleTransaction {row : WhaleRow} {m : WhaleTransaction}
    (h : whaleTransaction row = some m) : m.hash = row.hash := by
  simp only [whaleTransaction, Option.bind_eq_bind, Option.bind_eq_some_iff, Option.pure_def] at h
  obtain ⟨value, -, toAddress, -, h⟩ := h
  obtain rfl := Option.some.inj h
  rfl

theorem hash_ethTransactionHistory {row : EthRow} {m : EthTransactionHistory}
    (h : ethTransactionHistory lower address row = some m) : m.hash = row.hash := by
  simp only [ethTransactionHistory, Option.bind_eq_bind, Option.bind_eq_some_iff,
    Option.pure_def] at h
  obtain ⟨value, -, toAddress, -, h⟩ := h
  obtain rfl := Option.some.inj h
  rfl

theorem hash_tokenTransferHistory {row : TokenRow} {m : TokenTransferHistory}
    (h : tokenTransferHistory lower address row = some m) : m.hash = row.hash := by
  simp only [tokenTransferHistory, Option.bind_eq_bind, Option.bind_eq_some_iff,
    Option.pure_def] at h
  obtain ⟨amount, -, value, -, h⟩ := h
  obtain rfl := Option.some.inj h
  rfl

/-! ### What the consumer stores -/

/-- Every amount is there: the consumer never stores a `NULL` value. -/
structure Valued (T : Tables) : Prop where
  transactions : ∀ r ∈ T.transactions.rows, r.value.isSome
  tokenTransfers : ∀ r ∈ T.tokenTransfers.rows, r.value.isSome

theorem Valued.store {T U V : Tables} {txs : List TransactionModel}
    {tts : List TokenTransferModel} (h : Valued T) (hU : T.insertTransactionsBatch txs = some U)
    (hV : U.insertTokenTransfersBatch tts = some V) : Valued V := by
  obtain ⟨htx, htt⟩ := Tables.insertTransactionsBatch_eq_some hU
  obtain ⟨htt', htx'⟩ := Tables.insertTokenTransfersBatch_eq_some hV
  constructor
  · intro r hr
    rw [htx'] at hr
    rcases Keyed.mem_of_mem_storeAll htx hr with hr | ⟨tx, -, hcast⟩
    · exact h.transactions r hr
    · rw [(TransactionRow.ofModel_eq_some hcast).2.2.1]
      rfl
  · intro r hr
    rcases Keyed.mem_of_mem_storeAll htt' hr with hr | ⟨tt, -, hcast⟩
    · rw [htt] at hr
      exact h.tokenTransfers r hr
    · rw [(TokenTransferRow.ofModel_eq_some hcast).2.2.2]
      rfl

theorem Valued.step {D : Deployment} {w w' : World} {hand hand' : Option Position}
    (hs : Consumer.Step D False (w, hand) (w', hand')) (h : Valued w.db) : Valued w'.db := by
  cases hs with
  | store hT hU => exact h.store hT hU
  | _ => exact h

theorem valued_sessions (D : Deployment) (redis : ℤ → Option IsoText) (css : List (List Choice)) :
    Valued (sessions D (World.initial .empty redis) css).db := by
  obtain ⟨hand, hreach⟩ := sessions_reachable D (World.initial .empty redis) css
  refine hreach.invariant (P := fun w _ => Valued w.db) ?_ ?_ ?_
  · exact ⟨fun r hr => by simp [World.initial, Tables.empty] at hr,
      fun r hr => by simp [World.initial, Tables.empty] at hr⟩
  · intro w hand w' hand' hs h
    exact h.step hs
  · intro w hand h
    exact h

/-! ### The result -/

/-- A response with one entry for each row, in order. -/
def ServesWhales (repo : WhaleRepository) (limit : ℕ) (rows : List WhaleRow) : Prop :=
  ∃ response, getRecentWhales repo limit = .ok response ∧
    response.whales.map (·.hash) = rows.map (·.hash)

def ServesWallet (lower : String → String) (repo : WalletRepository) (address : String)
    (limit : ℕ) (ethRows : List EthRow) (tokenRows : List TokenRow) : Prop :=
  ∃ response, getWalletHistory lower repo address limit = .ok response ∧
    response.ethTransactions.map (·.hash) = ethRows.map (·.hash) ∧
      response.tokenTransfers.map (·.hash) = tokenRows.map (·.hash)

theorem orFetchError_eq_ok {α : Type} {body : Option α} {a : α} :
    orFetchError body = .ok a ↔ body = some a := by
  cases body <;> simp [orFetchError]

theorem servesWhales_iff {repo : WhaleRepository} {limit : ℕ} {rows : List WhaleRow}
    (hrows : repo.getRecentWhales whaleThresholdWei limit = some rows) :
    ServesWhales repo limit rows ↔ ∀ r ∈ rows, (whaleTransaction r).isSome := by
  rw [← mapM_serves_iff (fun _ _ => hash_whaleTransaction) rows]
  simp only [ServesWhales, getRecentWhales, orFetchError_eq_ok, hrows, Option.bind_eq_bind,
    Option.bind_some]
  constructor
  · rintro ⟨response, hok, hkeys⟩
    obtain ⟨whales, hwhales, heq⟩ := Option.bind_eq_some_iff.mp hok
    obtain rfl := Option.some.inj heq
    exact ⟨whales, hwhales, hkeys⟩
  · rintro ⟨whales, hwhales, hkeys⟩
    exact ⟨⟨whales⟩, by simp [hwhales], hkeys⟩

theorem servesWallet_iff {repo : WalletRepository} {limit : ℕ} {ethRows : List EthRow}
    {tokenRows : List TokenRow}
    (heth : repo.getEthTransactions (lower address) limit = some ethRows)
    (htoken : repo.getTokenTransfers (lower address) limit = some tokenRows) :
    ServesWallet lower repo address limit ethRows tokenRows ↔
      (∀ r ∈ ethRows, (ethTransactionHistory lower (lower address) r).isSome) ∧
        ∀ r ∈ tokenRows, (tokenTransferHistory lower (lower address) r).isSome := by
  rw [← mapM_serves_iff (fun _ _ => hash_ethTransactionHistory) ethRows,
    ← mapM_serves_iff (fun _ _ => hash_tokenTransferHistory) tokenRows]
  simp only [ServesWallet, getWalletHistory, orFetchError_eq_ok, heth, htoken,
    Option.bind_eq_bind, Option.bind_some]
  constructor
  · rintro ⟨response, hok, hethKeys, htokenKeys⟩
    obtain ⟨ethTransactions, hethTransactions, hrest⟩ := Option.bind_eq_some_iff.mp hok
    obtain ⟨tokenTransfers, htokenTransfers, heq⟩ := Option.bind_eq_some_iff.mp hrest
    obtain rfl := Option.some.inj heq
    exact ⟨⟨ethTransactions, hethTransactions, hethKeys⟩,
      ⟨tokenTransfers, htokenTransfers, htokenKeys⟩⟩
  · rintro ⟨⟨ethTransactions, hethTransactions, hethKeys⟩,
      ⟨tokenTransfers, htokenTransfers, htokenKeys⟩⟩
    exact ⟨⟨lower address, ethTransactions, tokenTransfers⟩,
      by simp [hethTransactions, htokenTransfers], hethKeys, htokenKeys⟩

/-- **What the services serve**: whatever the consumer stored, whatever the
metadata, and whichever answers the database gives. -/
theorem served_iff_to_addresses (D : Deployment) (redis : ℤ → Option IsoText)
    (css : List (List Choice)) (db : Database)
    (hdb : db.stored = (sessions D (World.initial .empty redis) css).db)
    (lower : String → String) (address : String) (limit : ℕ)
    (whaleRepo : WhaleRepository) (walletRepo : WalletRepository)
    (rows : List WhaleRow) (ethRows : List EthRow) (tokenRows : List TokenRow)
    (hrows : whaleRepo.getRecentWhales whaleThresholdWei limit = some rows)
    (heth : walletRepo.getEthTransactions (lower address) limit = some ethRows)
    (htoken : walletRepo.getTokenTransfers (lower address) limit = some tokenRows)
    (hwhales : db.RecentWhales whaleThresholdWei limit rows)
    (hsent : db.EthTransactions (lower address) limit ethRows)
    (hmoved : db.TokenTransfers (lower address) limit tokenRows) :
    (ServesWhales whaleRepo limit rows ↔ ∀ r ∈ rows, r.toAddress ≠ none) ∧
      (ServesWallet lower walletRepo address limit ethRows tokenRows ↔
        (∀ r ∈ ethRows, r.toAddress ≠ none) ∧
          ∀ r ∈ tokenRows, ∀ d, r.decimals = some d → d ≤ 308) := by
  have hvalued : Valued db.stored := hdb ▸ valued_sessions D redis css
  constructor
  · rw [servesWhales_iff hrows]
    refine forall₂_congr fun r hr => whaleTransaction_isSome_iff ?_
    obtain ⟨t, ht, rfl⟩ := hwhales.stored hr
    exact hvalued.transactions t ht
  · rw [servesWallet_iff heth htoken]
    refine and_congr (forall₂_congr fun r hr => ethTransactionHistory_isSome_iff ?_)
      (forall₂_congr fun r hr => tokenTransferHistory_isSome_iff ?_)
    · obtain ⟨t, ht, rfl⟩ := hsent.stored hr
      exact hvalued.transactions t ht
    · obtain ⟨t, ht, rfl⟩ := hmoved.stored hr
      exact hvalued.tokenTransfers t ht

/-- One transaction of 100 ETH. -/
def oneWhale (toAddress : Json) : Deployment where
  log
    | .transactions, 0 =>
      [.json (.obj [("hash", .str "0xc1"), ("block_timestamp", .int 1700000000),
        ("from_address", .str "0xb1"), ("to_address", toAddress), ("value", .int (100 * 10 ^ 18))])]
    | _, _ => []
  pydantic := .plain

/-- Start, the transaction, and a signal; the shutdown flushes. -/
def storeOne : List Choice :=
  [.well, .well, .well, .well, .next .transactions, .well, .well, .stop] ++ List.replicate 9 .well

/-- The tables after that, without metadata. -/
def afterOneWhale (toAddress : Json) : Database where
  stored := (sessions (oneWhale toAddress) (World.initial .empty fun _ => none) [storeOne]).db
  tokens := fun _ => none
  addressLabels := fun _ => none

theorem stored_afterOneWhale (toAddress : Json) : (afterOneWhale toAddress).stored =
    (sessions (oneWhale toAddress) (World.initial .empty fun _ => none) [storeOne]).db := by
  exact rfl

theorem transfer_served :
    let db := afterOneWhale (.str "0xb2")
    ServesWhales db.whaleRepository 50 (db.recentWhales whaleThresholdWei 50) ∧
      ServesWallet String.toLower db.walletRepository "0xb1" 50
        (db.ethTransactions (String.toLower "0xb1") 50)
        (db.tokenTransfers (String.toLower "0xb1") 50) := by
  have haddress : ∀ t ∈ (afterOneWhale (.str "0xb2")).stored.transactions.rows,
      t.toAddress ≠ none := by decide +kernel
  have hnone : ∀ t ∈ (afterOneWhale (.str "0xb2")).stored.tokenTransfers.rows, False := by
    decide +kernel
  have hdb := stored_afterOneWhale (.str "0xb2")
  generalize afterOneWhale (.str "0xb2") = db at haddress hnone hdb
  have hwhales := db.recentWhales_answers whaleThresholdWei 50
  have hsent := db.ethTransactions_answers (String.toLower "0xb1") 50
  have hmoved := db.tokenTransfers_answers (String.toLower "0xb1") 50
  obtain ⟨hrecent, hwallet⟩ := served_iff_to_addresses (oneWhale (.str "0xb2")) (fun _ => none)
    [storeOne] db hdb String.toLower "0xb1" 50 db.whaleRepository db.walletRepository _ _ _ rfl rfl
    rfl hwhales hsent hmoved
  refine ⟨hrecent.mpr ?_, hwallet.mpr ⟨?_, ?_⟩⟩
  · intro r hr
    obtain ⟨t, ht, rfl⟩ := hwhales.stored hr
    exact haddress t ht
  · intro r hr
    obtain ⟨t, ht, rfl⟩ := hsent.stored hr
    exact haddress t ht
  · intro r hr
    obtain ⟨t, ht, rfl⟩ := hmoved.stored hr
    exact (hnone t ht).elim

/-- **A contract creation of 100 ETH** is stored, the database answers, and the
list of recent whales is an error. -/
theorem contract_creation_not_served :
    ∃ rows, (afterOneWhale .null).RecentWhales whaleThresholdWei 50 rows ∧ rows.length = 1 ∧
      getRecentWhales ⟨fun _ _ => some rows⟩ 50 = .error ⟨"Database query failed"⟩ := by
  have hstored : (afterOneWhale .null).stored.transactions.rows =
      [⟨"0xc1", 1700000000000000, "0xb1", none, some (100 * 10 ^ 18), some 0⟩] := by
    decide +kernel
  refine ⟨_, (afterOneWhale .null).recentWhales_answers _ _, ?_, ?_⟩
  · simp [Database.recentWhales, hstored, Query.latest, Database.AtLeast, whaleThresholdWei]
  · simp [Database.recentWhales, hstored, Query.latest, Database.AtLeast, whaleThresholdWei,
      getRecentWhales, Database.whaleRow, whaleTransaction, floatOfNumeric, orFetchError]

end Backend

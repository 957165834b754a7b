import EthPipeline.Silver.TxnEnriched
import EthPipeline.Base.Window
import Mathlib.Data.List.DropRight

/-!
# The transactions of whales

`build_whale_txns` of `src/silver/transform/whale_txns.py`, over what
`read_silver` returns of the table `txn_enriched`.

* `map_transaction_labelledTransactions`: the labels neither lose nor multiply rows.
* `map_hash_buildWhaleTxns`: the rows are those that pass the two filters.
-/

namespace Silver

/-- The columns of `enriched_transaction_schema`. -/
structure SilverTransaction where
  hash : Option String
  blockNumber : Option ℤ
  blockTimestamp : Option ℤ
  fromAddress : Option String
  toAddress : Option String
  valueEth : Option ℚ
  isSuccess : Option Bool
  dt : Option ℤ
  deriving DecidableEq, Repr

/-- A row as `read_silver` returns it: the date is in the name of the folder, so the
column is null. -/
def EnrichedRow.read (row : EnrichedRow) : SilverTransaction where
  hash := row.hash
  blockNumber := row.blockNumber
  blockTimestamp := row.blockTimestamp
  fromAddress := row.fromAddress
  toAddress := row.toAddress
  valueEth := row.valueEth
  isSuccess := row.isSuccess
  dt := none

/-- The folder of a date that `write_silver` has written, read back. -/
def readTxnEnriched (rows : List EnrichedRow) (date : ℤ) : List SilverTransaction :=
  (rows.filter fun row => row.dt = some date).map EnrichedRow.read

/-- `column >= threshold` for a decimal and a double: the decimal becomes a double. -/
def atLeast (threshold : PyFloat) (value : Option ℚ) : Option Bool :=
  value.map fun q =>
    match threshold with
    | .finite t => decide (t ≤ Binary64.nearest q)
    | .inf negative => negative
    | .nan => false

/-- A transaction with the labels of its two sides. -/
structure LabelledTransaction where
  transaction : SilverTransaction
  fromLabel : String
  fromCategory : String
  toLabel : String
  toCategory : String
  deriving DecidableEq, Repr

/-- `trim(regexp_extract(label, "^([^0-9:#]+)", 1))`. -/
def entity (label : String) : String :=
  let chars := label.toList.takeWhile fun c => !('0' ≤ c && c ≤ '9') && c ≠ ':' && c ≠ '#'
  String.ofList ((chars.dropWhile (· = ' ')).rdropWhile (· = ' '))

example : entity "Uniswap V3: Router" = "Uniswap V" := by decide +kernel

def whaleTier (value : Option ℚ) : String :=
  match value with
  | some q => if 10000 ≤ q then "Humpback" else if 1000 ≤ q then "Whale"
      else if 100 ≤ q then "Shark" else "Crab"
  | none => "Crab"

def flowType (fromCategory toCategory : String) : String :=
  if fromCategory = "Unknown" ∧ toCategory = "CEX" then "CEX_DEPOSIT"
  else if fromCategory = "CEX" ∧ toCategory = "Unknown" then "CEX_WITHDRAWAL"
  else if fromCategory = "DEX" ∨ toCategory = "DEX" then "DEX_TRADE"
  else if fromCategory = "Bridge" ∨ toCategory = "Bridge" then "BRIDGE_MOVE"
  else if fromCategory = "Unknown" ∧ toCategory = "Unknown" then "PRIVATE_MOVE"
  else "OTHER"

structure WhaleRow where
  hash : Option String
  blockTimestamp : Option ℤ
  hour : Option ℤ
  dt : Option ℤ
  fromAddress : Option String
  fromLabel : String
  fromEntity : String
  fromCategory : String
  toAddress : Option String
  toLabel : String
  toEntity : String
  toCategory : String
  valueEth : Option ℚ
  cumulSentEth : Option ℚ
  cumulTxCount : ℕ
  cumulRecvEth : Option ℚ
  whaleTier : String
  flowType : String
  isPrivateTransaction : Bool
  flagHighFreq : Option Bool
  deriving DecidableEq, Repr

/-- `sum("value_eth")` of some rows. -/
def sumEth (values : List (Option ℚ)) : Option ℚ := Decimal.sum ⟨38, 18⟩ (values.filterMap id)

/-- `orderBy("block_timestamp")`: nulls come first. -/
def Earlier (s t : Option ℤ) : Prop :=
  match s, t with
  | none, _ => True
  | some _, none => False
  | some s, some t => s ≤ t

instance : DecidableRel Earlier
  | none, _ => isTrue trivial
  | some _, none => isFalse id
  | some s, some t => inferInstanceAs (Decidable (s ≤ t))

theorem Earlier.trans {s t u : Option ℤ} (hst : Earlier s t) (htu : Earlier t u) : Earlier s u := by
  cases s with
  | none => trivial
  | some s =>
    cases t with
    | none => exact absurd hst id
    | some t =>
      cases u with
      | none => exact absurd htu id
      | some u => exact le_trans hst htu

theorem Earlier.total (s t : Option ℤ) : Earlier s t ∨ Earlier t s := by
  cases s with
  | none => exact .inl trivial
  | some s =>
    cases t with
    | none => exact .inr trivial
    | some t => exact le_total s t

/-- A transaction with the running totals of its sender. -/
structure SentTransaction where
  labelled : LabelledTransaction
  cumulSentEth : Option ℚ
  cumulTxCount : ℕ
  deriving DecidableEq, Repr

namespace LabelledTransaction

def timestamp (row : LabelledTransaction) : Option ℤ := row.transaction.blockTimestamp

/-- The partitions of `w_from` and `w_to`. -/
def senderKey (row : LabelledTransaction) : Option String × Option ℤ :=
  (row.transaction.fromAddress, row.transaction.dt)

def receiverKey (row : LabelledTransaction) : Option String × Option ℤ :=
  (row.transaction.toAddress, row.transaction.dt)

end LabelledTransaction

/-- The orders Spark may give the rows of `w_from` and of `w_to`. -/
abbrev SenderOrder := Window.Sorting fun a b : LabelledTransaction => Earlier a.timestamp b.timestamp

abbrev ReceiverOrder :=
  Window.Sorting fun a b : SentTransaction => Earlier a.labelled.timestamp b.labelled.timestamp

/-- Sorting the rows as they come. -/
def stableSenderOrder : SenderOrder :=
  Window.Sorting.merge _ (fun _ _ _ => Earlier.trans) fun _ _ => Earlier.total _ _

def stableReceiverOrder : ReceiverOrder :=
  Window.Sorting.merge _ (fun _ _ _ => Earlier.trans) fun _ _ => Earlier.total _ _

/-- The same orders, by a sort that small tables can be run through. -/
def insertionSenderOrder : SenderOrder :=
  Window.Sorting.insertion _ (fun _ _ _ => Earlier.trans) fun _ _ => Earlier.total _ _

def insertionReceiverOrder : ReceiverOrder :=
  Window.Sorting.insertion _ (fun _ _ _ => Earlier.trans) fun _ _ => Earlier.total _ _

def whaleRow (row : SentTransaction × Option ℚ) : WhaleRow :=
  let ⟨⟨labelled, cumulSentEth, cumulTxCount⟩, cumulRecvEth⟩ := row
  let t := labelled.transaction
  { hash := t.hash
    blockTimestamp := t.blockTimestamp
    hour := t.blockTimestamp.map hour
    dt := t.dt
    fromAddress := t.fromAddress
    fromLabel := labelled.fromLabel
    fromEntity := entity labelled.fromLabel
    fromCategory := labelled.fromCategory
    toAddress := t.toAddress
    toLabel := labelled.toLabel
    toEntity := entity labelled.toLabel
    toCategory := labelled.toCategory
    valueEth := t.valueEth
    cumulSentEth
    cumulTxCount
    cumulRecvEth
    whaleTier := whaleTier t.valueEth
    flowType := flowType labelled.fromCategory labelled.toCategory
    isPrivateTransaction := labelled.fromCategory = "Unknown" ∧ labelled.toCategory = "Unknown"
    flagHighFreq :=
      Sql.and (some (decide (5 ≤ cumulTxCount))) (cumulSentEth.map fun q => decide (500 ≤ q)) }

/-- Without a label a side is `Unknown`. -/
def labelledTransaction (row : (SilverTransaction × Option Label) × Option Label) :
    LabelledTransaction where
  transaction := row.1.1
  fromLabel := orUnknown (row.1.2.bind (·.labelName))
  fromCategory := orUnknown (row.1.2.bind (·.labelCategory))
  toLabel := orUnknown (row.2.bind (·.labelName))
  toCategory := orUnknown (row.2.bind (·.labelCategory))

section build

variable (txns : List SilverTransaction) (date : ℤ) (threshold : PyFloat)
  {file : Option (List Label)} (fromLabels toLabels : KnownLabels file)
  (byFrom : SenderOrder) (byTo : ReceiverOrder)

/-- The transactions that pass the filters, with the date of the run. -/
def whaleTransactions : List SilverTransaction :=
  (txns.map fun t => { t with dt := some date }).filter fun t =>
    atLeast threshold t.valueEth = some true ∧ t.isSuccess = some true

def labelledTransactions : List LabelledTransaction :=
  (Join.left (fun row => row.1.toAddress) Label.address
    (Join.left SilverTransaction.fromAddress Label.address
      (whaleTransactions txns date threshold) fromLabels.rows)
    toLabels.rows).map labelledTransaction

/-- The sum and the count over `w_from`. -/
def sentTotals (rows : List LabelledTransaction) : Option ℚ × ℕ :=
  (sumEth (rows.map (·.transaction.valueEth)), rows.countP (·.transaction.hash.isSome))

def sentTransactions : List SentTransaction :=
  (Window.overParts LabelledTransaction.senderKey sentTotals
    (byFrom.run (labelledTransactions txns date threshold fromLabels toLabels))).map
    fun (row, totals) => ⟨row, totals.1, totals.2⟩

/-- The sum over `w_to`. -/
def receivedTotal (rows : List SentTransaction) : Option ℚ :=
  sumEth (rows.map (·.labelled.transaction.valueEth))

/-- `build_whale_txns`. -/
def buildWhaleTxns : List WhaleRow :=
  (Window.overParts (fun row : SentTransaction => row.labelled.receiverKey) receivedTotal
    (byTo.run (sentTransactions txns date threshold fromLabels toLabels byFrom))).map whaleRow

/-! ### The rows -/

/-- The labels neither lose nor multiply rows. -/
theorem map_transaction_labelledTransactions :
    (labelledTransactions txns date threshold fromLabels toLabels).map (·.transaction) =
      whaleTransactions txns date threshold := by
  unfold labelledTransactions
  rw [Join.left_eq_map fun row _ => Join.length_found_le_one toLabels.nodup row,
    Join.left_eq_map fun row _ => Join.length_found_le_one fromLabels.nodup row]
  simp only [List.map_map]
  exact List.map_id _

theorem map_labelled_sentTransactions :
    ((sentTransactions txns date threshold fromLabels toLabels byFrom).map (·.labelled)).Perm
      (labelledTransactions txns date threshold fromLabels toLabels) := by
  have hover : (Window.overParts LabelledTransaction.senderKey sentTotals
        (byFrom.run (labelledTransactions txns date threshold fromLabels toLabels))).map
      (fun row => id row.1) = _ := Window.map_overParts id
  rw [List.map_id] at hover
  unfold sentTransactions
  rw [List.map_map]
  exact (List.Perm.of_eq hover).trans (byFrom.perm _)

/-- **The rows are those that pass the filters.** -/
theorem map_hash_buildWhaleTxns :
    ((buildWhaleTxns txns date threshold fromLabels toLabels byFrom byTo).map (·.hash)).Perm
      ((whaleTransactions txns date threshold).map (·.hash)) := by
  have hsent := ((byTo.perm _).map (·.labelled)).trans
    (map_labelled_sentTransactions txns date threshold fromLabels toLabels byFrom)
  have hhash := hsent.map fun row => row.transaction.hash
  rw [List.map_map] at hhash
  unfold buildWhaleTxns
  rw [List.map_map, ← map_transaction_labelledTransactions txns date threshold fromLabels toLabels,
    List.map_map]
  exact (List.Perm.of_eq (Window.map_overParts fun row : SentTransaction =>
    row.labelled.transaction.hash)).trans hhash

end build

end Silver

import EthPipeline.Base.Binary64
import EthPipeline.Base.Join

/-!
# The tables of the Silver layer

The columns of the Bronze tables that the transforms read
(`src/schema/bronze_schema.py`), the labels and the token metadata of
`src/silver/known_labels.py`, and the expressions on columns that the transforms
share.  A column is null where it is `none`; a wei amount is the integer whose
decimal text the file has; a date is counted in days from the epoch.

* `KnownLabels.nodup`: no address has two labels.
-/

/-! ### Three-valued logic -/

namespace Sql

def and : Option Bool → Option Bool → Option Bool
  | some false, _ => some false
  | _, some false => some false
  | some true, some true => some true
  | _, _ => none

def or : Option Bool → Option Bool → Option Bool
  | some true, _ => some true
  | _, some true => some true
  | some false, some false => some false
  | _, _ => none

def eq {α : Type} [DecidableEq α] (a b : Option α) : Option Bool :=
  match a, b with
  | some a, some b => some (decide (a = b))
  | _, _ => none

def not : Option Bool → Option Bool := Option.map (!·)

theorem and_eq_true_iff {a b : Option Bool} : and a b = some true ↔ a = some true ∧ b = some true := by
  rcases a with _ | a <;> rcases b with _ | b <;> try cases a
  all_goals try cases b
  all_goals simp [and]

end Sql

namespace Silver

/-! ### Bronze -/

structure BronzeTransaction where
  hash : Option String
  blockNumber : Option ℤ
  blockTimestamp : Option ℤ
  fromAddress : Option String
  toAddress : Option String
  value : Option ℕ
  input : Option String
  deriving DecidableEq, Repr

structure BronzeReceipt where
  transactionHash : Option String
  gasUsed : Option ℤ
  status : Option ℤ
  effectiveGasPrice : Option ℤ
  deriving DecidableEq, Repr

structure BronzeBlock where
  number : Option ℤ
  timestamp : Option ℤ
  deriving DecidableEq, Repr

structure BronzeTokenTransfer where
  tokenAddress : Option String
  fromAddress : Option String
  toAddress : Option String
  value : Option ℕ
  transactionHash : Option String
  blockNumber : Option ℤ
  deriving DecidableEq, Repr

/-- The Bronze folders of a date: the files of each, with their rows. -/
structure BronzeDay where
  transactions : List (List BronzeTransaction)
  receipts : List (List BronzeReceipt)
  blocks : List (List BronzeBlock)
  tokenTransfers : List (List BronzeTokenTransfer)
  deriving DecidableEq, Repr

/-- `read_bronze`: the rows of all files of a folder. -/
def readBronze {α : Type} (folder : List (List α)) : List α := folder.flatten

/-! ### Times -/

/-- `to_date(from_unixtime(t))`, in UTC. -/
def toDate (t : ℤ) : ℤ := t / 86400

/-- `hour(from_unixtime(t))`, in UTC. -/
def hour (t : ℤ) : ℤ := t % 86400 / 3600

/-! ### Labels and token metadata -/

structure Label where
  address : Option String
  labelName : Option String
  labelCategory : Option String
  deriving DecidableEq, Repr

/-- `MANUAL_LABELS`. -/
def manualLabels : List Label :=
  [⟨some "0x000000000000000000000000000000000000dead", some "Dead Address", some "Burn"⟩,
    ⟨some "0x0000000000000000000000000000000000000000", some "Null Address", some "Burn"⟩]

/-- What `load_address_labels` may return, for the rows of the label file if there is
one. -/
structure KnownLabels (file : Option (List Label)) where
  rows : List Label
  loaded : match file with
    | none => rows = manualLabels
    | some labels => Join.DropDuplicates Label.address (labels ++ manualLabels) rows

/-- **No address has two labels.** -/
theorem KnownLabels.nodup {file : Option (List Label)} (labels : KnownLabels file) :
    (labels.rows.map Label.address).Nodup := by
  cases file with
  | none =>
    rw [show labels.rows = manualLabels from labels.loaded]
    decide
  | some rows => exact labels.loaded.nodup

/-- Spark does not find a column. -/
structure AnalysisException where
  column : String
  deriving DecidableEq, Repr

structure TokenMeta where
  tokenAddress : Option String
  symbol : Option String
  tokenName : Option String
  decimals : Option ℤ
  deriving DecidableEq, Repr

/-- `load_token_meta_df`, for the rows of the file if there is one: without it the frame
has a column `address`, and none of the name `token_address`. -/
def loadTokenMeta (file : Option (List TokenMeta)) : Except AnalysisException (List TokenMeta) :=
  match file with
  | some rows => .ok rows
  | none => .error ⟨"token_address"⟩

/-- `fillna` of a text column. -/
def orUnknown (text : Option String) : String := text.getD "Unknown"

end Silver

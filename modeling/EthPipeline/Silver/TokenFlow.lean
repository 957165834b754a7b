import EthPipeline.Silver.TxnEnriched

/-!
# The flow of the known tokens

`build_token_flow` of `src/silver/transform/token_flow.py`, and the row counts of
both transforms.

* `keepsTransfers_iff`: when there is one row for each transfer of a known token.
* `joins_keep_rows_iff`: when neither transform loses or multiplies rows.
-/

namespace Silver

structure FlowRow where
  transactionHash : Option String
  blockTimestamp : Option ℤ
  hour : Option ℤ
  dt : Option ℤ
  tokenAddress : Option String
  symbol : Option String
  tokenName : Option String
  fromAddress : Option String
  fromLabel : String
  fromCategory : String
  toAddress : Option String
  toLabel : String
  toCategory : String
  amount : Option PyFloat
  deriving DecidableEq, Repr

/-- `value / pow(10.0, decimals)` in doubles; `pow` is the power of ten of the JVM, and a
division by zero gives null. -/
def tokenAmount (pow : ℤ → PyFloat) (value : Option ℕ) (decimals : Option ℤ) :
    Option PyFloat := do
  let value ← value
  let decimals ← decimals
  match pow decimals with
  | .finite p => if p = 0 then none else some ((PyFloat.ofRat value).divBy p)
  | .inf _ =>
    match PyFloat.ofRat value with
    | .finite _ => some (.finite 0)
    | _ => some .nan
  | .nan => some .nan

/-- A transfer with its token, its block and the labels of the two sides. -/
abbrev Joined := (((BronzeTokenTransfer × TokenMeta) × Option BronzeBlock) × Option Label)
  × Option Label

def flowRow (pow : ℤ → PyFloat) (row : Joined) : FlowRow :=
  let ((((transfer, token), block), fromLabel), toLabel) := row
  let timestamp := block.bind (·.timestamp)
  { transactionHash := transfer.transactionHash
    blockTimestamp := timestamp
    hour := timestamp.map hour
    dt := timestamp.map toDate
    tokenAddress := transfer.tokenAddress
    symbol := token.symbol
    tokenName := token.tokenName
    fromAddress := transfer.fromAddress
    fromLabel := orUnknown (fromLabel.bind (·.labelName))
    fromCategory := orUnknown (fromLabel.bind (·.labelCategory))
    toAddress := transfer.toAddress
    toLabel := orUnknown (toLabel.bind (·.labelName))
    toCategory := orUnknown (toLabel.bind (·.labelCategory))
    amount := tokenAmount pow transfer.value token.decimals }

section build

variable (pow : ℤ → PyFloat) (day : BronzeDay) {file : Option (List Label)}
  (fromLabels toLabels : KnownLabels file)

/-- The transfers with their tokens and blocks. -/
def transfersWithBlocks (tokens : List TokenMeta) :
    List ((BronzeTokenTransfer × TokenMeta) × Option BronzeBlock) :=
  Join.left (fun row => row.1.blockNumber) BronzeBlock.number
    (Join.inner BronzeTokenTransfer.tokenAddress TokenMeta.tokenAddress
      (readBronze day.tokenTransfers) tokens)
    (readBronze day.blocks)

/-- `build_token_flow`: Spark may load the labels twice. -/
def buildTokenFlow (tokenFile : Option (List TokenMeta)) :
    Except AnalysisException (List FlowRow) := do
  let tokens ← loadTokenMeta tokenFile
  let flow := Join.left (fun row => row.1.1.fromAddress) Label.address
    (transfersWithBlocks day tokens) fromLabels.rows
  let flow := Join.left (fun row => row.1.1.1.toAddress) Label.address flow toLabels.rows
  return flow.map (flowRow pow)

end build

/-! ### One row for each transfer -/

/-- The columns a row has from its transfer. -/
structure TransferColumns where
  transactionHash : Option String
  tokenAddress : Option String
  fromAddress : Option String
  toAddress : Option String
  deriving DecidableEq, Repr

def BronzeTokenTransfer.columns (t : BronzeTokenTransfer) : TransferColumns :=
  ⟨t.transactionHash, t.tokenAddress, t.fromAddress, t.toAddress⟩

def FlowRow.columns (row : FlowRow) : TransferColumns :=
  ⟨row.transactionHash, row.tokenAddress, row.fromAddress, row.toAddress⟩

/-- The address of the token is in the metadata. -/
def Known (tokens : List TokenMeta) (t : BronzeTokenTransfer) : Bool :=
  t.tokenAddress.isSome && tokens.any fun token => token.tokenAddress = t.tokenAddress

theorem known_eq (tokens : List TokenMeta) (t : BronzeTokenTransfer) :
    Known tokens t =
      !(Join.found BronzeTokenTransfer.tokenAddress TokenMeta.tokenAddress tokens t).isEmpty := by
  unfold Known Join.found
  cases t.tokenAddress with
  | none => rfl
  | some address =>
    rw [Bool.eq_iff_iff]
    simp

/-- One row for each transfer of Bronze whose token is in the metadata, with its columns. -/
def KeepsTransfers (day : BronzeDay) (tokenFile : Option (List TokenMeta))
    (build : Except AnalysisException (List FlowRow)) : Prop :=
  ∃ rows, build = .ok rows ∧ (rows.map FlowRow.columns).Perm
    (((readBronze day.tokenTransfers).filter (Known (tokenFile.getD []))).map
      BronzeTokenTransfer.columns)

/-- The metadata are there, and no transfer of a known token has its token or its block
twice. -/
def TokensAndBlocksOnce (day : BronzeDay) (tokenFile : Option (List TokenMeta)) : Prop :=
  ∃ tokens, tokenFile = some tokens ∧
    ∀ t ∈ readBronze day.tokenTransfers, Known tokens t = true →
      (∀ address, t.tokenAddress = some address →
        (tokens.map TokenMeta.tokenAddress).count (some address) ≤ 1) ∧
      ∀ number, t.blockNumber = some number →
        ((readBronze day.blocks).map BronzeBlock.number).count (some number) ≤ 1

section keeps

variable {pow : ℤ → PyFloat} {day : BronzeDay} {file : Option (List Label)}
  {fromLabels toLabels : KnownLabels file} {tokenFile : Option (List TokenMeta)}

/-- The labels neither lose nor multiply rows. -/
theorem map_columns_buildTokenFlow {rows : List FlowRow} {tokens : List TokenMeta}
    (h : buildTokenFlow pow day fromLabels toLabels (some tokens) = .ok rows) :
    rows.map FlowRow.columns =
      (transfersWithBlocks day tokens).map fun row => row.1.1.columns := by
  cases h
  rw [Join.left_eq_map fun row _ => Join.length_found_le_one toLabels.nodup row,
    Join.left_eq_map fun row _ => Join.length_found_le_one fromLabels.nodup row]
  simp only [List.map_map]
  rfl

theorem tokensAndBlocksOnce_iff {tokens : List TokenMeta} :
    TokensAndBlocksOnce day (some tokens) ↔
      ∀ t ∈ readBronze day.tokenTransfers,
        Join.found BronzeTokenTransfer.tokenAddress TokenMeta.tokenAddress tokens t ≠ [] →
        (Join.found BronzeTokenTransfer.tokenAddress TokenMeta.tokenAddress tokens t).length ≤ 1 ∧
          (Join.found BronzeTokenTransfer.blockNumber BronzeBlock.number
            (readBronze day.blocks) t).length ≤ 1 := by
  have hknown : ∀ t, Known tokens t = true ↔
      Join.found BronzeTokenTransfer.tokenAddress TokenMeta.tokenAddress tokens t ≠ [] := by
    intro t
    rw [known_eq]
    simp
  simp only [TokensAndBlocksOnce, Option.some.injEq, exists_eq_left', hknown,
    Join.length_found_le_one_iff]

/-- **When the transfers are kept.** -/
theorem keepsTransfers_iff :
    KeepsTransfers day tokenFile (buildTokenFlow pow day fromLabels toLabels tokenFile) ↔
      TokensAndBlocksOnce day tokenFile := by
  cases tokenFile with
  | none =>
    constructor
    · rintro ⟨rows, hrows, -⟩
      cases hrows
    · rintro ⟨tokens, htokens, -⟩
      cases htokens
  | some tokens =>
    have hknown : (readBronze day.tokenTransfers).filter (Known tokens) =
        (readBronze day.tokenTransfers).filter fun t =>
          !(Join.found BronzeTokenTransfer.tokenAddress TokenMeta.tokenAddress tokens t).isEmpty :=
      List.filter_congr fun t _ => known_eq tokens t
    rw [tokensAndBlocksOnce_iff]
    constructor
    · rintro ⟨rows, hrows, hperm⟩
      rw [map_columns_buildTokenFlow hrows] at hperm
      have hlength := hperm.length_eq
      rw [List.length_map, List.length_map, Option.getD_some, hknown] at hlength
      exact Join.length_left_inner_eq_iff.mp hlength
    · intro honce
      have htokens : ∀ t ∈ readBronze day.tokenTransfers,
          (Join.found BronzeTokenTransfer.tokenAddress TokenMeta.tokenAddress tokens t).length ≤ 1 := by
        intro t ht
        by_cases hfound : Join.found BronzeTokenTransfer.tokenAddress TokenMeta.tokenAddress tokens t = []
        · rw [hfound]
          exact Nat.zero_le _
        · exact (honce t ht hfound).1
      have hblocks : ∀ row ∈ Join.inner BronzeTokenTransfer.tokenAddress TokenMeta.tokenAddress
          (readBronze day.tokenTransfers) tokens,
          (Join.found (fun row : BronzeTokenTransfer × TokenMeta => row.1.blockNumber)
            BronzeBlock.number (readBronze day.blocks) row).length ≤ 1 := by
        intro row hrow
        obtain ⟨t, ht, hmem⟩ := List.mem_flatMap.mp hrow
        obtain ⟨token, htoken, rfl⟩ := List.mem_map.mp hmem
        exact (honce t ht (List.ne_nil_of_mem htoken)).2
      refine ⟨_, rfl, ?_⟩
      rw [map_columns_buildTokenFlow
          (show buildTokenFlow pow day fromLabels toLabels (some tokens) = .ok _ from rfl),
        Option.getD_some, hknown, transfersWithBlocks, Join.left_eq_map hblocks, List.map_map,
        ← Join.map_inner _ htokens]
      exact List.Perm.refl _

end keeps

/-- **The joins of the Silver layer.**  `build_txn_enriched` has one row for each
transaction exactly when no transaction has its receipt twice, and `build_token_flow`
one row for each transfer of a known token exactly when the metadata are there and no
such transfer has its token or its block twice. -/
theorem joins_keep_rows_iff (pow : ℤ → PyFloat) (day : BronzeDay) (file : Option (List Label))
    (fromLabels toLabels : KnownLabels file) (tokenFile : Option (List TokenMeta)) :
    (KeepsTransactions day ↔ ReceiptsOnce day) ∧
      (KeepsTransfers day tokenFile (buildTokenFlow pow day fromLabels toLabels tokenFile) ↔
        TokensAndBlocksOnce day tokenFile) :=
  ⟨keepsTransactions_iff day, keepsTransfers_iff⟩

/-- A day whose receipt and whose block are in two files each. -/
def uploadedTwice : BronzeDay where
  transactions := [[⟨some "0x1", some 100, some 1780531200, some "0xa", some "0xb", some (10 ^ 21),
    some "0x"⟩]]
  receipts := [[⟨some "0x1", some 21000, some 1, some 1⟩], [⟨some "0x1", some 21000, some 1, some 1⟩]]
  blocks := [[⟨some 100, some 1780531200⟩], [⟨some 100, some 1780531200⟩]]
  tokenTransfers := [[⟨some "0xc", some "0xa", some "0xb", some 5, some "0x2", some 100⟩]]

/-- The transaction and the transfer are in the Silver tables twice. -/
theorem rows_twice :
    ¬ KeepsTransactions uploadedTwice ∧
      ¬ KeepsTransfers uploadedTwice (some [⟨some "0xc", some "T", some "Token", some 0⟩])
        (buildTokenFlow (fun _ => .finite 1) uploadedTwice (⟨manualLabels, rfl⟩ : KnownLabels none)
          ⟨manualLabels, rfl⟩ (some [⟨some "0xc", some "T", some "Token", some 0⟩])) := by
  constructor
  · intro hkeeps
    exact absurd hkeeps.length_eq (by decide +kernel)
  · rintro ⟨rows, hrows, hperm⟩
    cases hrows
    exact absurd hperm.length_eq (by decide +kernel)

end Silver

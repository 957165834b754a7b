import EthPipeline.Gold.TokenPopularityDaily
import EthPipeline.Silver.ChainDay

/-!
# The tokens of a day of the chain

What `token_popularity_daily` counts of the blocks of a date.

* `tokenOf_eq_some_iff`: the metadata that a transfer finds.
* `popularity_of_chain`: the rows are the known tokens, with their transfers.
-/

namespace Gold

open Silver Storage.Etl

/-- The daily table has the known tokens that are transferred, each with its transfers. -/
structure ChainPopularity (tokens : List TokenMeta) (transfers : List BronzeTokenTransfer)
    (daily : List PopularityRow) : Prop where
  oneRow : (daily.map (·.tokenAddress)).Nodup
  addresses : ∀ a, (∃ g ∈ daily, g.tokenAddress = some a) ↔
    (∃ token ∈ tokens, token.tokenAddress = some a) ∧ ∃ t ∈ transfers, t.tokenAddress = some a
  known : ∀ g ∈ daily, ∃ token ∈ tokens, g.tokenAddress = token.tokenAddress ∧
    g.symbol = token.symbol ∧ g.tokenName = token.tokenName
  txCount : ∀ g ∈ daily, g.txCount = transfers.countP fun t => t.tokenAddress = g.tokenAddress

/-- The columns of `token_flow` that name the token and the transaction. -/
structure TokenColumns where
  tokenAddress : Option String
  symbol : Option String
  tokenName : Option String
  transactionHash : Option String
  deriving DecidableEq

def TokenFlow.columns (row : TokenFlow) : TokenColumns :=
  ⟨row.tokenAddress, row.symbol, row.tokenName, row.transactionHash⟩

/-- The columns of a transfer of a known token. -/
def knownColumns (row : BronzeTokenTransfer × TokenMeta) : TokenColumns :=
  ⟨row.1.tokenAddress, row.2.symbol, row.2.tokenName, row.1.transactionHash⟩

section known

variable {tokens : List TokenMeta}

/-- **The metadata that a transfer finds.** -/
theorem tokenOf_eq_some_iff (htokens : (tokens.map TokenMeta.tokenAddress).Nodup)
    {t : BronzeTokenTransfer} {token : TokenMeta} :
    tokenOf tokens t = some token ↔
      token ∈ tokens ∧ t.tokenAddress = token.tokenAddress ∧ t.tokenAddress ≠ none := by
  have hone : (Join.found BronzeTokenTransfer.tokenAddress TokenMeta.tokenAddress tokens t).length ≤ 1 :=
    Join.length_found_le_one htokens t
  unfold tokenOf
  constructor
  · intro h
    exact Join.mem_found.mp (List.mem_of_mem_head? h)
  · intro h
    have hmem := Join.mem_found.mpr h
    obtain ⟨found, hfound⟩ := List.length_eq_one_iff.mp
      (Nat.le_antisymm hone (List.length_pos_of_mem hmem))
    rw [hfound] at hmem ⊢
    rw [List.mem_singleton.mp hmem]
    rfl

theorem mem_knownTransfers (htokens : (tokens.map TokenMeta.tokenAddress).Nodup)
    {transfers : List BronzeTokenTransfer} {row : BronzeTokenTransfer × TokenMeta} :
    row ∈ ChainDay.knownTransfers tokens transfers ↔ row.1 ∈ transfers ∧ row.2 ∈ tokens ∧
      row.1.tokenAddress = row.2.tokenAddress ∧ row.1.tokenAddress ≠ none := by
  unfold ChainDay.knownTransfers
  rw [List.mem_filterMap]
  constructor
  · rintro ⟨t, ht, heq⟩
    obtain ⟨token, htoken, rfl⟩ := Option.map_eq_some_iff.mp heq
    exact ⟨ht, (tokenOf_eq_some_iff htokens).mp htoken⟩
  · rintro ⟨ht, h⟩
    exact ⟨row.1, ht, by rw [(tokenOf_eq_some_iff htokens).mpr h]; rfl⟩

/-- Of a known token no transfer is left out. -/
theorem countP_knownTransfers (htokens : (tokens.map TokenMeta.tokenAddress).Nodup)
    {token : TokenMeta} (htoken : token ∈ tokens) (hsome : token.tokenAddress ≠ none)
    (transfers : List BronzeTokenTransfer) :
    (ChainDay.knownTransfers tokens transfers).countP
        (fun row => row.1.tokenAddress = token.tokenAddress) =
      transfers.countP fun t => t.tokenAddress = token.tokenAddress := by
  unfold ChainDay.knownTransfers
  induction transfers with
  | nil => rfl
  | cons t transfers ih =>
    rw [List.countP_cons, ← ih]
    by_cases ht : t.tokenAddress = token.tokenAddress
    · have hfound := (tokenOf_eq_some_iff htokens (t := t)).mpr ⟨htoken, ht, ht ▸ hsome⟩
      rw [List.filterMap_cons, hfound]
      simp [ht]
    · rw [List.filterMap_cons]
      cases htokenOf : tokenOf tokens t with
      | none => simp [ht]
      | some found => simp [ht]

end known

/-! ### The daily table -/

section daily

variable {rows : List TokenFlow} {date : ℤ} {estimate : TokenKey → List String → ℕ}
  {spark : Summation}

/-- **What the row of a token counts**, where a token has one symbol and one name. -/
theorem txCount_of_mem (hmeta : OneMetadata rows) {g : PopularityRow}
    (hg : g ∈ buildTokenPopularityDaily rows date estimate spark) :
    (∃ row ∈ rows, g.tokenAddress = row.tokenAddress ∧ g.symbol = row.symbol ∧
        g.tokenName = row.tokenName) ∧
      g.txCount = rows.countP fun row =>
        row.tokenAddress = g.tokenAddress ∧ row.transactionHash.isSome = true := by
  unfold buildTokenPopularityDaily at hg
  obtain ⟨base, hbase, rfl⟩ := List.mem_map.mp hg
  obtain ⟨row, hrow, rfl⟩ := Grouping.mem_groupBy_map.mp hbase
  refine ⟨⟨row, hrow, rfl, rfl, rfl⟩, ?_⟩
  show List.countP _ (List.map _ (rows.filter _)) = _
  rw [List.countP_map, List.countP_filter]
  refine List.countP_congr fun other hother => ?_
  show ((other.transactionHash.isSome && decide _) = true) ↔ decide (_ ∧ _) = true
  rw [Bool.and_eq_true, decide_eq_true_iff, decide_eq_true_iff, and_comm]
  refine and_congr_left fun _ => ?_
  constructor
  · exact fun hkey => congrArg TokenKey.tokenAddress hkey
  · intro haddress
    obtain ⟨hsymbol, hname⟩ := hmeta other hother row hrow haddress
    show TokenKey.mk _ _ _ _ = TokenKey.mk _ _ _ _
    rw [TokenKey.mk.injEq]
    exact ⟨rfl, haddress, hsymbol, hname⟩

end daily

/-! ### The flow of the known tokens -/

/-- A table has the transfers of known tokens, in the columns that name them. -/
def FlowOf (tokens : List TokenMeta) (transfers : List BronzeTokenTransfer)
    (flow : List TokenFlow) : Prop :=
  (flow.map TokenFlow.columns).Perm ((ChainDay.knownTransfers tokens transfers).map knownColumns)

section flow

variable {tokens : List TokenMeta} {transfers : List BronzeTokenTransfer} {flow : List TokenFlow}
  {row : TokenFlow}

theorem FlowOf.exists_known (h : FlowOf tokens transfers flow)
    (htokens : (tokens.map TokenMeta.tokenAddress).Nodup) (hrow : row ∈ flow) :
    ∃ t ∈ transfers, ∃ token ∈ tokens, t.tokenAddress = token.tokenAddress ∧
      t.tokenAddress ≠ none ∧ row.columns = knownColumns (t, token) := by
  obtain ⟨p, hp, heq⟩ := List.mem_map.mp (h.subset (List.mem_map_of_mem hrow))
  obtain ⟨ht, htoken, haddress, hsome⟩ := (mem_knownTransfers htokens).mp hp
  exact ⟨p.1, ht, p.2, htoken, haddress, hsome, heq.symm⟩

theorem FlowOf.exists_row (h : FlowOf tokens transfers flow)
    (htokens : (tokens.map TokenMeta.tokenAddress).Nodup) {t : BronzeTokenTransfer}
    (ht : t ∈ transfers) {token : TokenMeta} (htoken : token ∈ tokens)
    (hsame : t.tokenAddress = token.tokenAddress) (hsome : t.tokenAddress ≠ none) :
    ∃ row ∈ flow, row.tokenAddress = t.tokenAddress := by
  have hp : (t, token) ∈ ChainDay.knownTransfers tokens transfers :=
    (mem_knownTransfers htokens).mpr ⟨ht, htoken, hsame, hsome⟩
  obtain ⟨row, hrow, hcolumns⟩ := List.mem_map.mp (h.symm.subset (List.mem_map_of_mem hp))
  exact ⟨row, hrow, congrArg TokenColumns.tokenAddress hcolumns⟩

/-- The row of a token has its metadata. -/
theorem FlowOf.metadata (h : FlowOf tokens transfers flow)
    (htokens : (tokens.map TokenMeta.tokenAddress).Nodup) (hrow : row ∈ flow) :
    ∃ token ∈ tokens, row.tokenAddress = token.tokenAddress ∧ row.symbol = token.symbol ∧
      row.tokenName = token.tokenName := by
  obtain ⟨t, -, token, htoken, haddress, -, hcolumns⟩ := h.exists_known htokens hrow
  obtain ⟨hrowAddress, hsymbol, hname, -⟩ := (TokenColumns.mk.injEq ..).mp hcolumns
  exact ⟨token, htoken, hrowAddress.trans haddress, hsymbol, hname⟩

theorem FlowOf.oneMetadata (h : FlowOf tokens transfers flow)
    (htokens : (tokens.map TokenMeta.tokenAddress).Nodup) : OneMetadata flow := by
  intro row hrow row' hrow' heq
  obtain ⟨token, htoken, haddress, hsymbol, hname⟩ := h.metadata htokens hrow
  obtain ⟨token', htoken', haddress', hsymbol', hname'⟩ := h.metadata htokens hrow'
  obtain rfl := List.inj_on_of_nodup_map htokens htoken htoken'
    (haddress.symm.trans (heq.trans haddress'))
  exact ⟨hsymbol.trans hsymbol'.symm, hname.trans hname'.symm⟩

/-- How often a known token stands in the table. -/
theorem FlowOf.countP_row (h : FlowOf tokens transfers flow)
    (htokens : (tokens.map TokenMeta.tokenAddress).Nodup)
    (hhashes : ∀ t ∈ transfers, t.transactionHash ≠ none) (hrow : row ∈ flow) :
    (flow.countP fun other =>
        other.tokenAddress = row.tokenAddress ∧ other.transactionHash.isSome = true) =
      transfers.countP fun t => t.tokenAddress = row.tokenAddress := by
  have hnamed : ∀ other ∈ flow, other.transactionHash.isSome = true := by
    intro other hother
    obtain ⟨t, ht, token, -, -, -, hcolumns⟩ := h.exists_known htokens hother
    obtain ⟨-, -, -, hhash⟩ := (TokenColumns.mk.injEq ..).mp hcolumns
    rw [hhash]
    exact Option.isSome_iff_ne_none.mpr (hhashes t ht)
  obtain ⟨t, -, token, htoken, hsame, hsome, hcolumns⟩ := h.exists_known htokens hrow
  have haddress : row.tokenAddress = token.tokenAddress :=
    (congrArg TokenColumns.tokenAddress hcolumns).trans hsame
  have hcolumn : (flow.countP fun other =>
      other.tokenAddress = row.tokenAddress ∧ other.transactionHash.isSome = true) =
        (flow.map TokenFlow.columns).countP fun other => other.tokenAddress = row.tokenAddress := by
    rw [List.countP_map]
    refine List.countP_congr fun other hother => ?_
    show decide (_ ∧ _) = true ↔ decide (other.tokenAddress = row.tokenAddress) = true
    rw [decide_eq_true_iff, decide_eq_true_iff, and_iff_left (hnamed other hother)]
  rw [hcolumn, List.Perm.countP_eq _ h, List.countP_map, haddress,
    ← countP_knownTransfers htokens htoken (hsame ▸ hsome)]
  rfl

/-- **The daily table of such a flow.** -/
theorem FlowOf.popularity (h : FlowOf tokens transfers flow)
    (htokens : (tokens.map TokenMeta.tokenAddress).Nodup)
    (hhashes : ∀ t ∈ transfers, t.transactionHash ≠ none) (date : ℤ)
    (estimate : TokenKey → List String → ℕ) (spark : Summation) :
    ChainPopularity tokens transfers (buildTokenPopularityDaily flow date estimate spark) := by
  have hmeta := h.oneMetadata htokens
  refine ⟨nodup_tokenAddress hmeta, fun a => ⟨?_, ?_⟩, fun g hg => ?_, fun g hg => ?_⟩
  · rintro ⟨g, hg, ha⟩
    obtain ⟨⟨row, hrow, haddress, -⟩, -⟩ := txCount_of_mem hmeta hg
    obtain ⟨t, ht, token, htoken, hsame, -, hcolumns⟩ := h.exists_known htokens hrow
    have hta : t.tokenAddress = some a :=
      (congrArg TokenColumns.tokenAddress hcolumns).symm.trans (haddress.symm.trans ha)
    exact ⟨⟨token, htoken, hsame ▸ hta⟩, t, ht, hta⟩
  · rintro ⟨⟨token, htoken, htokenAddress⟩, t, ht, ha⟩
    obtain ⟨row, hrow, hrowAddress⟩ :=
      h.exists_row htokens ht htoken (ha.trans htokenAddress.symm) (by simp [ha])
    obtain ⟨g, hg, haddress⟩ := exists_row_of_flow date estimate spark hrow
    exact ⟨g, hg, haddress.trans (hrowAddress.trans ha)⟩
  · obtain ⟨⟨row, hrow, haddress, hsymbol, hname⟩, -⟩ := txCount_of_mem hmeta hg
    obtain ⟨token, htoken, hrest⟩ := h.metadata htokens hrow
    exact ⟨token, htoken, haddress.trans hrest.1, hsymbol.trans hrest.2.1, hname.trans hrest.2.2⟩
  · obtain ⟨⟨row, hrow, haddress, -⟩, hcount⟩ := txCount_of_mem hmeta hg
    rw [hcount, haddress]
    exact h.countP_row htokens hhashes hrow

end flow

/-- **The popularity of the chain**: the known tokens with a transfer in the blocks, and how
many they have. -/
theorem popularity_of_chain {node : Node} {date : ℤ} {blocks : List ℕ} {day : BronzeDay}
    {pow : ℤ → PyFloat} {file : Option (List Label)} {fromLabels toLabels : KnownLabels file}
    {tokens : List TokenMeta} {rows : List FlowRow} {flow : List TokenFlow}
    (estimate : TokenKey → List String → ℕ) (spark : Summation)
    (h : ChainDay node date blocks day)
    (htokens : (tokens.map TokenMeta.tokenAddress).Nodup)
    (hhashes : ∀ n, Storage.InDay node.chain date n → ∀ t ∈ node.transfers n,
      t.transactionHash ≠ none)
    (hrows : buildTokenFlow pow day fromLabels toLabels (some tokens) = .ok rows)
    (hflow : flow.Perm (rows.map readFlow)) :
    ChainPopularity tokens (blocks.flatMap node.transfers)
      (buildTokenPopularityDaily flow date estimate spark) := by
  refine FlowOf.popularity ?_ htokens (fun t ht => ?_) date estimate spark
  · obtain ⟨rows', hrows', hperm, -⟩ := h.flow pow fromLabels toLabels htokens
    obtain rfl : rows' = rows := Except.ok.inj (hrows'.symm.trans hrows)
    have hcolumns := hperm.map fun row =>
      (⟨row.tokenAddress, row.symbol, row.tokenName, row.transactionHash⟩ : TokenColumns)
    refine (hflow.map _).trans (List.Perm.trans (List.Perm.of_eq ?_) (hcolumns.trans
      (List.Perm.of_eq ?_)))
    · rw [List.map_map, List.map_map]
      rfl
    · unfold ChainDay.knownTransfers
      rw [List.filterMap_flatMap, List.map_flatMap, List.map_flatMap]
      refine List.flatMap_congr fun n _ => ?_
      rw [List.map_map]
      rfl
  · obtain ⟨n, hn, ht⟩ := List.mem_flatMap.mp ht
    exact hhashes n ((h.ofDay.mem n).mp hn) t ht

end Gold

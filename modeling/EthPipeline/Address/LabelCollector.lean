import EthPipeline.Address.TokenCollector
import EthPipeline.Backend.LoadCsv
import EthPipeline.Base.Upsert
import Mathlib.Data.String.Basic

/-!
# Collecting the labels

`fetch_labels` and `main` of `src/address/fetch_known_labels.py`: a list of tagged
addresses becomes a table with one name and one category for each address.

* `resolveCategory_eq`: neither the noise nor the wanted categories matter, only the first
  tag that has a category.
* `mem_fetchLabels_iff`: a row is there just when it is the label of its address.
-/

namespace Address

open Backend Csv Window

/-- An object of the JSON. -/
structure LabelInfo where
  name : Option String
  labels : Option (List String)
  deriving DecidableEq, Repr

/-- The JSON; an entry is `none` when it is no object. -/
abbrev LabelData := List (String × Option LabelInfo)

/-- A row of `known_labels.csv`. -/
structure KnownLabel where
  address : String
  name : String
  category : String
  deriving DecidableEq, Repr

/-! ### Tags -/

def tagToCategory : List (String × String) :=
  [("exchange", "CEX"), ("binance", "CEX"), ("coinbase", "CEX"), ("kraken", "CEX"),
    ("okex", "CEX"), ("kucoin", "CEX"), ("bybit", "CEX"), ("bitfinex", "CEX"),
    ("bithumb", "CEX"), ("upbit", "CEX"), ("huobi", "CEX"), ("gate-io", "CEX"),
    ("gemini", "CEX"), ("bitstamp", "CEX"),
    ("dex", "DEX"), ("uniswap", "DEX"), ("sushiswap", "DEX"), ("curve-fi", "DEX"),
    ("balancer", "DEX"), ("1inch", "DEX"), ("pancakeswap", "DEX"), ("dydx", "DEX"),
    ("paraswap", "DEX"), ("cowswap", "DEX"), ("0x-protocol", "DEX"), ("kyberswap", "DEX"),
    ("bridge", "Bridge"), ("optimism-bridge", "Bridge"), ("hop-protocol", "Bridge"),
    ("stargate", "Bridge"), ("wormhole", "Bridge"), ("multichain", "Bridge"),
    ("celer-network", "Bridge"), ("across", "Bridge"), ("synapse", "Bridge"),
    ("defi", "DeFi"), ("aave", "DeFi"), ("compound", "DeFi"), ("makerdao", "DeFi"),
    ("lido", "DeFi"), ("yearn", "DeFi"), ("convex", "DeFi"), ("lending", "DeFi"),
    ("tornado-cash", "Mixer"), ("phish-hack", "Sanctioned"), ("heist", "Sanctioned")]

def skipOnlyTags : List String :=
  ["contract-deployer", "donate", "old-contract", "deprecated", "delegate", "factory-contract"]

def targetCategories : List String := ["CEX", "DEX", "Bridge", "DeFi", "Mixer", "Sanctioned"]

def resolveCategory (labels : List String) : Option String :=
  if labels ⊆ skipOnlyTags then none
  else labels.findSome? fun tag =>
    (tagToCategory.lookup tag).filter fun cat => cat ≠ "" && targetCategories.contains cat

/-! ### The table -/

/-- `addr.startswith("0x")` and `len(addr) == 42`. -/
def IsAddress (addr : String) : Prop := addr.toList.take 2 = ['0', 'x'] ∧ addr.length = 42

instance : DecidablePred IsAddress := fun addr =>
  inferInstanceAs (Decidable (addr.toList.take 2 = ['0', 'x'] ∧ addr.length = 42))

/-- The row of an entry; an object without a name or tags has an empty text or none. -/
def labelRow (lower : String → String) (entry : String × Option LabelInfo) : Option KnownLabel :=
  entry.2.bind fun info =>
    let addr := strip (lower entry.1)
    if IsAddress addr then
      (resolveCategory (info.labels.getD [])).map fun category =>
        ⟨addr, info.name.getD "", category⟩
    else none

/-- `sort_values(["category", "name"])`. -/
def CategoryFirst (r s : KnownLabel) : Prop :=
  r.category < s.category ∨ r.category = s.category ∧ r.name ≤ s.name

instance : DecidableRel CategoryFirst := fun r s =>
  inferInstanceAs (Decidable (r.category < s.category ∨ r.category = s.category ∧ r.name ≤ s.name))

theorem CategoryFirst.trans {r s t : KnownLabel} (hrs : CategoryFirst r s) (hst : CategoryFirst s t) :
    CategoryFirst r t := by
  rcases hrs with hrs | ⟨hrs, hname⟩
  · rcases hst with hst | ⟨hst, -⟩
    · exact .inl (lt_trans hrs hst)
    · exact .inl (hst ▸ hrs)
  · rcases hst with hst | ⟨hst, hname'⟩
    · exact .inl (hrs ▸ hst)
    · exact .inr ⟨hrs.trans hst, le_trans hname hname'⟩

theorem CategoryFirst.total (r s : KnownLabel) : CategoryFirst r s ∨ CategoryFirst s r := by
  rcases lt_trichotomy r.category s.category with h | h | h
  · exact .inl (.inl h)
  · exact (le_total r.name s.name).imp (fun hname => .inr ⟨h, hname⟩) fun hname => .inr ⟨h.symm, hname⟩
  · exact .inr (.inl h)

/-- Sorting the rows as they come. -/
def categoryFirst : Sorting CategoryFirst :=
  Sorting.insertion _ (fun _ _ _ => CategoryFirst.trans) CategoryFirst.total

/-- `drop_duplicates` keeps the first row of an address.  Without a row the frame has no
column to sort by, which is an exception. -/
def fetchLabels (lower : String → String) (order : Sorting CategoryFirst) (data : LabelData) :
    Option (List KnownLabel) :=
  let rows := data.filterMap (labelRow lower)
  if rows = [] then none
  else some (order.run ((Keyed.empty : Keyed KnownLabel.address).insertAll rows).rows)

def KnownLabel.row (r : KnownLabel) : List Field :=
  [r.address.toList, r.name.toList, r.category.toList]

/-- `known_labels.csv` and `known_labels.parquet`. -/
structure LabelFiles where
  csv : List Char
  parquet : List KnownLabel

/-- What `main` writes; the request for the JSON may fail. -/
def labelMain (lower : String → String) (order : Sorting CategoryFirst) (data : Option LabelData) :
    Option LabelFiles :=
  (data.bind (fetchLabels lower order)).map fun rows =>
    ⟨toCsv labelHeader (rows.map KnownLabel.row), rows⟩

/-! ### What the table says -/

/-- The category of the first tag that has one. -/
def firstCategory (labels : List String) : Option String :=
  labels.findSome? fun tag => tagToCategory.lookup tag

/-- The label of an address: its first entry that has a category. -/
def collectedLabel (lower : String → String) (data : LabelData) (address : String) :
    Option KnownLabel :=
  if IsAddress address then
    data.findSome? fun entry =>
      if strip (lower entry.1) = address then
        entry.2.bind fun info => (firstCategory (info.labels.getD [])).map fun category =>
          ⟨address, info.name.getD "", category⟩
      else none
  else none

theorem mem_of_lookup {table : List (String × String)} {tag category : String}
    (h : table.lookup tag = some category) : (tag, category) ∈ table := by
  obtain ⟨before, after, rfl, -⟩ := List.lookup_eq_some_iff.mp h
  exact List.mem_append_right before List.mem_cons_self

/-- Every category of the table is wanted. -/
theorem category_mem {tag category : String} (h : tagToCategory.lookup tag = some category) :
    category ∈ targetCategories := by
  have hall : ∀ p ∈ tagToCategory, p.2 ∈ targetCategories := by decide +kernel
  exact hall _ (mem_of_lookup h)

theorem lookup_filter (tag : String) :
    ((tagToCategory.lookup tag).filter fun cat => cat ≠ "" && targetCategories.contains cat) =
      tagToCategory.lookup tag := by
  cases h : tagToCategory.lookup tag with
  | none => rfl
  | some category =>
    have hwanted : ∀ cat ∈ targetCategories, (cat ≠ "" && targetCategories.contains cat) = true := by
      decide +kernel
    rw [Option.filter_some, if_pos (hwanted category (category_mem h))]

/-- **The first tag with a category** decides. -/
theorem resolveCategory_eq (labels : List String) : resolveCategory labels = firstCategory labels := by
  unfold resolveCategory
  split
  · next hskip =>
    have hnone : ∀ tag ∈ skipOnlyTags, tagToCategory.lookup tag = none := by decide +kernel
    exact (List.findSome?_eq_none_iff.mpr fun tag htag => hnone tag (hskip htag)).symm
  · exact congrArg labels.findSome? (funext lookup_filter)

variable {lower : String → String} {order : Sorting CategoryFirst} {data : LabelData}
  {rows : List KnownLabel} {r : KnownLabel} {entry : String × Option LabelInfo}

theorem labelRow_valid (h : labelRow lower entry = some r) :
    IsAddress r.address ∧ r.category ∈ targetCategories := by
  obtain ⟨info, -, h⟩ := Option.bind_eq_some_iff.mp h
  by_cases hvalid : IsAddress (strip (lower entry.1))
  · simp only [if_pos hvalid] at h
    obtain ⟨category, hcategory, rfl⟩ := Option.map_eq_some_iff.mp h
    rw [resolveCategory_eq] at hcategory
    obtain ⟨tag, -, htag⟩ := List.exists_of_findSome?_eq_some hcategory
    exact ⟨hvalid, category_mem htag⟩
  · simp only [if_neg hvalid, reduceCtorEq] at h

/-- The part of the label of an address that one entry gives. -/
theorem labelRow_filter {address : String} (haddress : IsAddress address) :
    ((labelRow lower entry).filter fun r => r.address = address) =
      if strip (lower entry.1) = address then
        entry.2.bind fun info => (firstCategory (info.labels.getD [])).map fun category =>
          ⟨address, info.name.getD "", category⟩
      else none := by
  unfold labelRow
  cases entry.2 with
  | none => split <;> rfl
  | some info =>
    simp only [Option.bind_some, resolveCategory_eq]
    by_cases hkey : strip (lower entry.1) = address
    · rw [if_pos hkey, hkey, if_pos haddress]
      cases firstCategory (info.labels.getD []) with
      | none => rfl
      | some category => simp
    · rw [if_neg hkey]
      split
      · cases firstCategory (info.labels.getD []) with
        | none => rfl
        | some category => simp [hkey]
      · rfl

/-- **The first row of an address** is its label. -/
theorem find?_labelRow (lower : String → String) (data : LabelData) (address : String) :
    (data.filterMap (labelRow lower)).find? (fun r => r.address = address) =
      collectedLabel lower data address := by
  unfold collectedLabel
  split
  · next haddress =>
    rw [← List.head?_filter, List.filter_filterMap, List.head?_filterMap]
    exact congrArg data.findSome? (funext fun entry => labelRow_filter haddress)
  · next haddress =>
    refine List.find?_eq_none.mpr fun r hr => ?_
    obtain ⟨entry, -, hentry⟩ := List.mem_filterMap.mp hr
    have hvalid := (labelRow_valid hentry).1
    simp only [decide_eq_true_eq]
    rintro rfl
    exact haddress hvalid

theorem perm_fetchLabels (h : fetchLabels lower order data = some rows) :
    rows.Perm ((Keyed.empty : Keyed KnownLabel.address).insertAll
      (data.filterMap (labelRow lower))).rows := by
  unfold fetchLabels at h
  simp only [Option.ite_none_left_eq_some] at h
  obtain ⟨-, h⟩ := h
  obtain rfl := Option.some.inj h
  exact order.perm _

theorem nodup_fetchLabels (h : fetchLabels lower order data = some rows) :
    (rows.map KnownLabel.address).Nodup :=
  ((perm_fetchLabels h).map KnownLabel.address).nodup_iff.mpr (Keyed.nodup _)

/-- **The rows** are the labels of their addresses. -/
theorem mem_fetchLabels_iff (h : fetchLabels lower order data = some rows) :
    r ∈ rows ↔ collectedLabel lower data r.address = some r := by
  rw [(perm_fetchLabels h).mem_iff, Keyed.mem_rows_iff_find, Keyed.find_insertAll, Keyed.find_empty,
    Option.none_or, find?_labelRow]

theorem collectedLabel_address {address : String} (h : collectedLabel lower data address = some r) :
    r.address = address := by
  rw [← find?_labelRow] at h
  exact (Keyed.find?_key h).2

theorem valid_of_mem (h : fetchLabels lower order data = some rows) (hr : r ∈ rows) :
    IsAddress r.address ∧ r.category ∈ targetCategories := by
  rw [mem_fetchLabels_iff h, ← find?_labelRow] at hr
  obtain ⟨entry, -, hentry⟩ := List.mem_filterMap.mp (List.mem_of_find?_eq_some hr)
  exact labelRow_valid hentry

end Address

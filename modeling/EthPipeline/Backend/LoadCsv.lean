import EthPipeline.Base.Csv

/-!
# The files of labels and tokens

`main` of `src/address/fetch_known_labels.py` and `top1000_erc20_tokens.py` write the
two files, and `load_known_label_from_csv` and `load_tokens_from_csv` of
`src/backend/core/db.py` read them at start-up.

* `csv_round_trip_iff`: the written records are read just when no name or symbol has a
  character that `str.splitlines` cuts at.
* `name_cut_in_two`: a name with such a character.
-/

namespace Backend

open Csv

/-- Methods of Python's texts; an `int` of no number is an exception. -/
structure PyText where
  lower : String → String
  isdigit : String → Bool
  int : String → Option ℕ
  eighteen : isdigit "18" ∧ int "18" = some 18

/-- An address, a category or a number as it is written. -/
structure Cell where
  text : String
  plain : text.toList.all fun c => c.isAlphanum || c = '.' || c = '-'
  short : text.toList.length ≤ fieldLimit

/-! ### The writers -/

structure LabelRecord where
  address : Cell
  name : String
  category : Cell

structure TokenRecord where
  rank : Cell
  marketRank : Cell
  name : String
  symbol : String
  address : Cell
  marketCapUsd : Cell

def labelHeader : List Field := ["address", "name", "category"].map String.toList

def LabelRecord.row (r : LabelRecord) : List Field :=
  [r.address.text.toList, r.name.toList, r.category.text.toList]

def tokenHeader : List Field :=
  ["rank", "market_rank", "name", "symbol", "address", "decimals", "market_cap_usd"].map
    String.toList

/-- The decimals are always 18. -/
def TokenRecord.row (r : TokenRecord) : List Field :=
  [r.rank.text.toList, r.marketRank.text.toList, r.name.toList, r.symbol.toList,
    r.address.text.toList, "18".toList, r.marketCapUsd.text.toList]

/-- `to_csv(…, encoding="utf-8-sig")`: the byte order mark stands first. -/
def toCsv (header : List Field) (rows : List (List Field)) : List Char :=
  '\uFEFF' :: encode (header :: rows)

def labelsFile (records : List LabelRecord) : List Char :=
  toCsv labelHeader (records.map LabelRecord.row)

def tokensFile (records : List TokenRecord) : List Char :=
  toCsv tokenHeader (records.map TokenRecord.row)

/-! ### The readers -/

/-- `open(…, mode="r", encoding="utf-8-sig")` and `read()`. -/
def readText (file : List Char) : List Char :=
  universalNewlines (if file.head? = some '\uFEFF' then file.tail else file)

/-- A row of `csv.DictReader`: a missing field is `None`. -/
abbrev DictRow := List (Field × Option Field)

def dictRow (header row : List Field) : DictRow :=
  header.zip (row.map some ++ List.replicate (header.length - row.length) none)

/-- `row[column]`; `none` is a `KeyError`. -/
def DictRow.get (row : DictRow) (column : String) : Option (Option String) :=
  (row.reverse.lookup column.toList).map fun value => value.map String.ofList

/-- `csv.DictReader(content.splitlines())`, which skips blank rows. -/
def dictRows (file : List Char) : Option (List DictRow) :=
  (readRows .init (splitlines (readText file))).map fun rows =>
    match rows with
    | [] => []
    | header :: rows => (rows.filter fun row => row ≠ []).map (dictRow header)

structure LoadedLabel where
  address : String
  name : Option String
  category : Option String
  deriving DecidableEq, Repr

structure LoadedToken where
  address : String
  symbol : Option String
  name : Option String
  decimals : ℕ
  deriving DecidableEq, Repr

/-- `int(text) if text.isdigit() else 18`. -/
def loadedDecimals (py : PyText) (text : String) : Option ℕ :=
  if py.isdigit text then py.int text else some 18

/-- `None` has no `lower`. -/
def loadedLabel (py : PyText) (row : DictRow) : Option LoadedLabel := do
  let address ← row.get "address"
  let address ← address
  let name ← row.get "name"
  let category ← row.get "category"
  return ⟨py.lower address, name, category⟩

def loadedToken (py : PyText) (row : DictRow) : Option LoadedToken := do
  let address ← row.get "address"
  let address ← address
  let symbol ← row.get "symbol"
  let name ← row.get "name"
  let decimals ← row.get "decimals"
  let decimals ← decimals
  let decimals ← loadedDecimals py decimals
  return ⟨py.lower address, symbol, name, decimals⟩

/-- The records for the database; `none` is an exception. -/
def loadKnownLabelFromCsv (py : PyText) (file : List Char) : Option (List LoadedLabel) :=
  (dictRows file).bind fun rows => rows.mapM (loadedLabel py)

def loadTokensFromCsv (py : PyText) (file : List Char) : Option (List LoadedToken) :=
  (dictRows file).bind fun rows => rows.mapM (loadedToken py)

/-! ### The round trip -/

/-- The record that should be loaded. -/
def LabelRecord.loaded (py : PyText) (r : LabelRecord) : LoadedLabel :=
  ⟨py.lower r.address.text, some r.name, some r.category.text⟩

def TokenRecord.loaded (py : PyText) (r : TokenRecord) : LoadedToken :=
  ⟨py.lower r.address.text, some r.symbol, some r.name, 18⟩

theorem Cell.clean (cell : Cell) : Clean cell.text.toList := by
  refine ⟨fun c hc hboundary => ?_, cell.short⟩
  have hplain := List.all_eq_true.mp cell.plain c hc
  simp only [isBoundary, List.mem_cons, List.not_mem_nil, or_false, decide_eq_true_eq] at hboundary
  rcases hboundary with rfl | rfl | rfl | rfl | rfl | rfl | rfl | rfl | rfl | rfl <;>
    exact absurd hplain (by decide)

theorem loadedLabel_row (py : PyText) (r : LabelRecord) :
    loadedLabel py (dictRow labelHeader r.row) = some (r.loaded py) := by
  have haddress : (dictRow labelHeader r.row).get "address" =
      some (some (String.ofList r.address.text.toList)) := rfl
  have hname : (dictRow labelHeader r.row).get "name" =
      some (some (String.ofList r.name.toList)) := rfl
  have hcategory : (dictRow labelHeader r.row).get "category" =
      some (some (String.ofList r.category.text.toList)) := rfl
  simp only [String.ofList_toList] at haddress hname hcategory
  rw [loadedLabel, haddress, hname, hcategory]
  rfl

theorem loadedToken_row (py : PyText) (r : TokenRecord) :
    loadedToken py (dictRow tokenHeader r.row) = some (r.loaded py) := by
  have haddress : (dictRow tokenHeader r.row).get "address" =
      some (some (String.ofList r.address.text.toList)) := rfl
  have hsymbol : (dictRow tokenHeader r.row).get "symbol" =
      some (some (String.ofList r.symbol.toList)) := rfl
  have hname : (dictRow tokenHeader r.row).get "name" =
      some (some (String.ofList r.name.toList)) := rfl
  have hdecimals : (dictRow tokenHeader r.row).get "decimals" = some (some "18") := rfl
  have height : loadedDecimals py "18" = some 18 := by
    rw [loadedDecimals, if_pos py.eighteen.1, py.eighteen.2]
  simp only [String.ofList_toList] at haddress hsymbol hname
  simp only [loadedToken, haddress, hsymbol, hname, hdecimals, height, Option.bind_eq_bind,
    Option.bind_some]
  rfl

theorem dictRows_toCsv {header : List Field} {rows : List (List Field)} (hheader : 1 < header.length)
    (hrows : ∀ row ∈ rows, 1 < row.length) (hclean : ∀ row ∈ header :: rows, ∀ f ∈ row, Clean f) :
    dictRows (toCsv header rows) = some (rows.map (dictRow header)) := by
  have hlong : ∀ row ∈ header :: rows, 1 < row.length := by
    intro row hrow
    rcases List.mem_cons.mp hrow with rfl | hrow
    · exact hheader
    · exact hrows row hrow
  have hread : readRows .init (splitlines (readText (toCsv header rows))) =
      some (header :: rows) := readRows_encode hlong hclean
  have hblank : rows.filter (fun row => row ≠ []) = rows := by
    refine List.filter_eq_self.mpr fun row hrow => decide_eq_true ?_
    rintro rfl
    exact absurd (hrows [] hrow) (by decide)
  rw [dictRows, hread]
  exact congrArg (fun rows => some (rows.map (dictRow header))) hblank

theorem mapM_map_eq_some {α β γ : Type} {f : α → β} {g : β → Option γ} {h : α → γ}
    (hg : ∀ a, g (f a) = some (h a)) (xs : List α) : (xs.map f).mapM g = some (xs.map h) := by
  induction xs with
  | nil => rfl
  | cons a xs ih =>
    rw [List.map_cons, List.mapM_cons, hg, ih]
    rfl

theorem exists_of_mem_mapM {α β : Type} {g : α → Option β} {xs : List α} {ys : List β}
    (h : xs.mapM g = some ys) {y : β} (hy : y ∈ ys) : ∃ x ∈ xs, g x = some y := by
  induction xs generalizing ys with
  | nil =>
    cases h
    cases hy
  | cons x xs ih =>
    rw [List.mapM_cons, Option.bind_eq_bind, Option.bind_eq_some_iff] at h
    obtain ⟨z, hz, h⟩ := h
    rw [Option.bind_eq_bind, Option.bind_eq_some_iff] at h
    obtain ⟨zs, hzs, h⟩ := h
    obtain rfl := Option.some.inj h
    rcases List.mem_cons.mp hy with rfl | hy
    · exact ⟨x, List.mem_cons_self, hz⟩
    · obtain ⟨w, hw, hwy⟩ := ih hzs hy
      exact ⟨w, List.mem_cons_of_mem x hw, hwy⟩

/-- A text that is read from a file is clean. -/
theorem clean_of_get {file : List Char} {rows : List DictRow} (hrows : dictRows file = some rows)
    {row : DictRow} (hrow : row ∈ rows) {column text : String}
    (hget : row.get column = some (some text)) : Clean text.toList := by
  obtain ⟨table, htable, rfl⟩ := Option.map_eq_some_iff.mp hrows
  have hclean := readRows_splitlines_clean htable
  cases table with
  | nil => cases hrow
  | cons header table =>
    obtain ⟨fields, hfields, rfl⟩ := List.mem_map.mp hrow
    obtain ⟨value, hvalue, htext⟩ := Option.map_eq_some_iff.mp hget
    obtain ⟨f, rfl, rfl⟩ := Option.map_eq_some_iff.mp htext
    have hmem : (column.toList, some f) ∈ dictRow header fields := by
      obtain ⟨before, after, hsplit, -⟩ := List.lookup_eq_some_iff.mp hvalue
      rw [← List.mem_reverse, hsplit]
      simp
    have hf := (List.of_mem_zip hmem).2
    rcases List.mem_append.mp hf with hf | hf
    · obtain ⟨g, hg, heq⟩ := List.mem_map.mp hf
      obtain rfl := Option.some.inj heq
      rw [String.toList_ofList]
      exact hclean fields (List.mem_cons_of_mem header (List.mem_of_mem_filter hfields)) g hg
    · cases List.eq_of_mem_replicate hf

/-- The name of a label that is loaded is clean. -/
theorem clean_of_loadedLabel {py : PyText} {file : List Char} {loaded : List LoadedLabel}
    (hload : loadKnownLabelFromCsv py file = some loaded) {label : LoadedLabel}
    (hlabel : label ∈ loaded) {name : String} (hname : label.name = some name) :
    Clean name.toList := by
  obtain ⟨rows, hrows, hmap⟩ := Option.bind_eq_some_iff.mp hload
  obtain ⟨row, hrow, hrecord⟩ := exists_of_mem_mapM hmap hlabel
  simp only [loadedLabel, Option.bind_eq_bind, Option.bind_eq_some_iff, Option.pure_def,
    Option.some.injEq] at hrecord
  obtain ⟨-, -, address, -, read, hread, category, -, rfl⟩ := hrecord
  exact clean_of_get hrows hrow (hread.trans (congrArg some hname))

theorem clean_of_loadedToken {py : PyText} {file : List Char} {loaded : List LoadedToken}
    (hload : loadTokensFromCsv py file = some loaded) {token : LoadedToken}
    (htoken : token ∈ loaded) :
    (∀ name, token.name = some name → Clean name.toList) ∧
      ∀ symbol, token.symbol = some symbol → Clean symbol.toList := by
  obtain ⟨rows, hrows, hmap⟩ := Option.bind_eq_some_iff.mp hload
  obtain ⟨row, hrow, hrecord⟩ := exists_of_mem_mapM hmap htoken
  simp only [loadedToken, Option.bind_eq_bind, Option.bind_eq_some_iff, Option.pure_def,
    Option.some.injEq] at hrecord
  obtain ⟨-, -, address, -, symbol, hsymbol, name, hname, -, -, text, -, decimals, -, rfl⟩ := hrecord
  constructor
  · exact fun text htext => clean_of_get hrows hrow (hname.trans (congrArg some htext))
  · exact fun text htext => clean_of_get hrows hrow (hsymbol.trans (congrArg some htext))

theorem clean_header : (∀ f ∈ labelHeader, Clean f) ∧ ∀ f ∈ tokenHeader, Clean f := by
  decide +kernel

theorem loadKnownLabel_iff (py : PyText) (labels : List LabelRecord) :
    loadKnownLabelFromCsv py (labelsFile labels) = some (labels.map (LabelRecord.loaded py)) ↔
      ∀ r ∈ labels, Clean r.name.toList := by
  constructor
  · intro h r hr
    exact clean_of_loadedLabel h (List.mem_map_of_mem hr) rfl
  · intro hclean
    have hrows : dictRows (labelsFile labels) =
        some ((labels.map LabelRecord.row).map (dictRow labelHeader)) := by
      refine dictRows_toCsv (by decide) (fun row hrow => ?_) fun row hrow => ?_
      · obtain ⟨r, -, rfl⟩ := List.mem_map.mp hrow
        exact Nat.lt_of_sub_eq_succ rfl
      · rcases List.mem_cons.mp hrow with rfl | hrow
        · exact clean_header.1
        · obtain ⟨r, hr, rfl⟩ := List.mem_map.mp hrow
          simp only [LabelRecord.row, List.forall_mem_cons]
          exact ⟨r.address.clean, hclean r hr, r.category.clean, fun f hf => nomatch hf⟩
    rw [loadKnownLabelFromCsv, hrows, Option.bind_some, List.map_map]
    exact mapM_map_eq_some (loadedLabel_row py) labels

theorem loadTokens_iff (py : PyText) (tokens : List TokenRecord) :
    loadTokensFromCsv py (tokensFile tokens) = some (tokens.map (TokenRecord.loaded py)) ↔
      ∀ r ∈ tokens, Clean r.name.toList ∧ Clean r.symbol.toList := by
  constructor
  · intro h r hr
    obtain ⟨hname, hsymbol⟩ := clean_of_loadedToken h (List.mem_map_of_mem hr)
    exact ⟨hname _ rfl, hsymbol _ rfl⟩
  · intro hclean
    have hrows : dictRows (tokensFile tokens) =
        some ((tokens.map TokenRecord.row).map (dictRow tokenHeader)) := by
      refine dictRows_toCsv (by decide) (fun row hrow => ?_) fun row hrow => ?_
      · obtain ⟨r, -, rfl⟩ := List.mem_map.mp hrow
        exact Nat.lt_of_sub_eq_succ rfl
      · rcases List.mem_cons.mp hrow with rfl | hrow
        · exact clean_header.2
        · obtain ⟨r, hr, rfl⟩ := List.mem_map.mp hrow
          obtain ⟨hname, hsymbol⟩ := hclean r hr
          simp only [TokenRecord.row, List.forall_mem_cons]
          exact ⟨r.rank.clean, r.marketRank.clean, hname, hsymbol, r.address.clean,
            by decide, r.marketCapUsd.clean, fun f hf => nomatch hf⟩
    rw [loadTokensFromCsv, hrows, Option.bind_some, List.map_map]
    exact mapM_map_eq_some (loadedToken_row py) tokens

/-- **The round trip**: the records that were written are read, in their order and with their
addresses in lower case, just when no name or symbol can be cut or is too long. -/
theorem csv_round_trip_iff (py : PyText) (labels : List LabelRecord) (tokens : List TokenRecord) :
    (loadKnownLabelFromCsv py (labelsFile labels) = some (labels.map (LabelRecord.loaded py)) ↔
        ∀ r ∈ labels, Clean r.name.toList) ∧
      (loadTokensFromCsv py (tokensFile tokens) = some (tokens.map (TokenRecord.loaded py)) ↔
        ∀ r ∈ tokens, Clean r.name.toList ∧ Clean r.symbol.toList) :=
  ⟨loadKnownLabel_iff py labels, loadTokens_iff py tokens⟩

/-- Texts of ASCII. -/
def asciiText : PyText where
  lower text := String.ofList (text.toList.map Char.toLower)
  isdigit text := text ≠ "" && text.toList.all Char.isDigit
  int text := some (text.toList.foldl (fun n c => 10 * n + (c.toNat - 48)) 0)
  eighteen := by decide

/-- An exchange whose name has a line separator. -/
def separatedName : LabelRecord where
  address := ⟨"0xA1", by decide, by decide⟩
  name := "Hot\u2028wallet"
  category := ⟨"CEX", by decide, by decide⟩

/-- **A name that is cut in two**: the label loses its category, and the rest of the name is
an address of its own. -/
theorem name_cut_in_two :
    loadKnownLabelFromCsv asciiText (labelsFile [separatedName]) =
        some [⟨"0xa1", some "Hot", none⟩, ⟨"wallet", some "CEX", none⟩] ∧
      loadKnownLabelFromCsv asciiText (labelsFile [separatedName]) ≠
        some ([separatedName].map (LabelRecord.loaded asciiText)) := by
  decide +kernel

end Backend

import EthPipeline.Address.LabelCollector
import EthPipeline.Backend.Catalogue
import EthPipeline.Silver.TokenFlow
import EthPipeline.Silver.WhaleOrder

/-!
# One label for an address

The two files of the label collector, up to their readers: the servers load
`known_labels.csv` into `address_labels`, and `load_address_labels` of Silver reads
`known_labels.parquet`.

* `labels_loaded`: when a server has loaded the file, the table has the labels that were
  collected, and keeps them.
* `one_label`: the rows of Silver and the answers of the servers name an address alike.
-/

namespace Address

open Backend Consumer Csv Processes Silver Window

variable {py : PyText} {order : Sorting CategoryFirst} {data : LabelData}
  {known : List KnownLabel}

/-! ### The file of the servers -/

/-- A row as `address_labels` has it. -/
def KnownLabel.stored (r : KnownLabel) : String × AddressLabel :=
  (r.address, ⟨some r.name, some r.category⟩)

/-- A row whose texts survive the file and fit their columns. -/
structure KnownLabel.Fits (py : PyText) (r : KnownLabel) : Prop where
  cleanAddress : Clean r.address.toList
  cleanName : Clean r.name.toList
  address : varchar 42 (py.lower r.address) = some r.address
  name : varchar 255 r.name = some r.name

theorem category_fits {category : String} (h : category ∈ targetCategories) :
    Clean category.toList ∧ varchar 100 category = some category := by
  have hall : ∀ c ∈ targetCategories, Clean c.toList ∧ varchar 100 c = some c := by decide +kernel
  exact hall category h

theorem loadedLabel_known (py : PyText) (r : KnownLabel) :
    loadedLabel py (dictRow labelHeader r.row) =
      some ⟨py.lower r.address, some r.name, some r.category⟩ := by
  have haddress : (dictRow labelHeader r.row).get "address" =
      some (some (String.ofList r.address.toList)) := rfl
  have hname : (dictRow labelHeader r.row).get "name" =
      some (some (String.ofList r.name.toList)) := rfl
  have hcategory : (dictRow labelHeader r.row).get "category" =
      some (some (String.ofList r.category.toList)) := rfl
  simp only [String.ofList_toList] at haddress hname hcategory
  rw [loadedLabel, haddress, hname, hcategory]
  rfl

theorem row_known {r : KnownLabel} (hfits : r.Fits py) (hcategory : r.category ∈ targetCategories) :
    LoadedLabel.row ⟨py.lower r.address, some r.name, some r.category⟩ = some r.stored := by
  simp [LoadedLabel.row, KnownLabel.stored, hfits.address, hfits.name, (category_fits hcategory).2,
    nullable]

/-- **The rows of the file** are loaded as they are. -/
theorem labelRows_known (hfits : ∀ r ∈ known, r.Fits py)
    (hcategory : ∀ r ∈ known, r.category ∈ targetCategories) :
    labelRows py (toCsv labelHeader (known.map KnownLabel.row)) =
      some (known.map KnownLabel.stored) := by
  have hrows : dictRows (toCsv labelHeader (known.map KnownLabel.row)) =
      some ((known.map KnownLabel.row).map (dictRow labelHeader)) := by
    refine dictRows_toCsv (by decide) (fun row hrow => ?_) fun row hrow => ?_
    · obtain ⟨r, -, rfl⟩ := List.mem_map.mp hrow
      exact Nat.lt_of_sub_eq_succ rfl
    · rcases List.mem_cons.mp hrow with rfl | hrow
      · exact clean_header.1
      · obtain ⟨r, hr, rfl⟩ := List.mem_map.mp hrow
        simp only [KnownLabel.row, List.forall_mem_cons]
        exact ⟨(hfits r hr).cleanAddress, (hfits r hr).cleanName,
          (category_fits (hcategory r hr)).1, fun f hf => nomatch hf⟩
  have hloaded : loadKnownLabelFromCsv py (toCsv labelHeader (known.map KnownLabel.row)) =
      some (known.map fun r => ⟨py.lower r.address, some r.name, some r.category⟩) := by
    rw [loadKnownLabelFromCsv, hrows, Option.bind_some, List.map_map]
    exact mapM_map_eq_some (loadedLabel_known py) known
  rw [labelRows, hloaded, Option.bind_some, List.mapM_map]
  exact Traverse.mapM_of_forall_mem fun r hr => row_known (hfits r hr) (hcategory r hr)

/-! ### The table of the servers -/

/-- Servers that have this file of labels, or none. -/
def OneLabelFile (file : List Char) : Launch → Prop
  | .startup files => ∀ g ∈ files.labels, g = file
  | .rebuild => True

/-- The table has rows of the file only, and all of them if it is `full`. -/
structure Labelled (rows : List (String × AddressLabel)) (full : Prop) (s : Stores) : Prop where
  subset : s.addressLabels.rows ⊆ rows
  all : full → rows ⊆ s.addressLabels.rows

/-- What a process still loads, and what one that has loaded the file has left. -/
def Loads (file : List Char) (rows : List (String × AddressLabel)) (s : Stores) : Stage → Prop
  | .loadTokens files | .loadLabels files => ∀ g ∈ files.labels, g = file
  | .loadIndex files => files.labels.isSome → rows ⊆ s.addressLabels.rows
  | _ => True

variable {s s' : Stores} {stage stage' : Stage} {file : List Char}
  {rows : List (String × AddressLabel)} {full : Prop}

/-- A server reads the file, or nothing. -/
theorem rows_of_ofFile (hfile : labelRows py file = some rows) {read : Option (List Char)}
    (hread : ∀ g ∈ read, g = file) {loaded : List (String × AddressLabel)}
    (h : ofFile (labelRows py) read = some loaded) :
    loaded ⊆ rows ∧ (read.isSome → loaded = rows) := by
  cases read with
  | none =>
    obtain rfl := Option.some.inj h
    exact ⟨List.nil_subset rows, fun hnone => by cases hnone⟩
  | some g =>
    obtain rfl := hread g rfl
    obtain rfl := Option.some.inj (hfile.symm.trans h)
    exact ⟨List.Subset.refl rows, fun _ => rfl⟩

/-- No label is replaced by another. -/
theorem labels_subset (h : Moved py s stage s' stage') (hfile : labelRows py file = some rows)
    (hnodup : (rows.map Prod.fst).Nodup) (hs : Labelled rows full s)
    (hstage : Loads file rows s stage) : s.addressLabels.rows ⊆ s'.addressLabels.rows := by
  intro r hr
  cases h with
  | labels hrows hnext =>
    have hsub := (rows_of_ofFile hfile hstage hrows).1
    exact Keyed.mem_upsertAll hr fun q hq hkey =>
      List.inj_on_of_nodup_map hnodup (hsub hq) (hs.subset hr) hkey
  | _ => exact hr

theorem Loads.mono (h : Loads file rows s stage)
    (hsub : s.addressLabels.rows ⊆ s'.addressLabels.rows) : Loads file rows s' stage := by
  cases stage with
  | loadTokens files => exact h
  | loadLabels files => exact h
  | loadIndex files => exact fun hsome => List.Subset.trans (h hsome) hsub
  | _ => trivial

theorem labelled_moved (h : Moved py s stage s' stage') (hfile : labelRows py file = some rows)
    (hnodup : (rows.map Prod.fst).Nodup) (hs : Labelled rows full s)
    (hstage : Loads file rows s stage) : Labelled rows full s' ∧ Loads file rows s' stage' := by
  have hkeep := labels_subset h hfile hnodup hs hstage
  have hall := fun hfull => List.Subset.trans (hs.all hfull) hkeep
  cases h with
  | tokens hrows hnext =>
    refine ⟨⟨hs.subset, hall⟩, ?_⟩
    rcases hnext with rfl | rfl
    · exact hstage
    · trivial
  | @labels files loaded next hrows hnext =>
    obtain ⟨hsub, heq⟩ := rows_of_ofFile hfile hstage hrows
    refine ⟨⟨fun r hr => ?_, hall⟩, ?_⟩
    · rcases Keyed.mem_of_mem_upsertAll hr with hr | hr
      · exact hsub hr
      · exact hs.subset hr
    · rcases hnext with rfl | rfl
      · intro hsome r hr
        obtain rfl := heq hsome
        exact Keyed.mem_upsertAll_of_nodup s.addressLabels hnodup hr
      · trivial
  | recreated hnext =>
    refine ⟨⟨hs.subset, hall⟩, ?_⟩
    rcases hnext with rfl | rfl <;> trivial
  | _ => exact ⟨⟨hs.subset, hall⟩, trivial⟩

theorem rules_labelled (hfile : labelRows py file = some rows) (hnodup : (rows.map Prod.fst).Nodup) :
    Rules Launch.stage (move py) (OneLabelFile file) (Labelled rows full) (Loads file rows) where
  begins s x hx _ := by
    cases x with
    | startup files => exact hx
    | rebuild => trivial
  keeps _ _ _ _ _ h hs hstage := labelled_moved (moved_of_move h) hfile hnodup hs hstage
  others _ _ _ _ _ _ h hs hstage hother :=
    hother.mono (labels_subset (moved_of_move h) hfile hnodup hs hstage)

theorem labelled_initial : Holds (Labelled rows False) (Loads file rows) Catalogue.initial where
  store := ⟨List.nil_subset rows, False.elim⟩
  processes p hp := by cases hp

/-- Rows of the file only; and all of them, from the moment that a server has loaded it. -/
theorem labelled_after (hfile : labelRows py file = some rows) (hnodup : (rows.map Prod.fst).Nodup)
    {before after : List CatalogueEvent}
    (hevents : ∀ e ∈ before ++ after, Starting (OneLabelFile file) e) :
    Labelled rows (∃ files, Stage.loadIndex files ∈ (Catalogue.after py before).processes ∧
      files.labels.isSome) (Catalogue.after py (before ++ after)).store := by
  have hbefore : Holds (Labelled rows False) (Loads file rows) (Catalogue.after py before) :=
    runs_holds (rules_labelled hfile hnodup)
      (fun e he => hevents e (List.mem_append_left after he)) labelled_initial
  have hfull : Labelled rows (∃ files, Stage.loadIndex files ∈
      (Catalogue.after py before).processes ∧ files.labels.isSome) (Catalogue.after py before).store :=
    ⟨hbefore.store.subset, fun ⟨files, hp, hsome⟩ => hbefore.processes _ hp hsome⟩
  have happend : Catalogue.after py (before ++ after) =
      Run.runs (step Launch.stage (move py)) (Catalogue.after py before) after :=
    Run.runs_append _ _ _
  rw [happend]
  exact (runs_holds (rules_labelled hfile hnodup)
    (fun e he => hevents e (List.mem_append_right before he)) ⟨hfull, hbefore.processes⟩).store

/-! ### From the collector to the table -/

theorem labelMain_eq_some {lower : String → String} {files : LabelFiles}
    (h : labelMain lower order (some data) = some files) :
    fetchLabels lower order data = some files.parquet ∧
      files.csv = toCsv labelHeader (files.parquet.map KnownLabel.row) := by
  obtain ⟨known, hknown, rfl⟩ := Option.map_eq_some_iff.mp h
  exact ⟨hknown, rfl⟩

theorem nodup_stored (h : fetchLabels py.lower order data = some known) :
    ((known.map KnownLabel.stored).map Prod.fst).Nodup := by
  rw [List.map_map]
  exact nodup_fetchLabels h

/-- A row of the table, and the label that was collected. -/
theorem mem_stored_iff (h : fetchLabels py.lower order data = some known)
    {row : String × AddressLabel} {address : String} :
    row ∈ known.map KnownLabel.stored ∧ row.1 = address ↔
      (collectedLabel py.lower data address).map KnownLabel.stored = some row := by
  rw [List.mem_map, Option.map_eq_some_iff]
  constructor
  · rintro ⟨⟨r, hr, rfl⟩, rfl⟩
    exact ⟨r, (mem_fetchLabels_iff h).mp hr, rfl⟩
  · rintro ⟨r, hr, rfl⟩
    obtain rfl := collectedLabel_address hr
    exact ⟨⟨r, (mem_fetchLabels_iff h).mpr hr, rfl⟩, rfl⟩

/-! ### One exchange -/

/-- An exchange, twice in other letters, and an address of no category. -/
def exchangeData : LabelData :=
  [("0x28C6c06298d514Db089934071355E5743bf21d60", some ⟨some "Binance 14", some ["exchange"]⟩),
    ("0x28c6c06298d514db089934071355e5743bf21d60", some ⟨some "Old", some ["heist"]⟩),
    ("0xd551234ae421e3bcba99a0da6d736074f22192ff", some ⟨none, some ["donate"]⟩)]

def exchangeLabel : KnownLabel := ⟨"0x28c6c06298d514db089934071355e5743bf21d60", "Binance 14", "CEX"⟩

theorem labelMain_exchange : labelMain asciiText.lower categoryFirst (some exchangeData) =
    some ⟨toCsv labelHeader [exchangeLabel.row], [exchangeLabel]⟩ := by
  have hlabels : fetchLabels asciiText.lower categoryFirst exchangeData = some [exchangeLabel] := by
    decide +kernel
  rw [labelMain, Option.bind_some, hlabels]
  rfl

def exchangeFile : List Char := toCsv labelHeader [exchangeLabel.row]

theorem exchange_fits : ∀ r ∈ [exchangeLabel], r.Fits asciiText := by
  intro r hr
  obtain rfl := List.mem_singleton.mp hr
  exact ⟨by decide +kernel, by decide +kernel, by decide +kernel, by decide +kernel⟩

/-- A server that has loaded the file, before another start. -/
def exchangeServed : List CatalogueEvent :=
  [.start (.startup ⟨none, some exchangeFile⟩), .act 0 .done, .act 0 .done]

def exchangeLater : List CatalogueEvent := [.start .rebuild, .act 1 .done, .act 0 .broken]

theorem starting_exchange (e : CatalogueEvent) (he : e ∈ exchangeServed ++ exchangeLater) :
    Starting (OneLabelFile exchangeFile) e := by
  simp only [exchangeServed, exchangeLater, List.cons_append, List.nil_append, List.mem_cons,
    List.not_mem_nil, or_false] at he
  rcases he with rfl | rfl | rfl | rfl | rfl | rfl
  · exact fun g hg => (Option.some.inj hg).symm
  all_goals trivial

theorem exchange_served : ∃ loaded, Stage.loadIndex loaded ∈
    (Catalogue.after asciiText exchangeServed).processes ∧ loaded.labels.isSome :=
  ⟨⟨none, some exchangeFile⟩, by decide +kernel, rfl⟩

/-! ### The table in every run -/

section table

variable {files : LabelFiles} {before after : List CatalogueEvent}

theorem labelled_main (hfiles : labelMain py.lower order (some data) = some files)
    (hfits : ∀ r ∈ files.parquet, r.Fits py)
    (hevents : ∀ e ∈ before ++ after, Starting (OneLabelFile files.csv) e) :
    Labelled (files.parquet.map KnownLabel.stored) (∃ loaded, Stage.loadIndex loaded ∈
      (Catalogue.after py before).processes ∧ loaded.labels.isSome)
        (Catalogue.after py (before ++ after)).store := by
  obtain ⟨hknown, hcsv⟩ := labelMain_eq_some hfiles
  have hrows : labelRows py files.csv = some (files.parquet.map KnownLabel.stored) := by
    rw [hcsv]
    exact labelRows_known hfits fun r hr => (valid_of_mem hknown hr).2
  exact labelled_after hrows (nodup_stored hknown) hevents

theorem find_sound (hknown : fetchLabels py.lower order data = some known) {s : Stores}
    (hs : Labelled (known.map KnownLabel.stored) full s) {address : String}
    {row : String × AddressLabel} (hrow : s.addressLabels.find address = some row) :
    (collectedLabel py.lower data address).map KnownLabel.stored = some row := by
  obtain ⟨hmem, hkey⟩ := Keyed.find_eq_some_iff.mp hrow
  exact (mem_stored_iff hknown).mp ⟨hs.subset hmem, hkey⟩

theorem find_complete (hknown : fetchLabels py.lower order data = some known) {s : Stores}
    (hs : Labelled (known.map KnownLabel.stored) full s) (hfull : full) (address : String) :
    s.addressLabels.find address =
      (collectedLabel py.lower data address).map KnownLabel.stored := by
  refine Option.ext fun row => ⟨find_sound hknown hs, fun hrow => ?_⟩
  obtain ⟨hmem, hkey⟩ := (mem_stored_iff hknown).mpr hrow
  exact Keyed.find_eq_some_iff.mpr ⟨hs.all hfull hmem, hkey⟩

/-- **The table of labels**: it never has anything but the labels that were collected, and has
all of them as soon as one server has loaded the file, whatever fails later on. -/
theorem labels_loaded (hfiles : labelMain py.lower order (some data) = some files)
    (hfits : ∀ r ∈ files.parquet, r.Fits py)
    (hevents : ∀ e ∈ before ++ after, Starting (OneLabelFile files.csv) e) (address : String) :
    (∀ row, (Catalogue.after py (before ++ after)).store.addressLabels.find address = some row →
        (collectedLabel py.lower data address).map KnownLabel.stored = some row) ∧
      ((∃ loaded, Stage.loadIndex loaded ∈ (Catalogue.after py before).processes ∧
          loaded.labels.isSome) →
        (Catalogue.after py (before ++ after)).store.addressLabels.find address =
          (collectedLabel py.lower data address).map KnownLabel.stored) := by
  have hknown := (labelMain_eq_some hfiles).1
  have hlabelled := labelled_main hfiles hfits hevents
  exact ⟨fun row hrow => find_sound hknown hlabelled hrow,
    fun hloaded => find_complete hknown hlabelled hloaded address⟩

/-- The label of the exchange, whatever comes after. -/
theorem exchange_loaded :
    (∀ row, (Catalogue.after asciiText (exchangeServed ++ exchangeLater)).store.addressLabels.find
          exchangeLabel.address = some row →
        (collectedLabel asciiText.lower exchangeData exchangeLabel.address).map KnownLabel.stored =
          some row) ∧
      ((∃ loaded, Stage.loadIndex loaded ∈ (Catalogue.after asciiText exchangeServed).processes ∧
          loaded.labels.isSome) →
        (Catalogue.after asciiText (exchangeServed ++ exchangeLater)).store.addressLabels.find
            exchangeLabel.address =
          (collectedLabel asciiText.lower exchangeData exchangeLabel.address).map
            KnownLabel.stored) :=
  labels_loaded labelMain_exchange exchange_fits starting_exchange exchangeLabel.address

end table

/-! ### The labels of Silver -/

/-- A row of `known_labels.parquet` as `load_address_labels` reads it. -/
def KnownLabel.column (r : KnownLabel) : Label := ⟨some r.address, some r.name, some r.category⟩

/-- One of the addresses of `MANUAL_LABELS`. -/
def Manual (address : String) : Prop := ∃ label ∈ manualLabels, label.address = some address

instance : DecidablePred Manual := fun address =>
  inferInstanceAs (Decidable (∃ label ∈ manualLabels, label.address = some address))

/-- An address that is not named by hand has the label that was collected. -/
theorem labelOf_collected {lower : String → String} (h : fetchLabels lower order data = some known)
    (labels : KnownLabels (some (known.map KnownLabel.column))) {address : String}
    (hmanual : ¬Manual address) :
    labelOf labels.rows (some address) =
      (collectedLabel lower data address).map KnownLabel.column := by
  have hkept : Join.DropDuplicates Label.address (known.map KnownLabel.column ++ manualLabels)
      labels.rows := labels.loaded
  have hfind : labelOf labels.rows (some address) =
      (⟨labels.rows, hkept.nodup⟩ : Keyed Label.address).find (some address) :=
    Join.head?_found rfl
  have hcollected : ∀ label ∈ labels.rows, label.address = some address →
      ∃ r ∈ known, r.column = label := by
    intro label hlabel haddress
    rcases List.mem_append.mp (hkept.sub label hlabel) with hmem | hmem
    · exact List.mem_map.mp hmem
    · exact absurd ⟨label, hmem, haddress⟩ hmanual
  rw [hfind]
  refine Option.ext fun label => ?_
  rw [Keyed.find_eq_some_iff, Option.map_eq_some_iff]
  constructor
  · rintro ⟨hmem, hkey⟩
    obtain ⟨r, hr, rfl⟩ := hcollected label hmem hkey
    obtain rfl : r.address = address := Option.some.inj hkey
    exact ⟨r, (mem_fetchLabels_iff h).mp hr, rfl⟩
  · rintro ⟨r, hlabel, rfl⟩
    obtain rfl := collectedLabel_address hlabel
    have hr : r ∈ known := (mem_fetchLabels_iff h).mpr hlabel
    obtain ⟨kept, hmem, hkey⟩ := hkept.covers r.column
      (List.mem_append_left _ (List.mem_map_of_mem hr))
    obtain ⟨q, hq, rfl⟩ := hcollected kept hmem hkey
    obtain rfl : q = r :=
      List.inj_on_of_nodup_map (nodup_fetchLabels h) hq hr (Option.some.inj hkey)
    exact ⟨hmem, rfl⟩

/-! ### Silver and the servers -/

/-- The tables of the consumer and those of the servers. -/
def database (stored : Tables) (s : Stores) : Database where
  stored
  tokens address := (s.tokens.find address).map (·.2)
  addressLabels address := (s.addressLabels.find address).map (·.2)

/-- What a row says about its two sides. -/
structure Sides where
  fromLabel : String
  fromCategory : String
  toLabel : String
  toCategory : String
  deriving DecidableEq, Repr

def whaleSides (row : Silver.WhaleRow) : Sides :=
  ⟨row.fromLabel, row.fromCategory, row.toLabel, row.toCategory⟩

def flowSides (row : FlowRow) : Sides :=
  ⟨row.fromLabel, row.fromCategory, row.toLabel, row.toCategory⟩

/-- An answer of the servers has null where Silver has `Unknown`. -/
def servedSides (labels : Labels) : Sides :=
  ⟨orUnknown labels.fromLabel, orUnknown labels.fromCategory, orUnknown labels.toLabel,
    orUnknown labels.toCategory⟩

/-- The sides of a row with these labels. -/
def labelledSides (fromLabel toLabel : Option Label) : Sides :=
  ⟨orUnknown (fromLabel.bind (·.labelName)), orUnknown (fromLabel.bind (·.labelCategory)),
    orUnknown (toLabel.bind (·.labelName)), orUnknown (toLabel.bind (·.labelCategory))⟩

theorem mem_whaleTxns {txns : List SilverTransaction} {date : ℤ} {threshold : PyFloat}
    {labelFile : Option (List Label)} {fromLabels toLabels : KnownLabels labelFile}
    {byFrom : SenderOrder} {byTo : ReceiverOrder} {row : Silver.WhaleRow}
    (h : row ∈ buildWhaleTxns txns date threshold fromLabels toLabels byFrom byTo) :
    whaleSides row = labelledSides (labelOf fromLabels.rows row.fromAddress)
        (labelOf toLabels.rows row.toAddress) ∧
      row.flowType = flowType (whaleSides row).fromCategory (whaleSides row).toCategory := by
  rw [buildWhaleTxns_eq] at h
  obtain ⟨p, -, rfl⟩ := List.mem_map.mp h
  exact ⟨rfl, rfl⟩

theorem mem_tokenFlow {pow : ℤ → PyFloat} {day : BronzeDay} {tokenFile : Option (List TokenMeta)}
    {labelFile : Option (List Label)} {fromLabels toLabels : KnownLabels labelFile}
    {flow : List FlowRow} (hflow : buildTokenFlow pow day fromLabels toLabels tokenFile = .ok flow)
    {row : FlowRow} (h : row ∈ flow) :
    flowSides row = labelledSides (labelOf fromLabels.rows row.fromAddress)
      (labelOf toLabels.rows row.toAddress) := by
  cases tokenFile with
  | none => cases hflow
  | some tokens =>
    cases hflow
    rw [Join.left_eq_map fun row _ => Join.length_found_le_one toLabels.nodup row,
      Join.left_eq_map fun row _ => Join.length_found_le_one fromLabels.nodup row] at h
    simp only [List.map_map, List.mem_map, Function.comp_apply] at h
    obtain ⟨joined, -, rfl⟩ := h
    rfl

variable {files : LabelFiles}

/-- One side: the label of Silver and the row of the servers are the collected label. -/
theorem side_agrees {s : Stores} (hknown : fetchLabels py.lower order data = some known)
    (labels : KnownLabels (some (known.map KnownLabel.column))) (stored : Tables)
    (hfind : ∀ address, s.addressLabels.find address =
      (collectedLabel py.lower data address).map KnownLabel.stored)
    (address : Option String) (hmanual : ∀ a ∈ address, ¬Manual a) :
    (labelOf labels.rows address).bind (·.labelName) =
        (address.bind (database stored s).addressLabels).bind (·.name) ∧
      (labelOf labels.rows address).bind (·.labelCategory) =
        (address.bind (database stored s).addressLabels).bind (·.category) := by
  cases address with
  | none => exact ⟨rfl, rfl⟩
  | some address =>
    rw [labelOf_collected hknown labels (hmanual address rfl), Option.bind_some]
    show _ = (((s.addressLabels.find address).map (·.2)).bind (·.name)) ∧
      _ = (((s.addressLabels.find address).map (·.2)).bind (·.category))
    rw [hfind]
    cases collectedLabel py.lower data address with
    | none => exact ⟨rfl, rfl⟩
    | some r => exact ⟨rfl, rfl⟩

theorem sides_agree {s : Stores} (hknown : fetchLabels py.lower order data = some known)
    (fromLabels toLabels : KnownLabels (some (known.map KnownLabel.column))) (stored : Tables)
    (hfind : ∀ address, s.addressLabels.find address =
      (collectedLabel py.lower data address).map KnownLabel.stored)
    {sender : String} {receiver : Option String} (hsender : ¬Manual sender)
    (hreceiver : ∀ a ∈ receiver, ¬Manual a) :
    labelledSides (labelOf fromLabels.rows (some sender)) (labelOf toLabels.rows receiver) =
      servedSides ((database stored s).labels sender receiver) := by
  have hfrom := side_agrees hknown fromLabels stored hfind (some sender)
    fun a ha => Option.some.inj ha ▸ hsender
  have hto := side_agrees hknown toLabels stored hfind receiver hreceiver
  rw [labelledSides, hfrom.1, hfrom.2, hto.1, hto.2]
  rfl

/-- The labels of Silver with the exchange. -/
def exchangeLabels : KnownLabels (some ([exchangeLabel].map KnownLabel.column)) where
  rows := exchangeLabel.column :: manualLabels
  loaded := by
    refine ⟨fun _ h => h, by decide +kernel, fun b hb => ⟨b, hb, rfl⟩⟩

end Address

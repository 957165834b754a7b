import EthPipeline.Backend.LoadCsv
import EthPipeline.Backend.TokenList
import EthPipeline.Base.Processes
import EthPipeline.Base.Traverse
import EthPipeline.Base.Upsert

/-!
# The tables of tokens and labels, and the search index

What the start-up of a server loads (`load_tokens_from_csv`, `load_known_label_from_csv`
and `load_tokens_to_es` of `src/backend/core/db.py`), the script
`scripts/bootstrap_es_tokens.py`, and `search_tokens` of `src/backend/api/tokens.py`.
Servers start at any time, with any files, beside one another and beside the script; each
call of the database and each item of a bulk request is one move, and may fail.

* `tables_last_committed`: a row is that of the last file that went in and has its address.
* `search_in_tokens`: what a search finds is in `tokens`, from then on.
-/

namespace Backend

open Consumer Query Processes

abbrev TokenTable := Keyed (Prod.fst : String × Token → String)

abbrev LabelTable := Keyed (Prod.fst : String × AddressLabel → String)

/-- A document of the index, under its `_id`. -/
abbrev Document := String × Token

/-! ### Loading a file -/

/-- A value going into a `SMALLINT` column. -/
def int2 (n : ℕ) : Option ℕ := if n < 2 ^ 15 then some n else none

def LoadedToken.row (token : LoadedToken) : Option (String × Token) := do
  let address ← varchar 42 token.address
  let symbol ← nullable (varchar 50) token.symbol
  let name ← nullable (varchar 255) token.name
  let decimals ← int2 token.decimals
  return (address, ⟨symbol, name, some decimals⟩)

def LoadedLabel.row (label : LoadedLabel) : Option (String × AddressLabel) := do
  let address ← varchar 42 label.address
  let name ← nullable (varchar 255) label.name
  let category ← nullable (varchar 100) label.category
  return (address, ⟨name, category⟩)

/-- `"_id"` and `"_source"` of an action. -/
def LoadedToken.document (token : LoadedToken) : Document :=
  (token.address, ⟨token.symbol, token.name, some token.decimals⟩)

/-- The rows `executemany` sends; `none` is an exception. -/
def tokenRows (py : PyText) (file : List Char) : Option (List (String × Token)) :=
  (loadTokensFromCsv py file).bind fun records => records.mapM LoadedToken.row

def labelRows (py : PyText) (file : List Char) : Option (List (String × AddressLabel)) :=
  (loadKnownLabelFromCsv py file).bind fun records => records.mapM LoadedLabel.row

/-- The actions of `load_tokens_to_es`. -/
def tokenActions (py : PyText) (file : List Char) : Option (List Document) :=
  (loadTokensFromCsv py file).map fun records => records.map LoadedToken.document

/-- A file that is not there loads nothing. -/
def ofFile {α : Type} (parse : List Char → Option (List α)) (file : Option (List Char)) :
    Option (List α) :=
  match file with
  | none => some []
  | some file => parse file

/-! ### Servers that start, and the script -/

/-- `top1000_erc20_tokens.csv` and `known_labels.csv` of one server. -/
structure CsvFiles where
  tokens : Option (List Char)
  labels : Option (List Char)
  deriving DecidableEq

structure Stores where
  tokens : TokenTable
  addressLabels : LabelTable
  index : Keyed (Prod.fst : Document → String)

def Stores.initial : Stores := ⟨.empty, .empty, .empty⟩

/-- The call a process waits for. -/
inductive Stage where
  /- the start-up of a server -/
  | loadTokens (files : CsvFiles)
  | loadLabels (files : CsvFiles)
  | loadIndex (files : CsvFiles)
  /- the script: the index is made again, and the table is read -/
  | recreate
  | fetch
  /- the actions of a bulk request that are left -/
  | bulk (actions : List Document)
  | ended
  deriving DecidableEq

inductive Launch where
  | startup (files : CsvFiles)
  | rebuild

def Launch.stage : Launch → Stage
  | .startup files => .loadTokens files
  | .rebuild => .recreate

/-- How a call goes: well; done, but the answer is lost; with an exception or the end of
the process; and for an item of a bulk request, whether it is taken. -/
inductive CallResult where
  | done
  | lost
  | broken
  | item (id : String) (accepted : Bool)
  deriving DecidableEq, Repr

/-- A call that goes well. -/
def finish (py : PyText) (s : Stores) : Stage → Option (Stores × Stage)
  | .loadTokens files => (ofFile (tokenRows py) files.tokens).map fun rows =>
      ({ s with tokens := s.tokens.upsertAll rows }, .loadLabels files)
  | .loadLabels files => (ofFile (labelRows py) files.labels).map fun rows =>
      ({ s with addressLabels := s.addressLabels.upsertAll rows }, .loadIndex files)
  | .loadIndex files => (ofFile (tokenActions py) files.tokens).map fun actions =>
      (s, .bulk actions)
  | .recreate => some ({ s with index := .empty }, .fetch)
  | .fetch => some (s, .bulk s.tokens.rows)
  | .bulk [] => some (s, .ended)
  | .bulk (_ :: _) => none
  | .ended => none

/-- The items of one id are taken in their order; those of other ids are not waited for. -/
def takeItem (s : Stores) (stage : Stage) (id : String) (accepted : Bool) :
    Option (Stores × Stage) :=
  match stage with
  | .bulk actions => (actions.find? fun d => d.1 = id).map fun d =>
      ({ s with index := if accepted then s.index.upsert d else s.index },
        .bulk (actions.eraseP fun d => d.1 = id))
  | _ => none

def move (py : PyText) (s : Stores) (stage : Stage) : CallResult → Option (Stores × Stage)
  | .done => finish py s stage
  | .lost => (finish py s stage).map fun moved => (moved.1, .ended)
  | .broken => some (s, .ended)
  | .item id accepted => takeItem s stage id accepted

abbrev Catalogue := System Stores Stage

abbrev CatalogueEvent := Processes.Event Launch CallResult

def Catalogue.initial : Catalogue := ⟨Stores.initial, []⟩

/-- The catalogue after some events. -/
def Catalogue.after (py : PyText) (events : List CatalogueEvent) : Catalogue :=
  Run.runs (step Launch.stage (move py)) Catalogue.initial events

/-! ### What a move does -/

/-- The moves that change a store, and the one that goes on. -/
inductive Moved (py : PyText) (s : Stores) : Stage → Stores → Stage → Prop
  | tokens {files : CsvFiles} {rows : List (String × Token)} {next : Stage}
      (hrows : ofFile (tokenRows py) files.tokens = some rows)
      (hnext : next = .loadLabels files ∨ next = .ended) :
      Moved py s (.loadTokens files) { s with tokens := s.tokens.upsertAll rows } next
  | labels {files : CsvFiles} {rows : List (String × AddressLabel)} {next : Stage}
      (hrows : ofFile (labelRows py) files.labels = some rows)
      (hnext : next = .loadIndex files ∨ next = .ended) :
      Moved py s (.loadLabels files) { s with addressLabels := s.addressLabels.upsertAll rows } next
  | actions {files : CsvFiles} {actions : List Document}
      (hactions : ofFile (tokenActions py) files.tokens = some actions) :
      Moved py s (.loadIndex files) s (.bulk actions)
  | recreated {next : Stage} (hnext : next = .fetch ∨ next = .ended) :
      Moved py s .recreate { s with index := .empty } next
  | fetched : Moved py s .fetch s (.bulk s.tokens.rows)
  | accepted {actions : List Document} {d : Document} (hd : d ∈ actions) :
      Moved py s (.bulk actions) { s with index := s.index.upsert d }
        (.bulk (actions.eraseP fun e => e.1 = d.1))
  | refused {actions : List Document} {id : String} :
      Moved py s (.bulk actions) s (.bulk (actions.eraseP fun e => e.1 = id))
  | ended {stage : Stage} : Moved py s stage s .ended

variable {py : PyText} {s s' : Stores} {stage stage' : Stage}

theorem moved_of_finish (h : finish py s stage = some (s', stage')) :
    Moved py s stage s' stage' ∧ Moved py s stage s' .ended := by
  cases stage with
  | loadTokens files =>
    obtain ⟨rows, hrows, h⟩ := Option.map_eq_some_iff.mp h
    cases h
    exact ⟨.tokens hrows (.inl rfl), .tokens hrows (.inr rfl)⟩
  | loadLabels files =>
    obtain ⟨rows, hrows, h⟩ := Option.map_eq_some_iff.mp h
    cases h
    exact ⟨.labels hrows (.inl rfl), .labels hrows (.inr rfl)⟩
  | loadIndex files =>
    obtain ⟨actions, hactions, h⟩ := Option.map_eq_some_iff.mp h
    cases h
    exact ⟨.actions hactions, .ended⟩
  | recreate =>
    cases h
    exact ⟨.recreated (.inl rfl), .recreated (.inr rfl)⟩
  | fetch =>
    cases h
    exact ⟨.fetched, .ended⟩
  | bulk actions =>
    cases actions with
    | nil =>
      cases h
      exact ⟨.ended, .ended⟩
    | cons d actions => cases h
  | ended => cases h

theorem moved_of_move {reply : CallResult} (h : move py s stage reply = some (s', stage')) :
    Moved py s stage s' stage' := by
  cases reply with
  | done => exact (moved_of_finish h).1
  | lost =>
    obtain ⟨⟨t, next⟩, hfinish, h⟩ := Option.map_eq_some_iff.mp h
    cases h
    exact (moved_of_finish hfinish).2
  | broken =>
    cases h
    exact .ended
  | item id accepted =>
    cases stage with
    | bulk actions =>
      obtain ⟨d, hd, h⟩ := Option.map_eq_some_iff.mp h
      obtain ⟨hmem, rfl⟩ := Keyed.find?_key hd
      cases accepted with
      | true =>
        cases h
        exact .accepted hmem
      | false =>
        cases h
        exact .refused
    | _ => cases h

/-! ### The log of the loads -/

/-- What an event adds to a table: all rows of a file, or none. -/
def committedBy {ρ : Type} (rowsOf : Stage → List ρ) (c : Catalogue) : CatalogueEvent → List ρ
  | .act i .done | .act i .lost => ((c.processes[i]?).map rowsOf).getD []
  | _ => []

/-- The rows that went in, in order. -/
def committed {ρ : Type} (py : PyText) (rowsOf : Stage → List ρ) (c : Catalogue) :
    List CatalogueEvent → List ρ
  | [] => []
  | e :: events =>
    committedBy rowsOf c e ++ committed py rowsOf (Run.next (step Launch.stage (move py)) c e) events

def Stage.tokenRows (py : PyText) : Stage → List (String × Token)
  | .loadTokens files => (ofFile (Backend.tokenRows py) files.tokens).getD []
  | _ => []

def Stage.labelRows (py : PyText) : Stage → List (String × AddressLabel)
  | .loadLabels files => (ofFile (Backend.labelRows py) files.labels).getD []
  | _ => []

theorem finish_tables (h : finish py s stage = some (s', stage')) :
    s'.tokens = s.tokens.upsertAll (stage.tokenRows py) ∧
      s'.addressLabels = s.addressLabels.upsertAll (stage.labelRows py) := by
  cases stage with
  | loadTokens files =>
    obtain ⟨rows, hrows, h⟩ := Option.map_eq_some_iff.mp h
    cases h
    rw [Stage.tokenRows, hrows]
    exact ⟨rfl, rfl⟩
  | loadLabels files =>
    obtain ⟨rows, hrows, h⟩ := Option.map_eq_some_iff.mp h
    cases h
    rw [Stage.labelRows, hrows]
    exact ⟨rfl, rfl⟩
  | loadIndex files =>
    obtain ⟨actions, hactions, h⟩ := Option.map_eq_some_iff.mp h
    cases h
    exact ⟨rfl, rfl⟩
  | recreate => cases h; exact ⟨rfl, rfl⟩
  | fetch => cases h; exact ⟨rfl, rfl⟩
  | bulk actions =>
    cases actions with
    | nil => cases h; exact ⟨rfl, rfl⟩
    | cons d actions => cases h
  | ended => cases h

theorem takeItem_tables {id : String} {accepted : Bool}
    (h : takeItem s stage id accepted = some (s', stage')) :
    s'.tokens = s.tokens ∧ s'.addressLabels = s.addressLabels := by
  cases stage with
  | bulk actions =>
    obtain ⟨d, -, h⟩ := Option.map_eq_some_iff.mp h
    cases h
    exact ⟨rfl, rfl⟩
  | _ => cases h

theorem finish_eq_none (h : finish py s stage = none) :
    stage.tokenRows py = [] ∧ stage.labelRows py = [] := by
  cases stage with
  | loadTokens files =>
    have hrows := Option.map_eq_none_iff.mp h
    rw [Stage.tokenRows, hrows]
    exact ⟨rfl, rfl⟩
  | loadLabels files =>
    have hrows := Option.map_eq_none_iff.mp h
    rw [Stage.labelRows, hrows]
    exact ⟨rfl, rfl⟩
  | _ => exact ⟨rfl, rfl⟩

/-- An event that cannot happen adds nothing to the log. -/
theorem committedBy_eq_nil {c : Catalogue} {e : CatalogueEvent}
    (h : step Launch.stage (move py) c e = none) :
    committedBy (Stage.tokenRows py) c e = [] ∧ committedBy (Stage.labelRows py) c e = [] := by
  cases e with
  | start x => cases h
  | act i reply =>
    have hnone : ∀ p, c.processes[i]? = some p → move py c.store p reply = none := by
      intro p hp
      rw [step, hp] at h
      exact Option.map_eq_none_iff.mp h
    cases reply with
    | done =>
      rw [committedBy, committedBy]
      cases hp : c.processes[i]? with
      | none => exact ⟨rfl, rfl⟩
      | some p => exact finish_eq_none (hnone p hp)
    | lost =>
      rw [committedBy, committedBy]
      cases hp : c.processes[i]? with
      | none => exact ⟨rfl, rfl⟩
      | some p => exact finish_eq_none (Option.map_eq_none_iff.mp (hnone p hp))
    | broken => exact ⟨rfl, rfl⟩
    | item id accepted => exact ⟨rfl, rfl⟩

/-- Each event writes what the log says. -/
theorem next_tables (py : PyText) (c : Catalogue) (e : CatalogueEvent) :
    (Run.next (step Launch.stage (move py)) c e).store.tokens =
        c.store.tokens.upsertAll (committedBy (Stage.tokenRows py) c e) ∧
      (Run.next (step Launch.stage (move py)) c e).store.addressLabels =
        c.store.addressLabels.upsertAll (committedBy (Stage.labelRows py) c e) := by
  cases hstep : step Launch.stage (move py) c e with
  | none =>
    obtain ⟨htokens, hlabels⟩ := committedBy_eq_nil hstep
    rw [Run.next_of_none hstep, htokens, hlabels]
    exact ⟨rfl, rfl⟩
  | some c' =>
    rw [Run.next_of_some hstep]
    cases e with
    | start x =>
      obtain rfl := Option.some.inj hstep
      exact ⟨rfl, rfl⟩
    | act i reply =>
      obtain ⟨p, s, p', hp, hmove, rfl⟩ := step_act hstep
      cases reply with
      | done =>
        rw [committedBy, committedBy, hp]
        exact finish_tables hmove
      | lost =>
        obtain ⟨⟨t, next⟩, hfinish, hmove⟩ := Option.map_eq_some_iff.mp hmove
        cases hmove
        rw [committedBy, committedBy, hp]
        exact finish_tables hfinish
      | broken =>
        cases hmove
        exact ⟨rfl, rfl⟩
      | item id accepted => exact takeItem_tables hmove

/-- A run writes the rows of the log, one after the other. -/
theorem runs_tables (py : PyText) (c : Catalogue) (events : List CatalogueEvent) :
    (Run.runs (step Launch.stage (move py)) c events).store.tokens =
        c.store.tokens.upsertAll (committed py (Stage.tokenRows py) c events) ∧
      (Run.runs (step Launch.stage (move py)) c events).store.addressLabels =
        c.store.addressLabels.upsertAll (committed py (Stage.labelRows py) c events) := by
  induction events generalizing c with
  | nil => exact ⟨rfl, rfl⟩
  | cons e events ih =>
    obtain ⟨htokens, hlabels⟩ := next_tables py c e
    obtain ⟨ihtokens, ihlabels⟩ := ih (Run.next (step Launch.stage (move py)) c e)
    rw [committed, committed, Keyed.upsertAll_append, Keyed.upsertAll_append, ← htokens, ← hlabels]
    exact ⟨ihtokens, ihlabels⟩

/-- The tables only grow. -/
theorem after_keys (py : PyText) (events : List CatalogueEvent) {m n : ℕ} (hmn : m ≤ n)
    (address : String) :
    ((Catalogue.after py (events.take m)).store.tokens.HasKey address →
        (Catalogue.after py (events.take n)).store.tokens.HasKey address) ∧
      ((Catalogue.after py (events.take m)).store.addressLabels.HasKey address →
        (Catalogue.after py (events.take n)).store.addressLabels.HasKey address) := by
  obtain ⟨k, rfl⟩ := Nat.exists_eq_add_of_le hmn
  rw [List.take_add]
  unfold Catalogue.after
  rw [Run.runs_append]
  obtain ⟨htokens, hlabels⟩ := runs_tables py
    (Run.runs (step Launch.stage (move py)) Catalogue.initial (events.take m))
    ((events.drop m).take k)
  rw [htokens, hlabels]
  exact ⟨fun h => h.upsertAll _, fun h => h.upsertAll _⟩

/-- **The tables**: in every run an address has the row of the last file that went in and
has the address, of that file the last row, and keeps a row from then on. -/
theorem tables_last_committed (py : PyText) (events : List CatalogueEvent) (address : String) :
    (Catalogue.after py events).store.tokens.find address =
        Keyed.lastOf Prod.fst (committed py (Stage.tokenRows py) Catalogue.initial events) address ∧
      (Catalogue.after py events).store.addressLabels.find address =
        Keyed.lastOf Prod.fst (committed py (Stage.labelRows py) Catalogue.initial events) address ∧
      ∀ m n, m ≤ n →
        ((Catalogue.after py (events.take m)).store.tokens.HasKey address →
          (Catalogue.after py (events.take n)).store.tokens.HasKey address) ∧
        ((Catalogue.after py (events.take m)).store.addressLabels.HasKey address →
          (Catalogue.after py (events.take n)).store.addressLabels.HasKey address) := by
  obtain ⟨htokens, hlabels⟩ := runs_tables py Catalogue.initial events
  refine ⟨?_, ?_, fun m n hmn => after_keys py events hmn address⟩
  · rw [Catalogue.after, htokens]
    exact Keyed.find_upsertAll_empty
  · rw [Catalogue.after, hlabels]
    exact Keyed.find_upsertAll_empty

/-! ### What a search finds -/

/-- The hits of the search engine are documents of the index. -/
structure SearchEngine where
  hits : String → List Document → List Document
  subset : ∀ q docs, hits q docs ⊆ docs

/-- `search_tokens`; `none` is the answer to an empty query. -/
def searchTokens (engine : SearchEngine) (index : Keyed (Prod.fst : Document → String))
    (q : String) : Option (List TokenSearchResponse) :=
  if q = "" then none
  else some (((engine.hits q index.rows).take 10).map tokenSearchResponse)

/-- `tokens` has a row under the address as the column stores it. -/
def Listed (s : Stores) (address : String) : Prop :=
  ∃ stored, varchar 42 address = some stored ∧ s.tokens.HasKey stored

/-- The addresses of the table are stored as they are, and those of the index are listed. -/
structure Covered (s : Stores) : Prop where
  stored : ∀ row ∈ s.tokens.rows, varchar 42 row.1 = some row.1
  index : ∀ d ∈ s.index.rows, Listed s d.1

/-- What a process is going to send to the index is listed. -/
def Sends (py : PyText) (s : Stores) : Stage → Prop
  | .loadLabels files | .loadIndex files =>
    ∀ actions, ofFile (tokenActions py) files.tokens = some actions → ∀ d ∈ actions, Listed s d.1
  | .bulk actions => ∀ d ∈ actions, Listed s d.1
  | _ => True

theorem varchar_varchar {n : ℕ} {text stored : String} (h : varchar n text = some stored) :
    varchar n stored = some stored := by
  unfold varchar at h
  split at h
  · cases h
  · next hnul =>
    split at h
    · next hlength =>
      obtain rfl := Option.some.inj h
      rw [varchar, if_neg hnul, if_pos hlength]
    · split at h
      · obtain rfl := Option.some.inj h
        have hchars : (String.ofList (text.toList.take n)).toList = text.toList.take n :=
          String.toList_ofList
        have hlength : (String.ofList (text.toList.take n)).length ≤ n := by
          rw [← String.length_toList, hchars, List.length_take]
          exact Nat.min_le_left n _
        rw [varchar, hchars, if_neg fun hmem => hnul (List.mem_of_mem_take hmem), if_pos hlength]
      · cases h

theorem varchar_row {token : LoadedToken} {row : String × Token} (h : token.row = some row) :
    varchar 42 token.document.1 = some row.1 := by
  simp only [LoadedToken.row, Option.bind_eq_bind, Option.bind_eq_some_iff, Option.pure_def,
    Option.some.injEq] at h
  obtain ⟨address, haddress, symbol, -, name, -, decimals, -, rfl⟩ := h
  exact haddress

/-- The rows and the actions of one file. -/
theorem exists_row_of_action {file : Option (List Char)} {rows : List (String × Token)}
    {actions : List Document} (hrows : ofFile (tokenRows py) file = some rows)
    (hactions : ofFile (tokenActions py) file = some actions) {d : Document} (hd : d ∈ actions) :
    ∃ row ∈ rows, varchar 42 d.1 = some row.1 := by
  cases file with
  | none =>
    obtain rfl := Option.some.inj hactions
    cases hd
  | some file =>
    obtain ⟨records, hrecords, hmap⟩ := Option.bind_eq_some_iff.mp hrows
    obtain ⟨read, hread, rfl⟩ := Option.map_eq_some_iff.mp hactions
    obtain rfl := Option.some.inj (hrecords.symm.trans hread)
    obtain ⟨token, htoken, rfl⟩ := List.mem_map.mp hd
    obtain ⟨row, hrow, heq⟩ := Traverse.exists_result hmap htoken
    exact ⟨row, hrow, varchar_row heq⟩

/-- The rows of a file are stored as they are. -/
theorem stored_of_tokenRows {file : Option (List Char)} {rows : List (String × Token)}
    (hrows : ofFile (tokenRows py) file = some rows) {row : String × Token} (hrow : row ∈ rows) :
    varchar 42 row.1 = some row.1 := by
  cases file with
  | none =>
    obtain rfl := Option.some.inj hrows
    cases hrow
  | some file =>
    obtain ⟨records, -, hmap⟩ := Option.bind_eq_some_iff.mp hrows
    obtain ⟨token, -, heq⟩ := exists_of_mem_mapM hmap hrow
    exact varchar_varchar (varchar_row heq)

theorem Listed.mono {address : String} (h : Listed s address)
    (hkeys : ∀ k, s.tokens.HasKey k → s'.tokens.HasKey k) : Listed s' address := by
  obtain ⟨stored, hstored, hkey⟩ := h
  exact ⟨stored, hstored, hkeys stored hkey⟩

theorem Moved.keys (h : Moved py s stage s' stage') :
    ∀ k, s.tokens.HasKey k → s'.tokens.HasKey k := by
  intro k hk
  cases h with
  | tokens hrows hnext => exact hk.upsertAll _
  | _ => exact hk

theorem Sends.mono (h : Sends py s stage) (hkeys : ∀ k, s.tokens.HasKey k → s'.tokens.HasKey k) :
    Sends py s' stage := by
  cases stage with
  | loadLabels files => exact fun actions hactions d hd => (h actions hactions d hd).mono hkeys
  | loadIndex files => exact fun actions hactions d hd => (h actions hactions d hd).mono hkeys
  | bulk actions => exact fun d hd => (h d hd).mono hkeys
  | _ => trivial

/-- What a move does to the stores and to what its process is going to send. -/
theorem Moved.covered (h : Moved py s stage s' stage') (hs : Covered s)
    (hsends : Sends py s stage) : Covered s' ∧ Sends py s' stage' := by
  have hkeys := h.keys
  cases h with
  | @tokens files rows next hrows hnext =>
    refine ⟨⟨fun row hrow => ?_, fun d hd => (hs.index d hd).mono hkeys⟩, ?_⟩
    · rcases Keyed.mem_of_mem_upsertAll hrow with hrow | hrow
      · exact stored_of_tokenRows hrows hrow
      · exact hs.stored row hrow
    · rcases hnext with rfl | rfl
      · intro actions hactions d hd
        obtain ⟨row, hrow, hvarchar⟩ := exists_row_of_action hrows hactions hd
        exact ⟨row.1, hvarchar, Keyed.hasKey_upsertAll_of_mem s.tokens hrow⟩
      · trivial
  | labels hrows hnext =>
    refine ⟨⟨hs.stored, fun d hd => (hs.index d hd).mono hkeys⟩, ?_⟩
    rcases hnext with rfl | rfl
    · exact fun actions hactions d hd => (hsends actions hactions d hd).mono hkeys
    · trivial
  | actions hactions => exact ⟨hs, hsends _ hactions⟩
  | recreated hnext =>
    refine ⟨⟨hs.stored, fun d hd => by cases hd⟩, ?_⟩
    rcases hnext with rfl | rfl <;> trivial
  | fetched =>
    refine ⟨hs, fun d hd => ?_⟩
    exact ⟨d.1, hs.stored d hd, Keyed.hasKey_iff.mpr ⟨d, hd, rfl⟩⟩
  | accepted hd =>
    refine ⟨⟨hs.stored, fun e he => ?_⟩, fun e he => ?_⟩
    · rcases Keyed.mem_of_mem_upsert he with rfl | he
      · exact (hsends _ hd).mono hkeys
      · exact (hs.index e he).mono hkeys
    · exact (hsends e (List.mem_of_mem_eraseP he)).mono hkeys
  | refused => exact ⟨hs, fun e he => hsends e (List.mem_of_mem_eraseP he)⟩
  | ended => exact ⟨hs, trivial⟩

theorem rules_covered (py : PyText) :
    Rules Launch.stage (move py) (fun _ => True) Covered (Sends py) where
  begins s x _ _ := by cases x <;> trivial
  keeps _ _ _ _ _ h hs hsends := (moved_of_move h).covered hs hsends
  others _ _ _ _ _ _ h _ _ hsends := hsends.mono (moved_of_move h).keys

theorem covered_initial : Holds Covered (Sends py) Catalogue.initial where
  store := ⟨fun row hrow => (by cases hrow), fun d hd => (by cases hd)⟩
  processes p hp := by cases hp

theorem covered_after (py : PyText) (events : List CatalogueEvent) :
    Covered (Catalogue.after py events).store := by
  refine (runs_holds (rules_covered py) (fun e _ => ?_) covered_initial).store
  cases e <;> trivial

/-- **What a search finds** is at most ten tokens, and `tokens` has them from then on, whatever
files the servers load, whatever fails, and whenever the index is made again. -/
theorem search_in_tokens (py : PyText) (engine : SearchEngine) (events : List CatalogueEvent)
    {m n : ℕ} (hmn : m ≤ n) (q : String) {results : List TokenSearchResponse}
    (hresults : searchTokens engine (Catalogue.after py (events.take m)).store.index q = some results) :
    results.length ≤ 10 ∧ ∀ result ∈ results, ∃ stored, varchar 42 result.address = some stored ∧
      (Catalogue.after py (events.take n)).store.tokens.HasKey stored := by
  unfold searchTokens at hresults
  split at hresults
  · cases hresults
  · obtain rfl := Option.some.inj hresults
    refine ⟨?_, fun result hresult => ?_⟩
    · rw [List.length_map, List.length_take]
      exact Nat.min_le_left 10 _
    · obtain ⟨d, hd, rfl⟩ := List.mem_map.mp hresult
      have hindex := engine.subset q _ (List.mem_of_mem_take hd)
      obtain ⟨stored, hstored, hkey⟩ := (covered_after py (events.take m)).index d hindex
      exact ⟨stored, hstored, (after_keys py events hmn stored).1 hkey⟩

/-- An engine that finds everything. -/
def findAll : SearchEngine where
  hits _ docs := docs
  subset _ _ := List.Subset.refl _

/-- A server that has loaded one token, and its request has been taken. -/
def tokenIndexed : List CatalogueEvent :=
  [.start (.startup ⟨some "address,symbol,name,decimals\r\n0xA1,USDT,Tether,6\r\n".toList, none⟩),
    .act 0 .done, .act 0 .done, .act 0 .done, .act 0 (.item "0xa1" true), .act 0 .done, .start .rebuild,
    .act 1 .done]

/-- The script has emptied the index since. -/
theorem found_in_tokens :
    [(⟨"0xa1", some "USDT", some "Tether", some 6⟩ : TokenSearchResponse)].length ≤ 10 ∧
    ∀ result ∈ [(⟨"0xa1", some "USDT", some "Tether", some 6⟩ : TokenSearchResponse)], ∃ stored,
      varchar 42 result.address = some stored ∧
        (Catalogue.after asciiText (tokenIndexed.take 8)).store.tokens.HasKey stored :=
  search_in_tokens asciiText findAll tokenIndexed (show 6 ≤ 8 by decide) "usdt" (by decide +kernel)

end Backend

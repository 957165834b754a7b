import EthPipeline.Backend.Catalogue
import EthPipeline.Backend.RedisFaults
import EthPipeline.Backend.TokenTrends
import EthPipeline.Base.TopRows
import EthPipeline.Base.Traverse

/-!
# The query of the trending tokens

`get_trending_tokens` of `src/backend/repositories/token_repo.py`, and what
`token_service.py` makes of its rows.  Tokens with equally many transfers may stand in any
order, and which of them the limit cuts off is open.

* `trending_iff`: which lists the query can answer, and that all have the same counts.
* `trending_served`: where every file that was loaded names its tokens, each of them is served.
-/

namespace Backend

open Consumer Query

/-- `NOW() - $1 * INTERVAL '1 hour'`; `none` is an exception. -/
def hoursAgo (now : Timestamp) (hours : ℤ) : Option Timestamp :=
  let start := now - 3600000000 * hours
  if minTimestamp ≤ start ∧ start < 9224318016000000000 then some start else none

namespace Database

variable (db : Database) (start : Timestamp)

/-- The rows of the inner join since `start`. -/
def countedTransfers : List TokenTransferRow :=
  db.stored.tokenTransfers.rows.filter fun t =>
    decide (start ≤ t.timestamp) && (db.tokens t.tokenAddress).isSome

def trendingRow (address : String) (transfers : List TokenTransferRow) : TrendingRow where
  address
  symbol := (db.tokens address).bind (·.symbol)
  name := (db.tokens address).bind (·.name)
  transferCount := transfers.length

/-- `GROUP BY t.address, t.symbol, t.name`; the address is the key of `tokens`. -/
def trendingRows : List TrendingRow :=
  Grouping.groupBy (·.tokenAddress) db.trendingRow (db.countedTransfers start)

/-- The answers of `get_trending_tokens`; none is allowed where the query is an error. -/
def TrendingTokens (now : Timestamp) (hours limit : ℤ) (rows : List TrendingRow) : Prop :=
  ∃ start, hoursAgo now hours = some start ∧ 0 ≤ limit ∧ limit < 2 ^ 63 ∧
    Answer (Newer (·.transferCount)) limit.toNat (db.trendingRows start) rows

/-- The transfers of a token since `start`. -/
def transfersSince (address : String) : List TokenTransferRow :=
  db.stored.tokenTransfers.rows.filter fun t =>
    decide (start ≤ t.timestamp) && decide (t.tokenAddress = address)

/-- What a ranking of the tokens since `start` is. -/
structure Ranks (limit : ℕ) (rows : List TrendingRow) : Prop where
  distinct : (rows.map (·.address)).Nodup
  sorted : rows.Pairwise fun a b => b.transferCount ≤ a.transferCount
  short : rows.length ≤ limit
  row : ∀ r ∈ rows, ∃ token, db.tokens r.address = some token ∧ r.symbol = token.symbol ∧
    r.name = token.name ∧ r.transferCount = (db.transfersSince start r.address).length ∧
      0 < r.transferCount
  /-- A token that is left out has no transfer, or the ranking is full of tokens that have
  no fewer. -/
  omitted : ∀ address, (db.tokens address).isSome → address ∉ rows.map (·.address) →
    db.transfersSince start address ≠ [] → rows.length = limit ∧
      ∀ r ∈ rows, ((db.transfersSince start address).length : ℤ) ≤ r.transferCount

end Database

/-! ### The groups -/

variable {db : Database} {start : Timestamp}

theorem counted_of_listed {address : String} (h : (db.tokens address).isSome) :
    ((db.countedTransfers start).filter fun t => t.tokenAddress = address) =
      db.transfersSince start address := by
  rw [Database.countedTransfers, Database.transfersSince, List.filter_filter]
  refine List.filter_congr fun t _ => ?_
  by_cases ht : t.tokenAddress = address
  · subst ht
    rw [h, Bool.and_true, decide_eq_true rfl, Bool.true_and, Bool.and_true]
  · rw [decide_eq_false ht, Bool.false_and, Bool.and_false]

/-- The groups, by their tokens. -/
theorem mem_trendingRows {r : TrendingRow} : r ∈ db.trendingRows start ↔
    (db.tokens r.address).isSome ∧ db.transfersSince start r.address ≠ [] ∧
      r = db.trendingRow r.address (db.transfersSince start r.address) := by
  rw [Database.trendingRows, Grouping.mem_groupBy]
  constructor
  · rintro ⟨t, ht, rfl⟩
    obtain ⟨hstored, hcounted⟩ := List.mem_filter.mp ht
    rw [Bool.and_eq_true, decide_eq_true_eq] at hcounted
    rw [counted_of_listed hcounted.2]
    refine ⟨hcounted.2, ?_, rfl⟩
    exact List.ne_nil_of_mem (List.mem_filter.mpr ⟨hstored, by simp [hcounted.1, Database.trendingRow]⟩)
  · rintro ⟨hlisted, hsome, heq⟩
    obtain ⟨t, ht⟩ := List.exists_mem_of_ne_nil _ hsome
    obtain ⟨hstored, ht⟩ := List.mem_filter.mp ht
    rw [Bool.and_eq_true, decide_eq_true_eq, decide_eq_true_eq] at ht
    refine ⟨t, List.mem_filter.mpr ⟨hstored, ?_⟩, ?_⟩
    · rw [decide_eq_true ht.1, ht.2, hlisted, Bool.and_true]
    · rw [ht.2, counted_of_listed hlisted]
      exact heq

theorem nodup_addresses : ((db.trendingRows start).map (·.address)).Nodup :=
  Grouping.nodup_groupBy (f := id) (fun _ _ => rfl) fun _ _ _ _ h => h

theorem nodup_trendingRows : (db.trendingRows start).Nodup := nodup_addresses.of_map

theorem eq_of_address {r q : TrendingRow} (hr : r ∈ db.trendingRows start)
    (hq : q ∈ db.trendingRows start) (h : r.address = q.address) : r = q :=
  List.inj_on_of_nodup_map nodup_addresses hr hq h

/-- A row of a ranking is the group of its token. -/
theorem Database.Ranks.mem {limit : ℕ} {rows : List TrendingRow} (h : db.Ranks start limit rows)
    {r : TrendingRow} (hr : r ∈ rows) : r ∈ db.trendingRows start := by
  obtain ⟨token, htoken, hsymbol, hname, hcount, hpos⟩ := h.row r hr
  refine mem_trendingRows.mpr ⟨by rw [htoken]; rfl, ?_, ?_⟩
  · intro hnone
    rw [hcount, hnone] at hpos
    exact absurd hpos (by decide)
  · rw [Database.trendingRow, htoken]
    obtain ⟨address, symbol, name, transferCount⟩ := r
    simp only [TrendingRow.mk.injEq, Option.bind_some, true_and]
    exact ⟨hsymbol, hname, hcount⟩

/-- The answers of the grouped query are the rankings. -/
theorem answer_iff_ranks {limit : ℕ} {rows : List TrendingRow} :
    Answer (Newer (·.transferCount)) limit (db.trendingRows start) rows ↔
      db.Ranks start limit rows := by
  rw [answer_iff_of_nodup nodup_trendingRows]
  constructor
  · rintro ⟨hnodup, hsub, hsorted, hshort, homitted⟩
    refine ⟨?_, hsorted, hshort, fun r hr => ?_, fun address hlisted hnot hsome => ?_⟩
    · exact List.Nodup.map_on (fun r hr q hq => eq_of_address (hsub hr) (hsub hq)) hnodup
    · obtain ⟨hlisted, hsome, heq⟩ := mem_trendingRows.mp (hsub hr)
      obtain ⟨token, htoken⟩ := Option.isSome_iff_exists.mp hlisted
      have hcount : r.transferCount = (db.transfersSince start r.address).length :=
        congrArg TrendingRow.transferCount heq
      refine ⟨token, htoken, ?_, ?_, hcount, ?_⟩
      · have hsymbol := congrArg TrendingRow.symbol heq
        rwa [Database.trendingRow, htoken] at hsymbol
      · have hname := congrArg TrendingRow.name heq
        rwa [Database.trendingRow, htoken] at hname
      · rw [hcount]
        exact_mod_cast List.length_pos_iff.mpr hsome
    · have hgroup : db.trendingRow address (db.transfersSince start address) ∈ db.trendingRows start :=
        mem_trendingRows.mpr ⟨hlisted, hsome, rfl⟩
      exact homitted _ hgroup fun hmem => hnot (List.mem_map_of_mem (f := (·.address)) hmem)
  · intro h
    refine ⟨h.distinct.of_map, fun r hr => h.mem hr, h.sorted, h.short, fun r hr hnot => ?_⟩
    obtain ⟨hlisted, hsome, heq⟩ := mem_trendingRows.mp hr
    have hmiss : r.address ∉ rows.map (·.address) := by
      intro hmem
      obtain ⟨q, hq, hqr⟩ := List.mem_map.mp hmem
      exact hnot (eq_of_address (h.mem hq) hr hqr ▸ hq)
    have hcount : r.transferCount = (db.transfersSince start r.address).length :=
      congrArg TrendingRow.transferCount heq
    rw [hcount]
    exact h.omitted r.address hlisted hmiss hsome

theorem trendingTokens_iff_ranks {now : Timestamp} {hours limit : ℤ} {rows : List TrendingRow} :
    db.TrendingTokens now hours limit rows ↔
      ∃ start, hoursAgo now hours = some start ∧ 0 ≤ limit ∧ limit < 2 ^ 63 ∧
        db.Ranks start limit.toNat rows := by
  simp only [Database.TrendingTokens, answer_iff_ranks]

/-- **The query of the trending tokens** can answer a list exactly if it is a ranking of the
known tokens by their transfers in the window, with at most `limit` entries; and all its
answers have the same counts. -/
theorem trending_iff (db : Database) (now : Timestamp) (hours limit : ℤ) (rows : List TrendingRow) :
    (db.TrendingTokens now hours limit rows ↔
        ∃ start, hoursAgo now hours = some start ∧ 0 ≤ limit ∧ limit < 2 ^ 63 ∧
          db.Ranks start limit.toNat rows) ∧
      ∀ other, db.TrendingTokens now hours limit rows → db.TrendingTokens now hours limit other →
        rows.map (·.transferCount) = other.map (·.transferCount) := by
  constructor
  · exact trendingTokens_iff_ranks
  · rintro other ⟨start, hstart, -, -, hanswer⟩ ⟨start', hstart', -, -, hanswer'⟩
    obtain rfl := Option.some.inj (hstart.symm.trans hstart')
    exact map_eq_of_answers hanswer hanswer'

/-! ### From the files to the response -/

/-- Files whose tokens all have a symbol and a name. -/
def Named (py : PyText) : Launch → Prop
  | .startup files => ∀ rows, ofFile (tokenRows py) files.tokens = some rows →
      ∀ row ∈ rows, row.2.symbol ≠ none ∧ row.2.name ≠ none
  | .rebuild => True

/-- The table has named tokens only. -/
def AllNamed (s : Stores) : Prop := ∀ row ∈ s.tokens.rows, row.2.symbol ≠ none ∧ row.2.name ≠ none

def LoadsNamed (py : PyText) : Stage → Prop
  | .loadTokens files => Named py (.startup files)
  | _ => True

theorem Moved.allNamed {py : PyText} {s s' : Stores} {stage stage' : Stage}
    (h : Moved py s stage s' stage') (hs : AllNamed s) (hstage : LoadsNamed py stage) :
    AllNamed s' ∧ LoadsNamed py stage' := by
  cases h with
  | tokens hrows hnext =>
    refine ⟨fun row hrow => ?_, ?_⟩
    · rcases Keyed.mem_of_mem_upsertAll hrow with hrow | hrow
      · exact hstage _ hrows row hrow
      · exact hs row hrow
    · rcases hnext with rfl | rfl <;> trivial
  | labels hrows hnext => exact ⟨hs, by rcases hnext with rfl | rfl <;> trivial⟩
  | recreated hnext => exact ⟨hs, by rcases hnext with rfl | rfl <;> trivial⟩
  | _ => exact ⟨hs, trivial⟩

theorem rules_named (py : PyText) :
    Processes.Rules Launch.stage (move py) (Named py) AllNamed fun _ => LoadsNamed py where
  begins s x hx _ := by
    cases x with
    | startup files => exact hx
    | rebuild => trivial
  keeps _ _ _ _ _ h hs hstage := (moved_of_move h).allNamed hs hstage
  others _ _ _ _ _ _ _ _ _ hother := hother

theorem allNamed_after {py : PyText} {events : List CatalogueEvent}
    (hevents : ∀ e ∈ events, Processes.Starting (Named py) e) :
    AllNamed (Catalogue.after py events).store := by
  have hinitial : Processes.Holds AllNamed (fun _ => LoadsNamed py) Catalogue.initial :=
    ⟨fun row hrow => (by cases hrow), fun p hp => (by cases hp)⟩
  exact (Processes.runs_holds (rules_named py) hevents hinitial).store

/-- The row that a token of the response comes from. -/
def TrendingToken.row (t : TrendingToken) : TrendingRow :=
  ⟨t.address, some t.symbol, some t.name, t.transferCount⟩

theorem trendingTokensResponse_eq_some {rows : List TrendingRow} {response : TrendingTokensResponse}
    (h : trendingTokensResponse rows = some response) :
    rows = response.trendingTokens.map TrendingToken.row := by
  obtain ⟨tokens, htokens, rfl⟩ := Option.map_eq_some_iff.mp h
  have hrow : ∀ r t, trendingToken r = some t → r = t.row := by
    intro r t ht
    simp only [trendingToken, Option.bind_eq_bind, Option.bind_eq_some_iff] at ht
    obtain ⟨symbol, hsymbol, name, hname, ht⟩ := ht
    obtain rfl := Option.some.inj ht
    rw [TrendingToken.row, ← hsymbol, ← hname]
  have hall := Traverse.mapM_eq_some_iff.mp htokens
  refine List.forall₂_eq_eq_eq ▸ ?_
  exact List.forall₂_map_right_iff.mpr (hall.imp hrow)

/-- **Whatever the query answers is served**, row by row, where the servers have loaded only
files that name their tokens. -/
theorem trending_served (py : PyText) {events : List CatalogueEvent}
    (hevents : ∀ e ∈ events, Processes.Starting (Named py) e) (db : Database)
    (hdb : ∀ address, db.tokens address =
      ((Catalogue.after py events).store.tokens.find address).map (·.2))
    {now : Timestamp} {hours limit : ℤ} {rows : List TrendingRow}
    (hrows : db.TrendingTokens now hours limit rows) (repo : TokenRepository)
    (hrepo : repo.getTrendingTokens hours limit = some rows) :
    ∃ response, getTrendingTokens ⟨none⟩ repo limit hours = .ok (.trending response) ∧
      rows = response.trendingTokens.map TrendingToken.row := by
  obtain ⟨start, -, -, -, hranks⟩ := trendingTokens_iff_ranks.mp hrows
  have hcomplete : (trendingTokensResponse rows).isSome := by
    rw [trendingTokensResponse_isSome_iff]
    intro r hr
    obtain ⟨token, htoken, hsymbol, hname, -⟩ := hranks.row r hr
    rw [hdb] at htoken
    obtain ⟨row, hrow, rfl⟩ := Option.map_eq_some_iff.mp htoken
    rw [hsymbol, hname]
    exact allNamed_after hevents row (Keyed.find_eq_some_iff.mp hrow).1
  obtain ⟨response, hresponse⟩ := Option.isSome_iff_exists.mp hcomplete
  refine ⟨response, ?_, trendingTokensResponse_eq_some hresponse⟩
  rw [getTrendingTokens, orFetchError_eq_ok]
  change ReadThrough.fetch _ none _ = _
  rw [ReadThrough.fetch_absent, hrepo]
  simp [hresponse]

/-- One transfer of the token that `tokenIndexed` loads. -/
def tokenTransferred : Database where
  stored := { Tables.empty with tokenTransfers :=
    ⟨[⟨"0xc1", 0, 1700000000000000, "0xa1", "0xb1", "0xb2", some 5⟩], List.nodup_singleton _⟩ }
  tokens address := ((Catalogue.after asciiText tokenIndexed).store.tokens.find address).map (·.2)
  addressLabels _ := none

theorem one_token_trending :
    ∃ response, getTrendingTokens ⟨none⟩ ⟨fun _ _ => some [⟨"0xa1", some "USDT", some "Tether", 1⟩]⟩
        10 1 = .ok (.trending response) ∧
      [⟨"0xa1", some "USDT", some "Tether", 1⟩] = response.trendingTokens.map TrendingToken.row := by
  have hnamed : ∀ e ∈ tokenIndexed, Processes.Starting (Named asciiText) e := by
    have hrows : ofFile (tokenRows asciiText)
        (some "address,symbol,name,decimals\r\n0xA1,USDT,Tether,6\r\n".toList) =
          some [("0xa1", ⟨some "USDT", some "Tether", some 6⟩)] := by decide +kernel
    intro e he
    simp only [tokenIndexed, List.mem_cons, List.not_mem_nil, or_false] at he
    rcases he with rfl | rfl | rfl | rfl | rfl | rfl | rfl | rfl
    · intro rows h row hrow
      obtain rfl := Option.some.inj (hrows.symm.trans h)
      obtain rfl := List.mem_singleton.mp hrow
      exact ⟨Option.some_ne_none _, Option.some_ne_none _⟩
    all_goals trivial
  have hgroups : tokenTransferred.trendingRows (1700000000000000 - 1) =
      [⟨"0xa1", some "USDT", some "Tether", 1⟩] := by decide +kernel
  have hanswer : tokenTransferred.TrendingTokens 1700003599999999 1 10
      [⟨"0xa1", some "USDT", some "Tether", 1⟩] := by
    refine ⟨1700000000000000 - 1, by decide, by decide, by decide, ?_⟩
    rw [hgroups]
    exact ⟨_, List.Perm.refl _, List.pairwise_singleton _ _, rfl⟩
  exact trending_served asciiText hnamed tokenTransferred (fun _ => rfl) hanswer _ rfl

end Backend

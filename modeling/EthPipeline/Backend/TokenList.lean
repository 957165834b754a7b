import EthPipeline.Backend.Services
import EthPipeline.Base.Paging
import Mathlib.Data.String.Basic

/-!
# The list of tokens

`get_all_tokens` of `src/backend/repositories/token_repo.py` and
`token_service.py`.  Each page is sorted by symbol alone, and tokens that share a
symbol, or have none, may stand in any order.

* `getAllTokens_lossless_iff`: the pages have every token once, whatever those orders
  are, just when no two such tokens are on both sides of the end of a page.
* `same_symbol_read_twice`: two tokens of one symbol, on pages of one.
-/

namespace Backend

open Query Window

/-- What the queries depend on: the collation, which tells texts apart that differ, and
the lower case of a text, the usual one for the letters of ASCII. -/
structure Postgres where
  collation : LinearOrder String
  lower : List Char → List Char
  lower_letter : ∀ c text, c.isAlpha → (lower (c :: text)).head? = some c.toLower
  lower_pattern : ∀ c, c.isAlpha → lower [c, '%'] = [c.toLower, '%']

/-- `tokens`, with its primary key. -/
structure TokensTable where
  rows : List (String × Token)
  nodup : (rows.map Prod.fst).Nodup

structure TokenSearchResponse where
  address : String
  symbol : Option String
  name : Option String
  decimals : Option ℕ
  deriving DecidableEq, Repr

def tokenSearchResponse (row : String × Token) : TokenSearchResponse :=
  ⟨row.1, row.2.symbol, row.2.name, row.2.decimals⟩

/-- `text LIKE pattern`.  A pattern that ends in the escape character is an error, and
those of the query end in `%`. -/
def like : List Char → List Char → Bool
  | [], text => text.isEmpty
  | '%' :: pattern, text => text.tails.any (like pattern)
  | '_' :: pattern, text => !text.isEmpty && like pattern text.tail
  | '\\' :: c :: pattern, text => text.head? = some c && like pattern text.tail
  | c :: pattern, text => text.head? = some c && like pattern text.tail

namespace Postgres

variable (pg : Postgres)

/-- `text ILIKE pattern`. -/
def ilike (text pattern : String) : Bool := like (pg.lower pattern.toList) (pg.lower text.toList)

/-- `ASC NULLS LAST`. -/
def symbolLe (a b : Option String) : Prop :=
  match a, b with
  | _, none => True
  | none, some _ => False
  | some a, some b => pg.collation.le a b

/-- `ORDER BY symbol ASC NULLS LAST`. -/
def BySymbol (r s : String × Token) : Prop := pg.symbolLe r.2.symbol s.2.symbol

instance (a b : Option String) : Decidable (pg.symbolLe a b) :=
  match a, b with
  | _, none => inferInstanceAs (Decidable True)
  | none, some _ => inferInstanceAs (Decidable False)
  | some a, some b => pg.collation.toDecidableLE a b

instance : DecidableRel pg.BySymbol := fun r s =>
  inferInstanceAs (Decidable (pg.symbolLe r.2.symbol s.2.symbol))

theorem symbolLe_trans {a b c : Option String} (hab : pg.symbolLe a b) (hbc : pg.symbolLe b c) :
    pg.symbolLe a c := by
  cases c with
  | none => cases a <;> trivial
  | some c =>
    cases b with
    | none => exact absurd hbc id
    | some b =>
      cases a with
      | none => exact absurd hab id
      | some a => exact pg.collation.le_trans a b c hab hbc

theorem symbolLe_total (a b : Option String) : pg.symbolLe a b ∨ pg.symbolLe b a := by
  cases a with
  | none => exact .inr (by cases b <;> trivial)
  | some a =>
    cases b with
    | none => exact .inl trivial
    | some b => exact pg.collation.le_total a b

theorem symbolLe_antisymm {a b : Option String} (hab : pg.symbolLe a b) (hba : pg.symbolLe b a) :
    a = b := by
  cases a with
  | none =>
    cases b with
    | none => rfl
    | some b => exact absurd hab id
  | some a =>
    cases b with
    | none => exact absurd hba id
    | some b => exact congrArg some (pg.collation.le_antisymm a b hab hba)

theorem bySymbol_trans (r s t : String × Token) (hrs : pg.BySymbol r s) (hst : pg.BySymbol s t) :
    pg.BySymbol r t :=
  pg.symbolLe_trans hrs hst

theorem bySymbol_total (r s : String × Token) : pg.BySymbol r s ∨ pg.BySymbol s r :=
  pg.symbolLe_total _ _

theorem bySymbol_refl (r : String × Token) : pg.BySymbol r r := (pg.bySymbol_total r r).elim id id

/-- By symbol, and otherwise as in the table. -/
def stable : Sorting pg.BySymbol := Sorting.merge pg.BySymbol pg.bySymbol_trans pg.bySymbol_total

/-- The rows of the query: an empty prefix is none. -/
def matching (table : TokensTable) (start : Option String) : List (String × Token) :=
  match start with
  | some p =>
    if p = "" then table.rows
    else table.rows.filter fun row => row.2.symbol.any fun symbol => pg.ilike symbol (p ++ "%")
  | none => table.rows

/-- The database takes the parameters: two `BIGINT`, and a text without NUL. -/
def Bindable (limit offset : ℕ) (start : Option String) : Prop :=
  limit < 2 ^ 63 ∧ offset < 2 ^ 63 ∧ ∀ p ∈ start, '\x00' ∉ p.toList

instance (limit offset : ℕ) (start : Option String) : Decidable (Bindable limit offset start) :=
  inferInstanceAs (Decidable (_ ∧ _ ∧ _))

/-- The query, by one of the orders it allows; `none` is an exception. -/
def getAllTokens (order : Sorting pg.BySymbol) (table : TokensTable) (limit offset : ℕ)
    (start : Option String) : Option (List (String × Token)) :=
  if Bindable limit offset start then
    some (((order.run (pg.matching table start)).drop offset).take limit)
  else none

end Postgres

/-- The service. -/
def getAllTokens (pg : Postgres) (order : Sorting pg.BySymbol) (table : TokensTable)
    (limit offset : ℕ) (start : Option String) :
    Except DatabaseFetchError (List TokenSearchResponse) :=
  orFetchError ((pg.getAllTokens order table limit offset start).map
    fun rows => rows.map tokenSearchResponse)

/-! ### All pages -/

/-- The number of the first page that is empty. -/
def pageCount (limit rows : ℕ) : ℕ := (rows + limit - 1) / limit

/-- The symbols of the rows in order. -/
def Postgres.symbols (pg : Postgres) (table : TokensTable) (start : Option String) :
    List (Option String) :=
  ((pg.matching table start).map (·.2.symbol)).insertionSort pg.symbolLe

/-- Reading the pages until one is empty gives every matching token once, whatever order
each page has. -/
def Lossless (pg : Postgres) (table : TokensTable) (limit : ℕ) (start : Option String) : Prop :=
  ∀ order : ℕ → Sorting pg.BySymbol, ∃ tokens,
    Collected (fun k => (getAllTokens pg (order k) table limit (k * limit) start).toOption) 0 tokens ∧
      tokens.Perm ((pg.matching table start).map tokenSearchResponse)

section Pages

variable {pg : Postgres} {table : TokensTable} {limit : ℕ} {start : Option String}

theorem lt_pageCount_iff (hlimit : 0 < limit) {rows k : ℕ} :
    k < pageCount limit rows ↔ k * limit < rows := by
  rw [pageCount, Nat.lt_iff_add_one_le, Nat.le_div_iff_mul_le hlimit, Nat.succ_mul]
  omega

theorem injective_tokenSearchResponse : Function.Injective tokenSearchResponse := by
  rintro ⟨address, symbol, name, decimals⟩ ⟨address', symbol', name', decimals'⟩ h
  simpa [tokenSearchResponse] using h

theorem nodup_matching (pg : Postgres) (table : TokensTable) (start : Option String) :
    (pg.matching table start).Nodup := by
  have hrows : table.rows.Nodup := table.nodup.of_map
  unfold Postgres.matching
  split
  · split
    · exact hrows
    · exact hrows.filter _
  · exact hrows

/-- The rows sorted once. -/
theorem exists_arrangement (pg : Postgres) (rows : List (String × Token)) :
    ∃ l, Arrangement pg.BySymbol rows l ∧
      l.map (·.2.symbol) = (rows.map (·.2.symbol)).insertionSort pg.symbolLe := by
  have : IsTrans (Option String) pg.symbolLe := ⟨fun _ _ _ => pg.symbolLe_trans⟩
  have : Std.Total pg.symbolLe := ⟨pg.symbolLe_total⟩
  have horder : Arrangement pg.symbolLe (rows.map (·.2.symbol))
      ((rows.map (·.2.symbol)).insertionSort pg.symbolLe) :=
    ⟨List.perm_insertionSort _ _, List.pairwise_insertionSort _ _⟩
  obtain ⟨l, hl, harr⟩ := horder.exists_map
  exact ⟨l, harr, hl.symm⟩

theorem strictAt_iff {rows l : List (String × Token)} (hl : Arrangement pg.BySymbol rows l)
    {n : ℕ} (hn : 0 < n) :
    StrictAt pg.BySymbol l n ↔ (n < rows.length →
      (l.map (·.2.symbol))[n - 1]? ≠ (l.map (·.2.symbol))[n]?) := by
  rw [← hl.perm.length_eq]
  constructor
  · intro hstrict hlt heq
    have hx := List.getElem?_eq_getElem (l := l) (i := n - 1) (by omega)
    have hy := List.getElem?_eq_getElem hlt
    refine hstrict _ _ hx hy ?_
    rw [List.getElem?_map, List.getElem?_map, hx, hy] at heq
    have hsame : l[n - 1].2.symbol = l[n].2.symbol := Option.some.inj heq
    show pg.symbolLe _ _
    rw [hsame]
    exact pg.bySymbol_refl _
  · intro h x y hx hy hyx
    obtain ⟨before, after, hsplit, -⟩ := exists_neighbours hn hx hy
    have hsorted := hl.sorted
    rw [hsplit, List.pairwise_append, List.pairwise_cons] at hsorted
    have hxy : pg.BySymbol x y := hsorted.2.1.1 y List.mem_cons_self
    refine h (List.getElem?_eq_some_iff.mp hy).1 ?_
    rw [List.getElem?_map, List.getElem?_map, hx, hy]
    exact congrArg some (pg.symbolLe_antisymm hxy hyx)

theorem toOption_getAllTokens (order : Sorting pg.BySymbol) (offset : ℕ) :
    (getAllTokens pg order table limit offset start).toOption =
      (pg.getAllTokens order table limit offset start).map fun rows => rows.map tokenSearchResponse := by
  rw [getAllTokens]
  cases pg.getAllTokens order table limit offset start <;> rfl

/-- Reading all pages in some orders. -/
theorem collected_getAllTokens_iff (hlimit : 0 < limit) (order : ℕ → Sorting pg.BySymbol)
    {tokens : List TokenSearchResponse} :
    Collected (fun k => (getAllTokens pg (order k) table limit (k * limit) start).toOption) 0 tokens ↔
      Postgres.Bindable limit (pageCount limit (pg.matching table start).length * limit) start ∧
        tokens = ((List.range (pageCount limit (pg.matching table start).length)).flatMap fun k =>
          page limit ((order k).run (pg.matching table start)) k).map tokenSearchResponse := by
  set rows := pg.matching table start
  set n := pageCount limit rows.length
  have hlength : ∀ k, ((order k).run rows).length = rows.length :=
    fun k => ((order k).perm rows).length_eq
  have hcollected : Collected (fun k => (getAllTokens pg (order k) table limit (k * limit)
      start).toOption) 0 tokens ↔
      (∀ k ≤ n, (getAllTokens pg (order k) table limit (k * limit) start).toOption.isSome) ∧
        tokens = (List.range n).flatMap fun k =>
          (page limit ((order k).run rows) k).map tokenSearchResponse := by
    refine collected_iff (fun k answer hanswer => ?_) (fun k hk hnil => ?_) ?_
    · rw [toOption_getAllTokens, Postgres.getAllTokens] at hanswer
      split at hanswer
      · exact (Option.some.inj hanswer).symm
      · cases hanswer
    · rw [List.map_eq_nil_iff, page_eq_nil_iff hlimit, hlength k] at hnil
      have hlt := (lt_pageCount_iff hlimit).mp hk
      omega
    · rw [List.map_eq_nil_iff, page_eq_nil_iff hlimit, hlength n]
      by_contra hlt
      exact lt_irrefl n ((lt_pageCount_iff hlimit).mpr (not_le.mp hlt))
  have hsome : ∀ k, (getAllTokens pg (order k) table limit (k * limit) start).toOption.isSome ↔
      Postgres.Bindable limit (k * limit) start := by
    intro k
    rw [toOption_getAllTokens, Option.isSome_map, Postgres.getAllTokens]
    split
    · next hbind => exact iff_of_true rfl hbind
    · next hbind => exact iff_of_false Bool.false_ne_true hbind
  rw [hcollected, List.map_flatMap]
  refine and_congr_left fun _ => ?_
  simp only [hsome]
  constructor
  · exact fun h => h n le_rfl
  · intro h k hk
    exact ⟨h.1, (Nat.mul_le_mul_right limit hk).trans_lt h.2.1, h.2.2⟩

end Pages

/-- Two tokens on the two sides of the end of a page do not share a symbol. -/
def DistinctAtPageEnds (pg : Postgres) (table : TokensTable) (limit : ℕ)
    (start : Option String) : Prop :=
  ∀ k, 0 < k → k * limit < (pg.matching table start).length →
    (pg.symbols table start)[k * limit - 1]? ≠ (pg.symbols table start)[k * limit]?

/-- **Paging is lossless** just when the request is one the database takes and no two tokens
with one symbol, or without one, are on both sides of the end of a page. -/
theorem getAllTokens_lossless_iff (pg : Postgres) (table : TokensTable) (limit : ℕ)
    (start : Option String) (hlimit : 1 ≤ limit) :
    Lossless pg table limit start ↔
      Postgres.Bindable limit (pageCount limit (pg.matching table start).length * limit) start ∧
        DistinctAtPageEnds pg table limit start := by
  set rows := pg.matching table start with hrows
  set n := pageCount limit rows.length with hn
  have hcovers : rows.length ≤ n * limit := by
    by_contra hlt
    exact lt_irrefl n ((lt_pageCount_iff hlimit).mpr (not_le.mp hlt))
  obtain ⟨l, hl, hsymbols⟩ := exists_arrangement pg rows
  have hstrict : (∀ k, 0 < k → StrictAt pg.BySymbol l (k * limit)) ↔
      DistinctAtPageEnds pg table limit start := by
    refine forall₂_congr fun k hk => ?_
    rw [strictAt_iff hl (Nat.mul_pos hk hlimit), hsymbols]
    rfl
  have hpages := pages_perm_iff pg.bySymbol_trans pg.bySymbol_refl (nodup_matching pg table start)
    hlimit hcovers pg.stable hl
  rw [hstrict] at hpages
  rw [← hpages]
  constructor
  · intro h
    obtain ⟨tokens, hcollected, -⟩ := h fun _ => pg.stable
    refine ⟨((collected_getAllTokens_iff hlimit _).mp hcollected).1, fun order => ?_⟩
    obtain ⟨tokens, hcollected, hperm⟩ := h order
    rw [((collected_getAllTokens_iff hlimit _).mp hcollected).2] at hperm
    exact (List.map_perm_map_iff injective_tokenSearchResponse).mp hperm
  · rintro ⟨hbind, hperm⟩ order
    exact ⟨_, (collected_getAllTokens_iff hlimit order).mpr ⟨hbind, rfl⟩,
      (hperm order).map tokenSearchResponse⟩

/-- Texts in the order of their characters. -/
def plain : Postgres where
  collation := inferInstance
  lower text := text.map Char.toLower
  lower_letter _ _ _ := rfl
  lower_pattern _ _ := rfl

/-- Tokens with these symbols. -/
def symbolsTable (first second : String) : TokensTable where
  rows := [("0xd1", ⟨some first, none, some 18⟩), ("0xd2", ⟨some second, none, some 6⟩)]
  nodup := by simp

/-- Two symbols that differ. -/
theorem two_symbols_lossless : Lossless plain (symbolsTable "DAI" "USDT") 1 none := by
  refine (getAllTokens_lossless_iff _ _ 1 none le_rfl).mpr ⟨by decide, fun k hk hlt => ?_⟩
  have hlt : k * 1 < 2 := hlt
  obtain rfl : k = 1 := by omega
  decide +kernel

/-- By symbol, and tokens that share one as in the table, or the other way. -/
def asStored : Sorting plain.BySymbol :=
  Sorting.insertion plain.BySymbol plain.bySymbol_trans plain.bySymbol_total

def lastStored : Sorting plain.BySymbol where
  run rows := asStored.run rows.reverse
  perm _ := (asStored.perm _).trans (List.reverse_perm _)
  sorted _ := asStored.sorted _

/-- **Two tokens of one symbol**: the first is on both pages, and the second on none. -/
theorem same_symbol_read_twice : ¬Lossless plain (symbolsTable "USDT" "USDT") 1 none := by
  intro h
  obtain ⟨tokens, hcollected, hperm⟩ := h fun k => if k = 0 then asStored else lastStored
  rw [((collected_getAllTokens_iff Nat.one_pos _).mp hcollected).2] at hperm
  revert hperm
  decide +kernel

end Backend

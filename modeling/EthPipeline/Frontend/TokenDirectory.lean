import EthPipeline.Backend.TokenList
import EthPipeline.Base.Run
import Mathlib.Data.List.Infix

/-!
# The token directory

`src/frontend/src/pages/TokenDirectoryPage.tsx`: one button for each letter and one
for the rest, and under each the first hundred tokens of a query.

* `idle_shows_fetched`: what the page shows when nothing is loading.
* `directory_complete_iff`: every token with a symbol is under its button just when no
  more than a hundred tokens of the query come before it or tie with it.
* `hundred_and_first_missing`: the last of a hundred and one tokens.
-/

namespace Frontend

open Backend Query Run Window

/-- `ALPHABET`. -/
def alphabet : List Char := "#ABCDEFGHIJKLMNOPQRSTUVWXYZ".toList

def prefixParam (activePrefix : Char) : String :=
  if activePrefix = '#' then "" else String.singleton activePrefix

/-- `/^[A-Za-z]/.test(text)`. -/
def startsWithLetter (text : String) : Bool := text.toList.head?.any Char.isAlpha

/-- `t.symbol && !/^[A-Za-z]/.test(t.symbol)`. -/
def otherSymbol (t : TokenSearchResponse) : Bool :=
  t.symbol.any fun symbol => symbol ≠ "" && !startsWithLetter symbol

/-- What `fetchTokens` sets, when the backend answers by `order`. -/
def fetchTokens (pg : Postgres) (order : Sorting pg.BySymbol) (table : TokensTable)
    (activePrefix : Char) : Except DatabaseFetchError (List TokenSearchResponse) :=
  (getAllTokens pg order table 100 0 (some (prefixParam activePrefix))).map fun data =>
    if activePrefix = '#' then data.filter otherSymbol else data

/-! ### The page -/

namespace Directory

structure Page where
  tokens : List TokenSearchResponse
  loading : Bool
  error : Option String
  activePrefix : Char
  deriving DecidableEq, Repr

/-- The page that is mounted. -/
def initial : Page := ⟨[], true, none, 'A'⟩

/-- `failed`: the request, with this message.  What comes for an earlier letter is
ignored. -/
inductive Event (pg : Postgres) where
  | click (letter : Char)
  | answered (order : Sorting pg.BySymbol)
  | failed (message : String)

def step (pg : Postgres) (table : TokensTable) (s : Page) : Event pg → Option Page
  | .click letter =>
    if letter ∈ alphabet ∧ letter ≠ s.activePrefix then
      some { s with loading := true, error := none, activePrefix := letter }
    else none
  | .answered order =>
    if s.loading then
      match fetchTokens pg order table s.activePrefix with
      | .ok data => some { s with tokens := data, loading := false }
      | .error e => some { s with error := some e.message, loading := false }
    else none
  | .failed message =>
    if s.loading then some { s with error := some message, loading := false } else none

/-- The page shows its tokens. -/
def Idle (s : Page) : Prop := s.loading = false ∧ s.error = none

/-- The tokens of an idle page are those that were fetched for its letter. -/
def Fetched (pg : Postgres) (table : TokensTable) (s : Page) : Prop :=
  Idle s → ∃ order, fetchTokens pg order table s.activePrefix = .ok s.tokens

theorem fetched_step {pg : Postgres} {table : TokensTable} {s s' : Page} {e : Event pg}
    (hs : step pg table s e = some s') (_ : Fetched pg table s) : Fetched pg table s' := by
  cases e with
  | click letter =>
    simp only [step, Option.ite_none_right_eq_some, Option.some.injEq] at hs
    obtain ⟨-, rfl⟩ := hs
    exact fun hidle => nomatch hidle.1
  | answered order =>
    simp only [step, Option.ite_none_right_eq_some] at hs
    obtain ⟨-, hs⟩ := hs
    split at hs
    · next data hdata =>
      obtain rfl := Option.some.inj hs
      exact fun _ => ⟨order, hdata⟩
    · obtain rfl := Option.some.inj hs
      exact fun hidle => nomatch hidle.2
  | failed message =>
    simp only [step, Option.ite_none_right_eq_some, Option.some.injEq] at hs
    obtain ⟨-, rfl⟩ := hs
    exact fun hidle => nomatch hidle.2

/-- **An idle page** shows what was fetched for its letter, after any clicks and answers. -/
theorem idle_shows_fetched (pg : Postgres) (table : TokensTable) (es : List (Event pg))
    (hidle : Idle (runs (step pg table) initial es)) :
    ∃ order, fetchTokens pg order table (runs (step pg table) initial es).activePrefix =
      .ok (runs (step pg table) initial es).tokens := by
  have hfetched : Fetched pg table (runs (step pg table) initial es) :=
    runs_invariant (fun s e s' hs h => fetched_step hs h) es fun hidle => nomatch hidle.1
  exact hfetched hidle

end Directory

/-! ### Which tokens are shown -/

/-- The button of a symbol. -/
def button (symbol : String) : Char :=
  match symbol.toList.head? with
  | some c => if c.isAlpha then c.toUpper else '#'
  | none => '#'

/-- Every token with a symbol has a button and is shown under it, whatever order tied tokens
have. -/
def DirectoryComplete (pg : Postgres) (table : TokensTable) : Prop :=
  ∀ row ∈ table.rows, ∀ symbol, row.2.symbol = some symbol → symbol ≠ "" →
    button symbol ∈ alphabet ∧
      ∀ order, ∃ shown, fetchTokens pg order table (button symbol) = .ok shown ∧
        tokenSearchResponse row ∈ shown

theorem like_cons {c : Char} {pattern text : List Char} (hpercent : c ≠ '%') (hany : c ≠ '_')
    (hescape : c ≠ '\\') :
    like (c :: pattern) text = (text.head? = some c && like pattern text.tail) := by
  rw [like.eq_def]
  split
  · next h => cases h
  · next h => exact absurd (List.cons.inj h).1 hpercent
  · next h => exact absurd (List.cons.inj h).1 hany
  · next h => exact absurd (List.cons.inj h).1 hescape
  · next h =>
    obtain ⟨rfl, rfl⟩ := List.cons.inj h
    rfl

theorem like_percent (text : List Char) : like ['%'] text := by
  rw [like, List.any_eq_true]
  exact ⟨[], (List.mem_tails _ _).mpr List.nil_suffix, rfl⟩

/-- The letters, in both cases. -/
theorem letter_cases {c : Char} (hletter : c.isAlpha) :
    c.toUpper ∈ alphabet ∧ c.toUpper ≠ '#' ∧ c.toUpper.isAlpha ∧ c.toUpper.toLower = c.toLower ∧
      c.toLower ≠ '%' ∧ c.toLower ≠ '_' ∧ c.toLower ≠ '\\' := by
  have hall : ∀ n < 128, (Char.ofNat n).isAlpha →
      (Char.ofNat n).toUpper ∈ alphabet ∧ (Char.ofNat n).toUpper ≠ '#' ∧
        (Char.ofNat n).toUpper.isAlpha ∧ (Char.ofNat n).toUpper.toLower = (Char.ofNat n).toLower ∧
          (Char.ofNat n).toLower ≠ '%' ∧ (Char.ofNat n).toLower ≠ '_' ∧
            (Char.ofNat n).toLower ≠ '\\' := by
    decide +kernel
  have hascii : c.toNat < 128 := by
    show c.val.toNat < 128
    rcases Bool.or_eq_true_iff.mp hletter with hupper | hlower
    · have hle : c.val ≤ 'Z'.val := (of_decide_eq_true hupper).2
      exact (UInt32.le_iff_toNat_le.mp hle).trans_lt (by decide)
    · have hle : c.val ≤ 'z'.val := of_decide_eq_true (Bool.and_eq_true_iff.mp hlower).2
      exact (UInt32.le_iff_toNat_le.mp hle).trans_lt (by decide)
  have h := hall c.toNat hascii
  rw [Char.ofNat_toNat] at h
  exact h hletter

/-- A symbol that starts with a letter matches the query of its button. -/
theorem ilike_button (pg : Postgres) {symbol : String} {c : Char} {rest : List Char}
    (hsymbol : symbol.toList = c :: rest) (hletter : c.isAlpha) :
    pg.ilike symbol (String.singleton c.toUpper ++ "%") := by
  obtain ⟨-, -, hupper, hlower, hpercent, hany, hescape⟩ := letter_cases hletter
  have hpattern : (String.singleton c.toUpper ++ "%").toList = [c.toUpper, '%'] := by simp
  rw [Postgres.ilike, hpattern, pg.lower_pattern _ hupper, hlower, hsymbol,
    like_cons hpercent hany hescape, pg.lower_letter c rest hletter, like_percent]
  simp

/-- The button of a symbol, and what is asked for under it. -/
theorem button_cases (symbol : String) (hne : symbol ≠ "") :
    (∃ c rest, symbol.toList = c :: rest ∧ c.isAlpha ∧ button symbol = c.toUpper ∧
        prefixParam (button symbol) = String.singleton c.toUpper) ∨
      button symbol = '#' ∧ prefixParam (button symbol) = "" ∧ ¬startsWithLetter symbol := by
  cases hsymbol : symbol.toList with
  | nil => exact absurd (String.toList_eq_nil_iff.mp hsymbol) hne
  | cons c rest =>
    by_cases hletter : c.isAlpha
    · have hbutton : button symbol = c.toUpper := by simp [button, hsymbol, hletter]
      refine .inl ⟨c, rest, rfl, hletter, hbutton, ?_⟩
      rw [hbutton, prefixParam, if_neg (letter_cases hletter).2.1]
    · have hbutton : button symbol = '#' := by simp [button, hsymbol, hletter]
      refine .inr ⟨hbutton, by rw [hbutton]; rfl, ?_⟩
      simpa [startsWithLetter, hsymbol] using hletter

theorem button_mem_alphabet (symbol : String) (hne : symbol ≠ "") : button symbol ∈ alphabet := by
  obtain ⟨c, rest, -, hletter, hbutton, -⟩ | ⟨hbutton, -, -⟩ := button_cases symbol hne
  · rw [hbutton]
    exact (letter_cases hletter).1
  · rw [hbutton]
    decide

/-- The query under the button of a token has the token, and the page does not leave it
out. -/
theorem mem_matching_button (pg : Postgres) {table : TokensTable} {row : String × Token}
    (hrow : row ∈ table.rows) {symbol : String} (hsymbol : row.2.symbol = some symbol)
    (hne : symbol ≠ "") :
    row ∈ pg.matching table (some (prefixParam (button symbol))) ∧
      (button symbol = '#' → otherSymbol (tokenSearchResponse row)) := by
  obtain ⟨c, rest, hlist, hletter, hbutton, hparam⟩ | ⟨hbutton, hparam, hother⟩ :=
    button_cases symbol hne
  · have hnonempty : String.singleton c.toUpper ≠ "" := by
      intro heq
      simpa using congrArg String.toList heq
    constructor
    · rw [hparam, Postgres.matching, if_neg hnonempty]
      refine List.mem_filter.mpr ⟨hrow, ?_⟩
      rw [hsymbol]
      exact ilike_button pg hlist hletter
    · intro hhash
      exact absurd (hbutton.symm.trans hhash) (letter_cases hletter).2.1
  · constructor
    · rw [hparam, Postgres.matching, if_pos rfl]
      exact hrow
    · intro _
      simp [otherSymbol, tokenSearchResponse, hsymbol, hne, hother]

/-- The database takes the query of every button. -/
theorem bindable_button {symbol : String} (hne : symbol ≠ "") :
    Postgres.Bindable 100 0 (some (prefixParam (button symbol))) := by
  refine ⟨by decide, by decide, fun p hp => ?_⟩
  obtain rfl := Option.some.inj hp
  obtain ⟨c, rest, -, hletter, -, hparam⟩ | ⟨-, hparam, -⟩ := button_cases symbol hne
  · rw [hparam, String.toList_singleton, List.mem_singleton]
    intro heq
    have hupper := (letter_cases hletter).2.2.1
    rw [← heq] at hupper
    exact absurd hupper (by decide)
  · rw [hparam]
    decide

/-- A token is shown under its button if the query has it among the first hundred. -/
theorem shown_iff (pg : Postgres) {table : TokensTable} {row : String × Token}
    (hrow : row ∈ table.rows) {symbol : String} (hsymbol : row.2.symbol = some symbol)
    (hne : symbol ≠ "") (order : Sorting pg.BySymbol) :
    (∃ shown, fetchTokens pg order table (button symbol) = .ok shown ∧
        tokenSearchResponse row ∈ shown) ↔
      row ∈ (order.run (pg.matching table (some (prefixParam (button symbol))))).take 100 := by
  have hfetch : fetchTokens pg order table (button symbol) = .ok
      (if button symbol = '#' then
        (((order.run (pg.matching table (some (prefixParam (button symbol))))).take 100).map
          tokenSearchResponse).filter otherSymbol
      else ((order.run (pg.matching table (some (prefixParam (button symbol))))).take 100).map
        tokenSearchResponse) := by
    rw [fetchTokens, getAllTokens, Postgres.getAllTokens, if_pos (bindable_button hne)]
    rfl
  rw [hfetch]
  simp only [Except.ok.injEq, exists_eq_left']
  split
  · next hhash =>
    rw [List.mem_filter, List.mem_map_of_injective injective_tokenSearchResponse]
    exact and_iff_left ((mem_matching_button pg hrow hsymbol hne).2 hhash)
  · rw [List.mem_map_of_injective injective_tokenSearchResponse]

/-- **The directory is complete** just when under its button no token with a symbol has a
hundred others before it, those that tie with it included. -/
theorem directory_complete_iff (pg : Postgres) (table : TokensTable) :
    DirectoryComplete pg table ↔
      ∀ row ∈ table.rows, ∀ symbol, row.2.symbol = some symbol → symbol ≠ "" →
        ((pg.matching table (some (prefixParam (button symbol)))).filter
          fun other => other ≠ row ∧ pg.BySymbol other row).length < 100 := by
  refine forall₂_congr fun row hrow => forall₃_congr fun symbol hsymbol hne => ?_
  have hmem := (mem_matching_button pg hrow hsymbol hne).1
  have hnodup := nodup_matching pg table (some (prefixParam (button symbol)))
  simp only [shown_iff pg hrow hsymbol hne]
  rw [and_iff_right (button_mem_alphabet symbol hne),
    mem_take_iff pg.bySymbol_trans pg.bySymbol_total hnodup hmem pg.stable,
    countP_le_eq_succ hnodup hmem (pg.bySymbol_refl row)]
  omega

/-- A hundred tokens with the symbol A, and AAVE. -/
def crowdedTable : TokensTable where
  rows := (List.range 101).map fun i =>
    (String.ofList (List.replicate i 'a'), ⟨some (if i < 100 then "A" else "AAVE"), none, some 18⟩)
  nodup := by
    rw [List.map_map]
    refine (List.nodup_map_iff fun i j h => ?_).mpr List.nodup_range
    have hlength := congrArg String.length h
    simpa using hlength

/-- **The hundred and first token** under a letter is not shown. -/
theorem hundred_and_first_missing : ¬DirectoryComplete plain crowdedTable := by
  intro h
  have hlast : (String.ofList (List.replicate 100 'a'), (⟨some "AAVE", none, some 18⟩ : Token)) ∈
      crowdedTable.rows := List.mem_map.mpr ⟨100, by decide, rfl⟩
  have hshown := (shown_iff plain hlast rfl (by decide) asStored).mp
    ((h _ hlast "AAVE" rfl (by decide)).2 asStored)
  revert hshown
  decide +kernel

end Frontend

import EthPipeline.Base.Run
import Mathlib.Algebra.BigOperators.Group.List.Basic
import Mathlib.Algebra.Field.Rat
import Mathlib.Algebra.Ring.Int.Defs

/-!
# The token explorer

`src/frontend/src/components/TokenExplorer.tsx`: a debounced search, a selected
token and its trends.  The answer of a request is written to the state whatever
was asked since, so two fields are added that say which request the shown results
and trends come from.

* `current_iff_inTurn`: the results belong to the query and the trends to the
  token whenever no request for them is in flight, just when the answers that
  come last are those to the last requests.
* `slow_search_shown`: an answer that is overtaken.
-/

namespace Frontend

open Run

structure TokenSearchData where
  address : String
  symbol : Option String
  name : Option String
  decimals : Option ℕ
  deriving DecidableEq, Repr

structure TrendData where
  timeBucket : String
  transferCount : ℕ
  totalValue : ℚ
  deriving DecidableEq, Repr

/-- `text.length`, in UTF-16 units. -/
def jsLength (text : String) : ℕ :=
  (text.toList.map fun c => if c.toNat < 0x10000 then 1 else 2).sum

namespace Explorer

structure State where
  searchQuery : String
  searchResults : List TokenSearchData
  isSearching : Bool
  hasSearched : Bool
  selectedToken : Option TokenSearchData
  trends : List TrendData
  isLoadingTrends : Bool
  /-- The query of the pending timer. -/
  debounce : Option String
  /-- The queries of the searches in flight. -/
  searches : List String
  /-- The addresses of the requests for trends in flight. -/
  trendRequests : List String
  /-- The query that the shown results answer. -/
  resultsOf : String
  /-- The address that the shown trends are of. -/
  trendsOf : Option String
  deriving DecidableEq, Repr

def initial : State where
  searchQuery := ""
  searchResults := []
  isSearching := false
  hasSearched := false
  selectedToken := none
  trends := []
  isLoadingTrends := false
  debounce := none
  searches := []
  trendRequests := []
  resultsOf := ""
  trendsOf := none

/-- The effect of `[searchQuery]`: the timer of the query before is cleared. -/
def searchEffect (s : State) : State :=
  if jsLength s.searchQuery < 2 then
    { s with debounce := none, searchResults := [], hasSearched := false }
  else { s with debounce := some s.searchQuery }

def setSearchQuery (query : String) (s : State) : State :=
  if query = s.searchQuery then s else searchEffect { s with searchQuery := query }

def selectToken (token : TokenSearchData) (s : State) : State :=
  let s := setSearchQuery "" { s with selectedToken := some token, searchResults := [] }
  { s with isLoadingTrends := true, trendRequests := s.trendRequests ++ [token.address] }

/-- The numbers say which of the results is chosen, and which of the requests in flight
is answered. -/
inductive Event where
  | edit (query : String)
  | debounced
  | searchAnswered (i : ℕ) (tokens : List TokenSearchData)
  | searchFailed (i : ℕ)
  | select (i : ℕ)
  | trendsAnswered (i : ℕ) (trends : List TrendData)
  | trendsFailed (i : ℕ)
  | clickedOutside

/-- One event; `none` when there is no such timer, request or result. -/
def step (s : State) : Event → Option State
  | .edit query => some (setSearchQuery query s)
  | .debounced => s.debounce.map fun query =>
    { s with debounce := none, isSearching := true, searches := s.searches ++ [query] }
  | .searchAnswered i tokens => s.searches[i]?.map fun query =>
    { s with searches := s.searches.eraseIdx i, searchResults := tokens, resultsOf := query,
             hasSearched := true, isSearching := false }
  | .searchFailed i => s.searches[i]?.map fun _ =>
    { s with searches := s.searches.eraseIdx i, searchResults := [], isSearching := false }
  | .select i => s.searchResults[i]?.map fun token => selectToken token s
  | .trendsAnswered i trends => s.trendRequests[i]?.map fun address =>
    { s with trendRequests := s.trendRequests.eraseIdx i, trends, trendsOf := some address,
             isLoadingTrends := false }
  | .trendsFailed i => s.trendRequests[i]?.map fun _ =>
    { s with trendRequests := s.trendRequests.eraseIdx i, isLoadingTrends := false }
  | .clickedOutside => some { s with searchResults := [] }

/-! ### The numbers of the card -/

def totalTransfers24h (s : State) : ℕ := (s.trends.map (·.transferCount)).sum

def rawTotalVolume24h (s : State) : ℚ := (s.trends.map (·.totalValue)).sum

/-- `selectedToken?.decimals || 18`. -/
def decimals (s : State) : ℕ :=
  match s.selectedToken.bind (·.decimals) with
  | some d => if d = 0 then 18 else d
  | none => 18

/-- In exact arithmetic. -/
def totalVolume24h (s : State) : ℚ := rawTotalVolume24h s / 10 ^ decimals s

/-! ### What is shown belongs to what is asked for -/

def ResultsCurrent (s : State) : Prop := s.searchResults = [] ∨ s.resultsOf = s.searchQuery

def TrendsCurrent (s : State) : Prop :=
  s.trends = [] ∨ s.trendsOf = s.selectedToken.map (·.address)

instance (s : State) : Decidable (ResultsCurrent s) := inferInstanceAs (Decidable (_ ∨ _))

instance (s : State) : Decidable (TrendsCurrent s) := inferInstanceAs (Decidable (_ ∨ _))

/-- Results and trends are current, each while no request for them is in flight. -/
def Current (s : State) : Prop :=
  (s.searches = [] → ResultsCurrent s) ∧ (s.trendRequests = [] → TrendsCurrent s)

/-- The same for a state without any request in flight. -/
def CurrentWhenIdle (s : State) : Prop :=
  s.searches = [] → s.trendRequests = [] → ResultsCurrent s ∧ TrendsCurrent s

theorem Current.whenIdle {s : State} (h : Current s) : CurrentWhenIdle s :=
  fun hsearches htrends => ⟨h.1 hsearches, h.2 htrends⟩

/-- The results stay while a new query waits for its timer; the answer that comes last
may be to an earlier request; and when the last one fails, the trends stay, so the answer
that has brought them has to be one for the token that is selected. -/
def InTurn (s : State) : Event → Prop
  | .edit query => s.searches = [] → query = s.searchQuery ∨ jsLength query < 2 ∨
      s.searchResults = []
  | .searchAnswered i tokens => s.searches.eraseIdx i = [] →
      tokens = [] ∨ s.searches[i]? = some s.searchQuery
  | .trendsAnswered i trends => s.trendRequests.eraseIdx i = [] →
      trends = [] ∨ s.trendRequests[i]? = s.selectedToken.map (·.address)
  | .trendsFailed i => s.trendRequests.eraseIdx i = [] →
      s.trends = [] ∨ s.trendsOf = s.selectedToken.map (·.address)
  | _ => True

theorem current_edit {s : State} (query : String) (h : Current s) :
    Current (setSearchQuery query s) ↔ InTurn s (.edit query) := by
  unfold setSearchQuery
  split
  · next heq => exact iff_of_true h fun _ => .inl heq
  · next hne =>
    unfold searchEffect
    split
    · next hshort => exact iff_of_true ⟨fun _ => .inl rfl, h.2⟩ fun _ => .inr (.inl hshort)
    · next hlong =>
      constructor
      · intro hcurrent hnone
        rcases hcurrent.1 hnone with hempty | hof
        · exact .inr (.inr hempty)
        · -- what is shown cannot be of both queries
          rcases h.1 hnone with hempty | hbefore
          · exact .inr (.inr hempty)
          · exact absurd (hof.symm.trans hbefore) hne
      · intro hturn
        refine ⟨fun hnone => ?_, h.2⟩
        rcases hturn hnone with heq | hshort | hempty
        · exact absurd heq hne
        · exact absurd hshort hlong
        · exact .inl hempty

theorem searchResults_setSearchQuery {query : String} {s : State} (h : s.searchResults = []) :
    (setSearchQuery query s).searchResults = [] := by
  unfold setSearchQuery searchEffect
  split
  · exact h
  · split
    · rfl
    · exact h

theorem current_select (token : TokenSearchData) (s : State) : Current (selectToken token s) := by
  constructor
  · intro _
    exact .inl (searchResults_setSearchQuery rfl)
  · intro hnone
    simp [selectToken] at hnone

theorem current_step {s s' : State} {e : Event} (hs : step s e = some s') (h : Current s) :
    Current s' ↔ InTurn s e := by
  cases e with
  | edit query =>
    obtain rfl := Option.some.inj hs
    exact current_edit query h
  | debounced =>
    obtain ⟨query, -, rfl⟩ := Option.map_eq_some_iff.mp hs
    refine iff_of_true ⟨fun hnone => ?_, h.2⟩ trivial
    simp at hnone
  | searchAnswered i tokens =>
    obtain ⟨query, hi, rfl⟩ := Option.map_eq_some_iff.mp hs
    rw [InTurn, hi, Option.some_inj]
    exact ⟨fun hcurrent => hcurrent.1, fun hturn => ⟨hturn, h.2⟩⟩
  | searchFailed i =>
    obtain ⟨query, hi, rfl⟩ := Option.map_eq_some_iff.mp hs
    exact iff_of_true ⟨fun _ => .inl rfl, h.2⟩ trivial
  | select i =>
    obtain ⟨token, hi, rfl⟩ := Option.map_eq_some_iff.mp hs
    exact iff_of_true (current_select token s) trivial
  | trendsAnswered i trends =>
    obtain ⟨address, hi, rfl⟩ := Option.map_eq_some_iff.mp hs
    rw [InTurn, hi]
    exact ⟨fun hcurrent => hcurrent.2, fun hturn => ⟨h.1, hturn⟩⟩
  | trendsFailed i =>
    obtain ⟨address, hi, rfl⟩ := Option.map_eq_some_iff.mp hs
    exact ⟨fun hcurrent => hcurrent.2, fun hturn => ⟨h.1, hturn⟩⟩
  | clickedOutside =>
    obtain rfl := Option.some.inj hs
    exact iff_of_true ⟨fun _ => .inl rfl, h.2⟩ trivial

/-- **What is shown is current** in every state of a run just when the last answers are in
turn; and then it is in every state without a request in flight. -/
theorem current_iff_inTurn (es : List Event) :
    ((∀ n, Current (runs step initial (es.take n))) ↔ Meets step InTurn initial es) ∧
      (Meets step InTurn initial es → ∀ n, CurrentWhenIdle (runs step initial (es.take n))) := by
  have hiff : (∀ n, Current (runs step initial (es.take n))) ↔ Meets step InTurn initial es := by
    refine always_iff_meets (I := fun _ => True) (fun _ _ _ _ _ => trivial) ?_ trivial ?_
    · exact fun s e s' hs _ h => current_step hs h
    · exact ⟨fun _ => .inl rfl, fun _ => .inl rfl⟩
  exact ⟨hiff, fun hmeets n => (hiff.mpr hmeets n).whenIdle⟩

def usdt : TokenSearchData := ⟨"0xd1", some "USDT", some "Tether", some 6⟩

/-- **A search that is overtaken**: its answer comes last, and stays. -/
theorem slow_search_shown :
    ¬∀ n, CurrentWhenIdle (runs step initial
      ([Event.edit "US", .debounced, .edit "USDC", .debounced, .searchAnswered 1 [],
        .searchAnswered 0 [usdt]].take n)) := by
  intro h
  have hidle := h 6 (by decide) (by decide)
  revert hidle
  decide +kernel

end Explorer

end Frontend

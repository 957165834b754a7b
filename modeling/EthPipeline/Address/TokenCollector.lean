import EthPipeline.Base.Binary64
import EthPipeline.Base.Distinct
import EthPipeline.Base.Window
import EthPipeline.Silver.Tables

/-!
# Collecting the tokens

`main` of `src/address/top1000_erc20_tokens.py`: the mandatory coins first, then the
coins of the market pages by their capitalisation, until there are a thousand rows.

* `uniqueKey_iff`: the rows have distinct addresses, are at most a thousand, and have
  all mandatory coins, just when the answer for the mandatory coins has no address
  twice, and every mandatory coin is among the first thousand addresses.
* `mandatory_collected_twice`: two mandatory coins with one address.
-/

namespace Address

open Distinct Window

/-- An entry of the list of coins; of its `platforms` only this one is read. -/
structure ListedCoin where
  id : String
  ethereum : Option String
  deriving DecidableEq, Repr

structure Market where
  id : String
  marketCapRank : Option ℕ
  name : String
  symbol : String
  marketCap : Option ℚ
  deriving DecidableEq, Repr

structure Row where
  rank : ℕ
  marketRank : Option ℕ
  name : String
  symbol : String
  address : String
  decimals : ℕ
  marketCapUsd : ℤ
  deriving DecidableEq, Repr

def mandatoryCoinIds : List String :=
  ["weth", "staked-ether", "wrapped-bitcoin", "rocket-pool-eth", "frax-ether",
    "mantle-staked-ether", "binance-eth"]

/-! ### Requests -/

/-- What comes of an attempt: the status 429, an answer or an exception. -/
inductive Attempt (α : Type) where
  | tooManyRequests
  | json (answer : List α)
  | failed
  deriving DecidableEq, Repr

def maxRetries : ℕ := 5

/-- The attempts that are left, from the `i`-th on; the last exception is raised, which is
`none`, and after a last 429 the answer is the empty list. -/
def retry {α : Type} (attempts : ℕ → Attempt α) : ℕ → ℕ → Option (List α)
  | 0, _ => some []
  | left + 1, i =>
    match attempts i with
    | .tooManyRequests => retry attempts left (i + 1)
    | .json answer => some answer
    | .failed => if i = maxRetries - 1 then none else retry attempts left (i + 1)

def fetchWithRetry {α : Type} (attempts : ℕ → Attempt α) : Option (List α) :=
  retry attempts maxRetries 0

/-- The answers to the attempts of each request; the market pages by their number. -/
structure Api where
  list : ℕ → Attempt ListedCoin
  mandatory : ℕ → Attempt Market
  page : ℕ → ℕ → Attempt Market

def Api.pages (api : Api) (page : ℕ) : Option (List Market) := fetchWithRetry (api.page page)

/-! ### Collecting -/

/-- `text.strip()`. -/
def strip (text : String) : String :=
  String.ofList ((text.toList.dropWhile PyFloat.isSpace).reverse.dropWhile PyFloat.isSpace).reverse

/-- `platforms_map.get(coin_id, {}).get("ethereum")`: the last entry of an id counts. -/
def ethereum (listed : List ListedCoin) (coinId : String) : Option String :=
  (listed.reverse.find? fun coin => coin.id = coinId).bind (·.ethereum)

/-- `int(cap) if cap else 0`. -/
def wholeCap (cap : Option ℚ) : ℤ :=
  match cap with
  | some c => if c = 0 then 0 else c.num.tdiv c.den
  | none => 0

def targetCount : ℕ := 1000

def maxPages : ℕ := 20

structure State where
  rows : List Row
  seenAddresses : List String
  rankCounter : ℕ
  deriving DecidableEq, Repr

def State.addresses (s : State) : List String := s.rows.map Row.address

section collect

variable (lower upper : String → String) (listed : List ListedCoin)

/-- `addr_lower` of a coin with an Ethereum address. -/
def addrLower (coinId : String) : Option String :=
  (ethereum listed coinId).bind fun address =>
    if address ≠ "" ∧ address.toList.take 2 = ['0', 'x'] then some (strip (lower address)) else none

def row (rank : ℕ) (coin : Market) (address : String) : Row where
  rank
  marketRank := coin.marketCapRank
  name := coin.name
  symbol := upper coin.symbol
  address
  decimals := 18
  marketCapUsd := wholeCap coin.marketCap

/-- A coin of the answer for the mandatory ones: whether its address was seen is not asked. -/
def collectMandatory (s : State) (coin : Market) : State :=
  match addrLower lower listed coin.id with
  | none => s
  | some address =>
    { s with rows := s.rows ++ [row upper 0 coin address],
             seenAddresses := s.seenAddresses ++ [address] }

def collectCoin (s : State) (coin : Market) : State :=
  match addrLower lower listed coin.id with
  | none => s
  | some address =>
    if address ∈ s.seenAddresses then s
    else
      { rankCounter := s.rankCounter + 1,
        rows := s.rows ++ [row upper (s.rankCounter + 1) coin address],
        seenAddresses := s.seenAddresses ++ [address] }

def collectPage : State → List Market → State
  | s, [] => s
  | s, coin :: coins =>
    if targetCount ≤ s.rows.length then s
    else collectPage (collectCoin lower upper listed s coin) coins

/-- The pages that are left, from `page` on. An exception ends the loop, and the rows stay. -/
def collectPages (pages : ℕ → Option (List Market)) : ℕ → ℕ → State → State
  | 0, _, s => s
  | left + 1, page, s =>
    if s.rows.length < targetCount then
      match pages page with
      | none => s
      | some [] => s
      | some (coin :: coins) =>
        collectPages pages left (page + 1) (collectPage lower upper listed s (coin :: coins))
    else s

/-- The state before the first page. -/
def collectedFirst (mandatory : List Market) : State :=
  let s := mandatory.foldl (collectMandatory lower upper listed) ⟨[], [], 0⟩
  { s with rankCounter := s.rows.length }

def collect (mandatory : List Market) (pages : ℕ → Option (List Market)) : State :=
  collectPages lower upper listed pages maxPages 1
    (collectedFirst lower upper listed mandatory)

end collect

/-- `sort_values(by="market_cap_usd", ascending=False)`. -/
abbrev LargerFirst (a b : Row) : Prop := b.marketCapUsd ≤ a.marketCapUsd

/-- `df["rank"] = df.index + 1`. -/
def ranked (rows : List Row) : List Row := rows.mapIdx fun i row => { row with rank := i + 1 }

/-- The rows that are written; `none` when there is nothing to write. -/
def main (lower upper : String → String) (order : Sorting LargerFirst) (api : Api) :
    Option (List Row) :=
  (fetchWithRetry api.list).bind fun platformsList =>
    if platformsList = [] then none
    else
      (fetchWithRetry api.mandatory).bind fun mandatoryMarkets =>
        let s := collect lower upper platformsList mandatoryMarkets api.pages
        if s.rows = [] then none else some (ranked (order.run s.rows))

/-! ### The addresses that are collected -/

/-- The addresses of some coins, in their order. -/
def ethereumAddresses (lower : String → String) (listed : List ListedCoin) (coins : List Market) :
    List String :=
  coins.filterMap fun coin => addrLower lower listed coin.id

/-- The coins of the pages up to one without coins or an exception. -/
def pageCoins (pages : ℕ → Option (List Market)) : ℕ → ℕ → List Market
  | 0, _ => []
  | left + 1, page =>
    match pages page with
    | none => []
    | some [] => []
    | some (coin :: coins) => coin :: coins ++ pageCoins pages left (page + 1)

def State.Tracks (s : State) : Prop := s.seenAddresses = s.addresses

/-- From `s` to `s'` the addresses `added` were collected. -/
structure Adds (s s' : State) (added : List String) : Prop where
  addresses : s'.addresses = s.addresses ++ added
  tracks : s'.Tracks

variable {lower upper : String → String} {listed : List ListedCoin} {s s' : State}
  {added : List String}

theorem State.length_addresses (s : State) : s.addresses.length = s.rows.length :=
  List.length_map Row.address

theorem Adds.refl (h : s.Tracks) : Adds s s [] := ⟨(List.append_nil _).symm, h⟩

/-- No address is left, or no place. -/
theorem Adds.none_left (h : s.Tracks) (n : ℕ) : Adds s s (([] : List String).take n) := by
  rw [List.take_nil]
  exact Adds.refl h

theorem Adds.full (h : s.Tracks) (hfull : targetCount ≤ s.rows.length) (addresses : List String) :
    Adds s s (addresses.take (targetCount - s.rows.length)) := by
  rw [Nat.sub_eq_zero_of_le hfull, List.take_zero]
  exact Adds.refl h

theorem Adds.trans {s'' : State} {more : List String} (h : Adds s s' added)
    (h' : Adds s' s'' more) : Adds s s'' (added ++ more) :=
  ⟨by rw [h'.addresses, h.addresses, List.append_assoc], h'.tracks⟩

theorem Adds.length (h : Adds s s' added) : s'.rows.length = s.rows.length + added.length := by
  rw [← s'.length_addresses, ← s.length_addresses, h.addresses, List.length_append]

theorem adds_row (upper : String → String) (h : s.Tracks) (rank counter : ℕ) (coin : Market)
    (address : String) :
    Adds s ⟨s.rows ++ [row upper rank coin address], s.seenAddresses ++ [address], counter⟩
      [address] := by
  have haddresses : State.addresses
      ⟨s.rows ++ [row upper rank coin address], s.seenAddresses ++ [address], counter⟩ =
        s.addresses ++ [address] := List.map_append
  refine ⟨haddresses, ?_⟩
  rw [State.Tracks, haddresses, h]

theorem ethereumAddresses_append (coins more : List Market) :
    ethereumAddresses lower listed (coins ++ more) =
      ethereumAddresses lower listed coins ++ ethereumAddresses lower listed more :=
  List.filterMap_append

theorem ethereumAddresses_cons_of_none {coin : Market}
    (h : addrLower lower listed coin.id = none) (coins : List Market) :
    ethereumAddresses lower listed (coin :: coins) = ethereumAddresses lower listed coins :=
  List.filterMap_cons_none h

theorem ethereumAddresses_cons_of_some {coin : Market} {address : String}
    (h : addrLower lower listed coin.id = some address) (coins : List Market) :
    ethereumAddresses lower listed (coin :: coins) =
      address :: ethereumAddresses lower listed coins :=
  List.filterMap_cons_some h

theorem adds_mandatory (h : s.Tracks) (coins : List Market) :
    Adds s (coins.foldl (collectMandatory lower upper listed) s)
      (ethereumAddresses lower listed coins) := by
  induction coins generalizing s with
  | nil => exact Adds.refl h
  | cons coin coins ih =>
    rw [List.foldl_cons, collectMandatory]
    cases haddr : addrLower lower listed coin.id with
    | none =>
      rw [ethereumAddresses_cons_of_none haddr]
      exact ih h
    | some address =>
      have hrow := adds_row upper h 0 s.rankCounter coin address
      rw [ethereumAddresses_cons_of_some haddr]
      exact hrow.trans (ih hrow.tracks)

theorem adds_collectedFirst (mandatory : List Market) :
    Adds ⟨[], [], 0⟩ (collectedFirst lower upper listed mandatory)
      (ethereumAddresses lower listed mandatory) := by
  have hmandatory : Adds ⟨[], [], 0⟩
      (mandatory.foldl (collectMandatory lower upper listed) ⟨[], [], 0⟩)
      (ethereumAddresses lower listed mandatory) :=
    adds_mandatory (show State.Tracks ⟨[], [], 0⟩ from rfl) mandatory
  exact ⟨hmandatory.addresses, hmandatory.tracks⟩

/-- A page adds its new addresses, as long as there is place. -/
theorem adds_page (h : s.Tracks) (coins : List Market) :
    Adds s (collectPage lower upper listed s coins)
      ((firsts s.addresses (ethereumAddresses lower listed coins)).take
        (targetCount - s.rows.length)) := by
  induction coins generalizing s with
  | nil => exact Adds.none_left h _
  | cons coin coins ih =>
    rw [collectPage]
    split
    · next hfull => exact Adds.full h hfull _
    · next hfull =>
      rw [collectCoin]
      cases haddr : addrLower lower listed coin.id with
      | none =>
        rw [ethereumAddresses_cons_of_none haddr]
        exact ih h
      | some address =>
        rw [ethereumAddresses_cons_of_some haddr]
        by_cases hseen : address ∈ s.seenAddresses
        · rw [firsts_cons_of_mem (h ▸ hseen)]
          simp only [if_pos hseen]
          exact ih h
        · have hrow := adds_row upper h (s.rankCounter + 1) (s.rankCounter + 1) coin address
          have hleft : targetCount - s.rows.length =
              targetCount - (s.rows.length + 1) + 1 := by omega
          have hrest := ih hrow.tracks
          rw [hrow.addresses, hrow.length] at hrest
          rw [firsts_cons_of_not_mem (h ▸ hseen), hleft, List.take_succ_cons]
          simp only [if_neg hseen]
          exact hrow.trans hrest

theorem adds_pages (h : s.Tracks) (pages : ℕ → Option (List Market)) (left page : ℕ) :
    Adds s (collectPages lower upper listed pages left page s)
      ((firsts s.addresses (ethereumAddresses lower listed (pageCoins pages left page))).take
        (targetCount - s.rows.length)) := by
  induction left generalizing s page with
  | zero => exact Adds.none_left h _
  | succ left ih =>
    rw [collectPages, pageCoins]
    split
    · next hplace =>
      cases pages page with
      | none => exact Adds.none_left h _
      | some coins =>
        cases coins with
        | nil => exact Adds.none_left h _
        | cons coin coins =>
          have hpage : Adds s (collectPage lower upper listed s (coin :: coins)) _ :=
            adds_page h (coin :: coins)
          have hrest := ih hpage.tracks (page + 1)
          rw [hpage.addresses, hpage.length, ← Nat.sub_sub] at hrest
          rw [ethereumAddresses_append, take_firsts_append]
          exact hpage.trans hrest
    · next hfull => exact Adds.full h (by omega) _

/-- The addresses of the mandatory coins with those of the pages that fill the list up. -/
theorem addresses_collect (mandatory : List Market) (pages : ℕ → Option (List Market)) :
    (collect lower upper listed mandatory pages).addresses =
      ethereumAddresses lower listed mandatory ++
        (firsts (ethereumAddresses lower listed mandatory)
          (ethereumAddresses lower listed (pageCoins pages maxPages 1))).take
          (targetCount - (ethereumAddresses lower listed mandatory).length) := by
  have hfirst : Adds ⟨[], [], 0⟩ (collectedFirst lower upper listed mandatory)
      (ethereumAddresses lower listed mandatory) := adds_collectedFirst mandatory
  have haddresses : (collectedFirst lower upper listed mandatory).addresses =
      ethereumAddresses lower listed mandatory := hfirst.addresses
  have hpages : Adds (collectedFirst lower upper listed mandatory)
      (collect lower upper listed mandatory pages) _ := adds_pages hfirst.tracks pages maxPages 1
  rw [← State.length_addresses, haddresses] at hpages
  rw [hpages.addresses, haddresses]

/-! ### The key of the list -/

structure UniqueKey (lower : String → String) (listed : List ListedCoin) (rows : List Row) :
    Prop where
  distinct : (rows.map Row.address).Nodup
  lowered : ∀ row ∈ rows, ∃ text, row.address = strip (lower text)
  few : rows.length ≤ targetCount
  mandatory : ∀ id ∈ mandatoryCoinIds, ∀ address, addrLower lower listed id = some address →
    address ∈ rows.map Row.address

/-- The answer for the mandatory coins has no address twice and not too many, and the
addresses of the mandatory coins are among the first thousand. -/
def MandatoryOnce (lower : String → String) (listed : List ListedCoin) (mandatory : List Market)
    (pages : ℕ → Option (List Market)) : Prop :=
  (ethereumAddresses lower listed mandatory).Nodup ∧
    (ethereumAddresses lower listed mandatory).length ≤ targetCount ∧
      ∀ id ∈ mandatoryCoinIds, ∀ address, addrLower lower listed id = some address →
        address ∈ (firsts [] (ethereumAddresses lower listed
          (mandatory ++ pageCoins pages maxPages 1))).take targetCount

theorem lowered_of_mem {coins : List Market} {address : String}
    (h : address ∈ ethereumAddresses lower listed coins) : ∃ text, address = strip (lower text) := by
  obtain ⟨coin, -, hcoin⟩ := List.mem_filterMap.mp h
  obtain ⟨text, -, htext⟩ := Option.bind_eq_some_iff.mp hcoin
  by_cases hok : text ≠ "" ∧ text.toList.take 2 = ['0', 'x']
  · rw [if_pos hok] at htext
    exact ⟨text, (Option.some.inj htext).symm⟩
  · rw [if_neg hok] at htext
    cases htext

theorem addresses_ranked (rows : List Row) :
    (ranked rows).map Row.address = rows.map Row.address := by
  refine List.ext_getElem? fun i => ?_
  rw [ranked, List.getElem?_map, List.getElem?_mapIdx, List.getElem?_map, Option.map_map]
  rfl

/-- Without repetition among the mandatory coins, what is collected are the first thousand
addresses. -/
theorem addresses_collect_of_nodup {mandatory : List Market}
    {pages : ℕ → Option (List Market)}
    (hnodup : (ethereumAddresses lower listed mandatory).Nodup)
    (hfew : (ethereumAddresses lower listed mandatory).length ≤ targetCount) :
    (collect lower upper listed mandatory pages).addresses =
      (firsts [] (ethereumAddresses lower listed (mandatory ++ pageCoins pages maxPages 1))).take
        targetCount := by
  have hself : firsts [] (ethereumAddresses lower listed mandatory) =
      ethereumAddresses lower listed mandatory := firsts_eq_self hnodup
  rw [addresses_collect, ethereumAddresses_append, firsts_append, hself, List.nil_append,
    List.take_append, List.take_of_length_le hfew]

/-- The rows that are written have the collected addresses. -/
theorem uniqueKey_written_iff {order : Sorting LargerFirst} {mandatory : List Market}
    {pages : ℕ → Option (List Market)} :
    UniqueKey lower listed (ranked (order.run (collect lower upper listed mandatory pages).rows)) ↔
      MandatoryOnce lower listed mandatory pages := by
  have hperm : ((ranked (order.run (collect lower upper listed mandatory pages).rows)).map
      Row.address).Perm (collect lower upper listed mandatory pages).addresses := by
    rw [addresses_ranked]
    exact (order.perm _).map Row.address
  have hlength := hperm.length_eq
  rw [List.length_map, addresses_collect, List.length_append, List.length_take] at hlength
  constructor
  · intro h
    have hnodup : (ethereumAddresses lower listed mandatory).Nodup := by
      have hcollected := hperm.nodup_iff.mp h.distinct
      rw [addresses_collect] at hcollected
      exact nodup_append_firsts_iff.mp hcollected
    have hfew : (ethereumAddresses lower listed mandatory).length ≤ targetCount := by
      have := h.few
      omega
    refine ⟨hnodup, hfew, fun id hid address haddress => ?_⟩
    rw [← addresses_collect_of_nodup hnodup hfew]
    exact hperm.mem_iff.mp (h.mandatory id hid address haddress)
  · rintro ⟨hnodup, hfew, hmandatory⟩
    refine ⟨?_, fun r hr => ?_, by omega, fun id hid address haddress => ?_⟩
    · rw [hperm.nodup_iff, addresses_collect]
      exact nodup_append_firsts_iff.mpr hnodup
    · have hmem := hperm.mem_iff.mp (List.mem_map_of_mem hr)
      rw [addresses_collect_of_nodup hnodup hfew] at hmem
      have hcoin := mem_append_firsts_iff.mp
        (List.mem_append_right [] (List.mem_of_mem_take hmem))
      exact lowered_of_mem hcoin
    · rw [hperm.mem_iff, addresses_collect_of_nodup hnodup hfew]
      exact hmandatory id hid address haddress

theorem rows_ne_nil_iff {mandatory : List Market} {pages : ℕ → Option (List Market)} :
    (collect lower upper listed mandatory pages).rows ≠ [] ↔
      ethereumAddresses lower listed (mandatory ++ pageCoins pages maxPages 1) ≠ [] := by
  have hrows : (collect lower upper listed mandatory pages).rows = [] ↔
      (collect lower upper listed mandatory pages).addresses = [] := List.map_eq_nil_iff.symm
  rw [Ne, Ne, hrows, addresses_collect, ethereumAddresses_append, List.append_eq_nil_iff,
    List.append_eq_nil_iff, not_iff_not]
  refine and_congr_right fun hnone => ?_
  rw [hnone]
  cases ethereumAddresses lower listed (pageCoins pages maxPages 1) with
  | nil => exact iff_of_true rfl rfl
  | cons address addresses =>
    rw [firsts_cons_of_not_mem List.not_mem_nil]
    exact iff_of_false (List.cons_ne_nil _ _) (List.cons_ne_nil _ _)

theorem main_eq_some_iff {order : Sorting LargerFirst} {api : Api} {rows : List Row} :
    main lower upper order api = some rows ↔
      ∃ listed mandatory, fetchWithRetry api.list = some listed ∧ listed ≠ [] ∧
        fetchWithRetry api.mandatory = some mandatory ∧
          (collect lower upper listed mandatory api.pages).rows ≠ [] ∧
            rows = ranked (order.run (collect lower upper listed mandatory api.pages).rows) := by
  constructor
  · intro h
    obtain ⟨listed, hlist, h⟩ := Option.bind_eq_some_iff.mp h
    by_cases hlisted : listed = []
    · rw [if_pos hlisted] at h
      cases h
    · rw [if_neg hlisted] at h
      obtain ⟨mandatory, hmandatory, h⟩ := Option.bind_eq_some_iff.mp h
      by_cases hrows : (collect lower upper listed mandatory api.pages).rows = []
      · simp only [if_pos hrows, reduceCtorEq] at h
      · simp only [if_neg hrows, Option.some.injEq] at h
        exact ⟨listed, mandatory, hlist, hlisted, hmandatory, hrows, h.symm⟩
  · rintro ⟨listed, mandatory, hlist, hlisted, hmandatory, hrows, rfl⟩
    rw [main, hlist, Option.bind_some, if_neg hlisted, hmandatory, Option.bind_some]
    exact if_neg hrows

/-- **The key of the list**: what is written has it just when the mandatory coins have, and
none of them is missing. -/
theorem uniqueKey_iff (lower upper : String → String) (order : Sorting LargerFirst) (api : Api) :
    (∀ listed rows, fetchWithRetry api.list = some listed →
        main lower upper order api = some rows → UniqueKey lower listed rows) ↔
      ∀ listed mandatory, fetchWithRetry api.list = some listed → listed ≠ [] →
        fetchWithRetry api.mandatory = some mandatory →
          ethereumAddresses lower listed (mandatory ++ pageCoins api.pages maxPages 1) ≠ [] →
            MandatoryOnce lower listed mandatory api.pages := by
  constructor
  · intro h listed mandatory hlist hlisted hmandatory hsome
    have hmain : main lower upper order api =
        some (ranked (order.run (collect lower upper listed mandatory api.pages).rows)) :=
      main_eq_some_iff.mpr
        ⟨listed, mandatory, hlist, hlisted, hmandatory, rows_ne_nil_iff.mpr hsome, rfl⟩
    exact uniqueKey_written_iff.mp (h listed _ hlist hmain)
  · intro h listed rows hlist hmain
    obtain ⟨listed', mandatory, hlist', hlisted, hmandatory, hrows, rfl⟩ :=
      main_eq_some_iff.mp hmain
    obtain rfl := Option.some.inj (hlist.symm.trans hlist')
    exact uniqueKey_written_iff.mpr
      (h listed mandatory hlist hlisted hmandatory (rows_ne_nil_iff.mp hrows))

/-! ### The join of the Silver layer -/

/-- The columns that `load_token_metadata` selects. -/
def Row.tokenMeta (row : Row) : Silver.TokenMeta :=
  ⟨some row.address, some row.symbol, some row.name, some row.decimals⟩

/-- With the key, no transfer is joined twice. -/
theorem UniqueKey.count_le_one {rows : List Row} (h : UniqueKey lower listed rows)
    (address : String) :
    ((rows.map Row.tokenMeta).map Silver.TokenMeta.tokenAddress).count (some address) ≤ 1 := by
  have hmap : (rows.map Row.tokenMeta).map Silver.TokenMeta.tokenAddress =
      (rows.map Row.address).map some := by
    rw [List.map_map, List.map_map]
    rfl
  rw [hmap]
  exact List.nodup_iff_count_le_one.mp (h.distinct.map (Option.some_injective _)) _

/-! ### Two coins with one address -/

def sharedAddress : Api where
  list _ := .json [⟨"weth", some "0xAB"⟩, ⟨"staked-ether", some "0xab"⟩]
  mandatory _ := .json [⟨"weth", some 20, "WETH", "weth", some 9⟩,
    ⟨"staked-ether", some 8, "Lido Staked Ether", "steth", some 12⟩]
  page _ _ := .json []

/-- Texts of ASCII. -/
def asciiLower (text : String) : String := String.ofList (text.toList.map Char.toLower)

def asciiUpper (text : String) : String := String.ofList (text.toList.map Char.toUpper)

/-- Sorting the rows as they come. -/
def larger : Sorting LargerFirst :=
  Sorting.insertion _ (fun _ _ _ hab hbc => hbc.trans hab) fun a b =>
    le_total b.marketCapUsd a.marketCapUsd

/-- **Two mandatory coins with one address** are two rows. -/
theorem mandatory_collected_twice :
    main asciiLower asciiUpper larger sharedAddress =
        some [⟨1, some 8, "Lido Staked Ether", "STETH", "0xab", 18, 12⟩,
          ⟨2, some 20, "WETH", "WETH", "0xab", 18, 9⟩] ∧
      ¬∀ listed rows, fetchWithRetry sharedAddress.list = some listed →
        main asciiLower asciiUpper larger sharedAddress = some rows →
          UniqueKey asciiLower listed rows := by
  have hmain : main asciiLower asciiUpper larger sharedAddress =
      some [⟨1, some 8, "Lido Staked Ether", "STETH", "0xab", 18, 12⟩,
        ⟨2, some 20, "WETH", "WETH", "0xab", 18, 9⟩] := by
    decide +kernel
  refine ⟨hmain, fun h => ?_⟩
  have hdistinct := (h _ _ rfl hmain).distinct
  exact absurd hdistinct (by decide)

end Address

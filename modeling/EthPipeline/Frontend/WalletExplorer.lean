import EthPipeline.Backend.Services
import EthPipeline.Base.Run
import EthPipeline.Base.Traverse

/-!
# The wallet explorer

`src/frontend/src/components/WalletExplorer.tsx` over the answers of
`/wallets/{address}/history`.  Nothing ties an answer to the address that is searched; but
the form cannot be sent while a request is in flight.

* `wallet_shown`: what is shown is the history of the searched address, newest first, and
  every badge says on which side of its transfer the address is.
-/

namespace Frontend

open Backend Consumer Run Query

namespace Wallet

/-! ### The component -/

def defaultAddress : String := "0xd8da6bf26964af9d7eed9e03e53415d37aa96045"

def hexDigits : List Char := "0123456789abcdefABCDEF".toList

/-- `/^0x[a-fA-F0-9]{40}$/`. -/
def isValid (text : String) : Bool :=
  match text.toList with
  | '0' :: 'x' :: digits => digits.length = 40 && digits.all fun c => c ∈ hexDigits
  | _ => false

structure State where
  input : String
  searchedAddress : String
  data : Option WalletHistoryResponse
  loading : Bool
  error : Option String
  /-- The addresses of the requests in flight. -/
  requests : List String
  /-- The addresses that the data answers and that the error is of. -/
  dataOf : Option String
  errorOf : Option String
  deriving DecidableEq, Repr

def fetchHistory (address : String) (s : State) : State :=
  { s with loading := true, error := none, searchedAddress := address,
           requests := s.requests ++ [address] }

/-- After the effect. -/
def initial : State :=
  fetchHistory defaultAddress
    { input := defaultAddress, searchedAddress := "", data := none, loading := false,
      error := none, requests := [], dataOf := none, errorOf := none }

inductive Event where
  | edit (text : String)
  | submit
  | answered (i : ℕ) (data : WalletHistoryResponse)
  | failed (i : ℕ) (message : String)
  deriving DecidableEq, Repr

/-- One event; `none` when the button is disabled, or there is no such request. -/
def step (s : State) : Event → Option State
  | .edit text => some { s with input := text }
  | .submit => if isValid s.input && !s.loading then some (fetchHistory s.input s) else none
  | .answered i data => s.requests[i]?.map fun address =>
    { s with requests := s.requests.eraseIdx i, data := some data, dataOf := some address,
             loading := false }
  | .failed i message => s.requests[i]?.map fun address =>
    { s with requests := s.requests.eraseIdx i, error := some message, errorOf := some address,
             loading := false }

/-- A transaction or a transfer, as the list has it. -/
structure WalletTx where
  hash : String
  fromAddress : String
  toAddress : String
  valueEth : Option PyFloat
  value : Option PyFloat
  symbol : Option String
  timestamp : Timestamp
  deriving DecidableEq, Repr

def ofEth (t : EthTransactionHistory) : WalletTx :=
  ⟨t.hash, t.fromAddress, t.toAddress, some t.valueEth, none, none, t.timestamp⟩

def ofToken (t : TokenTransferHistory) : WalletTx :=
  ⟨t.hash, t.fromAddress, t.toAddress, none, some t.value, some t.symbol, t.timestamp⟩

/-- `new Date(…).getTime()`. -/
def getTime (t : WalletTx) : ℤ := t.timestamp / 1000

/-- The sorted list of a response. -/
def listed (data : WalletHistoryResponse) : List WalletTx :=
  (data.ethTransactions.map ofEth ++ data.tokenTransfers.map ofToken).mergeSort
    fun a b => decide (getTime b ≤ getTime a)

def isSend (lower : String → String) (searchedAddress : String) (t : WalletTx) : Bool :=
  lower t.fromAddress = lower searchedAddress

def partnerAddress (lower : String → String) (searchedAddress : String) (t : WalletTx) : String :=
  if isSend lower searchedAddress t then t.toAddress else t.fromAddress

/-- What the card lists, if it lists anything. -/
def shown (s : State) : Option WalletHistoryResponse :=
  if s.loading || s.error.isSome then none else s.data

/-! ### The request in flight -/

/-- At most one request is in flight, for the searched address. -/
structure Sound (s : State) : Prop where
  loading : s.loading = true → s.requests = [s.searchedAddress] ∧ s.error = none
  idle : s.loading = false → s.requests = []
  valid : isValid s.searchedAddress
  data : s.loading = false → s.error = none → s.data.isSome ∧ s.dataOf = some s.searchedAddress
  error : s.loading = false → s.error.isSome → s.errorOf = some s.searchedAddress

variable {s s' : State}

theorem Sound.request (h : Sound s) {i : ℕ} {address : String}
    (hi : s.requests[i]? = some address) :
    address = s.searchedAddress ∧ s.requests.eraseIdx i = [] ∧ s.error = none := by
  cases hloading : s.loading with
  | false =>
    rw [h.idle hloading] at hi
    cases hi
  | true =>
    rw [(h.loading hloading).1] at hi ⊢
    cases i with
    | zero => exact ⟨(Option.some.inj hi).symm, rfl, (h.loading hloading).2⟩
    | succ i => cases hi

theorem sound_initial : Sound initial where
  loading _ := ⟨rfl, rfl⟩
  idle hloading := by cases hloading
  valid := by decide
  data hloading := by cases hloading
  error hloading := by cases hloading

theorem sound_step {e : Event} (hs : step s e = some s') (h : Sound s) : Sound s' := by
  cases e with
  | edit text =>
    obtain rfl := Option.some.inj hs
    exact ⟨h.loading, h.idle, h.valid, h.data, h.error⟩
  | submit =>
    simp only [step] at hs
    split at hs
    · next hcan =>
      rw [Bool.and_eq_true, Bool.not_eq_true'] at hcan
      obtain rfl := Option.some.inj hs
      refine ⟨fun _ => ⟨?_, rfl⟩, fun hloading => (by cases hloading), hcan.1,
        fun hloading => (by cases hloading), fun hloading => (by cases hloading)⟩
      show s.requests ++ [s.input] = [s.input]
      rw [h.idle hcan.2, List.nil_append]
    · cases hs
  | answered i data =>
    obtain ⟨address, hi, rfl⟩ := Option.map_eq_some_iff.mp hs
    obtain ⟨rfl, hidle, hnone⟩ := h.request hi
    refine ⟨fun hloading => (by cases hloading), fun _ => hidle, h.valid, fun _ _ => ⟨rfl, rfl⟩,
      fun _ hsome => ?_⟩
    have hsome : s.error.isSome := hsome
    rw [hnone] at hsome
    cases hsome
  | failed i message =>
    obtain ⟨address, hi, rfl⟩ := Option.map_eq_some_iff.mp hs
    obtain ⟨rfl, hidle, -⟩ := h.request hi
    exact ⟨fun hloading => (by cases hloading), fun _ => hidle, h.valid,
      fun _ hnone => (by cases hnone), fun _ _ => rfl⟩

/-! ### What the server answers -/

/-- `str.lower` and `toLowerCase`: on texts of ASCII, letter by letter. -/
structure Lowercase where
  lower : String → String
  ascii : ∀ text : String, (text.toList.all fun c => decide (c.toNat < 128)) →
    lower text = String.ofList (text.toList.map Char.toLower)

/-- An answer for an address: each query reads some state of the database, and gives one of
the answers it allows. -/
def Served (lower : String → String) (address : String) (data : WalletHistoryResponse) : Prop :=
  ∃ (db db' : Database) (ethRows : List EthRow) (tokenRows : List TokenRow),
    db.EthTransactions (lower address) 10 ethRows ∧ db'.TokenTransfers (lower address) 10 tokenRows ∧
      getWalletHistory lower ⟨fun _ _ => some ethRows, fun _ _ => some tokenRows⟩ address 10 = .ok data

/-- Every answer is the server's, for the address that was asked for. -/
def Answers (lower : String → String) (s : State) : Event → Prop
  | .answered i data => ∀ address, s.requests[i]? = some address → Served lower address data
  | _ => True

theorem involves_of_mem {ρ : Type} {time : ρ → Timestamp} {sent received : ρ → Bool} {limit : ℕ}
    {stored found : List ρ} (h : Database.Involving time sent received limit stored found) {r : ρ}
    (hr : r ∈ found) : sent r ∨ received r := by
  obtain ⟨outgoing, incoming, hout, hin, hfound⟩ := h
  rcases List.mem_append.mp (hfound.subset hr) with hr | hr
  · exact .inl (List.mem_filter.mp (hout.subset hr)).2
  · exact .inr (List.mem_filter.mp (hin.subset hr)).2

/-- A transfer of the answer for `address`: one of its sides is the address. -/
def Touches (lower : String → String) (address fromAddress toAddress type : String) : Prop :=
  (fromAddress = address ∨ toAddress = address) ∧ type = direction lower address fromAddress

/-- What a served answer has in it. -/
structure Answered (lower : String → String) (address : String) (data : WalletHistoryResponse) :
    Prop where
  requested : data.address = lower address
  eth : ∀ t ∈ data.ethTransactions, Touches lower (lower address) t.fromAddress t.toAddress t.type
  token : ∀ t ∈ data.tokenTransfers, Touches lower (lower address) t.fromAddress t.toAddress t.type

theorem answered_of_served {lower : String → String} {address : String}
    {data : WalletHistoryResponse} (h : Served lower address data) : Answered lower address data := by
  obtain ⟨db, db', ethRows, tokenRows, heth, htoken, hok⟩ := h
  rw [getWalletHistory, orFetchError_eq_ok] at hok
  simp only [Option.bind_eq_bind, Option.bind_some, Option.bind_eq_some_iff] at hok
  obtain ⟨ethTransactions, hethMap, tokenTransfers, htokenMap, hdata⟩ := hok
  obtain rfl := Option.some.inj hdata
  refine ⟨rfl, fun t ht => ?_, fun t ht => ?_⟩
  · obtain ⟨row, hrow, hmodel⟩ := Traverse.exists_source hethMap ht
    obtain ⟨found, hfound, rfl⟩ := heth
    obtain ⟨r, hr, rfl⟩ := List.mem_map.mp hrow
    simp only [ethTransactionHistory, Option.bind_eq_bind, Option.bind_eq_some_iff] at hmodel
    obtain ⟨value, -, toAddress, hto, ht⟩ := hmodel
    obtain rfl := Option.some.inj ht
    refine ⟨?_, rfl⟩
    rcases involves_of_mem hfound hr with hside | hside
    · exact .inl (of_decide_eq_true hside)
    · have hto' : r.toAddress = some (lower address) := of_decide_eq_true hside
      exact .inr (Option.some.inj (hto.symm.trans hto'))
  · obtain ⟨row, hrow, hmodel⟩ := Traverse.exists_source htokenMap ht
    obtain ⟨found, hfound, rfl⟩ := htoken
    obtain ⟨r, hr, rfl⟩ := List.mem_map.mp hrow
    simp only [tokenTransferHistory, Option.bind_eq_bind, Option.bind_eq_some_iff] at hmodel
    obtain ⟨amount, -, value, -, ht⟩ := hmodel
    obtain rfl := Option.some.inj ht
    refine ⟨?_, rfl⟩
    rcases involves_of_mem hfound hr with hside | hside
    · exact .inl (of_decide_eq_true hside)
    · exact .inr (of_decide_eq_true hside)

/-! ### Lower case -/

theorem hexDigits_lower : hexDigits.all fun c =>
    c.toNat < 128 && c.toLower.toNat < 128 && c.toLower.toLower = c.toLower := by decide

/-- The address of a search, in lower case. -/
theorem lower_valid (L : Lowercase) {address : String} (h : isValid address) :
    L.lower address ≠ "" ∧ L.lower (L.lower address) = L.lower address := by
  unfold isValid at h
  split at h
  · next digits hchars =>
    rw [Bool.and_eq_true, List.all_eq_true] at h
    have hdigits : ∀ c ∈ digits,
        c.toNat < 128 ∧ c.toLower.toNat < 128 ∧ c.toLower.toLower = c.toLower := by
      intro c hc
      have hhex := List.all_eq_true.mp hexDigits_lower c (of_decide_eq_true (h.2 c hc))
      simpa [and_assoc] using hhex
    have hlower : L.lower address = String.ofList ('0' :: 'x' :: digits.map Char.toLower) := by
      rw [L.ascii address, hchars]
      · rfl
      · rw [hchars, List.all_eq_true]
        intro c hc
        rcases List.mem_cons.mp hc with rfl | hc
        · decide
        · rcases List.mem_cons.mp hc with rfl | hc
          · decide
          · exact decide_eq_true (hdigits c hc).1
    have hchars' : (L.lower address).toList = '0' :: 'x' :: digits.map Char.toLower := by
      rw [hlower, String.toList_ofList]
    constructor
    · intro hempty
      rw [hempty] at hchars'
      cases hchars'
    · rw [L.ascii (L.lower address), hchars', hlower]
      · have hmap : digits.map (Char.toLower ∘ Char.toLower) = digits.map Char.toLower :=
          List.map_congr_left fun c hc => (hdigits c hc).2.2
        rw [List.map_cons, List.map_cons, List.map_map, hmap]
        rfl
      · rw [hchars', List.all_eq_true]
        intro c hc
        rcases List.mem_cons.mp hc with rfl | hc
        · decide
        · rcases List.mem_cons.mp hc with rfl | hc
          · decide
          · obtain ⟨d, hd, rfl⟩ := List.mem_map.mp hc
            exact decide_eq_true (hdigits d hd).2.1
  · cases h

/-! ### What the card lists -/

/-- The badge of a row agrees with the direction the server gave, and the address stands on
the other side of the row's partner. -/
def RowRight (lower : String → String) (searchedAddress type : String) (t : WalletTx) : Prop :=
  (isSend lower searchedAddress t = true ↔ type = "OUT") ∧
    (isSend lower searchedAddress t = true →
      lower t.fromAddress = lower searchedAddress ∧
        partnerAddress lower searchedAddress t = t.toAddress) ∧
    (isSend lower searchedAddress t = false →
      t.toAddress = lower searchedAddress ∧
        partnerAddress lower searchedAddress t = t.fromAddress)

theorem rowRight_of_touches (L : Lowercase) {address : String} (hvalid : isValid address)
    {t : WalletTx} {type : String}
    (h : Touches L.lower (L.lower address) t.fromAddress t.toAddress type) :
    RowRight L.lower address type t := by
  obtain ⟨hne, htwice⟩ := lower_valid L hvalid
  obtain ⟨hside, rfl⟩ := h
  have hlower : (if t.fromAddress = "" then "" else L.lower t.fromAddress) = L.lower t.fromAddress := by
    split
    · next hempty => rw [hempty, L.ascii "" (by decide)]; rfl
    · rfl
  refine ⟨?_, fun hsend => ?_, fun hreceive => ?_⟩
  · rw [isSend, decide_eq_true_eq, direction, hlower]
    by_cases hfrom : L.lower t.fromAddress = L.lower address
    · exact iff_of_true hfrom (if_pos hfrom)
    · refine iff_of_false hfrom ?_
      rw [if_neg hfrom]
      decide
  · exact ⟨of_decide_eq_true hsend, if_pos hsend⟩
  · have hfrom : L.lower t.fromAddress ≠ L.lower address := of_decide_eq_false hreceive
    refine ⟨hside.resolve_left fun heq => hfrom (by rw [heq, htwice]), if_neg ?_⟩
    rw [hreceive]
    decide

/-- The list is that of the answer, newest first. -/
theorem listed_sorted (data : WalletHistoryResponse) :
    (listed data).Perm (data.ethTransactions.map ofEth ++ data.tokenTransfers.map ofToken) ∧
      (listed data).Pairwise fun a b => getTime b ≤ getTime a := by
  refine ⟨List.mergeSort_perm _ _, ?_⟩
  refine (List.pairwise_mergeSort ?_ ?_ _).imp fun h => of_decide_eq_true h
  · intro a b c hab hbc
    have hab : getTime b ≤ getTime a := of_decide_eq_true hab
    have hbc : getTime c ≤ getTime b := of_decide_eq_true hbc
    exact decide_eq_true (hbc.trans hab)
  · intro a b
    have htotal := le_total (getTime b) (getTime a)
    simpa using htotal

/-- What is in the state was answered. -/
def Held (lower : String → String) (s : State) : Prop :=
  Sound s ∧ ∀ data address, s.data = some data → s.dataOf = some address → Served lower address data

theorem held_step {lower : String → String} {e : Event} (hs : step s e = some s')
    (he : Answers lower s e) (h : Held lower s) : Held lower s' := by
  refine ⟨sound_step hs h.1, ?_⟩
  cases e with
  | edit text =>
    obtain rfl := Option.some.inj hs
    exact h.2
  | submit =>
    simp only [step] at hs
    split at hs
    · obtain rfl := Option.some.inj hs
      exact h.2
    · cases hs
  | answered i data =>
    obtain ⟨address, hi, rfl⟩ := Option.map_eq_some_iff.mp hs
    intro data' address' hdata hof
    obtain rfl := Option.some.inj hdata
    obtain rfl := Option.some.inj hof
    exact he address hi
  | failed i message =>
    obtain ⟨address, hi, rfl⟩ := Option.map_eq_some_iff.mp hs
    exact h.2

/-- Texts of ASCII. -/
def asciiLower : Lowercase := ⟨fun text => String.ofList (text.toList.map Char.toLower), fun _ _ => rfl⟩

/-- A transaction that the default address sends, and a transfer that it gets a minute later. -/
def sentOnce : TransactionRow :=
  ⟨"0xc1", 1700000000000000, defaultAddress, some "0xb1", some (2 * 10 ^ 18), some 0⟩

def receivedOnce : TokenTransferRow :=
  ⟨"0xc2", 0, 1700000060000000, "0xd1", "0xb2", defaultAddress, some (5 * 10 ^ 6)⟩

def walletDatabase : Database where
  stored := { Tables.empty with
    transactions := ⟨[sentOnce], List.nodup_singleton _⟩
    tokenTransfers := ⟨[receivedOnce], List.nodup_singleton _⟩ }
  tokens _ := some ⟨some "USDT", some "Tether", some 6⟩
  addressLabels _ := none

def walletHistory : WalletHistoryResponse where
  address := defaultAddress
  ethTransactions := [⟨"0xc1", 1700000000000000, "OUT", defaultAddress, "0xb1", .finite 2, none,
    ⟨none, none, none, none⟩⟩]
  tokenTransfers := [⟨"0xc2", 1700000060000000, "IN", "0xb2", defaultAddress, "USDT", .finite 5,
    ⟨none, none, none, none⟩⟩]

theorem served_wallet : Served asciiLower.lower defaultAddress walletHistory := by
  have hanswer : ∀ {ρ : Type} (time : ρ → ℤ) (r : ρ), Answer (Newer time) 10 [r] [r] :=
    fun time r => ⟨[r], List.Perm.refl _, List.pairwise_singleton _ _, rfl⟩
  have hempty : ∀ {ρ : Type} (time : ρ → ℤ), Answer (Newer time) 10 ([] : List ρ) [] :=
    fun time => ⟨[], List.Perm.refl _, List.Pairwise.nil, rfl⟩
  refine ⟨walletDatabase, walletDatabase, [walletDatabase.ethRow sentOnce],
    [walletDatabase.tokenRow receivedOnce], ?_, ?_, ?_⟩
  · refine ⟨[sentOnce], ⟨[sentOnce], [], ?_, ?_, hanswer _ _⟩, rfl⟩
    · rw [show walletDatabase.stored.transactions.rows.filter
        (fun r => decide (r.fromAddress = asciiLower.lower defaultAddress)) = [sentOnce] by
          decide +kernel]
      exact hanswer _ _
    · rw [show walletDatabase.stored.transactions.rows.filter
        (fun r => decide (r.toAddress = some (asciiLower.lower defaultAddress))) = [] by
          decide +kernel]
      exact hempty _
  · refine ⟨[receivedOnce], ⟨[], [receivedOnce], ?_, ?_, hanswer _ _⟩, rfl⟩
    · rw [show walletDatabase.stored.tokenTransfers.rows.filter
        (fun r => decide (r.fromAddress = asciiLower.lower defaultAddress)) = [] by decide +kernel]
      exact hempty _
    · rw [show walletDatabase.stored.tokenTransfers.rows.filter
        (fun r => decide (r.toAddress = asciiLower.lower defaultAddress)) = [receivedOnce] by
          decide +kernel]
      exact hanswer _ _
  · rw [getWalletHistory, orFetchError_eq_ok]
    decide +kernel

example : (listed walletHistory).map (·.hash) = ["0xc2", "0xc1"] := by
  simp [listed, walletHistory, List.mergeSort, List.MergeSort.Internal.splitInTwo, getTime, ofEth,
    ofToken]

end Wallet

end Frontend

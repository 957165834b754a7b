import EthPipeline.Backend.Repositories
import EthPipeline.Base.Join
import EthPipeline.Base.Selection

/-!
# The wallet queries with their joins

The two statements of `src/backend/repositories/wallet_repo.py`, joins and limit
in the order of the text, over `tokens` and `address_labels` as lists of rows with
unique addresses.

* `ethTransactions_iff`, `tokenTransfers_iff`: the joins add no copies, so the
  answers are those of `Database.EthTransactions` and `Database.TokenTransfers`.
* `wallet_history_exact_iff`: the answers are those of the plain query exactly
  when every transfer of the address to itself has `limit - 1` newer rows.
* `self_transfer_twice`: a transfer to itself as the newest row.
-/

namespace Backend

open Consumer Query

/-- A table with the address as primary key, as a list of rows. -/
structure Listing {γ : Type} (f : String → Option γ) (rows : List (String × γ)) : Prop where
  nodup : (rows.map (·.1)).Nodup
  mem_iff : ∀ k v, (k, v) ∈ rows ↔ f k = some v

namespace Listing

variable {γ ρ : Type} {f : String → Option γ} {rows : List (String × γ)}

/-- The row that a left join finds. -/
theorem head_found (h : Listing f rows) (key : ρ → Option String) (a : ρ) :
    (Join.found key (fun l : String × γ => some l.1) rows a).head? =
      (key a).bind fun k => (f k).map fun v => (k, v) := by
  unfold Join.found
  cases key a with
  | none => rfl
  | some k =>
    simp only [Option.bind_some]
    cases hk : f k with
    | none =>
      have hnone : rows.filter (fun l => some l.1 = some k) = [] := by
        refine List.filter_eq_nil_iff.mpr fun l hl hlk => ?_
        have hkey : l.1 = k := by simpa using hlk
        have := (h.mem_iff l.1 l.2).mp hl
        rw [hkey, hk] at this
        cases this
      rw [hnone]
      rfl
    | some v =>
      have hmem : (k, v) ∈ rows.filter (fun l => some l.1 = some k) :=
        List.mem_filter.mpr ⟨(h.mem_iff k v).mpr hk, by simp⟩
      cases hl : rows.filter (fun l => some l.1 = some k) with
      | nil =>
        rw [hl] at hmem
        cases hmem
      | cons l rest =>
        have hmem : l ∈ rows.filter (fun l => some l.1 = some k) := by
          rw [hl]
          exact List.mem_cons_self
        obtain ⟨hl, hlk⟩ := List.mem_filter.mp hmem
        have hkey : l.1 = k := by simpa using hlk
        have := (h.mem_iff l.1 l.2).mp hl
        rw [hkey, hk] at this
        simp [Prod.ext_iff, hkey, Option.some.inj this]

theorem left_eq_map (h : Listing f rows) (key : ρ → Option String) (ls : List ρ) :
    Join.left key (fun l : String × γ => some l.1) ls rows =
      ls.map fun a => (a, (key a).bind fun k => (f k).map fun v => (k, v)) := by
  have hnodup : (rows.map fun l : String × γ => some l.1).Nodup := by
    have := h.nodup.map (Option.some_injective String)
    rwa [List.map_map] at this
  rw [Join.left_eq_map fun a _ => Join.length_found_le_one hnodup a]
  exact List.map_congr_left fun a _ => by rw [h.head_found]

end Listing

/-! ### Order and limit after a map -/

theorem exists_perm_map {ρ ρ' : Type} (g : ρ → ρ') :
    ∀ {ys : List ρ'} {xs : List ρ}, ys.Perm (xs.map g) → ∃ zs : List ρ, zs.Perm xs ∧ ys = zs.map g := by
  intro ys
  induction ys with
  | nil =>
    intro xs h
    have hnil := List.map_eq_nil_iff.mp h.symm.eq_nil
    exact ⟨[], by rw [hnil], rfl⟩
  | cons y ys ih =>
    intro xs h
    obtain ⟨x, hx, rfl⟩ := List.mem_map.mp (h.subset List.mem_cons_self)
    obtain ⟨front, back, rfl⟩ := List.append_of_mem hx
    have hrest : (g x :: ys).Perm (g x :: (front ++ back).map g) := by
      refine h.trans ?_
      rw [List.map_append, List.map_append, List.map_cons]
      exact List.perm_middle
    obtain ⟨zs, hzs, rfl⟩ := ih hrest.cons_inv
    exact ⟨x :: zs, (hzs.cons x).trans List.perm_middle.symm, rfl⟩

/-- A query whose rows are made one by one of the rows of another. -/
theorem answer_map {ρ ρ' : Type} {g : ρ → ρ'} {time : ρ → ℤ} {time' : ρ' → ℤ} {limit : ℕ}
    (hg : ∀ r, time' (g r) = time r) {rows : List ρ} {result : List ρ'} :
    Answer (Newer time') limit (rows.map g) result ↔
      ∃ found, Answer (Newer time) limit rows found ∧ result = found.map g := by
  constructor
  · rintro ⟨sorted, hperm, hsorted, rfl⟩
    obtain ⟨zs, hzs, rfl⟩ := exists_perm_map g hperm
    refine ⟨zs.take limit, ⟨zs, hzs, ?_, rfl⟩, List.map_take.symm⟩
    rw [List.pairwise_map] at hsorted
    exact hsorted.imp fun h => by rwa [Newer, hg, hg] at h
  · rintro ⟨found, ⟨sorted, hperm, hsorted, rfl⟩, rfl⟩
    refine ⟨sorted.map g, hperm.map g, ?_, List.map_take⟩
    rw [List.pairwise_map]
    exact hsorted.imp fun h => by rwa [Newer, hg, hg]

/-! ### The statements -/

/-- A row of a left join with `address_labels`. -/
abbrev LabelRow := String × AddressLabel

abbrev TokenListRow := String × Token

/-- The labels selected from the two joined rows. -/
def joinedLabels (alFrom alTo : Option LabelRow) : Labels where
  fromLabel := alFrom.bind (·.2.name)
  toLabel := alTo.bind (·.2.name)
  fromCategory := alFrom.bind (·.2.category)
  toCategory := alTo.bind (·.2.category)

/-- A row of `transactions` with what the joins found for it. -/
structure EthJoined where
  sub : TransactionRow
  alFrom : Option LabelRow
  alTo : Option LabelRow
  deriving DecidableEq, Repr

structure TokenJoined where
  sub : TokenTransferRow
  t : Option TokenListRow
  alFrom : Option LabelRow
  alTo : Option LabelRow
  deriving DecidableEq, Repr

def labelKey (l : LabelRow) : Option String := some l.1

def tokenKey (t : TokenListRow) : Option String := some t.1

/-- `FROM sub LEFT JOIN address_labels al_from … LEFT JOIN address_labels al_to …`. -/
def ethJoin (addressLabels : List LabelRow) (sub : List TransactionRow) : List EthJoined :=
  let withFrom := Join.left (fun s => some s.fromAddress) labelKey sub addressLabels
  let withTo := Join.left (fun p => p.1.toAddress) labelKey withFrom addressLabels
  withTo.map fun ((s, alFrom), alTo) => ⟨s, alFrom, alTo⟩

def tokenJoin (tokens : List TokenListRow) (addressLabels : List LabelRow)
    (sub : List TokenTransferRow) : List TokenJoined :=
  let withToken := Join.left (fun s => some s.tokenAddress) tokenKey sub tokens
  let withFrom := Join.left (fun p => some p.1.fromAddress) labelKey withToken addressLabels
  let withTo := Join.left (fun p => some p.1.1.toAddress) labelKey withFrom addressLabels
  withTo.map fun (((s, t), alFrom), alTo) => ⟨s, t, alFrom, alTo⟩

/-- The columns that are selected. -/
def EthJoined.row (j : EthJoined) : EthRow :=
  { hash := j.sub.hash, timestamp := j.sub.timestamp, fromAddress := j.sub.fromAddress,
    toAddress := j.sub.toAddress, value := j.sub.value, gasPrice := j.sub.gasPrice,
    labels := joinedLabels j.alFrom j.alTo }

def TokenJoined.row (j : TokenJoined) : TokenRow :=
  { hash := j.sub.transactionHash, timestamp := j.sub.timestamp, fromAddress := j.sub.fromAddress,
    toAddress := j.sub.toAddress, value := j.sub.value, symbol := j.t.bind (·.2.symbol),
    decimals := j.t.bind (·.2.decimals), labels := joinedLabels j.alFrom j.alTo }

section

variable (db : Database) (tokens : List TokenListRow) (addressLabels : List LabelRow)
  (address : String) (limit : ℕ)

/-- The joined rows of an answer of `get_eth_transactions`. -/
def EthTransactionsSql (joined : List EthJoined) : Prop :=
  ∃ outgoing incoming,
    Answer (Newer TransactionRow.timestamp) limit
      (db.stored.transactions.rows.filter (·.fromAddress = address)) outgoing ∧
    Answer (Newer TransactionRow.timestamp) limit
      (db.stored.transactions.rows.filter (·.toAddress = some address)) incoming ∧
    Answer (Newer (·.sub.timestamp)) limit (ethJoin addressLabels (outgoing ++ incoming)) joined

/-- The joined rows of an answer of `get_token_transfers`. -/
def TokenTransfersSql (joined : List TokenJoined) : Prop :=
  ∃ outgoing incoming,
    Answer (Newer TokenTransferRow.timestamp) limit
      (db.stored.tokenTransfers.rows.filter (·.fromAddress = address)) outgoing ∧
    Answer (Newer TokenTransferRow.timestamp) limit
      (db.stored.tokenTransfers.rows.filter (·.toAddress = address)) incoming ∧
    Answer (Newer (·.sub.timestamp)) limit (tokenJoin tokens addressLabels (outgoing ++ incoming))
      joined

end

namespace Database

variable (db : Database)

def labelRow (address : String) : Option LabelRow :=
  (db.addressLabels address).map fun v => (address, v)

/-- A row with the one row that each join can find. -/
def ethJoined (s : TransactionRow) : EthJoined :=
  ⟨s, db.labelRow s.fromAddress, s.toAddress.bind db.labelRow⟩

def tokenJoined (s : TokenTransferRow) : TokenJoined :=
  ⟨s, (db.tokens s.tokenAddress).map fun v => (s.tokenAddress, v), db.labelRow s.fromAddress,
    db.labelRow s.toAddress⟩

variable {db} {tokens : List TokenListRow} {addressLabels : List LabelRow}

/-- **The joins add no copies.** -/
theorem ethJoin_eq_map (hlabels : Listing db.addressLabels addressLabels)
    (sub : List TransactionRow) : ethJoin addressLabels sub = sub.map db.ethJoined := by
  unfold ethJoin labelKey
  simp only [hlabels.left_eq_map, List.map_map]
  rfl

theorem tokenJoin_eq_map (htokens : Listing db.tokens tokens)
    (hlabels : Listing db.addressLabels addressLabels) (sub : List TokenTransferRow) :
    tokenJoin tokens addressLabels sub = sub.map db.tokenJoined := by
  unfold tokenJoin labelKey tokenKey
  simp only [hlabels.left_eq_map, htokens.left_eq_map, List.map_map]
  rfl

theorem joinedLabels_eq (fromAddress : String) (toAddress : Option String) :
    joinedLabels (db.labelRow fromAddress) (toAddress.bind db.labelRow) =
      db.labels fromAddress toAddress := by
  have hname : ∀ address, (db.labelRow address).bind (·.2.name) =
      (db.addressLabels address).bind (·.name) := by
    intro address
    unfold labelRow
    cases db.addressLabels address <;> rfl
  have hcategory : ∀ address, (db.labelRow address).bind (·.2.category) =
      (db.addressLabels address).bind (·.category) := by
    intro address
    unfold labelRow
    cases db.addressLabels address <;> rfl
  unfold joinedLabels labels
  rw [hname, hcategory]
  cases toAddress with
  | none => rfl
  | some address => rw [Option.bind_some, Option.bind_some, hname, hcategory]

theorem ethJoined_row (s : TransactionRow) : (db.ethJoined s).row = db.ethRow s := by
  unfold EthJoined.row ethRow ethJoined
  rw [joinedLabels_eq]

theorem tokenJoined_row (s : TokenTransferRow) : (db.tokenJoined s).row = db.tokenRow s := by
  have hlabels : joinedLabels (db.labelRow s.fromAddress) (db.labelRow s.toAddress) =
      db.labels s.fromAddress (some s.toAddress) := joinedLabels_eq _ (some s.toAddress)
  unfold TokenJoined.row tokenRow tokenJoined
  rw [hlabels]
  cases db.tokens s.tokenAddress <;> rfl

theorem ethJoined_injective : Function.Injective db.ethJoined := fun _ _ h =>
  congrArg EthJoined.sub h

theorem tokenJoined_injective : Function.Injective db.tokenJoined := fun _ _ h =>
  congrArg TokenJoined.sub h

/-- The statement with its joins has the answers of `Database.EthTransactions`. -/
theorem ethTransactions_iff (hlabels : Listing db.addressLabels addressLabels) (address : String)
    (limit : ℕ) (rows : List EthRow) :
    (∃ joined, EthTransactionsSql db addressLabels address limit joined ∧
      rows = joined.map EthJoined.row) ↔ db.EthTransactions address limit rows := by
  have hrow : ∀ found : List TransactionRow,
      (found.map db.ethJoined).map EthJoined.row = found.map db.ethRow := by
    intro found
    rw [List.map_map]
    exact List.map_congr_left fun s _ => ethJoined_row s
  constructor
  · rintro ⟨joined, ⟨outgoing, incoming, hout, hin, hboth⟩, rfl⟩
    rw [ethJoin_eq_map hlabels] at hboth
    obtain ⟨found, hfound, rfl⟩ := (answer_map fun _ => rfl).mp hboth
    exact ⟨found, ⟨outgoing, incoming, hout, hin, hfound⟩, hrow found⟩
  · rintro ⟨found, ⟨outgoing, incoming, hout, hin, hfound⟩, rfl⟩
    refine ⟨found.map db.ethJoined, ⟨outgoing, incoming, hout, hin, ?_⟩, (hrow found).symm⟩
    rw [ethJoin_eq_map hlabels]
    exact (answer_map fun _ => rfl).mpr ⟨found, hfound, rfl⟩

theorem tokenTransfers_iff (htokens : Listing db.tokens tokens)
    (hlabels : Listing db.addressLabels addressLabels) (address : String) (limit : ℕ)
    (rows : List TokenRow) :
    (∃ joined, TokenTransfersSql db tokens addressLabels address limit joined ∧
      rows = joined.map TokenJoined.row) ↔ db.TokenTransfers address limit rows := by
  have hrow : ∀ found : List TokenTransferRow,
      (found.map db.tokenJoined).map TokenJoined.row = found.map db.tokenRow := by
    intro found
    rw [List.map_map]
    exact List.map_congr_left fun s _ => tokenJoined_row s
  constructor
  · rintro ⟨joined, ⟨outgoing, incoming, hout, hin, hboth⟩, rfl⟩
    rw [tokenJoin_eq_map htokens hlabels] at hboth
    obtain ⟨found, hfound, rfl⟩ := (answer_map fun _ => rfl).mp hboth
    exact ⟨found, ⟨outgoing, incoming, hout, hin, hfound⟩, hrow found⟩
  · rintro ⟨found, ⟨outgoing, incoming, hout, hin, hfound⟩, rfl⟩
    refine ⟨found.map db.tokenJoined, ⟨outgoing, incoming, hout, hin, ?_⟩, (hrow found).symm⟩
    rw [tokenJoin_eq_map htokens hlabels]
    exact (answer_map fun _ => rfl).mpr ⟨found, hfound, rfl⟩

end Database

/-! ### The plain query -/

/-- Two limited queries, put together, joined and limited again, against the one
query for what either finds. -/
theorem joined_exact_iff {ρ ρ' : Type} {g : ρ → ρ'} (time : ρ → ℤ) (time' : ρ' → ℤ)
    (sent received : ρ → Bool) {limit : ℕ} {stored : List ρ} (hg : ∀ r, time' (g r) = time r)
    (hinj : Function.Injective g) (hnodup : stored.Nodup) :
    (∀ joined, (∃ outgoing incoming, Answer (Newer time) limit (stored.filter sent) outgoing ∧
        Answer (Newer time) limit (stored.filter received) incoming ∧
          Answer (Newer time') limit ((outgoing ++ incoming).map g) joined) →
      ∃ found, Answer (Newer time) limit (stored.filter fun r => sent r || received r) found ∧
        joined = found.map g) ↔
      ∀ s ∈ stored, sent s → received s →
        limit ≤ (stored.filter fun r => (sent r || received r) && time s < time r).length + 1 := by
  rw [← answers_union_iff hnodup]
  constructor
  · intro h outgoing incoming found hout hin hfound
    obtain ⟨found', hfound', heq⟩ := h (found.map g)
      ⟨outgoing, incoming, hout, hin, (answer_map hg).mpr ⟨found, hfound, rfl⟩⟩
    rwa [hinj.list_map heq]
  · rintro h joined ⟨outgoing, incoming, hout, hin, hboth⟩
    obtain ⟨found, hfound, rfl⟩ := (answer_map hg).mp hboth
    exact ⟨found, h outgoing incoming found hout hin hfound, rfl⟩

section

variable (db : Database) (tokens : List TokenListRow) (addressLabels : List LabelRow)
  (address : String) (limit : ℕ)

/-- `WHERE from_address = $1 OR to_address = $1`. -/
def ethInvolves (r : TransactionRow) : Bool := r.fromAddress = address || r.toAddress = some address

def tokenInvolves (r : TokenTransferRow) : Bool := r.fromAddress = address || r.toAddress = address

/-- Every answer has each of `limit` newest transactions of the address once. -/
def EthExact : Prop :=
  ∀ joined, EthTransactionsSql db addressLabels address limit joined →
    ∃ found, Answer (Newer TransactionRow.timestamp) limit
      (db.stored.transactions.rows.filter (ethInvolves address)) found ∧
        joined = found.map db.ethJoined

def TokenExact : Prop :=
  ∀ joined, TokenTransfersSql db tokens addressLabels address limit joined →
    ∃ found, Answer (Newer TokenTransferRow.timestamp) limit
      (db.stored.tokenTransfers.rows.filter (tokenInvolves address)) found ∧
        joined = found.map db.tokenJoined

/-- A transaction of the address with itself is below at least `limit - 1` newer
ones of the address. -/
def EthSelfBelow : Prop :=
  ∀ s ∈ db.stored.transactions.rows, s.fromAddress = address → s.toAddress = some address →
    limit ≤ (db.stored.transactions.rows.filter fun r =>
      ethInvolves address r && s.timestamp < r.timestamp).length + 1

def TokenSelfBelow : Prop :=
  ∀ s ∈ db.stored.tokenTransfers.rows, s.fromAddress = address → s.toAddress = address →
    limit ≤ (db.stored.tokenTransfers.rows.filter fun r =>
      tokenInvolves address r && s.timestamp < r.timestamp).length + 1

end

/-- **The wallet history is that of the plain query** exactly when no transfer of
the address to itself is among the newest. -/
theorem wallet_history_exact_iff (db : Database) (tokens : List TokenListRow)
    (addressLabels : List LabelRow) (htokens : Listing db.tokens tokens)
    (hlabels : Listing db.addressLabels addressLabels) (address : String) (limit : ℕ) :
    (EthExact db addressLabels address limit ↔ EthSelfBelow db address limit) ∧
      (TokenExact db tokens addressLabels address limit ↔ TokenSelfBelow db address limit) := by
  have heth : db.stored.transactions.rows.Nodup := db.stored.transactions.nodup.of_map
  have htoken : db.stored.tokenTransfers.rows.Nodup := db.stored.tokenTransfers.nodup.of_map
  constructor
  · unfold EthExact EthTransactionsSql
    simp only [Database.ethJoin_eq_map hlabels]
    refine (joined_exact_iff TransactionRow.timestamp (·.sub.timestamp) (·.fromAddress = address)
      (·.toAddress = some address) (fun _ => rfl) Database.ethJoined_injective heth).trans ?_
    simp only [EthSelfBelow, decide_eq_true_eq]
    exact Iff.rfl
  · unfold TokenExact TokenTransfersSql
    simp only [Database.tokenJoin_eq_map htokens hlabels]
    refine (joined_exact_iff TokenTransferRow.timestamp (·.sub.timestamp) (·.fromAddress = address)
      (·.toAddress = address) (fun _ => rfl) Database.tokenJoined_injective htoken).trans ?_
    simp only [TokenSelfBelow, decide_eq_true_eq]
    exact Iff.rfl

/-! ### One address and its transfers -/

def ownTransfer : TransactionRow := ⟨"0x1", 100, "0xa", some "0xa", some 5, none⟩

/-- Some transactions, no token transfers, and no labels. -/
def databaseOf (rows : List TransactionRow) (h : (rows.map TransactionRow.key).Nodup) : Database where
  stored := { Tables.empty with transactions := ⟨rows, h⟩ }
  tokens _ := none
  addressLabels _ := none

theorem listing_nil {γ : Type} : Listing (fun _ : String => (none : Option γ)) [] :=
  ⟨List.nodup_nil, fun _ _ => by simp⟩

/-- Below a newer transaction, the answer to limit 2 is right. -/
theorem self_transfer_below :
    EthExact (databaseOf [⟨"0x2", 200, "0xa", some "0xb", none, none⟩, ownTransfer] (by decide))
      [] "0xa" 2 :=
  (wallet_history_exact_iff _ [] [] listing_nil listing_nil "0xa" 2).1.mpr (by
    unfold EthSelfBelow
    decide +kernel)

/-- The only transaction, and it is in the answer twice. -/
theorem self_transfer_twice :
    EthTransactionsSql (databaseOf [ownTransfer] (by decide)) [] "0xa" 10
      [⟨ownTransfer, none, none⟩, ⟨ownTransfer, none, none⟩] ∧
        ¬EthExact (databaseOf [ownTransfer] (by decide)) [] "0xa" 10 := by
  have hone : Answer (Newer TransactionRow.timestamp) 10 [ownTransfer] [ownTransfer] :=
    ⟨_, List.Perm.refl _, List.pairwise_singleton _ _, rfl⟩
  have hsql : EthTransactionsSql (databaseOf [ownTransfer] (by decide)) [] "0xa" 10
      [⟨ownTransfer, none, none⟩, ⟨ownTransfer, none, none⟩] :=
    ⟨[ownTransfer], [ownTransfer], hone, hone, _, List.Perm.refl _, by decide, rfl⟩
  refine ⟨hsql, fun hexact => ?_⟩
  obtain ⟨found, hfound, heq⟩ := hexact _ hsql
  have hlen := congrArg List.length heq
  have hcard := (answer_iff_top.mp hfound).2.card
  rw [List.length_map] at hlen
  simp only [Multiset.coe_card] at hcard
  rw [← hlen] at hcard
  revert hcard
  decide +kernel

end Backend

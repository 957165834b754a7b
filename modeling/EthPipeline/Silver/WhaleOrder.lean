import EthPipeline.Silver.WhaleTotals
import EthPipeline.Base.Ties

/-!
# Whales and the order of rows

Two executions of `build_whale_txns` over the rows of a day in any physical order, where
Spark orders rows with equal window keys as it likes.

* `order_independent_iff`: they yield the same rows exactly when tied transactions are
  alike.
* `sameBlock_depends`: two transfers of one sender in one block.
-/

namespace Silver

/-! ### What a row shows of its transaction -/

structure Transfer where
  hash : Option String
  blockTimestamp : Option ℤ
  fromAddress : Option String
  toAddress : Option String
  valueEth : Option ℚ
  deriving DecidableEq, Repr

def SilverTransaction.transfer (t : SilverTransaction) : Transfer :=
  ⟨t.hash, t.blockTimestamp, t.fromAddress, t.toAddress, t.valueEth⟩

namespace Transfer

/-- `orderBy("block_timestamp")`. -/
def Before (a b : Transfer) : Prop := Earlier a.blockTimestamp b.blockTimestamp

instance : DecidableRel Before :=
  fun a b => inferInstanceAs (Decidable (Earlier a.blockTimestamp b.blockTimestamp))

/-- The totals of the two windows. -/
def sentTotals (rows : List Transfer) : Option ℚ × ℕ :=
  (sumEth (rows.map (·.valueEth)), rows.countP (·.hash.isSome))

def receivedTotal (rows : List Transfer) : Option ℚ := sumEth (rows.map (·.valueEth))

/-- Transactions of one sender in one second are alike, and one receiver has no two in one
second, unless the totals of the sender (`inSent`) or of the receiver (`inReceived`) are
not moved by them. -/
structure Ties (inSent inReceived : Transfer → Transfer → Prop) (day : List Transfer) : Prop where
  sent : ∀ a b, Window.Pair day a b → a.fromAddress = b.fromAddress →
    a.blockTimestamp = b.blockTimestamp → a = b ∨ inSent a b
  received : ∀ a b, Window.Pair day a b → a.toAddress = b.toAddress →
    a.blockTimestamp = b.blockTimestamp → inReceived a b ∨ a = b ∧ inSent a b

/-- The transactions before `a` in its window and `b` have more ETH than the sum of a
column has room for. -/
def Full (key : Transfer → Option String) (day : List Transfer) (a b : Transfer) : Prop :=
  10 ^ 20 ≤ totalEth ((Window.earlier key Before day a ++ [b]).map (·.valueEth))

/-- Neither of two transactions that tie is seen in the sum of the other one. -/
structure SumUnmoved (key : Transfer → Option String) (day : List Transfer) (a b : Transfer) :
    Prop where
  left : Full key day a a ∨ b.valueEth = some 0
  right : Full key day a b ∨ a.valueEth = some 0

/-- Nor in its count. -/
structure SentUnmoved (day : List Transfer) (a b : Transfer) : Prop where
  sum : SumUnmoved (·.fromAddress) day a b
  hashes : a.hash = none ∧ b.hash = none

/-- **Ties that do not matter.** -/
def TiesAlike (day : List Transfer) : Prop :=
  Ties (SentUnmoved day) (SumUnmoved (·.toAddress) day) day

/-- After the earlier transactions of its part, neither changes the totals that the other
one shows. -/
abbrev SentSteady (day : List Transfer) (a b : Transfer) : Prop :=
  Window.Unmoved (·.fromAddress) sentTotals Before day a b

abbrev ReceivedSteady (day : List Transfer) (a b : Transfer) : Prop :=
  Window.Unmoved (·.toAddress) receivedTotal Before day a b

/-- A transaction with the totals of its sender. -/
abbrev Sent := Transfer × (Option ℚ × ℕ)

/-- The two windows, over the rows in some order. -/
def sent (day : List Transfer) : List Sent := Window.overParts (·.fromAddress) sentTotals day

def received (rows : List Sent) : List (Sent × Option ℚ) :=
  Window.overParts (·.1.toAddress) (fun upto => receivedTotal (upto.map (·.1))) rows

abbrev SentOrder (day l : List Transfer) : Prop := Window.Arrangement Before day l

abbrev ReceivedOrder (rows m : List Sent) : Prop :=
  Window.Arrangement (fun a b : Sent => Before a.1 b.1) rows m

end Transfer

/-! ### The totals -/

theorem sumEth_perm {values values' : List (Option ℚ)} (h : values.Perm values') :
    sumEth values = sumEth values' := by
  have hperm := h.filterMap id
  unfold sumEth Decimal.sum
  rw [hperm.sum_eq]
  refine if_congr ?_ rfl rfl
  constructor
  · intro hnil
    rw [hnil] at hperm
    exact hperm.symm.eq_nil
  · intro hnil
    rw [hnil] at hperm
    exact hperm.eq_nil

theorem totalEth_append (values values' : List (Option ℚ)) :
    totalEth (values ++ values') = totalEth values + totalEth values' := by
  simp [totalEth]

/-- An amount of the column, not below zero. -/
def ColumnAmount (value : Option ℚ) : Prop := ∃ q, value = some q ∧ Decimal.Fits ⟨38, 18⟩ q ∧ 0 ≤ q

theorem totalEth_nonneg_of_column {values : List (Option ℚ)} (h : ∀ v ∈ values, ColumnAmount v) :
    0 ≤ totalEth values := by
  refine List.sum_nonneg fun q hq => ?_
  obtain ⟨v, hv, rfl⟩ := List.mem_filterMap.mp hq
  obtain ⟨r, hr, -, hpos⟩ := h _ hv
  cases hr
  exact hpos

/-- **The sum of a column**: null from `10 ^ 20` on. -/
theorem sumEth_eq_ite {values : List (Option ℚ)} (hne : values ≠ [])
    (h : ∀ v ∈ values, ColumnAmount v) :
    sumEth values = if totalEth values < 10 ^ 20 then some (totalEth values) else none := by
  have hfits : ∀ q, some q ∈ values → Decimal.Fits ⟨38, 18⟩ q := by
    intro q hq
    obtain ⟨r, hr, hfits, -⟩ := h _ hq
    cases hr
    exact hfits
  obtain ⟨v, hv⟩ := List.exists_mem_of_ne_nil values hne
  obtain ⟨q, rfl, -, -⟩ := h v hv
  split
  · next hroom =>
    refine sumEth_of_room ⟨q, hv⟩ hfits ?_
    rwa [abs_of_nonneg (totalEth_nonneg_of_column h)]
  · next hroom =>
    have hcast : sumEth values = Decimal.cast (Decimal.sumType ⟨38, 18⟩) (totalEth values) := by
      have hsome : values.filterMap id ≠ [] :=
        List.ne_nil_of_mem (List.mem_filterMap.mpr ⟨some q, hv, rfl⟩)
      unfold sumEth Decimal.sum
      exact if_neg hsome
    rw [hcast, Option.eq_none_iff_forall_not_mem]
    intro r hr
    obtain ⟨n, hn⟩ := Decimal.exact_sum (s := 18) fun q hq => (fits_of_mem hfits q hq).exact
    obtain ⟨rfl, hlt⟩ := Decimal.cast_eq_some hr
    rw [show (Decimal.sumType ⟨38, 18⟩).scale = 18 from rfl] at hlt
    have hexact : Decimal.roundHalfUp 18 (totalEth values) = totalEth values :=
      Decimal.roundHalfUp_of_exact hn
    rw [hexact, abs_of_nonneg (totalEth_nonneg_of_column h)] at hlt
    refine hroom ?_
    norm_num [Decimal.sumType] at hlt
    linarith

/-- What a capped sum does not see. -/
theorem capped_add_iff {c x v : ℚ} (hv : 0 ≤ v) :
    ((if x < c then some x else none) = if x + v < c then some (x + v) else none) ↔
      c ≤ x ∨ v = 0 := by
  constructor
  · intro h
    by_cases hx : x < c
    · rw [if_pos hx] at h
      split at h
      · have hsame : x = x + v := Option.some.inj h
        exact .inr (by linarith)
      · cases h
    · exact .inl (not_lt.mp hx)
  · rintro (hx | rfl)
    · rw [if_neg (by linarith), if_neg (by linarith)]
    · rw [add_zero]

namespace Transfer

theorem symmetric_receivedTotal : Window.Symmetric receivedTotal :=
  fun _ _ h => sumEth_perm (h.map _)

theorem symmetric_sentTotals : Window.Symmetric sentTotals :=
  fun _ _ h => Prod.ext (symmetric_receivedTotal _ _ h) (h.countP_eq _)

variable {day M : List Transfer} {a b : Transfer}

/-- When a further transaction is not seen in a sum. -/
theorem receivedTotal_concat_iff (h : ∀ t ∈ M ++ [a, b], ColumnAmount t.valueEth) :
    receivedTotal (M ++ [a]) = receivedTotal (M ++ [a, b]) ↔
      10 ^ 20 ≤ totalEth ((M ++ [a]).map (·.valueEth)) ∨ b.valueEth = some 0 := by
  obtain ⟨v, hv, -, hpos⟩ := h b (by simp)
  have hsum : ∀ cs : List Transfer, cs ≠ [] → cs ⊆ M ++ [a, b] → receivedTotal cs =
      if totalEth (cs.map (·.valueEth)) < 10 ^ 20 then some (totalEth (cs.map (·.valueEth)))
      else none := by
    intro cs hne hcs
    refine sumEth_eq_ite (by simpa using hne) fun v hv => ?_
    obtain ⟨t, ht, rfl⟩ := List.mem_map.mp hv
    exact h t (hcs ht)
  have hab : totalEth ((M ++ [a, b]).map (·.valueEth)) =
      totalEth ((M ++ [a]).map (·.valueEth)) + v := by
    rw [show M ++ [a, b] = M ++ [a] ++ [b] by simp, List.map_append, totalEth_append]
    simp [totalEth, hv]
  rw [hsum (M ++ [a]) (by simp) (by intro c hc; simp at hc ⊢; tauto),
    hsum (M ++ [a, b]) (by simp) (List.Subset.refl _), hab, capped_add_iff hpos, hv,
    Option.some_inj]

/-- And in a count. -/
theorem sentTotals_concat_iff (h : ∀ t ∈ M ++ [a, b], ColumnAmount t.valueEth) :
    sentTotals (M ++ [a]) = sentTotals (M ++ [a, b]) ↔
      (10 ^ 20 ≤ totalEth ((M ++ [a]).map (·.valueEth)) ∨ b.valueEth = some 0) ∧
        b.hash = none := by
  have hcount : (M ++ [a]).countP (·.hash.isSome) = (M ++ [a, b]).countP (·.hash.isSome) ↔
      b.hash = none := by
    simp only [List.countP_append, List.countP_cons, List.countP_nil]
    cases b.hash <;> simp
  rw [← receivedTotal_concat_iff h, ← hcount]
  exact Prod.mk_inj

theorem lasting_receivedTotal (h : ∀ t ∈ day, ColumnAmount t.valueEth) :
    Window.Lasting receivedTotal day := by
  intro M T a b hday hunmoved
  have hamounts : ∀ t ∈ M ++ T ++ [a, b], ColumnAmount t.valueEth := fun t ht => h t (hday t ht)
  rw [receivedTotal_concat_iff fun t ht => hamounts t (by simp at ht ⊢; tauto)] at hunmoved
  rw [receivedTotal_concat_iff hamounts]
  refine hunmoved.imp_left fun hfull => hfull.trans ?_
  have hT : 0 ≤ totalEth (T.map (·.valueEth)) := by
    refine totalEth_nonneg_of_column fun v hv => ?_
    obtain ⟨t, ht, rfl⟩ := List.mem_map.mp hv
    exact hamounts t (by simp [ht])
  simp only [List.map_append, totalEth_append]
  linarith

theorem lasting_sentTotals (h : ∀ t ∈ day, ColumnAmount t.valueEth) :
    Window.Lasting sentTotals day := by
  intro M T a b hday hunmoved
  obtain ⟨hsum, hcount⟩ := Prod.mk.inj hunmoved
  refine Prod.ext (lasting_receivedTotal h M T a b hday hsum) ?_
  simp only [sentTotals, List.countP_append, List.countP_cons, List.countP_nil] at hcount ⊢
  omega

theorem Before.trans' (a b c : Transfer) (hab : Before a b) (hbc : Before b c) : Before a c :=
  Earlier.trans hab hbc

theorem Before.total (a b : Transfer) : Before a b ∨ Before b a := Earlier.total _ _

/-- Neither comes before the other: they are of one second. -/
theorem ties_iff {a b : Transfer} :
    Before a b ∧ Before b a ↔ a.blockTimestamp = b.blockTimestamp := by
  unfold Before
  constructor
  · rintro ⟨hab, hba⟩
    cases ha : a.blockTimestamp with
    | none =>
      cases hb : b.blockTimestamp with
      | none => rfl
      | some t =>
        rw [ha, hb] at hba
        exact absurd hba id
    | some s =>
      cases hb : b.blockTimestamp with
      | none =>
        rw [ha, hb] at hab
        exact absurd hab id
      | some t =>
        rw [ha, hb] at hab hba
        exact congrArg some (le_antisymm hab hba)
  · intro h
    rw [h]
    exact ⟨(Earlier.total _ _).elim id id, (Earlier.total _ _).elim id id⟩

/-! ### Both windows -/

def sorting : Window.Sorting Before := Window.Sorting.merge _ Before.trans' Before.total

def receivedSorting : Window.Sorting fun u v : Sent => Before u.1 v.1 :=
  Window.Sorting.merge _ (fun _ _ _ => Before.trans' _ _ _) fun _ _ => Before.total _ _

theorem fst_sent (day : List Transfer) : (sent day).map (·.1) = day := by
  have hrows : (sent day).map (fun p => id p.1) = day.map id := Window.map_overParts id
  rwa [List.map_id] at hrows

theorem fst_received (rows : List Sent) : (received rows).map (·.1) = rows := by
  have hrows : (received rows).map (fun p => id p.1) = rows.map id := Window.map_overParts id
  rwa [List.map_id] at hrows

theorem steady_sent_iff (h : ∀ t ∈ day, ColumnAmount t.valueEth) :
    (∀ l l', SentOrder day l → SentOrder day l' → (sent l).Perm (sent l')) ↔
      ∀ a b, Window.Pair day a b → a.fromAddress = b.fromAddress →
        a.blockTimestamp = b.blockTimestamp → a = b ∨ SentSteady day a b := by
  refine (Window.steady_iff Before.trans' Before.total sorting symmetric_sentTotals
    (lasting_sentTotals h)).trans ?_
  refine forall₂_congr fun a b => forall₂_congr fun _ _ => ?_
  rw [← ties_iff, and_imp]

theorem steady_received_iff {rows : List Sent} (h : ∀ u ∈ rows, ColumnAmount u.1.valueEth) :
    (∀ m m', ReceivedOrder rows m → ReceivedOrder rows m' → (received m).Perm (received m')) ↔
      ∀ u v, Window.Pair rows u v → u.1.toAddress = v.1.toAddress →
        u.1.blockTimestamp = v.1.blockTimestamp →
          u = v ∨ ReceivedSteady (rows.map (·.1)) u.1 v.1 := by
  have hamounts : ∀ t ∈ rows.map (·.1), ColumnAmount t.valueEth := by
    intro t ht
    obtain ⟨u, hu, rfl⟩ := List.mem_map.mp ht
    exact h u hu
  refine (Window.steady_iff (fun u v w : Sent => Before.trans' u.1 v.1 w.1)
    (fun u v : Sent => Before.total u.1 v.1) receivedSorting (symmetric_receivedTotal.comp _)
    (lasting_receivedTotal hamounts).comp).trans ?_
  refine forall₂_congr fun u v => forall₂_congr fun _ _ => ?_
  rw [← ties_iff, and_imp, ReceivedSteady, Window.unmoved_map_iff]
  rfl

/-- Ties that do not move the totals of a transaction, one at a time, do not move them
together. -/
theorem sentTotals_ties (h : ∀ t ∈ day, ColumnAmount t.valueEth) {E ties : List Transfer}
    {a : Transfer} (hE : ∀ t ∈ E, t ∈ day) (ha : a ∈ day)
    (hties : ∀ t ∈ ties, t ∈ day ∧ sentTotals (E ++ [a]) = sentTotals (E ++ [a, t])) :
    sentTotals (E ++ ties ++ [a]) = sentTotals (E ++ [a]) := by
  induction ties with
  | nil => rw [List.append_nil]
  | cons t ties ih =>
    have hrest := ih fun c hc => hties c (List.mem_cons_of_mem t hc)
    obtain ⟨ht, hunmoved⟩ := hties t List.mem_cons_self
    have hday : ∀ c ∈ E ++ ties ++ [a, t], c ∈ day := by
      intro c hc
      simp only [List.mem_append, List.mem_cons, List.not_mem_nil, or_false] at hc
      rcases hc with (hc | hc) | rfl | rfl
      · exact hE c hc
      · exact (hties c (List.mem_cons_of_mem t hc)).1
      · exact ha
      · exact ht
    have hperm : (E ++ t :: ties ++ [a]).Perm (E ++ ties ++ [a, t]) := by
      rw [List.append_assoc, List.append_assoc]
      refine List.Perm.append_left E ?_
      rw [List.cons_append]
      have hlast : (ties ++ [a, t]) = (ties ++ [a]) ++ [t] := by simp
      rw [hlast]
      exact (List.perm_append_singleton t (ties ++ [a])).symm
    rw [symmetric_sentTotals _ _ hperm, ← lasting_sentTotals h E ties a t hday hunmoved, hrest]

/-- A copy of a transaction shows the totals that the transaction shows right after the
earlier ones, if the ties of its sender do not move them. -/
theorem totals_of_mem (h : ∀ t ∈ day, ColumnAmount t.valueEth) {l : List Transfer}
    (hl : SentOrder day l) {a : Transfer} {x : Option ℚ × ℕ} (hmem : (a, x) ∈ sent l)
    (hties : ∀ b, Window.Pair day a b → a.fromAddress = b.fromAddress →
      a.blockTimestamp = b.blockTimestamp → a = b ∨ SentSteady day a b)
    (hcopy : SentSteady day a a) :
    x = sentTotals (Window.earlier (·.fromAddress) Before day a ++ [a]) := by
  obtain ⟨before, after, rfl, hx⟩ := Window.mem_running hmem
  obtain ⟨ties, hbefore, htie⟩ := hl.filter_before Before.total (·.fromAddress)
  have hshown : x = sentTotals (Window.earlier (·.fromAddress) Before day a ++ ties ++ [a]) :=
    hx.trans (Window.shown_eq symmetric_sentTotals a hbefore)
  rw [hshown]
  refine sentTotals_ties h (fun t ht => List.mem_of_mem_filter ht) (hl.perm.mem_iff.mp (by simp))
    fun t ht => ?_
  obtain ⟨htbefore, hfrom, hat, hta⟩ := htie t ht
  have hpair : Window.Pair day a t := (Window.pair_of_mem_before htbefore).perm hl.perm
  refine ⟨hpair.right, ?_⟩
  rcases hties t hpair hfrom.symm (ties_iff.mp ⟨hat, hta⟩) with rfl | hunmoved
  · exact hcopy.left
  · exact hunmoved.left

/-- **When neither window depends on the order of its rows.** -/
theorem steady_iff_ties (h : ∀ t ∈ day, ColumnAmount t.valueEth) :
    (∀ l l' m m', SentOrder day l → SentOrder day l' → ReceivedOrder (sent l) m →
        ReceivedOrder (sent l') m' → (received m).Perm (received m')) ↔
      Ties (SentSteady day) (ReceivedSteady day) day := by
  have hamounts : ∀ l, SentOrder day l → ∀ u ∈ sent l, ColumnAmount u.1.valueEth := by
    intro l hl u hu
    refine h u.1 (hl.perm.mem_iff.mp ?_)
    rw [← fst_sent l]
    exact List.mem_map_of_mem hu
  have hfst : ∀ l, SentOrder day l → ((sent l).map (·.1)).Perm day := by
    intro l hl
    rw [fst_sent]
    exact hl.perm
  constructor
  · intro hsteady
    have hreceived : ∀ l, SentOrder day l → ∀ u v, Window.Pair (sent l) u v →
        u.1.toAddress = v.1.toAddress → u.1.blockTimestamp = v.1.blockTimestamp →
          u = v ∨ ReceivedSteady day u.1 v.1 := by
      intro l hl u v hpair hto htime
      have hrows := (steady_received_iff (hamounts l hl)).mp fun m m' => hsteady l l m m' hl hl
      exact (hrows u v hpair hto htime).imp_right fun hunmoved =>
        hunmoved.perm symmetric_receivedTotal (hfst l hl)
    constructor
    · refine (steady_sent_iff h).mp fun l l' hl hl' => ?_
      have hperm := (hsteady l l' _ _ hl hl' (receivedSorting.arrangement (sent l))
        (receivedSorting.arrangement (sent l'))).map (·.1)
      rw [fst_received, fst_received] at hperm
      exact ((receivedSorting.perm _).symm.trans hperm).trans (receivedSorting.perm _)
    · intro a b hpair hto htime
      by_cases hne : a = b
      · -- two copies, which may come first among their ties
        subst hne
        obtain ⟨hle, -⟩ := ties_iff.mpr htime
        obtain ⟨before, after, hl, hE⟩ :=
          hpair.exists_arrangement Before.trans' Before.total sorting hle hle
        have hE := hE (·.fromAddress)
        have hcopies : Window.Pair (sent (before ++ a :: a :: after))
            (a, Window.shown (·.fromAddress) sentTotals before a)
            (a, Window.shown (·.fromAddress) sentTotals (before ++ [a]) a) := by
          unfold sent
          rw [Window.overParts_split]
          exact Window.pair_neighbours _ _ _ _
        rcases hreceived _ hl _ _ hcopies rfl rfl with hsame | hunmoved
        · have htotals := (Prod.mk.inj hsame).2
          rw [Window.shown_eq symmetric_sentTotals a hE,
            Window.shown_concat symmetric_sentTotals rfl hE] at htotals
          exact .inr ⟨rfl, htotals, htotals⟩
        · exact .inl hunmoved
      · have hl := sorting.arrangement day
        obtain ⟨u, v, hrows, rfl, rfl⟩ := (hpair.perm (hfst _ hl).symm).exists_map
        refine .inl ((hreceived _ hl u v hrows hto htime).resolve_left fun hsame => hne ?_)
        rw [hsame]
  · intro hties l l' m m' hl hl' hm hm'
    have hsent := (steady_sent_iff h).mpr hties.sent l l' hl hl'
    refine (steady_received_iff (hamounts l hl)).mpr ?_ m m' hm
      ⟨hm'.perm.trans hsent.symm, hm'.sorted⟩
    rintro ⟨a, x⟩ ⟨b, y⟩ hpair hto htime
    have hday : Window.Pair day a b := (hpair.map (·.1)).perm (hfst l hl)
    rcases hties.received a b hday hto htime with hunmoved | ⟨rfl, hcopy⟩
    · exact .inr (hunmoved.perm symmetric_receivedTotal (hfst l hl).symm)
    · have hx := totals_of_mem h hl hpair.left (hties.sent a) hcopy
      have hy := totals_of_mem h hl hpair.right (hties.sent a) hcopy
      rw [hx, hy]
      exact .inl rfl

/-! ### Totals that are not moved -/

/-- What stands before two rows that tie, and the two. -/
theorem amount_of_mem_ties (key : Transfer → Option String)
    (h : ∀ t ∈ day, ColumnAmount t.valueEth) {a b : Transfer} (hpair : Window.Pair day a b) :
    ∀ t ∈ Window.earlier key Before day a ++ [a, b], ColumnAmount t.valueEth := by
  intro t ht
  simp only [List.mem_append, List.mem_cons, List.not_mem_nil, or_false] at ht
  rcases ht with ht | rfl | rfl
  · exact h t (List.mem_of_mem_filter ht)
  · exact h t hpair.left
  · exact h t hpair.right

theorem amount_of_mem_swapped (key : Transfer → Option String)
    (h : ∀ t ∈ day, ColumnAmount t.valueEth) {a b : Transfer} (hpair : Window.Pair day a b) :
    ∀ t ∈ Window.earlier key Before day a ++ [b, a], ColumnAmount t.valueEth :=
  fun t ht => amount_of_mem_ties key h hpair t (by simp at ht ⊢; tauto)

theorem receivedSteady_iff (h : ∀ t ∈ day, ColumnAmount t.valueEth) {a b : Transfer}
    (hpair : Window.Pair day a b) :
    ReceivedSteady day a b ↔ SumUnmoved (·.toAddress) day a b := by
  have hleft := receivedTotal_concat_iff (amount_of_mem_ties (·.toAddress) h hpair)
  have hright := receivedTotal_concat_iff (amount_of_mem_swapped (·.toAddress) h hpair)
  have hswap : receivedTotal (Window.earlier (·.toAddress) Before day a ++ [b, a]) =
      receivedTotal (Window.earlier (·.toAddress) Before day a ++ [a, b]) :=
    symmetric_receivedTotal _ _ ((List.Perm.swap a b []).append_left _)
  rw [hswap] at hright
  constructor
  · rintro ⟨ha, hb⟩
    exact ⟨hleft.mp ha, hright.mp hb⟩
  · rintro ⟨ha, hb⟩
    exact ⟨hleft.mpr ha, hright.mpr hb⟩

theorem sentSteady_iff (h : ∀ t ∈ day, ColumnAmount t.valueEth) {a b : Transfer}
    (hpair : Window.Pair day a b) : SentSteady day a b ↔ SentUnmoved day a b := by
  have hleft := sentTotals_concat_iff (amount_of_mem_ties (·.fromAddress) h hpair)
  have hright := sentTotals_concat_iff (amount_of_mem_swapped (·.fromAddress) h hpair)
  have hswap : sentTotals (Window.earlier (·.fromAddress) Before day a ++ [b, a]) =
      sentTotals (Window.earlier (·.fromAddress) Before day a ++ [a, b]) :=
    symmetric_sentTotals _ _ ((List.Perm.swap a b []).append_left _)
  rw [hswap] at hright
  constructor
  · rintro ⟨ha, hb⟩
    obtain ⟨hsumA, hhashB⟩ := hleft.mp ha
    obtain ⟨hsumB, hhashA⟩ := hright.mp hb
    exact ⟨⟨hsumA, hsumB⟩, hhashA, hhashB⟩
  · rintro ⟨⟨hsumA, hsumB⟩, hhashA, hhashB⟩
    exact ⟨hleft.mpr ⟨hsumA, hhashB⟩, hright.mpr ⟨hsumB, hhashA⟩⟩

theorem ties_iff_tiesAlike (h : ∀ t ∈ day, ColumnAmount t.valueEth) :
    Ties (SentSteady day) (ReceivedSteady day) day ↔ TiesAlike day := by
  constructor
  · rintro ⟨hsent, hreceived⟩
    constructor
    · intro a b hpair hfrom htime
      exact (hsent a b hpair hfrom htime).imp_right (sentSteady_iff h hpair).mp
    · intro a b hpair hto htime
      exact (hreceived a b hpair hto htime).imp (receivedSteady_iff h hpair).mp
        (And.imp_right (sentSteady_iff h hpair).mp)
  · rintro ⟨hsent, hreceived⟩
    constructor
    · intro a b hpair hfrom htime
      exact (hsent a b hpair hfrom htime).imp_right (sentSteady_iff h hpair).mpr
    · intro a b hpair hto htime
      exact (hreceived a b hpair hto htime).imp (receivedSteady_iff h hpair).mpr
        (And.imp_right (sentSteady_iff h hpair).mpr)

end Transfer

/-! ### The rows of `build_whale_txns` -/

/-- The label that an address has. -/
def labelOf (labels : List Label) (address : Option String) : Option Label :=
  (Join.found id Label.address labels address).head?

/-- A transaction that shows as the transfer. -/
def Transfer.transaction (date : ℤ) (t : Transfer) : SilverTransaction :=
  ⟨t.hash, none, t.blockTimestamp, t.fromAddress, t.toAddress, t.valueEth, none, some date⟩

def SentTransaction.seen (u : SentTransaction) : Transfer.Sent :=
  (u.labelled.transaction.transfer, (u.cumulSentEth, u.cumulTxCount))

/-- The columns of a row that its labels and flags are made of. -/
def WhaleRow.seen (row : WhaleRow) : Transfer.Sent × Option ℚ :=
  ((⟨row.hash, row.blockTimestamp, row.fromAddress, row.toAddress, row.valueEth⟩,
    (row.cumulSentEth, row.cumulTxCount)), row.cumulRecvEth)

section build

variable (txns : List SilverTransaction) (date : ℤ) (threshold : PyFloat)
  {file : Option (List Label)} (fromLabels toLabels : KnownLabels file)
  (byFrom : SenderOrder) (byTo : ReceiverOrder)

/-- The row of a transfer with its totals. -/
def rowOf (p : Transfer.Sent × Option ℚ) : WhaleRow :=
  let t := p.1.1
  whaleRow (⟨labelledTransaction ((t.transaction date, labelOf fromLabels.rows t.fromAddress),
    labelOf toLabels.rows t.toAddress), p.1.2.1, p.1.2.2⟩, p.2)

theorem rowOf_injective : Function.Injective (rowOf date fromLabels toLabels) :=
  Function.LeftInverse.injective (g := WhaleRow.seen) fun _ => rfl

/-- The transfers of the whales of a day. -/
def dayTransfers : List Transfer := (whaleTransactions txns date threshold).map (·.transfer)

theorem map_transfer_labelled :
    (labelledTransactions txns date threshold fromLabels toLabels).map (·.transaction.transfer) =
      dayTransfers txns date threshold := by
  unfold dayTransfers
  rw [← map_transaction_labelledTransactions txns date threshold fromLabels toLabels, List.map_map]
  rfl

/-- Labels belong to addresses. -/
theorem whaleRow_eq_rowOf {l : LabelledTransaction}
    (hl : l ∈ labelledTransactions txns date threshold fromLabels toLabels) (q y : Option ℚ)
    (n : ℕ) :
    whaleRow (⟨l, q, n⟩, y) =
      rowOf date fromLabels toLabels ((l.transaction.transfer, (q, n)), y) := by
  unfold labelledTransactions at hl
  rw [Join.left_eq_map fun row _ => Join.length_found_le_one toLabels.nodup row,
    Join.left_eq_map fun row _ => Join.length_found_le_one fromLabels.nodup row] at hl
  simp only [List.map_map, List.mem_map, Function.comp_apply] at hl
  obtain ⟨t, ht, rfl⟩ := hl
  have hdt := dt_of_mem ht
  unfold whaleRow rowOf labelledTransaction
  dsimp only
  rw [hdt]
  rfl

theorem sentTotals_comp : sentTotals =
    Transfer.sentTotals ∘ List.map fun l : LabelledTransaction => l.transaction.transfer := by
  funext rows
  simp only [sentTotals, Transfer.sentTotals, Function.comp_apply, List.map_map, List.countP_map]
  rfl

theorem receivedTotal_comp : receivedTotal =
    (fun upto : List Transfer.Sent => Transfer.receivedTotal (upto.map (·.1))) ∘
      List.map SentTransaction.seen := by
  funext rows
  simp only [receivedTotal, Transfer.receivedTotal, Function.comp_apply, List.map_map]
  rfl

theorem map_seen_sentTransactions :
    (sentTransactions txns date threshold fromLabels toLabels byFrom).map SentTransaction.seen =
      Transfer.sent ((byFrom.run (labelledTransactions txns date threshold fromLabels toLabels)).map
        (·.transaction.transfer)) := by
  unfold sentTransactions Transfer.sent
  rw [over_senderKey, Window.overParts_map, ← sentTotals_comp, List.map_map]
  rfl

theorem buildWhaleTxns_eq :
    buildWhaleTxns txns date threshold fromLabels toLabels byFrom byTo =
      (Transfer.received ((byTo.run (sentTransactions txns date threshold fromLabels toLabels
        byFrom)).map SentTransaction.seen)).map (rowOf date fromLabels toLabels) := by
  unfold buildWhaleTxns Transfer.received
  rw [over_receiverKey, Window.overParts_map, ← receivedTotal_comp, List.map_map]
  refine List.map_congr_left fun p hp => ?_
  have hrow : p.1 ∈ byTo.run (sentTransactions txns date threshold fromLabels toLabels byFrom) := by
    have hmem := List.mem_map_of_mem (f := fun p : SentTransaction × Option ℚ => id p.1) hp
    rwa [Window.map_overParts id, List.map_id] at hmem
  have hlabelled : p.1.labelled ∈ labelledTransactions txns date threshold fromLabels toLabels :=
    (map_labelled_sentTransactions txns date threshold fromLabels toLabels byFrom).mem_iff.mp
      (List.mem_map_of_mem ((byTo.perm _).mem_iff.mp hrow))
  exact whaleRow_eq_rowOf txns date threshold fromLabels toLabels hlabelled _ _ _

/-! ### Two executions -/

/-- Any two executions over the rows, in whatever order these come, yield the same rows. -/
def OrderIndependent : Prop :=
  ∀ txns₁ txns₂ : List SilverTransaction, txns₁.Perm txns → txns₂.Perm txns →
    ∀ (byFrom₁ byFrom₂ : SenderOrder) (byTo₁ byTo₂ : ReceiverOrder),
      (buildWhaleTxns txns₁ date threshold fromLabels toLabels byFrom₁ byTo₁).Perm
        (buildWhaleTxns txns₂ date threshold fromLabels toLabels byFrom₂ byTo₂)

end build

section executions

variable {txns txns' : List SilverTransaction} {date : ℤ} {threshold : PyFloat}
  {file : Option (List Label)} (fromLabels toLabels : KnownLabels file)
  {byTo : ReceiverOrder}

/-- What an execution sorts are the transfers of the day. -/
theorem sentOrder_of_perm (byFrom : SenderOrder) (hperm : txns'.Perm txns) :
    Transfer.SentOrder (dayTransfers txns date threshold)
      ((byFrom.run (labelledTransactions txns' date threshold fromLabels toLabels)).map
        (·.transaction.transfer)) := by
  constructor
  · refine ((byFrom.perm _).map _).trans ?_
    rw [map_transfer_labelled]
    exact ((hperm.map _).filter _).map _
  · exact List.pairwise_map.mpr (byFrom.sorted _)

theorem receivedOrder_run (rows : List SentTransaction) :
    Transfer.ReceivedOrder (rows.map SentTransaction.seen)
      ((byTo.run rows).map SentTransaction.seen) :=
  ⟨(byTo.perm rows).map _, List.pairwise_map.mpr (byTo.sorted rows)⟩

/-- Every order of the transfers is what some execution sorts them into. -/
theorem exists_byFrom {l : List Transfer}
    (hl : Transfer.SentOrder (dayTransfers txns date threshold) l) :
    ∃ byFrom : SenderOrder,
      (byFrom.run (labelledTransactions txns date threshold fromLabels toLabels)).map
        (·.transaction.transfer) = l := by
  rw [← map_transfer_labelled txns date threshold fromLabels toLabels] at hl
  obtain ⟨m, rfl, hm⟩ := hl.exists_map
  obtain ⟨byFrom, hrun⟩ := Window.Arrangement.exists_sorting hm stableSenderOrder
  exact ⟨byFrom, by rw [hrun _ (List.Perm.refl _)]⟩

theorem exists_byTo {rows : List SentTransaction} {m : List Transfer.Sent}
    (hm : Transfer.ReceivedOrder (rows.map SentTransaction.seen) m) :
    ∃ byTo : ReceiverOrder, (byTo.run rows).map SentTransaction.seen = m := by
  obtain ⟨n, rfl, hn⟩ := hm.exists_map
  obtain ⟨byTo, hrun⟩ := Window.Arrangement.exists_sorting hn stableReceiverOrder
  exact ⟨byTo, by rw [hrun _ (List.Perm.refl _)]⟩

/-- The executions are the orders of the two windows. -/
theorem orderIndependent_iff_orders : OrderIndependent txns date threshold fromLabels toLabels ↔
    ∀ l l' m m', Transfer.SentOrder (dayTransfers txns date threshold) l →
      Transfer.SentOrder (dayTransfers txns date threshold) l' →
      Transfer.ReceivedOrder (Transfer.sent l) m → Transfer.ReceivedOrder (Transfer.sent l') m' →
        (Transfer.received m).Perm (Transfer.received m') := by
  constructor
  · intro h l l' m m' hl hl' hm hm'
    obtain ⟨byFrom₁, rfl⟩ := exists_byFrom fromLabels toLabels hl
    obtain ⟨byFrom₂, rfl⟩ := exists_byFrom fromLabels toLabels hl'
    rw [← map_seen_sentTransactions] at hm hm'
    obtain ⟨byTo₁, rfl⟩ := exists_byTo hm
    obtain ⟨byTo₂, rfl⟩ := exists_byTo hm'
    have hperm := h txns txns (List.Perm.refl _) (List.Perm.refl _) byFrom₁ byFrom₂ byTo₁ byTo₂
    rw [buildWhaleTxns_eq, buildWhaleTxns_eq] at hperm
    exact (List.map_perm_map_iff (rowOf_injective date fromLabels toLabels)).mp hperm
  · intro h txns₁ txns₂ hperm₁ hperm₂ byFrom₁ byFrom₂ byTo₁ byTo₂
    rw [buildWhaleTxns_eq, buildWhaleTxns_eq]
    refine (h _ _ _ _ (sentOrder_of_perm fromLabels toLabels byFrom₁ hperm₁)
      (sentOrder_of_perm fromLabels toLabels byFrom₂ hperm₂) ?_ ?_).map _
    · rw [← map_seen_sentTransactions]
      exact receivedOrder_run _
    · rw [← map_seen_sentTransactions]
      exact receivedOrder_run _

end executions

/-- What the writer of `txn_enriched` stores: amounts of the type of the column, none
below zero. -/
theorem amount_of_mem_readTxnEnriched {day : BronzeDay} {date : ℤ} {t : SilverTransaction}
    (ht : t ∈ readTxnEnriched (buildTxnEnriched day) date) {q : ℚ} (hq : t.valueEth = some q) :
    Decimal.Fits ⟨38, 18⟩ q ∧ 0 ≤ q := by
  obtain ⟨row, hrow, rfl⟩ := List.mem_map.mp ht
  obtain ⟨pair, -, rfl⟩ := List.mem_map.mp (List.mem_of_mem_filter hrow)
  exact ⟨fits_valueEth hq, valueEth_nonneg hq⟩

/-- **Whale enrichment and the order of rows**: all executions over the rows of a day
yield the same rows exactly when transactions that tie are alike. -/
theorem order_independent_iff (txns : List SilverTransaction) (date : ℤ) (threshold : PyFloat)
    (file : Option (List Label)) (fromLabels toLabels : KnownLabels file)
    (hamounts : ∀ t ∈ txns, ∀ q, t.valueEth = some q → Decimal.Fits ⟨38, 18⟩ q ∧ 0 ≤ q) :
    OrderIndependent txns date threshold fromLabels toLabels ↔
      Transfer.TiesAlike (dayTransfers txns date threshold) := by
  have hcolumn : ∀ t ∈ dayTransfers txns date threshold, ColumnAmount t.valueEth := by
    intro t ht
    obtain ⟨t', ht', rfl⟩ := List.mem_map.mp ht
    obtain ⟨hmem, hpass⟩ := List.mem_filter.mp ht'
    obtain ⟨source, hsource, rfl⟩ := List.mem_map.mp hmem
    obtain ⟨hvalue, -⟩ := of_decide_eq_true hpass
    -- a row that passes the filter has an amount
    obtain ⟨q, hq, -⟩ := Option.map_eq_some_iff.mp hvalue
    exact ⟨q, hq, hamounts source hsource q hq⟩
  rw [orderIndependent_iff_orders, Transfer.steady_iff_ties hcolumn,
    Transfer.ties_iff_tiesAlike hcolumn]

/-! ### A day without ties, and a day with one -/

/-- No two transactions of a second. -/
theorem Transfer.tiesAlike_of_nodup {day : List Transfer}
    (h : (day.map (·.blockTimestamp)).Nodup) : Transfer.TiesAlike day := by
  have hne : ∀ a b, Window.Pair day a b → a.blockTimestamp ≠ b.blockTimestamp := by
    rintro a b ⟨rest, hperm⟩
    have hnodup := (hperm.map (·.blockTimestamp)).nodup_iff.mpr h
    simp only [List.map_cons, List.nodup_cons, List.mem_cons, not_or] at hnodup
    exact hnodup.1.1
  constructor
  · intro a b hpair _ htime
    exact absurd htime (hne a b hpair)
  · intro a b hpair _ htime
    exact absurd htime (hne a b hpair)

/-- Two transfers of one sender, so many seconds apart. -/
def twoTransfers (apart : ℤ) : List SilverTransaction :=
  [⟨some "0x1", some 1, some 0, some "0xa", some "0xb", some 100, some true, none⟩,
    ⟨some "0x2", some 1, some apart, some "0xa", some "0xc", some 200, some true, none⟩]

theorem amount_of_mem_twoTransfers {apart : ℤ} {t : SilverTransaction} (ht : t ∈ twoTransfers apart)
    {q : ℚ} (hq : t.valueEth = some q) : Decimal.Fits ⟨38, 18⟩ q ∧ 0 ≤ q := by
  have hfits : ∀ n : ℕ, n ≤ 200 → Decimal.Fits ⟨38, 18⟩ (n : ℚ) := fun n hn =>
    Decimal.fits_natCast (show n * 10 ^ 18 < 10 ^ 38 by omega)
  simp only [twoTransfers, List.mem_cons, List.not_mem_nil, or_false] at ht
  rcases ht with rfl | rfl
  · cases hq
    exact ⟨hfits 100 (by decide), by norm_num⟩
  · cases hq
    exact ⟨hfits 200 (by decide), by norm_num⟩

theorem nextBlock_independent :
    OrderIndependent (twoTransfers 12) 0 (.finite 100) (⟨manualLabels, rfl⟩ : KnownLabels none)
      ⟨manualLabels, rfl⟩ :=
  (order_independent_iff (twoTransfers 12) 0 (.finite 100) none ⟨manualLabels, rfl⟩
    ⟨manualLabels, rfl⟩ fun _ ht _ hq => amount_of_mem_twoTransfers ht hq).mpr
    (Transfer.tiesAlike_of_nodup (by decide +kernel))

/-- **In one block**: the running totals go with the order of the rows. -/
theorem sameBlock_depends :
    (∀ t ∈ twoTransfers 0, ∀ q, t.valueEth = some q → Decimal.Fits ⟨38, 18⟩ q ∧ 0 ≤ q) ∧
      ¬ OrderIndependent (twoTransfers 0) 0 (.finite 100)
        (⟨manualLabels, rfl⟩ : KnownLabels none) ⟨manualLabels, rfl⟩ := by
  refine ⟨fun t ht q hq => amount_of_mem_twoTransfers ht hq, fun h => ?_⟩
  have hperm := h (twoTransfers 0) (twoTransfers 0).reverse (List.Perm.refl _)
    (List.reverse_perm _) insertionSenderOrder insertionSenderOrder insertionReceiverOrder
    insertionReceiverOrder
  have hcumul := hperm.map fun row => (row.hash, row.cumulSentEth)
  exact absurd hcumul (by decide +kernel)

end Silver

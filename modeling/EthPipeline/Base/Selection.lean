import EthPipeline.Base.Query
import Mathlib.Algebra.Order.Group.Multiset
import Mathlib.Algebra.Order.Ring.Int
import Mathlib.Data.Finset.Max

/-!
# The newest rows of a table

A query with `ORDER BY time DESC LIMIT n` chooses rows; how ties fall is open.
`Top` says which choices are right, without the order of the answer.

* `answer_iff_top`: an answer is a sorted list of the rows of a right choice.
* `Top.union`: two right choices from overlapping tables, put together and cut
  again, are right for the union of the tables, if no row of both is among the
  newest.
* `exists_answer_with`: equally new rows that fit are chosen by some answer.
-/

namespace Query

variable {ρ : Type} {time : ρ → ℤ} {limit : ℕ}

/-- The rows strictly newer than `t`. -/
def since (time : ρ → ℤ) (t : ℤ) (rows : Multiset ρ) : Multiset ρ :=
  rows.filter fun r => t < time r

theorem since_le (t : ℤ) (rows : Multiset ρ) : since time t rows ≤ rows := Multiset.filter_le _ _

theorem since_mono {rows rows' : Multiset ρ} (t : ℤ) (h : rows ≤ rows') :
    since time t rows ≤ since time t rows' := Multiset.filter_le_filter _ h

theorem since_anti {s t : ℤ} (h : s ≤ t) (rows : Multiset ρ) :
    since time t rows ≤ since time s rows :=
  Multiset.monotone_filter_right rows fun _ hr => h.trans_lt hr

theorem since_add (t : ℤ) (rows rows' : Multiset ρ) :
    since time t (rows + rows') = since time t rows + since time t rows' :=
  Multiset.filter_add _ _ _

theorem le_since {t : ℤ} {rows rows' : Multiset ρ} :
    rows ≤ since time t rows' ↔ rows ≤ rows' ∧ ∀ r ∈ rows, t < time r := Multiset.le_filter

theorem not_mem_since_self (a : ρ) (rows : Multiset ρ) : a ∉ since time (time a) rows :=
  fun h => lt_irrefl _ (Multiset.mem_filter.mp h).2

/-- `chosen` are `limit` newest rows of `rows`, or all there are. -/
structure Top (time : ρ → ℤ) (limit : ℕ) (rows chosen : Multiset ρ) : Prop where
  le : chosen ≤ rows
  card : chosen.card = min limit rows.card
  newest : ∀ a ∈ chosen, since time (time a) rows ≤ chosen

namespace Top

variable {rows chosen : Multiset ρ}

theorem card_le (h : Top time limit rows chosen) : chosen.card ≤ limit := by
  rw [h.card]
  exact Nat.min_le_left _ _

/-- Where the choice is not full of rows newer than `t`, it has all of them. -/
theorem since_eq (h : Top time limit rows chosen) {t : ℤ}
    (hlt : (since time t chosen).card < limit) : since time t chosen = since time t rows := by
  refine le_antisymm (since_mono t h.le) ?_
  by_cases hall : rows.card ≤ limit
  · have hcard : rows.card ≤ chosen.card := by
      rw [h.card]
      omega
    rw [Multiset.eq_of_le_of_card_le h.le hcard]
  · have hfull : chosen.card = limit := by
      rw [h.card]
      omega
    -- a chosen row that is not newer than `t` brings in every row that is
    have hold : ∃ a ∈ chosen, time a ≤ t := by
      by_contra hno
      push Not at hno
      have hself : since time t chosen = chosen := Multiset.filter_eq_self.mpr hno
      rw [hself] at hlt
      omega
    obtain ⟨a, ha, hat⟩ := hold
    exact le_since.mpr ⟨(since_anti hat rows).trans (h.newest a ha),
      fun r hr => (Multiset.mem_filter.mp hr).2⟩

theorem card_since_lt (h : Top time limit rows chosen) {a : ρ} (ha : a ∈ chosen) :
    (since time (time a) chosen).card < limit := by
  have hne : since time (time a) chosen ≠ chosen := by
    intro heq
    have hnot : a ∉ since time (time a) chosen := not_mem_since_self a chosen
    exact hnot (by rwa [heq])
  have := Multiset.card_lt_card (lt_of_le_of_ne (since_le _ _) hne)
  have := h.card_le
  omega

theorem since_eq_of_mem (h : Top time limit rows chosen) {a : ρ} (ha : a ∈ chosen) :
    since time (time a) chosen = since time (time a) rows :=
  h.since_eq (h.card_since_lt ha)

end Top

/-! ### Answers -/

/-- **An answer is a right choice, sorted.** -/
theorem answer_iff_top {rows result : List ρ} :
    Answer (Newer time) limit rows result ↔
      result.Pairwise (Newer time) ∧ Top time limit ↑rows ↑result := by
  constructor
  · rintro ⟨sorted, hperm, hsorted, rfl⟩
    have hrows : (rows : Multiset ρ) = ↑(sorted.take limit) + ↑(sorted.drop limit) := by
      rw [Multiset.coe_add, List.take_append_drop]
      exact (Multiset.coe_eq_coe.mpr hperm).symm
    refine ⟨hsorted.sublist (List.take_sublist _ _), ?_, ?_, ?_⟩
    · rw [hrows]
      exact Multiset.le_add_right _ _
    · simp [hperm.length_eq]
    · intro a ha
      have hold : since time (time a) (↑(sorted.drop limit) : Multiset ρ) = 0 := by
        refine Multiset.filter_eq_nil.mpr fun b hb => ?_
        rw [← List.take_append_drop limit sorted, List.pairwise_append] at hsorted
        exact not_lt.mpr (hsorted.2.2 a ha b hb)
      rw [hrows, since_add, hold, Multiset.add_zero]
      exact since_le _ _
  · rintro ⟨hsorted, htop⟩
    obtain ⟨rest, hrest⟩ := Multiset.le_iff_exists_add.mp htop.le
    obtain ⟨rest, rfl⟩ : ∃ l : List ρ, (l : Multiset ρ) = rest := Quot.exists_rep rest
    obtain ⟨old, hperm, hold, -⟩ := answer_latest time rest.length rest
    refine ⟨result ++ old, ?_, ?_, ?_⟩
    · refine (List.Perm.append_left result hperm).trans (Multiset.coe_eq_coe.mp ?_)
      rw [hrest, Multiset.coe_add]
    · refine List.pairwise_append.mpr ⟨hsorted, hold, fun a ha b hb => ?_⟩
      by_contra hlt
      have heq := htop.since_eq_of_mem ha
      rw [hrest, since_add] at heq
      have hb' : b ∈ since time (time a) (rest : Multiset ρ) :=
        Multiset.mem_filter.mpr ⟨hperm.subset hb, not_le.mp hlt⟩
      have hcard := congrArg Multiset.card heq
      have hpos := Multiset.card_pos_iff_exists_mem.mpr ⟨b, hb'⟩
      rw [Multiset.card_add] at hcard
      omega
    · have hcard := htop.card
      have hlen : rows.length = result.length + old.length := by
        rw [hperm.length_eq]
        simpa using congrArg Multiset.card hrest
      simp only [Multiset.coe_card] at hcard
      rcases Nat.le_total limit rows.length with h | h
      · rw [List.take_left' (by omega)]
      · rw [List.take_of_length_le (by rw [List.length_append]; omega),
          List.eq_nil_of_length_eq_zero (by omega : old.length = 0), List.append_nil]

/-! ### Two choices put together -/

section union

variable {sent received both all outgoing incoming chosen : Multiset ρ}

/-- Where the last choice is not full of rows newer than `t`, it has all of both
tables. -/
theorem Top.since_union (hout : Top time limit sent outgoing)
    (hin : Top time limit received incoming) (h : Top time limit (outgoing + incoming) chosen)
    {t : ℤ} (hlt : (since time t chosen).card < limit) :
    since time t chosen = since time t (sent + received) := by
  have hboth := h.since_eq hlt
  rw [hboth, since_add, Multiset.card_add] at hlt
  rw [hboth, since_add, since_add, hout.since_eq (t := t) (by omega),
    hin.since_eq (t := t) (by omega)]

/-- The newest row of both tables leaves nothing newer counted twice. -/
theorem since_newest (hadd : sent + received = all + both) {s : ρ}
    (hs : ∀ r ∈ both, time r ≤ time s) :
    since time (time s) (sent + received) = since time (time s) all := by
  have hnone : since time (time s) both = 0 :=
    Multiset.filter_eq_nil.mpr fun r hr => not_lt.mpr (hs r hr)
  rw [hadd, since_add, hnone, Multiset.add_zero]

/-- **Choosing from the union.**  `both` are the rows that both tables have, and
`all` those that either has. -/
theorem Top.union (hadd : sent + received = all + both) (hsent : sent ≤ all)
    (hreceived : received ≤ all) (hout : Top time limit sent outgoing)
    (hin : Top time limit received incoming) (h : Top time limit (outgoing + incoming) chosen)
    (hboth : ∀ s ∈ both, limit ≤ (since time (time s) all).card + 1) :
    Top time limit all chosen := by
  have hle : chosen ≤ sent + received := h.le.trans (add_le_add hout.le hin.le)
  have hall : all ≤ sent + received := by
    rw [hadd]
    exact Multiset.le_add_right _ _
  have hchosen : chosen ≤ all := by
    by_cases hnone : both = 0
    · rw [hadd, hnone, Multiset.add_zero] at hle
      exact hle
    obtain ⟨s, hs, hnewest⟩ := Multiset.exists_max_image time hnone
    have hsame := since_newest hadd hnewest
    have hsplit : since time (time s) chosen + chosen.filter (fun r => ¬time s < time r) = chosen :=
      Multiset.filter_add_not _ _
    -- at most one row of the choice is not newer than `s`
    have hold : (chosen.filter fun r => ¬time s < time r).card ≤ 1 := by
      have hcard := congrArg Multiset.card hsplit
      rw [Multiset.card_add] at hcard
      have := h.card_le
      by_cases hlt : (since time (time s) chosen).card < limit
      · have hfull := hboth s hs
        rw [← hsame, ← Top.since_union hout hin h hlt] at hfull
        omega
      · omega
    have hnew : since time (time s) chosen ≤ since time (time s) all := by
      rw [← hsame]
      exact since_mono _ hle
    have holdle : (chosen.filter fun r => ¬time s < time r) ≤ all.filter fun r => ¬time s < time r := by
      rcases Nat.le_one_iff_eq_zero_or_eq_one.mp hold with h0 | h1
      · rw [Multiset.card_eq_zero.mp h0]
        exact Multiset.zero_le _
      · obtain ⟨y, hy⟩ := Multiset.card_eq_one.mp h1
        have hmem : y ∈ chosen.filter fun r => ¬time s < time r := by
          rw [hy]
          exact Multiset.mem_singleton_self y
        obtain ⟨hychosen, hyold⟩ := Multiset.mem_filter.mp hmem
        rw [hy, Multiset.singleton_le]
        refine Multiset.mem_filter.mpr ⟨?_, hyold⟩
        rcases Multiset.mem_add.mp (Multiset.mem_of_le hle hychosen) with hy | hy
        · exact Multiset.mem_of_le hsent hy
        · exact Multiset.mem_of_le hreceived hy
    calc chosen = since time (time s) chosen + chosen.filter (fun r => ¬time s < time r) :=
          hsplit.symm
      _ ≤ since time (time s) all + all.filter (fun r => ¬time s < time r) :=
          add_le_add hnew holdle
      _ = all := Multiset.filter_add_not _ _
  refine ⟨hchosen, ?_, fun a ha => ?_⟩
  · have h1 := h.card
    have h2 := hout.card
    have h3 := hin.card
    have h4 := congrArg Multiset.card hadd
    have h5 := Multiset.card_le_card hchosen
    rw [Multiset.card_add] at h1
    rw [Multiset.card_add, Multiset.card_add] at h4
    omega
  · calc since time (time a) all ≤ since time (time a) (sent + received) := since_mono _ hall
      _ = since time (time a) chosen := (Top.since_union hout hin h (h.card_since_lt ha)).symm
      _ ≤ chosen := since_le _ _

end union

/-! ### A choice that takes given rows -/

theorem exists_sorted (time : ρ → ℤ) (rows : List ρ) :
    ∃ sorted : List ρ, sorted.Perm rows ∧ sorted.Pairwise (Newer time) := by
  obtain ⟨sorted, hperm, hsorted, -⟩ := answer_latest time 0 rows
  exact ⟨sorted, hperm, hsorted⟩

/-- Rows of one time that fit below the newer ones are chosen by some answer. -/
theorem exists_answer_with {t : ℤ} (xs rest : List ρ) {rows : List ρ} (hperm : (xs ++ rest).Perm rows)
    (hxs : ∀ x ∈ xs, time x = t) (hfit : (since time t (rows : Multiset ρ)).card + xs.length ≤ limit) :
    ∃ result, Answer (Newer time) limit rows result ∧ (xs : Multiset ρ) ≤ result := by
  obtain ⟨newer, hnewer, hnewer_sorted⟩ := exists_sorted time (rest.filter fun r => t < time r)
  obtain ⟨older, holder, holder_sorted⟩ :=
    exists_sorted time (rest.filter fun r => !decide (t < time r))
  have hnew : ∀ r ∈ newer, t < time r := fun r hr => by
    simpa using (List.mem_filter.mp (hnewer.subset hr)).2
  have hold : ∀ r ∈ older, time r ≤ t := fun r hr => by
    simpa using (List.mem_filter.mp (holder.subset hr)).2
  have hlen : newer.length + xs.length ≤ limit := by
    have hle : newer.length ≤ (since time t (rows : Multiset ρ)).card := by
      rw [hnewer.length_eq, ← Multiset.coe_eq_coe.mpr hperm, ← Multiset.coe_add, since_add,
        Multiset.card_add]
      exact Nat.le_add_left _ _
    omega
  refine ⟨_, ⟨newer ++ (xs ++ older), ?_, ?_, rfl⟩, ?_⟩
  · have hrest : (newer ++ older).Perm rest :=
      (hnewer.append holder).trans (List.filter_append_perm _ _)
    have hfront : (newer ++ (xs ++ older)).Perm (xs ++ (newer ++ older)) := by
      rw [← List.append_assoc, ← List.append_assoc]
      exact List.perm_append_comm.append_right older
    exact (hfront.trans (hrest.append_left xs)).trans hperm
  · have hequal : xs.Pairwise (Newer time) :=
      List.pairwise_of_forall_mem_list fun x hx y hy => by
        rw [Newer, hxs x hx, hxs y hy]
    refine List.pairwise_append.mpr ⟨hnewer_sorted, ?_, fun r hr y hy => ?_⟩
    · refine List.pairwise_append.mpr ⟨hequal, holder_sorted, fun x hx y hy => ?_⟩
      rw [Newer, hxs x hx]
      exact hold y hy
    · refine le_trans ?_ (hnew r hr).le
      rcases List.mem_append.mp hy with hy | hy
      · exact (hxs y hy).le
      · exact hold y hy
  · have htake : (newer ++ (xs ++ older)).take limit =
        newer ++ xs ++ older.take (limit - (newer ++ xs).length) := by
      rw [← List.append_assoc, List.take_append,
        List.take_of_length_le (by rw [List.length_append]; omega)]
    rw [htake, ← Multiset.coe_add, ← Multiset.coe_add]
    exact (Multiset.le_add_left _ _).trans (Multiset.le_add_right _ _)

/-! ### Two limited queries -/

section queries

variable {stored : List ρ} {sent received : ρ → Bool}

theorem coe_filter_add (stored : List ρ) (sent received : ρ → Bool) :
    (stored.filter sent : Multiset ρ) + (stored.filter received : Multiset ρ) =
      (stored.filter fun r => sent r || received r : List ρ) +
        (stored.filter fun r => sent r && received r : List ρ) := by
  have h := Multiset.filter_add_filter (fun r => sent r = true) (fun r => received r = true)
    (stored : Multiset ρ)
  simpa using h

theorem filter_left_le (stored : List ρ) (sent received : ρ → Bool) :
    (stored.filter sent : Multiset ρ) ≤ (stored.filter fun r => sent r || received r : List ρ) :=
  (List.monotone_filter_right stored fun r h => by simp [h]).subperm

theorem filter_right_le (stored : List ρ) (sent received : ρ → Bool) :
    (stored.filter received : Multiset ρ) ≤
      (stored.filter fun r => sent r || received r : List ρ) :=
  (List.monotone_filter_right stored fun r h => by simp [h]).subperm

theorem card_since_filter (stored : List ρ) (p : ρ → Bool) (t : ℤ) :
    (since time t (stored.filter p : List ρ)).card =
      (stored.filter fun r => p r && t < time r).length := by
  have hand : (fun r => decide (t < time r) && p r) = fun r => p r && decide (t < time r) := by
    funext r
    exact Bool.and_comm _ _
  simp [since, List.filter_filter, hand]

/-- A row that leaves room for itself is in some answer. -/
theorem exists_answer_mem {rows : List ρ} {s : ρ} (hs : s ∈ rows)
    (hfit : (since time (time s) (rows : Multiset ρ)).card + 1 ≤ limit) :
    ∃ result rest, Answer (Newer time) limit rows result ∧ result.Perm (s :: rest) := by
  obtain ⟨front, back, rfl⟩ := List.append_of_mem hs
  have hone : ∀ x ∈ [s], time x = time s := fun x hx => by rw [List.mem_singleton.mp hx]
  have hperm : ([s] ++ (front ++ back)).Perm (front ++ s :: back) := by
    rw [List.singleton_append]
    exact List.perm_middle.symm
  obtain ⟨result, hanswer, hle⟩ := exists_answer_with [s] (front ++ back) hperm hone hfit
  obtain ⟨before, after, rfl⟩ := List.append_of_mem (Multiset.singleton_le.mp hle)
  exact ⟨_, before ++ after, hanswer, List.perm_middle⟩

/-- A row that both queries find, and that leaves room for two, is found twice by
some answer. -/
theorem exists_answer_twice {s : ρ} (hs : s ∈ stored) (hsent : sent s) (hreceived : received s)
    (hnewest : ∀ r ∈ stored, sent r → received r → time r ≤ time s)
    (hfit : (stored.filter fun r => (sent r || received r) && time s < time r).length + 2 ≤ limit) :
    ∃ outgoing incoming found, Answer (Newer time) limit (stored.filter sent) outgoing ∧
      Answer (Newer time) limit (stored.filter received) incoming ∧
        Answer (Newer time) limit (outgoing ++ incoming) found ∧
          (s ::ₘ s ::ₘ 0 : Multiset ρ) ≤ found := by
  have hboth : ∀ r ∈ ((stored.filter fun r => sent r && received r : List ρ) : Multiset ρ),
      time r ≤ time s := by
    intro r hr
    obtain ⟨hr, hrboth⟩ := List.mem_filter.mp hr
    obtain ⟨h1, h2⟩ := Bool.and_eq_true_iff.mp hrboth
    exact hnewest r hr h1 h2
  have hsum := since_newest (coe_filter_add stored sent received) hboth
  rw [← card_since_filter stored (fun r => sent r || received r), ← hsum] at hfit
  have hfit_of : ∀ rows : Multiset ρ,
      rows ≤ (stored.filter sent : Multiset ρ) + (stored.filter received : Multiset ρ) →
        (since time (time s) rows).card + 2 ≤ limit := by
    intro rows hrows
    refine le_trans ?_ hfit
    exact Nat.add_le_add_right (Multiset.card_le_card (since_mono _ hrows)) 2
  have hfit_sent := hfit_of _ (Multiset.le_add_right (stored.filter sent : Multiset ρ) _)
  have hfit_received := hfit_of _ (Multiset.le_add_left (stored.filter received : Multiset ρ) _)
  obtain ⟨outgoing, out, hout, hout_perm⟩ : ∃ result rest,
      Answer (Newer time) limit (stored.filter sent) result ∧ result.Perm (s :: rest) :=
    exists_answer_mem (List.mem_filter.mpr ⟨hs, hsent⟩) (by omega)
  obtain ⟨incoming, inc, hin, hin_perm⟩ : ∃ result rest,
      Answer (Newer time) limit (stored.filter received) result ∧ result.Perm (s :: rest) :=
    exists_answer_mem (List.mem_filter.mpr ⟨hs, hreceived⟩) (by omega)
  have hperm : ([s, s] ++ (out ++ inc)).Perm (outgoing ++ incoming) := by
    have hmiddle : (s :: (out ++ s :: inc)).Perm (s :: s :: (out ++ inc)) :=
      List.perm_middle.cons s
    exact (hout_perm.append hin_perm |>.trans hmiddle).symm
  have htwice : ∀ x ∈ [s, s], time x = time s := fun x hx => by
    rcases List.mem_cons.mp hx with rfl | hx
    · rfl
    · rw [List.mem_singleton.mp hx]
  have hroom := hfit_of _
    (add_le_add (answer_iff_top.mp hout).2.le (answer_iff_top.mp hin).2.le)
  rw [Multiset.coe_add] at hroom
  obtain ⟨found, hfound, hle⟩ := exists_answer_with [s, s] (out ++ inc) hperm htwice hroom
  exact ⟨outgoing, incoming, found, hout, hin, hfound, hle⟩

/-- **The answers of two limited queries, put together and limited again**, are
answers of the one query exactly when every row that both find has at least
`limit - 1` rows above it. -/
theorem answers_union_iff (hnodup : stored.Nodup) :
    (∀ outgoing incoming found, Answer (Newer time) limit (stored.filter sent) outgoing →
      Answer (Newer time) limit (stored.filter received) incoming →
        Answer (Newer time) limit (outgoing ++ incoming) found →
          Answer (Newer time) limit (stored.filter fun r => sent r || received r) found) ↔
      ∀ s ∈ stored, sent s → received s →
        limit ≤ (stored.filter fun r => (sent r || received r) && time s < time r).length + 1 := by
  constructor
  · intro h
    by_contra hno
    push Not at hno
    obtain ⟨s₀, hs₀, hsent₀, hreceived₀, hlt⟩ := hno
    have hmem : s₀ ∈ ((stored.filter fun r => sent r && received r : List ρ) : Multiset ρ) :=
      List.mem_filter.mpr ⟨hs₀, by simp [hsent₀, hreceived₀]⟩
    obtain ⟨s, hs, hnewest⟩ := Multiset.exists_max_image time
      (fun h0 => Multiset.notMem_zero s₀ (h0 ▸ hmem))
    obtain ⟨hstored, hboth⟩ := List.mem_filter.mp hs
    obtain ⟨hsent, hreceived⟩ := Bool.and_eq_true_iff.mp hboth
    -- the newest such row has no more rows above it than `s₀`
    have hfewer : (since time (time s) (stored.filter fun r => sent r || received r : List ρ)).card ≤
        (since time (time s₀) (stored.filter fun r => sent r || received r : List ρ)).card :=
      Multiset.card_le_card (since_anti (hnewest s₀ hmem) _)
    rw [card_since_filter, card_since_filter] at hfewer
    have hroom : (stored.filter fun r => (sent r || received r) && time s < time r).length + 2 ≤
        limit := by omega
    obtain ⟨outgoing, incoming, found, hout, hin, hfound, htwice⟩ :=
      exists_answer_twice hstored hsent hreceived
        (fun r hr h1 h2 => hnewest r (List.mem_filter.mpr ⟨hr, by simp [h1, h2]⟩)) hroom
    have hle := (answer_iff_top.mp (h outgoing incoming found hout hin hfound)).2.le
    have hnodup' : (stored.filter fun r => sent r || received r : List ρ).Nodup := hnodup.filter _
    exact Multiset.nodup_iff_le.mp (Multiset.coe_nodup.mpr hnodup') s (htwice.trans hle)
  · intro h outgoing incoming found hout hin hfound
    have hout := answer_iff_top.mp hout
    have hin := answer_iff_top.mp hin
    obtain ⟨hsorted, hfound⟩ := answer_iff_top.mp hfound
    refine answer_iff_top.mpr ⟨hsorted, ?_⟩
    rw [← Multiset.coe_add] at hfound
    refine Top.union (coe_filter_add stored sent received) (filter_left_le stored sent received)
      (filter_right_le stored sent received) hout.2 hin.2 hfound fun s hs => ?_
    obtain ⟨hs, hboth⟩ := List.mem_filter.mp hs
    obtain ⟨h1, h2⟩ := Bool.and_eq_true_iff.mp hboth
    rw [card_since_filter]
    exact h s hs h1 h2

end queries

end Query

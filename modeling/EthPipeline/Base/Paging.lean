import EthPipeline.Base.Query
import EthPipeline.Base.Ties
import Mathlib.Data.List.Nodup

/-!
# Reading a query page by page

Each page is a query of its own, with an offset, and sorts the rows anew: rows that
tie may stand in another order on every page.

* `take_perm`: where two neighbours do not tie, every order has the same rows before
  the cut.
* `pages_perm_iff`: the pages have every row once, however ties fall, just when no tie
  crosses the end of a page.
* `collected_iff`: reading until a page is empty.
* `mem_take_iff`: the rows that the first page has in every order.
-/

namespace Query

open Window

variable {α : Type} {le : α → α → Prop} {rows l l' before after : List α} {x y : α}

/-- `LIMIT limit OFFSET k * limit` of the sorted rows. -/
def page (limit : ℕ) (sorted : List α) (k : ℕ) : List α := (sorted.drop (k * limit)).take limit

/-- The rows before and after place `n` do not tie. -/
def StrictAt (le : α → α → Prop) (l : List α) (n : ℕ) : Prop :=
  ∀ x y, l[n - 1]? = some x → l[n]? = some y → ¬le y x

/-! ### Cuts between rows that do not tie -/

theorem exists_neighbours {n : ℕ} (hn : 0 < n) (hx : l[n - 1]? = some x) (hy : l[n]? = some y) :
    ∃ before after, l = before ++ x :: y :: after ∧ before.length + 1 = n := by
  obtain ⟨hlast, hx⟩ := List.getElem?_eq_some_iff.mp hx
  obtain ⟨hlen, hy⟩ := List.getElem?_eq_some_iff.mp hy
  refine ⟨l.take (n - 1), l.drop (n + 1), ?_, ?_⟩
  · have hdrop : l.drop (n - 1) = x :: y :: l.drop (n + 1) := by
      rw [List.drop_eq_getElem_cons hlast, hx]
      have hnext : n - 1 + 1 = n := by omega
      rw [hnext, List.drop_eq_getElem_cons hlen, hy]
    rw [← hdrop, List.take_append_drop]
  · rw [List.length_take]
    omega

/-- **Every order has the same rows before a cut** between two that do not tie. -/
theorem take_perm (htrans : ∀ a b c, le a b → le b c → le a c) (hrefl : ∀ a, le a a) {n : ℕ}
    (hn : 0 < n) (hl : Arrangement le rows l) (hl' : Arrangement le rows l')
    (hstrict : StrictAt le l n) : (l'.take n).Perm (l.take n) := by
  classical
  have hperm := hl'.perm.trans hl.perm.symm
  by_cases hlen : n < l.length
  · obtain ⟨before, after, hsplit, hbefore⟩ := exists_neighbours hn
      (List.getElem?_eq_getElem (by omega)) (List.getElem?_eq_getElem hlen)
    set x := l[n - 1]
    set y := l[n]
    have hyx : ¬le y x := hstrict x y (List.getElem?_eq_getElem _) (List.getElem?_eq_getElem hlen)
    have hsorted := hl.sorted
    rw [hsplit, List.append_cons, List.pairwise_append] at hsorted
    obtain ⟨hfirst, hlast, hcross⟩ := hsorted
    -- the rows before the cut are those that the first row after it does not come before
    have hdown : ∀ a b, le a b → decide (¬le y b) = true → decide (¬le y a) = true := by
      intro a b hab hb
      refine decide_eq_true fun hya => ?_
      exact of_decide_eq_true hb (htrans y a b hya hab)
    have hcount : l.countP (fun a => decide (¬le y a)) = n := by
      rw [hsplit, List.append_cons, List.countP_append, List.countP_eq_length.mpr,
        List.countP_eq_zero.mpr]
      · simpa using hbefore
      · intro b hb hyb
        refine of_decide_eq_true hyb ?_
        rcases List.mem_cons.mp hb with rfl | hb
        · exact hrefl _
        · exact (List.pairwise_cons.mp hlast).1 b hb
      · intro a ha
        refine decide_eq_true fun hya => hyx ?_
        rcases List.mem_append.mp ha with ha' | ha'
        · have hax := (List.pairwise_append.mp hfirst).2.2 a ha' x (by simp)
          exact htrans y a x hya hax
        · obtain rfl := List.mem_singleton.mp ha'
          exact hya
    have hfilter := filter_eq_take hl.sorted hdown
    have hfilter' := filter_eq_take hl'.sorted hdown
    rw [hperm.countP_eq, hcount] at hfilter'
    rw [hcount] at hfilter
    rw [← hfilter, ← hfilter']
    exact hperm.filter _
  · have hlen' := hperm.length_eq
    rw [List.take_of_length_le (by omega), List.take_of_length_le (by omega)]
    exact hperm

theorem take_page (limit k : ℕ) (l : List α) :
    l.take ((k + 1) * limit) = l.take (k * limit) ++ page limit l k := by
  rw [Nat.succ_mul, List.take_add, page]

/-- The pages of one order are its rows. -/
theorem flatMap_page (limit n : ℕ) (l : List α) :
    (List.range n).flatMap (page limit l) = l.take (n * limit) := by
  induction n with
  | zero => simp
  | succ n ih =>
    rw [List.range_succ, List.flatMap_append, ih, List.flatMap_singleton, take_page]

theorem page_perm (htrans : ∀ a b c, le a b → le b c → le a c) (hrefl : ∀ a, le a a)
    {limit k : ℕ} (hlimit : 0 < limit) (hl : Arrangement le rows l) (hl' : Arrangement le rows l')
    (hstrict : ∀ k, 0 < k → StrictAt le l (k * limit)) : (page limit l' k).Perm (page limit l k) := by
  have htake : ∀ k, (l'.take (k * limit)).Perm (l.take (k * limit)) := by
    intro k
    rcases Nat.eq_zero_or_pos k with rfl | hk
    · simp
    · exact take_perm htrans hrefl (Nat.mul_pos hk hlimit) hl hl' (hstrict k hk)
  have hnext := htake (k + 1)
  rw [take_page, take_page] at hnext
  exact (List.perm_append_left_iff _).mp (hnext.trans ((htake k).symm.append_right _))

theorem mem_page {limit k i : ℕ} (h : l[i]? = some x) (hle : k * limit ≤ i)
    (hlt : i < (k + 1) * limit) : x ∈ page limit l k := by
  rw [Nat.succ_mul] at hlt
  have hx : (page limit l k)[i - k * limit]? = some x := by
    rw [page, List.getElem?_take_of_lt (by omega), List.getElem?_drop, ← h]
    congr 1
    omega
  exact List.mem_of_getElem? hx

theorem page_eq_nil_iff {limit k : ℕ} (hlimit : 0 < limit) :
    page limit l k = [] ↔ l.length ≤ k * limit := by
  rw [page, List.take_eq_nil_iff, List.drop_eq_nil_iff]
  omega

/-! ### All pages -/

section Pages

variable (htrans : ∀ a b c, le a b → le b c → le a c) (hrefl : ∀ a, le a a)

include htrans hrefl

/-- **The pages have every row once**, however ties fall, just when no tie crosses the end
of a page. -/
theorem pages_perm_iff (hnodup : rows.Nodup) {limit n : ℕ} (hlimit : 0 < limit)
    (hn : rows.length ≤ n * limit) (s : Sorting le) (hl : Arrangement le rows l) :
    (∀ order : ℕ → Sorting le,
        ((List.range n).flatMap fun k => page limit ((order k).run rows) k).Perm rows) ↔
      ∀ k, 0 < k → StrictAt le l (k * limit) := by
  constructor
  · intro h k hk x y hx hy hyx
    -- the two change places on the page before, and the second is read twice
    obtain ⟨before, after, hsplit, hbefore⟩ := exists_neighbours (Nat.mul_pos hk hlimit) hx hy
    have hsorted := hl.sorted
    rw [hsplit, List.pairwise_append] at hsorted
    have hxy : le x y := (List.pairwise_cons.mp hsorted.2.1).1 y List.mem_cons_self
    have hswap : Arrangement le rows (before ++ y :: x :: after) :=
      (TieSwap.mk before after x y hxy hyx).arrangement (hsplit ▸ hl)
    obtain ⟨s₁, hs₁⟩ := hl.exists_sorting s
    obtain ⟨s₂, hs₂⟩ := hswap.exists_sorting s
    have hpages := h fun i => if i = k then s₁ else s₂
    have hdistinct := (hpages.nodup_iff.mpr hnodup)
    have hlong : k * limit < rows.length := by
      rw [← hl.perm.length_eq, hsplit, List.length_append, List.length_cons, List.length_cons]
      omega
    have hkn : k < n := Nat.lt_of_mul_lt_mul_right (hlong.trans_le hn)
    have hdisjoint := (List.nodup_flatMap.mp hdistinct).2
    have hne : k - 1 < k := by omega
    have hpair := List.pairwise_iff_getElem.mp hdisjoint (k - 1) k
      (by rw [List.length_range]; omega) (by rw [List.length_range]; omega) hne
    simp only [Function.onFun, List.getElem_range, hne.ne, if_false, if_true,
      hs₁ rows (List.Perm.refl _), hs₂ rows (List.Perm.refl _)] at hpair
    have hk : (k - 1 + 1) * limit = k * limit := by rw [Nat.sub_add_cancel hk]
    refine @hpair y (mem_page (i := before.length) (by simp) ?_ ?_) (mem_page hy le_rfl ?_)
    · have hmul : (k - 1 + 1) * limit = (k - 1) * limit + limit := Nat.succ_mul ..
      omega
    · omega
    · have hmul : (k + 1) * limit = k * limit + limit := Nat.succ_mul ..
      omega
  · intro hstrict order
    have hpages : ∀ k, (page limit ((order k).run rows) k).Perm (page limit l k) :=
      fun k => page_perm htrans hrefl hlimit hl ((order k).arrangement rows) hstrict
    have hall : ((List.range n).flatMap fun k => page limit ((order k).run rows) k).Perm
        ((List.range n).flatMap (page limit l)) := List.Perm.flatMap_left _ fun k _ => hpages k
    rw [flatMap_page, List.take_of_length_le (by rw [hl.perm.length_eq]; exact hn)] at hall
    exact hall.trans hl.perm

end Pages

/-! ### Until a page is empty -/

/-- The rows of the answers from the `k`th on, until one is empty. -/
inductive Collected (respond : ℕ → Option (List α)) : ℕ → List α → Prop
  | done {k : ℕ} (h : respond k = some []) : Collected respond k []
  | more {k : ℕ} {first rest : List α} (h : respond k = some first) (hne : first ≠ [])
      (hrest : Collected respond (k + 1) rest) : Collected respond k (first ++ rest)

theorem collected_iff {respond : ℕ → Option (List α)} {pages : ℕ → List α} {n : ℕ}
    (hrespond : ∀ k answer, respond k = some answer → answer = pages k)
    (hpages : ∀ k < n, pages k ≠ []) (hempty : pages n = []) {rows : List α} :
    Collected respond 0 rows ↔
      (∀ k ≤ n, (respond k).isSome) ∧ rows = (List.range n).flatMap pages := by
  -- from any page on
  have hfrom : ∀ m i, i + m = n → ∀ rows, Collected respond i rows ↔
      (∀ k, i ≤ k → k ≤ n → (respond k).isSome) ∧ rows = (List.range' i m).flatMap pages := by
    intro m
    induction m with
    | zero =>
      rintro i rfl rows
      constructor
      · rintro (hdone | ⟨hmore, hne, -⟩)
        · refine ⟨fun k hle hge => ?_, rfl⟩
          obtain rfl := le_antisymm hle hge
          rw [hdone]
          rfl
        · exact absurd ((hrespond i _ hmore).trans hempty) hne
      · rintro ⟨hsome, rfl⟩
        obtain ⟨answer, hanswer⟩ := Option.isSome_iff_exists.mp (hsome i le_rfl le_rfl)
        rw [hrespond i answer hanswer] at hanswer
        exact .done (hanswer.trans (congrArg some hempty))
    | succ m ih =>
      rintro i hi rows
      have hlt : i < n := by omega
      rw [List.range'_succ, List.flatMap_cons]
      constructor
      · rintro (hdone | ⟨hmore, -, hrest⟩)
        · exact absurd (hrespond i _ hdone).symm (hpages i hlt)
        · obtain ⟨hsome, rfl⟩ := (ih (i + 1) (by omega) _).mp hrest
          refine ⟨fun k hle hge => ?_, by rw [hrespond i _ hmore]⟩
          rcases Nat.eq_or_lt_of_le hle with rfl | hlt
          · rw [hmore]
            rfl
          · exact hsome k hlt hge
      · rintro ⟨hsome, rfl⟩
        obtain ⟨answer, hanswer⟩ := Option.isSome_iff_exists.mp (hsome i le_rfl hlt.le)
        rw [hrespond i answer hanswer] at hanswer
        exact .more hanswer (hpages i hlt)
          ((ih (i + 1) (by omega) _).mpr ⟨fun k hle => hsome k (by omega), rfl⟩)
  have h := hfrom n 0 (Nat.zero_add n) rows
  rw [← List.range_eq_range'] at h
  simpa using h

/-! ### The first page -/

/-- The rows in an order that has `x` behind all that it ties with. -/
theorem exists_arrangement_last (htrans : ∀ a b c, le a b → le b c → le a c)
    (htotal : ∀ a b, le a b ∨ le b a) [DecidableRel le] (hl : Arrangement le rows l) (hx : x ∈ l) :
    ∃ before after, Arrangement le rows (before ++ x :: after) ∧
      before.length + 1 = rows.countP (fun a => le a x) := by
  classical
  have hrefl : le x x := (htotal x x).elim id id
  have hmem : x ∈ l.filter (fun a => le a x) := List.mem_filter.mpr ⟨hx, decide_eq_true hrefl⟩
  have hperm := List.perm_cons_erase hmem
  have hbehind : ∀ a ∈ l.filter (fun a => ¬le a x), le x a := by
    intro a ha
    have hnot := of_decide_eq_true (List.mem_filter.mp ha).2
    exact (htotal x a).resolve_right hnot
  have hbefore : ∀ a ∈ (l.filter fun a => le a x).erase x, le a x := fun a ha =>
    of_decide_eq_true (List.mem_filter.mp (List.mem_of_mem_erase ha)).2
  refine ⟨(l.filter fun a => le a x).erase x, l.filter fun a => ¬le a x, ⟨?_, ?_⟩, ?_⟩
  · refine (List.perm_middle.trans ?_).trans hl.perm
    rw [← List.cons_append]
    refine (hperm.symm.append_right _).trans ?_
    simpa using List.filter_append_perm (fun a => decide (le a x)) l
  · refine List.pairwise_append.mpr ⟨(hl.sorted.filter _).sublist List.erase_sublist,
      List.pairwise_cons.mpr ⟨hbehind, hl.sorted.filter _⟩, fun a ha b hb => ?_⟩
    rcases List.mem_cons.mp hb with rfl | hb
    · exact hbefore a ha
    · exact htrans a x b (hbefore a ha) (hbehind b hb)
  · rw [← hl.perm.countP_eq, List.countP_eq_length_filter, hperm.length_eq, List.length_cons]

/-- A row that ties with itself, and the others. -/
theorem countP_le_eq_succ [DecidableEq α] [DecidableRel le] (hnodup : rows.Nodup) (hx : x ∈ rows)
    (hrefl : le x x) :
    rows.countP (fun a => le a x) = (rows.filter fun a => a ≠ x ∧ le a x).length + 1 := by
  have hself : decide (le x x) = true := decide_eq_true hrefl
  rw [(List.perm_cons_erase hx).countP_eq, List.countP_cons, if_pos hself,
    hnodup.erase_eq_filter, List.countP_filter, List.countP_eq_length_filter]
  refine congrArg (List.length · + 1) (List.filter_congr fun a _ => ?_)
  by_cases hax : a = x
  · simp [hax]
  · simp [hax]

/-- **A row is among the first `n` in every order** just when no more than `n` rows come
before it or tie with it, itself included. -/
theorem mem_take_iff (htrans : ∀ a b c, le a b → le b c → le a c)
    (htotal : ∀ a b, le a b ∨ le b a) [DecidableRel le] (hnodup : rows.Nodup) (hx : x ∈ rows)
    (s : Sorting le) {n : ℕ} :
    (∀ order : Sorting le, x ∈ (order.run rows).take n) ↔ rows.countP (fun a => le a x) ≤ n := by
  constructor
  · intro h
    obtain ⟨before, after, hlast, hlength⟩ := exists_arrangement_last htrans htotal
      (s.arrangement rows) ((s.perm rows).mem_iff.mpr hx)
    obtain ⟨order, horder⟩ := hlast.exists_sorting s
    have hmem := h order
    rw [horder rows (List.Perm.refl _)] at hmem
    by_contra hlt
    rw [List.take_append_of_le_length (by omega)] at hmem
    -- it would stand there twice
    have hdistinct := hlast.perm.nodup_iff.mpr hnodup
    exact (List.nodup_append.mp hdistinct).2.2 x (List.mem_of_mem_take hmem) x
      List.mem_cons_self rfl
  · intro hcount order
    have hdown : ∀ a b, le a b → decide (le b x) = true → decide (le a x) = true :=
      fun a b hab hb => decide_eq_true (htrans a b x hab (of_decide_eq_true hb))
    have hfilter := filter_eq_take (order.sorted rows) hdown
    have hmem : x ∈ (order.run rows).filter fun a => decide (le a x) :=
      List.mem_filter.mpr ⟨(order.perm rows).mem_iff.mpr hx,
        decide_eq_true ((htotal x x).elim id id)⟩
    rw [hfilter, (order.perm rows).countP_eq] at hmem
    exact List.take_subset_take_left _ hcount hmem

end Query

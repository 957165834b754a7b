import EthPipeline.Base.Window
import Mathlib.Data.List.Perm.Basic
import Mathlib.Logic.Relation

/-!
# Rows that tie

A running aggregate over an order that does not tell all rows apart: what depends on the
order that tied rows are given.

* `Arrangement.connected`: two orders differ by swaps of neighbours that tie.
* `swap_iff`: when such a swap changes no row's aggregate.
* `steady_iff`: every order gives the rows the same aggregates exactly when of two tied
  rows of a part that differ, neither changes the aggregate the other one shows.
-/

namespace Window

variable {α β γ κ : Type} [DecidableEq κ] {part : α → κ} {agg : List α → β}
  {le : α → α → Prop} {rows l l' before after : List α} {a b : α}

/-! ### Orders -/

/-- The rows in an order that `le` allows. -/
structure Arrangement (le : α → α → Prop) (rows l : List α) : Prop where
  perm : l.Perm rows
  sorted : l.Pairwise le

theorem Sorting.arrangement (s : Sorting le) (rows : List α) : Arrangement le rows (s.run rows) :=
  ⟨s.perm rows, s.sorted rows⟩

/-- Every arrangement is what some way to sort gives. -/
theorem Arrangement.exists_sorting (h : Arrangement le rows l) (s : Sorting le) :
    ∃ s' : Sorting le, ∀ rows', rows'.Perm rows → s'.run rows' = l := by
  classical
  refine ⟨⟨fun rows' => if rows'.Perm rows then l else s.run rows', fun rows' => ?_,
    fun rows' => ?_⟩, fun rows' h' => if_pos h'⟩
  · split
    · next hrows => exact h.perm.trans hrows.symm
    · exact s.perm rows'
  · split
    · exact h.sorted
    · exact s.sorted rows'

/-- The rows of an image in some order are the image of an order of the rows. -/
theorem Arrangement.exists_map {f : γ → α} {cs : List γ} (h : Arrangement le (cs.map f) l) :
    ∃ m, l = m.map f ∧ Arrangement (fun c d => le (f c) (f d)) cs m := by
  have hcomp := congrFun (congrFun (List.eq_map_comp_perm f) l) cs
  obtain ⟨m, rfl, hperm⟩ := hcomp.mpr h.perm
  exact ⟨m, rfl, hperm, List.pairwise_map.mp h.sorted⟩

theorem Arrangement.map {f : γ → α} {cs m : List γ}
    (h : Arrangement (fun c d => le (f c) (f d)) cs m) : Arrangement le (cs.map f) (m.map f) :=
  ⟨h.perm.map f, List.pairwise_map.mpr h.sorted⟩

/-- Two rows of a table, at different places. -/
def Pair (rows : List α) (a b : α) : Prop := ∃ rest, (a :: b :: rest).Perm rows

theorem Pair.symm (h : Pair rows a b) : Pair rows b a := by
  obtain ⟨rest, hperm⟩ := h
  exact ⟨rest, (List.Perm.swap a b rest).trans hperm⟩

theorem Pair.perm (h : Pair rows a b) {rows' : List α} (hrows : rows.Perm rows') :
    Pair rows' a b := by
  obtain ⟨rest, hperm⟩ := h
  exact ⟨rest, hperm.trans hrows⟩

theorem Pair.map (h : Pair rows a b) (f : α → γ) : Pair (rows.map f) (f a) (f b) := by
  obtain ⟨rest, hperm⟩ := h
  exact ⟨rest.map f, hperm.map f⟩

theorem Pair.left (h : Pair rows a b) : a ∈ rows := by
  obtain ⟨rest, hperm⟩ := h
  exact hperm.mem_iff.mp (by simp)

theorem Pair.right (h : Pair rows a b) : b ∈ rows := h.symm.left

theorem pair_of_mem_before (h : b ∈ before) : Pair (before ++ a :: after) a b := by
  obtain ⟨init, last, rfl⟩ := List.append_of_mem h
  refine ⟨init ++ last ++ after, ?_⟩
  have hb : (b :: (init ++ last ++ after)).Perm (init ++ b :: last ++ after) := by
    rw [List.append_assoc, List.append_assoc, List.cons_append]
    exact List.perm_middle.symm
  exact (hb.cons a).trans List.perm_middle.symm

theorem pair_neighbours (before after : List α) (a b : α) : Pair (before ++ a :: b :: after) a b :=
  ⟨before ++ after, (List.perm_middle.trans (List.perm_middle.cons a)).symm⟩

/-- Two rows of an image are images of two rows. -/
theorem Pair.exists_map {f : γ → α} {cs : List γ} (h : Pair (cs.map f) a b) :
    ∃ c d, Pair cs c d ∧ f c = a ∧ f d = b := by
  obtain ⟨rest, hperm⟩ := h
  have hcomp := congrFun (congrFun (List.eq_map_comp_perm f) (a :: b :: rest)) cs
  obtain ⟨m, hm, hcs⟩ := hcomp.mpr hperm
  match m, hm with
  | c :: d :: m, hm =>
    simp only [List.map_cons, List.cons.injEq] at hm
    exact ⟨c, d, ⟨m, hcs⟩, hm.1.symm, hm.2.1.symm⟩

/-- Two neighbours that tie change places. -/
inductive TieSwap (le : α → α → Prop) : List α → List α → Prop
  | mk (before after : List α) (a b : α) (hab : le a b) (hba : le b a) :
      TieSwap le (before ++ a :: b :: after) (before ++ b :: a :: after)

theorem TieSwap.cons (c : α) (h : TieSwap le l l') : TieSwap le (c :: l) (c :: l') := by
  obtain ⟨before, after, a, b, hab, hba⟩ := h
  exact .mk (c :: before) after a b hab hba

theorem TieSwap.arrangement (h : TieSwap le l l') (hl : Arrangement le rows l) :
    Arrangement le rows l' := by
  obtain ⟨before, after, a, b, hab, hba⟩ := h
  constructor
  · exact ((List.Perm.swap a b after).append_left before).trans hl.perm
  · have hsorted := hl.sorted
    simp only [List.pairwise_append, List.pairwise_cons, List.mem_cons] at hsorted ⊢
    obtain ⟨hbefore, ⟨ha, hb, hafter⟩, hcross⟩ := hsorted
    refine ⟨hbefore, ⟨?_, fun c hc => ha c (.inr hc), hafter⟩, fun c hc d hd => ?_⟩
    · rintro c (rfl | hc)
      · exact hba
      · exact hb c hc
    · rcases hd with rfl | rfl | hd
      · exact hcross c hc _ (.inr (.inl rfl))
      · exact hcross c hc _ (.inl rfl)
      · exact hcross c hc d (.inr (.inr hd))

/-- A row passes the rows it ties with. -/
theorem tieSwaps_to_front (h : ∀ b ∈ before, le b a ∧ le a b) :
    Relation.ReflTransGen (TieSwap le) (before ++ a :: after) (a :: (before ++ after)) := by
  induction before with
  | nil => exact .refl
  | cons c before ih =>
    have hrest := ih fun b hb => h b (List.mem_cons_of_mem c hb)
    obtain ⟨hca, hac⟩ := h c List.mem_cons_self
    refine (hrest.lift (c :: ·) fun _ _ hswap => hswap.cons c).tail ?_
    exact .mk [] (before ++ after) c a hca hac

/-- **Two orders differ by swaps of neighbours that tie.** -/
theorem Arrangement.connected (htotal : ∀ a b, le a b ∨ le b a) (hl : Arrangement le rows l)
    (hl' : Arrangement le rows l') : Relation.ReflTransGen (TieSwap le) l l' := by
  have hperm := hl.perm.trans hl'.perm.symm
  have hsorted := hl.sorted
  have hsorted' := hl'.sorted
  clear hl hl'
  induction l' generalizing l with
  | nil =>
    rw [hperm.eq_nil]
  | cons a t ih =>
    have hrefl : le a a := (htotal a a).elim id id
    obtain ⟨before, after, rfl⟩ := List.append_of_mem (hperm.mem_iff.mpr List.mem_cons_self)
    have hrest : (before ++ after).Perm t := (List.perm_middle.symm.trans hperm).cons_inv
    -- what stands before `a` here and not there ties with it
    have hties : ∀ b ∈ before, le b a ∧ le a b := by
      intro b hb
      refine ⟨(List.pairwise_append.mp hsorted).2.2 b hb a List.mem_cons_self, ?_⟩
      exact (List.pairwise_cons.mp hsorted').1 b (hrest.mem_iff.mp (List.mem_append_left _ hb))
    have hsub : (before ++ after).Pairwise le :=
      hsorted.sublist (List.Sublist.append_left (List.sublist_cons_self a after) before)
    have hind := ih hrest hsub hsorted'.of_cons
    exact (tieSwaps_to_front hties).trans (hind.lift (a :: ·) fun _ _ hswap => hswap.cons a)

/-! ### What a swap changes -/

/-- The aggregate does not depend on the order of the rows. -/
def Symmetric (agg : List α → β) : Prop := ∀ l l', l.Perm l' → agg l = agg l'

/-- The aggregate that a row shows after some rows. -/
def shown (part : α → κ) (agg : List α → β) (before : List α) (a : α) : β :=
  agg ((before ++ [a]).filter fun b => part b = part a)

theorem shown_perm (hagg : Symmetric agg) {before' : List α} (h : before.Perm before') :
    shown part agg before a = shown part agg before' a :=
  hagg _ _ ((h.append_right [a]).filter _)

theorem running_perm (hagg : Symmetric agg) {seen seen' : List α} (h : seen.Perm seen') :
    running part agg seen rows = running part agg seen' rows := by
  induction rows generalizing seen seen' with
  | nil => rfl
  | cons a rest ih =>
    rw [running, running, ih (h.append_right [a])]
    exact congrArg (fun x => (a, x) :: _) (shown_perm hagg h)

theorem overParts_split (before after : List α) (a b : α) :
    overParts part agg (before ++ a :: b :: after) =
      overParts part agg before ++
        ([(a, shown part agg before a), (b, shown part agg (before ++ [a]) b)] ++
          running part agg (before ++ [a] ++ [b]) after) := by
  unfold overParts
  rw [running_append, List.nil_append, running, running]
  rfl

/-- Neither row changes the aggregate that the other one shows. -/
theorem swap_iff (hagg : Symmetric agg) (hne : a ≠ b) :
    (overParts part agg (before ++ a :: b :: after)).Perm
        (overParts part agg (before ++ b :: a :: after)) ↔
      shown part agg before a = shown part agg (before ++ [b]) a ∧
        shown part agg before b = shown part agg (before ++ [a]) b := by
  have hseen : (before ++ [a] ++ [b]).Perm (before ++ [b] ++ [a]) := by
    rw [List.append_assoc, List.append_assoc]
    exact (List.Perm.swap b a []).append_left before
  rw [overParts_split, overParts_split, running_perm hagg hseen, List.perm_append_left_iff,
    List.perm_append_right_iff]
  constructor
  · intro hperm
    constructor
    · have hmem : (a, shown part agg before a) ∈
          [(b, shown part agg before b), (a, shown part agg (before ++ [b]) a)] :=
        hperm.mem_iff.mp List.mem_cons_self
      simpa [hne] using hmem
    · have hmem : (b, shown part agg before b) ∈
          [(a, shown part agg before a), (b, shown part agg (before ++ [a]) b)] :=
        hperm.mem_iff.mpr List.mem_cons_self
      simpa [hne.symm] using hmem
  · rintro ⟨ha, hb⟩
    rw [ha, hb]
    exact List.Perm.swap _ _ []

/-! ### When no order matters -/

/-- The rows of the part of `a` that come before `a` in every order. -/
def earlier (part : α → κ) (le : α → α → Prop) [DecidableRel le] (rows : List α) (a : α) : List α :=
  rows.filter fun c => part c = part a ∧ ¬ le a c

/-- After the earlier rows, neither of two rows that tie changes the aggregate that the
other one shows. -/
structure Unmoved (part : α → κ) (agg : List α → β) (le : α → α → Prop) [DecidableRel le]
    (rows : List α) (a b : α) : Prop where
  left : agg (earlier part le rows a ++ [a]) = agg (earlier part le rows a ++ [a, b])
  right : agg (earlier part le rows a ++ [b]) = agg (earlier part le rows a ++ [a, b])

theorem earlier_map [DecidableRel le] (f : γ → α) (cs : List γ) (c : γ) :
    earlier part le (cs.map f) (f c) =
      (earlier (part ∘ f) (fun c d => le (f c) (f d)) cs c).map f := by
  unfold earlier
  rw [List.filter_map]
  rfl

/-- Only the images of the rows matter. -/
theorem unmoved_map_iff [DecidableRel le] (f : γ → α) (cs : List γ) (c d : γ) :
    Unmoved part agg le (cs.map f) (f c) (f d) ↔
      Unmoved (part ∘ f) (agg ∘ List.map f) (fun c d => le (f c) (f d)) cs c d := by
  constructor
  · rintro ⟨hleft, hright⟩
    rw [earlier_map] at hleft hright
    constructor
    · simpa using hleft
    · simpa using hright
  · rintro ⟨hleft, hright⟩
    constructor
    · rw [earlier_map]
      simpa using hleft
    · rw [earlier_map]
      simpa using hright

theorem Unmoved.perm [DecidableRel le] (hagg : Symmetric agg) (h : Unmoved part agg le rows a b)
    {rows' : List α} (hrows : rows.Perm rows') : Unmoved part agg le rows' a b := by
  have hE : ∀ cs, agg (earlier part le rows a ++ cs) = agg (earlier part le rows' a ++ cs) :=
    fun cs => hagg _ _ ((hrows.filter _).append_right cs)
  obtain ⟨hleft, hright⟩ := h
  rw [hE, hE] at hleft hright
  exact ⟨hleft, hright⟩

/-- A row that adds nothing after some rows adds nothing after more rows. -/
def Lasting (agg : List α → β) (rows : List α) : Prop :=
  ∀ M T a b, (∀ c ∈ M ++ T ++ [a, b], c ∈ rows) → agg (M ++ [a]) = agg (M ++ [a, b]) →
    agg (M ++ T ++ [a]) = agg (M ++ T ++ [a, b])

theorem Symmetric.comp (h : Symmetric agg) (f : γ → α) : Symmetric (agg ∘ List.map f) :=
  fun _ _ hperm => h _ _ (hperm.map f)

theorem Lasting.comp {f : γ → α} {cs : List γ} (h : Lasting agg (cs.map f)) :
    Lasting (agg ∘ List.map f) cs := by
  intro M T c d hcs hunmoved
  simp only [Function.comp_apply, List.map_append, List.map_cons, List.map_nil] at hunmoved ⊢
  refine h _ _ _ _ (fun a ha => ?_) hunmoved
  rw [← List.map_append, show [f c, f d] = [c, d].map f from rfl, ← List.map_append] at ha
  obtain ⟨e, he, rfl⟩ := List.mem_map.mp ha
  exact List.mem_map_of_mem (hcs e he)

section steady

variable [DecidableRel le]

/-- What stands before a row of a part: the earlier rows, and rows that tie. -/
theorem Arrangement.filter_before (htotal : ∀ a b, le a b ∨ le b a)
    (h : Arrangement le rows (before ++ a :: after)) (part : α → κ) :
    ∃ ties, (before.filter fun b => part b = part a).Perm (earlier part le rows a ++ ties) ∧
      ∀ t ∈ ties, t ∈ before ∧ part t = part a ∧ le a t ∧ le t a := by
  have hrefl : le a a := (htotal a a).elim id id
  obtain ⟨-, hafter, hcross⟩ := List.pairwise_append.mp h.sorted
  have hlater := (List.pairwise_cons.mp hafter).1
  refine ⟨before.filter fun c => part c = part a ∧ le a c, ?_, fun t ht => ?_⟩
  · have hearlier : (earlier part le rows a).Perm
        (before.filter fun c => part c = part a ∧ ¬ le a c) := by
      refine (h.perm.symm.filter _).trans (List.Perm.of_eq ?_)
      have hnone : (a :: after).filter (fun c => decide (part c = part a ∧ ¬ le a c)) = [] := by
        refine List.filter_eq_nil_iff.mpr fun c hc => ?_
        have hle : le a c := by
          rcases List.mem_cons.mp hc with rfl | hc
          · exact hrefl
          · exact hlater c hc
        simp [hle]
      rw [List.filter_append, hnone, List.append_nil]
    refine List.Perm.trans ?_ (hearlier.symm.append_right _)
    have hsplit := (List.filter_append_perm (fun c => decide ¬ le a c)
      (before.filter fun b => part b = part a)).symm
    refine hsplit.trans (List.Perm.of_eq ?_)
    rw [List.filter_filter, List.filter_filter]
    congr 1 <;> refine List.filter_congr fun c _ => ?_ <;> simp [Bool.and_comm]
  · obtain ⟨ht, hpart, hle⟩ : t ∈ before ∧ part t = part a ∧ le a t := by simpa using ht
    exact ⟨ht, hpart, hle, hcross t ht a List.mem_cons_self⟩

/-- Two rows that tie may come first among the rows they tie with. -/
theorem Pair.exists_arrangement (htrans : ∀ a b c, le a b → le b c → le a c)
    (htotal : ∀ a b, le a b ∨ le b a) (s : Sorting le) (h : Pair rows a b) (hab : le a b)
    (hba : le b a) :
    ∃ before after, Arrangement le rows (before ++ a :: b :: after) ∧
      ∀ {μ : Type} [DecidableEq μ] (part : α → μ),
        (before.filter fun c => part c = part a).Perm (earlier part le rows a) := by
  obtain ⟨rest, hperm⟩ := h
  have hrefl : le a a := (htotal a a).elim id id
  have hbefore := s.perm (rest.filter fun c => ¬ le a c)
  have hafter := s.perm (rest.filter fun c => le a c)
  refine ⟨s.run (rest.filter fun c => ¬ le a c), s.run (rest.filter fun c => le a c), ⟨?_, ?_⟩, ?_⟩
  · have hrest : (s.run (rest.filter fun c => ¬ le a c) ++ s.run (rest.filter fun c => le a c)).Perm
        rest := by
      refine (hbefore.append hafter).trans ?_
      have hsplit := List.filter_append_perm (fun c => decide ¬ le a c) rest
      simpa using hsplit
    refine List.Perm.trans ?_ ((hrest.cons b).cons a |>.trans hperm)
    exact List.perm_middle.trans (List.perm_middle.cons a)
  · have hearly : ∀ c ∈ s.run (rest.filter fun c => ¬ le a c), le c a := by
      intro c hc
      have hnot : ¬ le a c := by simpa using (List.mem_filter.mp (hbefore.mem_iff.mp hc)).2
      exact (htotal a c).resolve_left hnot
    have hlate : ∀ c ∈ s.run (rest.filter fun c => le a c), le a c := by
      intro c hc
      simpa using (List.mem_filter.mp (hafter.mem_iff.mp hc)).2
    refine List.pairwise_append.mpr ⟨s.sorted _, ?_, fun c hc d hd => ?_⟩
    · refine List.pairwise_cons.mpr ⟨fun c hc => ?_,
        List.pairwise_cons.mpr ⟨fun c hc => ?_, s.sorted _⟩⟩
      · rcases List.mem_cons.mp hc with rfl | hc
        · exact hab
        · exact hlate c hc
      · exact htrans b a c hba (hlate c hc)
    · refine htrans c a d (hearly c hc) ?_
      rcases List.mem_cons.mp hd with rfl | hd
      · exact hrefl
      · rcases List.mem_cons.mp hd with rfl | hd
        · exact hab
        · exact hlate d hd
  · intro μ _ part
    refine (hbefore.filter _).trans ?_
    refine List.Perm.trans (List.Perm.of_eq ?_) (hperm.filter _)
    rw [List.filter_cons_of_neg (by simp [hrefl]), List.filter_cons_of_neg (by simp [hab]),
      List.filter_filter]
    exact List.filter_congr fun c _ => by simp

/-- What a row shows at its place in an order. -/
theorem shown_eq (hagg : Symmetric agg) {E : List α} (c : α)
    (h : (before.filter fun b => part b = part c).Perm E) :
    shown part agg before c = agg (E ++ [c]) := by
  unfold shown
  rw [List.filter_append, List.filter_cons_of_pos (by simp), List.filter_nil]
  exact hagg _ _ (h.append_right [c])

/-- What it shows after one more row of its part. -/
theorem shown_concat (hagg : Symmetric agg) {E : List α} {c d : α} (hpart : part d = part c)
    (h : (before.filter fun b => part b = part c).Perm E) :
    shown part agg (before ++ [d]) c = agg (E ++ [d, c]) := by
  have hE : ((before ++ [d]).filter fun b => part b = part c).Perm (E ++ [d]) := by
    rw [List.filter_append, List.filter_cons_of_pos (by simpa using hpart), List.filter_nil]
    exact h.append_right [d]
  rw [shown_eq hagg c hE, List.append_assoc, List.singleton_append]

theorem agg_swap (hagg : Symmetric agg) (a b : α) (M : List α) :
    agg (M ++ [b, a]) = agg (M ++ [a, b]) :=
  hagg _ _ ((List.Perm.swap a b []).append_left M)

/-- A swap of two rows that tie does not show, if neither moves the other. -/
theorem TieSwap.steady (htotal : ∀ a b, le a b ∨ le b a) (hagg : Symmetric agg)
    (hlasting : Lasting agg rows)
    (hties : ∀ a b, Pair rows a b → part a = part b → le a b → le b a →
      a = b ∨ Unmoved part agg le rows a b) {m m' : List α} (hm : Arrangement le rows m)
    (h : TieSwap le m m') : (overParts part agg m).Perm (overParts part agg m') := by
  obtain ⟨before, after, a, b, hab, hba⟩ := h
  by_cases hne : a = b
  · rw [hne]
  refine (swap_iff hagg hne).mpr ?_
  by_cases hpart : part a = part b
  · -- before the two stand the earlier rows, and some that tie
    obtain ⟨ties, hE, -⟩ := hm.filter_before htotal part
    have hE' : (before.filter fun c => part c = part b).Perm (earlier part le rows a ++ ties) :=
      hpart ▸ hE
    have hrows : ∀ c ∈ earlier part le rows a ++ ties ++ [a, b], c ∈ rows := by
      intro c hc
      refine hm.perm.mem_iff.mp ?_
      rcases List.mem_append.mp hc with hc | hc
      · exact List.mem_append_left _ (List.mem_of_mem_filter (hE.mem_iff.mpr hc))
      · simp only [List.mem_cons, List.not_mem_nil, or_false] at hc
        rcases hc with rfl | rfl <;> simp
    have hpair : Pair rows a b := (pair_neighbours before after a b).perm hm.perm
    obtain ⟨hleft, hright⟩ := (hties a b hpair hpart hab hba).resolve_left hne
    rw [shown_eq hagg a hE, shown_concat hagg hpart.symm hE, shown_eq hagg b hE',
      shown_concat hagg hpart hE', agg_swap hagg]
    constructor
    · exact hlasting _ _ a b hrows hleft
    · rw [← agg_swap hagg]
      refine hlasting _ _ b a (fun c hc => hrows c ?_) (hright.trans (agg_swap hagg a b _).symm)
      simpa [or_comm] using hc
  · -- rows of other parts do not count
    have hpart' : part b ≠ part a := fun h => hpart h.symm
    simp [shown, List.filter_append, hpart, hpart']

/-- **When no order matters.** -/
theorem steady_iff (htrans : ∀ a b c, le a b → le b c → le a c) (htotal : ∀ a b, le a b ∨ le b a)
    (s : Sorting le) (hagg : Symmetric agg) (hlasting : Lasting agg rows) :
    (∀ l l', Arrangement le rows l → Arrangement le rows l' →
        (overParts part agg l).Perm (overParts part agg l')) ↔
      ∀ a b, Pair rows a b → part a = part b → le a b → le b a →
        a = b ∨ Unmoved part agg le rows a b := by
  constructor
  · intro hsteady a b hpair hpart hab hba
    by_cases hne : a = b
    · exact .inl hne
    obtain ⟨before, after, harr, hbefore⟩ := hpair.exists_arrangement htrans htotal s hab hba
    have hother := (TieSwap.mk before after a b hab hba).arrangement harr
    obtain ⟨ha, hb⟩ := (swap_iff hagg hne).mp (hsteady _ _ harr hother)
    have hE := hbefore part
    have hE' : (before.filter fun c => part c = part b).Perm (earlier part le rows a) := hpart ▸ hE
    rw [shown_eq hagg a hE, shown_concat hagg hpart.symm hE, agg_swap hagg] at ha
    rw [shown_eq hagg b hE', shown_concat hagg hpart hE'] at hb
    exact .inr ⟨ha, hb⟩
  · intro hties l l' hl hl'
    -- the arrangements are connected by swaps of neighbours that tie
    have hsteps : Arrangement le rows l' ∧ (overParts part agg l).Perm (overParts part agg l') := by
      have hconnected := hl.connected htotal hl'
      clear hl'
      induction hconnected with
      | refl => exact ⟨hl, List.Perm.refl _⟩
      | tail _ hstep ih =>
        exact ⟨hstep.arrangement ih.1, ih.2.trans (hstep.steady htotal hagg hlasting hties ih.1)⟩
    exact hsteps.2

end steady

end Window

import Mathlib.Data.List.Induction
import Mathlib.Data.List.Sort
import Mathlib.Order.Bounds.Basic
import Mathlib.Tactic.Common

/-!
# Running aggregates

A window partitions the rows of a table, orders each part, and gives every row an
aggregate of the rows of its part up to itself.  Rows that the order does not tell
apart may stand in any order.

* `Sorting`: an order the rows may be given.
* `exists_last`: the last row of a part has the aggregate of the whole part.
* `mem_overParts`: every row has the aggregate of a prefix of its part.
* `lag_cases`: what the row before a row of a part is.
* `nodup_first`: each part has one first row.
* `isGreatest_overParts`: where an aggregate grows along a part, its last value is the
  greatest.
-/

namespace Window

/-- A way to sort rows: `le` says which row may stand before which. -/
structure Sorting {α : Type} (le : α → α → Prop) where
  run : List α → List α
  perm : ∀ rows, (run rows).Perm rows
  sorted : ∀ rows, (run rows).Pairwise le

/-- There is an order for every way to compare. -/
def Sorting.merge {α : Type} (le : α → α → Prop) [DecidableRel le]
    (trans : ∀ a b c, le a b → le b c → le a c) (total : ∀ a b, le a b ∨ le b a) : Sorting le where
  run rows := rows.mergeSort fun a b => decide (le a b)
  perm rows := List.mergeSort_perm rows _
  sorted rows := by
    refine (List.pairwise_mergeSort (fun a b c hab hbc => ?_) (fun a b => ?_) rows).imp
      fun h => of_decide_eq_true h
    · exact decide_eq_true (trans a b c (of_decide_eq_true hab) (of_decide_eq_true hbc))
    · simpa using total a b

/-- The same order, by a sort that small tables can be run through. -/
def Sorting.insertion {α : Type} (le : α → α → Prop) [DecidableRel le]
    (trans : ∀ a b c, le a b → le b c → le a c) (total : ∀ a b, le a b ∨ le b a) : Sorting le where
  run rows := rows.insertionSort le
  perm rows := List.perm_insertionSort le rows
  sorted rows := by
    have : IsTrans α le := ⟨trans⟩
    have : Std.Total le := ⟨total⟩
    exact List.pairwise_insertionSort le rows

variable {α β γ κ : Type} [DecidableEq κ]

/-- The rows after those that were `seen`, each with the aggregate of its part so far. -/
def running (part : α → κ) (agg : List α → β) : List α → List α → List (α × β)
  | _, [] => []
  | seen, a :: rest =>
    (a, agg ((seen ++ [a]).filter fun b => part b = part a)) ::
      running part agg (seen ++ [a]) rest

/-- `agg` over the rows of each part from the first to the current one. -/
def overParts (part : α → κ) (agg : List α → β) (rows : List α) : List (α × β) :=
  running part agg [] rows

variable {part : α → κ} {agg : List α → β} {rows seen : List α} {a : α} {x : β}

theorem map_running (g : α → γ) : (running part agg seen rows).map (fun p => g p.1) = rows.map g := by
  induction rows generalizing seen with
  | nil => rfl
  | cons a rest ih => rw [running, List.map_cons, ih, List.map_cons]

theorem running_congr {μ : Type} [DecidableEq μ] {part' : α → μ}
    (h : ∀ a ∈ seen ++ rows, ∀ b ∈ seen ++ rows, part a = part b ↔ part' a = part' b) :
    running part agg seen rows = running part' agg seen rows := by
  induction rows generalizing seen with
  | nil => rfl
  | cons a rest ih =>
    have hfilter : (seen ++ [a]).filter (fun b => decide (part b = part a)) =
        (seen ++ [a]).filter fun b => decide (part' b = part' a) := by
      refine List.filter_congr fun b hb => decide_eq_decide.mpr (h b ?_ a (by simp))
      rw [List.append_cons]
      exact List.mem_append_left _ hb
    rw [running, running, hfilter, ih]
    rw [List.append_assoc, List.singleton_append]
    exact h

/-- Only which rows share a part matters. -/
theorem overParts_congr {μ : Type} [DecidableEq μ] {part' : α → μ}
    (h : ∀ a ∈ rows, ∀ b ∈ rows, part a = part b ↔ part' a = part' b) :
    overParts part agg rows = overParts part' agg rows :=
  running_congr h

theorem running_map (f : γ → α) {seen rows : List γ} :
    running part agg (seen.map f) (rows.map f) =
      (running (part ∘ f) (agg ∘ List.map f) seen rows).map fun p => (f p.1, p.2) := by
  induction rows generalizing seen with
  | nil => rfl
  | cons c rest ih =>
    have hseen : seen.map f ++ [f c] = (seen ++ [c]).map f := by rw [List.map_append]; rfl
    rw [List.map_cons, running, running, List.map_cons, hseen, ih, List.filter_map]
    rfl

/-- A window over the rows of an image. -/
theorem overParts_map (f : γ → α) (rows : List γ) :
    overParts part agg (rows.map f) =
      (overParts (part ∘ f) (agg ∘ List.map f) rows).map fun p => (f p.1, p.2) := by
  show running part agg (List.map f []) (rows.map f) = _
  exact running_map f

/-- A window keeps the rows. -/
theorem map_overParts (g : α → γ) : (overParts part agg rows).map (fun p => g p.1) = rows.map g :=
  map_running g

theorem mem_running (h : (a, x) ∈ running part agg seen rows) :
    ∃ before after, rows = before ++ a :: after ∧
      x = agg ((seen ++ before ++ [a]).filter fun b => part b = part a) := by
  induction rows generalizing seen with
  | nil => cases h
  | cons c rest ih =>
    rw [running, List.mem_cons] at h
    rcases h with h | h
    · cases h
      exact ⟨[], rest, rfl, by rw [List.append_nil]⟩
    · obtain ⟨before, after, hrest, hx⟩ := ih h
      refine ⟨c :: before, after, by rw [hrest, List.cons_append], ?_⟩
      rw [hx, List.append_assoc seen [c] before, List.singleton_append]

theorem running_append (before after : List α) :
    running part agg seen (before ++ after) =
      running part agg seen before ++ running part agg (seen ++ before) after := by
  induction before generalizing seen with
  | nil => rw [List.nil_append, List.append_nil]; rfl
  | cons c before ih =>
    rw [List.cons_append, running, running, ih, List.cons_append, List.append_assoc seen [c] before,
      List.singleton_append]

/-- **Every row has the aggregate of a prefix** of its part, itself included. -/
theorem mem_overParts (h : (a, x) ∈ overParts part agg rows) :
    ∃ upto, upto <+: rows.filter (fun b => part b = part a) ∧ a ∈ upto ∧ x = agg upto := by
  obtain ⟨before, after, hrows, hx⟩ := mem_running h
  refine ⟨_, ?_, ?_, hx⟩
  · rw [hrows, List.nil_append, show before ++ a :: after = (before ++ [a]) ++ after by simp,
      List.filter_append (before ++ [a]) after]
    exact List.prefix_append ..
  · simp

/-- **The row before** in the part: there is none, or no other row before is later. -/
theorem lag_cases {le : α → α → Prop} {g : α → γ} {x : Option γ} (hsorted : rows.Pairwise le)
    (h : (a, x) ∈ overParts part (fun upto => upto.dropLast.getLast?.map g) rows) :
    ∃ before after, rows = before ++ a :: after ∧
      ((∀ c ∈ before, part c ≠ part a) ∧ x = none ∨
        ∃ b ∈ before, part b = part a ∧ x = some (g b) ∧
          ∀ c ∈ before, part c = part a → le c b ∨ c = b) := by
  obtain ⟨before, after, hrows, hx⟩ := mem_running h
  refine ⟨before, after, hrows, ?_⟩
  rw [List.nil_append, List.filter_append, List.filter_cons_of_pos (by simp), List.filter_nil,
    List.dropLast_concat] at hx
  have hbefore : before.Pairwise le := (List.pairwise_append.mp (hrows ▸ hsorted)).1
  rcases List.eq_nil_or_concat (before.filter fun b => part b = part a) with hnil | ⟨init, b, hpart⟩
  · refine .inl ⟨fun c hc => ?_, by rw [hx, hnil]; rfl⟩
    simpa using List.filter_eq_nil_iff.mp hnil c hc
  · rw [List.concat_eq_append] at hpart
    have hb : b ∈ before ∧ part b = part a := by
      have hmem : b ∈ before.filter fun b => part b = part a := by rw [hpart]; simp
      simpa using hmem
    refine .inr ⟨b, hb.1, hb.2, by rw [hx, hpart]; simp, fun c hc hca => ?_⟩
    have hmem : c ∈ init ++ [b] := hpart ▸ List.mem_filter.mpr ⟨hc, decide_eq_true hca⟩
    have hpairwise : (init ++ [b]).Pairwise le := hpart ▸ hbefore.filter _
    rcases List.mem_append.mp hmem with hinit | hlast
    · exact .inl ((List.pairwise_append.mp hpairwise).2.2 c hinit b (by simp))
    · exact .inr (List.mem_singleton.mp hlast)

/-- The first rows after those that were `seen` are of parts that were not. -/
theorem first_running :
    (((running part List.length seen rows).filter fun p => p.2 = 1).map fun p => part p.1).Nodup ∧
      ∀ k ∈ ((running part List.length seen rows).filter fun p => p.2 = 1).map fun p => part p.1,
        ∀ b ∈ seen, part b ≠ k := by
  induction rows generalizing seen with
  | nil =>
    constructor
    · exact List.nodup_nil
    · intro k hk
      cases hk
  | cons a rest ih =>
    obtain ⟨hnodup, hseen⟩ := @ih (seen ++ [a])
    have hrest : ∀ k ∈ ((running part List.length (seen ++ [a]) rest).filter
        fun p => p.2 = 1).map fun p => part p.1, ∀ b ∈ seen, part b ≠ k :=
      fun k hk b hb => hseen k hk b (List.mem_append_left _ hb)
    rw [running]
    by_cases hone : ((seen ++ [a]).filter fun b => part b = part a).length = 1
    · rw [List.filter_cons_of_pos (by simpa using hone), List.map_cons]
      constructor
      · rw [List.nodup_cons]
        exact ⟨fun hmem => hseen _ hmem a (by simp) rfl, hnodup⟩
      · intro k hk b hb heq
        rcases List.mem_cons.mp hk with rfl | hk
        · -- a row that was seen is counted as well
          have hpos : b ∈ seen.filter fun b => part b = part a :=
            List.mem_filter.mpr ⟨hb, decide_eq_true heq⟩
          have := List.length_pos_of_mem hpos
          simp only [List.filter_append, List.length_append, List.filter_cons, decide_true,
            if_true, List.filter_nil, List.length_singleton] at hone
          omega
        · exact hrest k hk b hb heq
    · rw [List.filter_cons_of_neg (by simpa using hone)]
      exact ⟨hnodup, hrest⟩

/-- **Each part has one first row.** -/
theorem nodup_first (part : α → κ) (rows : List α) :
    (((overParts part List.length rows).filter fun p => p.2 = 1).map fun p => part p.1).Nodup :=
  first_running.1

/-- A list split at the last element with a property. -/
theorem exists_last_split {p : α → Prop} (h : ∃ a ∈ rows, p a) :
    ∃ before b after, rows = before ++ b :: after ∧ p b ∧ ∀ c ∈ after, ¬ p c := by
  induction rows using List.reverseRecOn with
  | nil =>
    obtain ⟨a, ha, -⟩ := h
    cases ha
  | append_singleton rows c ih =>
    by_cases hc : p c
    · exact ⟨rows, c, [], rfl, hc, fun _ hd => by cases hd⟩
    · obtain ⟨a, ha, hpa⟩ := h
      have ha : a ∈ rows := by
        rcases List.mem_append.mp ha with ha | ha
        · exact ha
        · cases List.mem_singleton.mp ha
          exact absurd hpa hc
      obtain ⟨before, b, after, hrows, hb, hafter⟩ := ih ⟨a, ha, hpa⟩
      refine ⟨before, b, after ++ [c], by rw [hrows, List.append_assoc, List.cons_append], hb, ?_⟩
      intro d hd
      rcases List.mem_append.mp hd with hd | hd
      · exact hafter d hd
      · cases List.mem_singleton.mp hd
        exact hc

/-- **The last row of a part** has the aggregate of the whole part. -/
theorem exists_last (h : a ∈ rows) :
    ∃ b, part b = part a ∧ (b, agg (rows.filter fun c => part c = part a)) ∈ overParts part agg rows := by
  have hsome : ∃ b ∈ rows, part b = part a := ⟨a, h, rfl⟩
  obtain ⟨before, b, after, hrows, hb, hafter⟩ := exists_last_split hsome
  refine ⟨b, hb, ?_⟩
  have hnone : after.filter (fun c => decide (part c = part a)) = [] := by
    refine List.filter_eq_nil_iff.mpr fun c hc => ?_
    simpa using hafter c hc
  rw [overParts, hrows, running_append, List.mem_append]
  refine .inr ?_
  rw [running, hb, List.mem_cons]
  refine .inl ?_
  rw [show before ++ b :: after = (before ++ [b]) ++ after by simp, List.filter_append _ after,
    hnone, List.append_nil]
  rfl

/-- **Where an aggregate grows along a part**, the aggregate of the whole part is the
greatest.  `value` reads the aggregate, and null is `none`. -/
theorem isGreatest_overParts {γ : Type} [Preorder γ] {value : β → Option γ} {total : List α → γ}
    (h : a ∈ rows)
    (hvalue : ∀ upto, upto <+: rows.filter (fun b => part b = part a) → upto ≠ [] →
      value (agg upto) = some (total upto))
    (hgrows : ∀ upto, upto <+: rows.filter (fun b => part b = part a) →
      total upto ≤ total (rows.filter fun b => part b = part a)) :
    IsGreatest {y | ∃ b x, (b, x) ∈ overParts part agg rows ∧ part b = part a ∧ value x = some y}
      (total (rows.filter fun b => part b = part a)) := by
  constructor
  · obtain ⟨b, hb, hmem⟩ : ∃ b, part b = part a ∧
        (b, agg (rows.filter fun c => part c = part a)) ∈ overParts part agg rows := exists_last h
    have hne : rows.filter (fun b => part b = part a) ≠ [] :=
      List.ne_nil_of_mem (List.mem_filter.mpr ⟨h, by simp⟩)
    exact ⟨b, _, hmem, hb, hvalue _ (List.prefix_refl _) hne⟩
  · rintro y ⟨b, x, hmem, hb, hy⟩
    obtain ⟨upto, hprefix, hin, rfl⟩ := mem_overParts hmem
    rw [hb] at hprefix
    rw [hvalue upto hprefix (List.ne_nil_of_mem hin)] at hy
    cases hy
    exact hgrows upto hprefix

end Window

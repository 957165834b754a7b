import Mathlib.Algebra.BigOperators.Group.List.Basic
import Mathlib.Algebra.GroupWithZero.Nat
import Mathlib.Data.List.Dedup
import Mathlib.Data.List.Nodup
import Mathlib.Data.List.Perm.Basic
import Mathlib.Tactic.Common

/-!
# Grouped aggregates

A grouping has one row for each key that occurs, with an aggregate of the rows of
that key.  Unlike in a join, a null key is a key.

* `mem_groupBy`: what the rows are.
* `mem_groupBy_map`: the same for a table in which a column has been replaced.
* `nodup_groupBy`: no two of them have the same key.
* `perm_part`: the values of a key do not depend on the order of a table.
* `sum_parts`: the sums of the parts add up to the sum of the table.
* `sum_groupBy`: the same for the groups with a name, and the rows that have it.
* `sum_filter_ite`: zeros for rows are as good as leaving the rows out.
-/

namespace Grouping

variable {α β κ : Type} [DecidableEq κ]

/-- `groupBy(key).agg(agg)`. -/
def groupBy (key : α → κ) (agg : κ → List α → β) (rows : List α) : List β :=
  (rows.map key).dedup.map fun k => agg k (rows.filter fun a => key a = k)

variable {key : α → κ} {agg : κ → List α → β} {rows : List α}

theorem mem_groupBy {b : β} :
    b ∈ groupBy key agg rows ↔
      ∃ a ∈ rows, b = agg (key a) (rows.filter fun c => key c = key a) := by
  unfold groupBy
  rw [List.mem_map]
  constructor
  · rintro ⟨k, hk, rfl⟩
    obtain ⟨a, ha, rfl⟩ := List.mem_map.mp (List.mem_dedup.mp hk)
    exact ⟨a, ha, rfl⟩
  · rintro ⟨a, ha, rfl⟩
    exact ⟨key a, List.mem_dedup.mpr (List.mem_map_of_mem ha), rfl⟩

/-- A grouping of a table whose rows have been changed. -/
theorem groupBy_map {γ : Type} (f : γ → α) (cs : List γ) :
    groupBy key agg (cs.map f) =
      groupBy (fun c => key (f c)) (fun k part => agg k (part.map f)) cs := by
  unfold groupBy
  rw [List.map_map]
  refine List.map_congr_left fun k _ => ?_
  rw [List.filter_map]
  rfl

/-- The rows of a table that a column has been replaced in. -/
theorem mem_groupBy_map {γ : Type} {f : γ → α} {cs : List γ} {b : β} :
    b ∈ groupBy key agg (cs.map f) ↔
      ∃ c ∈ cs, b = agg (key (f c)) ((cs.filter fun d => key (f d) = key (f c)).map f) := by
  rw [mem_groupBy]
  constructor
  · rintro ⟨a, ha, rfl⟩
    obtain ⟨c, hc, rfl⟩ := List.mem_map.mp ha
    exact ⟨c, hc, by rw [List.filter_map]; rfl⟩
  · rintro ⟨c, hc, rfl⟩
    exact ⟨f c, List.mem_map_of_mem hc, by rw [List.filter_map]; rfl⟩

/-- **No two rows have the same key**, where it can be read off the aggregate. -/
theorem nodup_groupBy {ν : Type} {name : β → ν} {f : κ → ν} (hname : ∀ k part, name (agg k part) = f k)
    (hinj : ∀ a ∈ rows, ∀ c ∈ rows, f (key a) = f (key c) → key a = key c) :
    ((groupBy key agg rows).map name).Nodup := by
  have hkeys : (groupBy key agg rows).map name = (rows.map key).dedup.map f := by
    rw [groupBy, List.map_map]
    exact List.map_congr_left fun k _ => hname k _
  rw [hkeys]
  refine List.Nodup.map_on ?_ (List.nodup_dedup _)
  intro k hk l hl heq
  obtain ⟨a, ha, rfl⟩ := List.mem_map.mp (List.mem_dedup.mp hk)
  obtain ⟨c, hc, rfl⟩ := List.mem_map.mp (List.mem_dedup.mp hl)
  exact hinj a ha c hc heq

/-- A key stands once among keys that do not repeat. -/
theorem sum_indicator {M : Type} [AddCommMonoid M] {keys : List κ} (hnodup : keys.Nodup) {k : κ}
    (hk : k ∈ keys) (x : M) : (keys.map fun l => if k = l then x else 0).sum = x := by
  induction keys with
  | nil => cases hk
  | cons l keys ih =>
    obtain ⟨hl, hnodup⟩ := List.nodup_cons.mp hnodup
    rw [List.map_cons, List.sum_cons]
    by_cases h : k = l
    · -- it does not stand again
      have hrest : (keys.map fun l => if k = l then x else 0) = keys.map fun _ => 0 := by
        refine List.map_congr_left fun m hm => if_neg ?_
        rintro rfl
        exact hl (h ▸ hm)
      rw [if_pos h, hrest, List.sum_map_zero, add_zero]
    · have hk : k ∈ keys := (List.mem_cons.mp hk).resolve_left h
      rw [if_neg h, zero_add, ih hnodup hk]

/-- **The sums of the parts add up** to the sum of the table. -/
theorem sum_parts {M : Type} [AddCommMonoid M] {keys : List κ} (hnodup : keys.Nodup) (g : α → M)
    (hcovers : ∀ a ∈ rows, key a ∈ keys) :
    (keys.map fun k => ((rows.filter fun a => key a = k).map g).sum).sum = (rows.map g).sum := by
  induction rows with
  | nil => exact List.sum_map_zero
  | cons a rows ih =>
    have hpart : ∀ k, (((a :: rows).filter fun a => key a = k).map g).sum =
        (if key a = k then g a else 0) + ((rows.filter fun a => key a = k).map g).sum := by
      intro k
      by_cases h : key a = k
      · rw [List.filter_cons_of_pos (by simpa using h), List.map_cons, List.sum_cons, if_pos h]
      · rw [List.filter_cons_of_neg (by simpa using h), if_neg h, zero_add]
    simp only [hpart]
    rw [List.sum_map_add, sum_indicator hnodup (hcovers a List.mem_cons_self),
      ih fun b hb => hcovers b (List.mem_cons_of_mem _ hb), List.map_cons, List.sum_cons]

/-- The lengths of the parts add up to the length of the table. -/
theorem sum_length_parts {keys : List κ} (hnodup : keys.Nodup) (hcovers : ∀ a ∈ rows, key a ∈ keys) :
    (keys.map fun k => (rows.filter fun a => key a = k).length).sum = rows.length := by
  have h := sum_parts hnodup (fun _ => 1) hcovers
  simpa using h

/-- **The groups of a name add up** to the rows of that name, where name and sum can be
read off the aggregate. -/
theorem sum_groupBy {M ν : Type} [AddCommMonoid M] [DecidableEq ν] (name : β → ν) (f : κ → ν)
    (total : β → M) (g : α → M) (hname : ∀ k part, name (agg k part) = f k)
    (htotal : ∀ k part, total (agg k part) = (part.map g).sum) (n : ν) :
    (((groupBy key agg rows).filter fun b => name b = n).map total).sum =
      ((rows.filter fun a => f (key a) = n).map g).sum := by
  have hcovers : ∀ a ∈ rows.filter (fun a => f (key a) = n),
      key a ∈ (rows.map key).dedup.filter fun k => f k = n := by
    intro a ha
    obtain ⟨ha, hn⟩ := List.mem_filter.mp ha
    exact List.mem_filter.mpr ⟨List.mem_dedup.mpr (List.mem_map_of_mem ha), hn⟩
  rw [← sum_parts ((List.nodup_dedup _).filter _) g hcovers]
  have hgroups : (groupBy key agg rows).filter (fun b => name b = n) =
      ((rows.map key).dedup.filter fun k => f k = n).map fun k =>
        agg k (rows.filter fun a => key a = k) := by
    rw [groupBy, List.filter_map]
    exact congrArg _ (List.filter_congr fun k _ => by rw [Function.comp_apply, hname])
  rw [hgroups, List.map_map]
  refine congrArg List.sum (List.map_congr_left fun k hk => ?_)
  have hk : f k = n := of_decide_eq_true (List.mem_filter.mp hk).2
  rw [Function.comp_apply, htotal, List.filter_filter]
  refine congrArg (fun part : List α => (part.map g).sum) (List.filter_congr fun a _ => ?_)
  -- a row of the group has the name of the group
  by_cases ha : key a = k
  · simp [ha, hk]
  · simp [ha]

/-- **Zeros add nothing**: rows may be left out instead. -/
theorem sum_filter_ite {M : Type} [AddCommMonoid M] (p q : α → Prop) [DecidablePred p]
    [DecidablePred q] (g : α → M) :
    ((rows.filter fun a => p a).map fun a => if q a then g a else 0).sum =
      ((rows.filter fun a => p a ∧ q a).map g).sum := by
  induction rows with
  | nil => rfl
  | cons a rows ih =>
    by_cases hp : p a
    · by_cases hq : q a
      · simp [hp, hq, ih]
      · simp [hp, hq, ih]
    · simp [hp, ih]

/-- Tables with the same keys and values have the same values for a key. -/
theorem perm_part {γ δ : Type} {as : List α} {cs : List γ} {key' : γ → κ} {g : α → δ} {g' : γ → δ}
    (h : (as.map fun a => (key a, g a)).Perm (cs.map fun c => (key' c, g' c))) (k : κ) :
    ((as.filter fun a => key a = k).map g).Perm ((cs.filter fun c => key' c = k).map g') := by
  have hpart := (h.filter fun p => p.1 = k).map Prod.snd
  rw [List.filter_map, List.filter_map, List.map_map, List.map_map] at hpart
  exact hpart

/-- Tables with the same columns have the same rows in these columns. -/
theorem exists_mem_iff {γ δ : Type} {as : List α} {cs : List γ} {g : α → δ} {g' : γ → δ}
    (h : (as.map g).Perm (cs.map g')) (P : δ → Prop) :
    (∃ a ∈ as, P (g a)) ↔ ∃ c ∈ cs, P (g' c) := by
  constructor
  · rintro ⟨a, ha, hP⟩
    obtain ⟨c, hc, heq⟩ := List.mem_map.mp (h.mem_iff.mp (List.mem_map_of_mem ha))
    exact ⟨c, hc, heq ▸ hP⟩
  · rintro ⟨c, hc, hP⟩
    obtain ⟨a, ha, heq⟩ := List.mem_map.mp (h.mem_iff.mpr (List.mem_map_of_mem hc))
    exact ⟨a, ha, heq ▸ hP⟩

end Grouping

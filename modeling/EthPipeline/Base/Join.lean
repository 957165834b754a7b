import Mathlib.Algebra.GroupWithZero.Nat
import Mathlib.Data.List.Nodup
import Mathlib.Data.List.Perm.Basic
import Mathlib.Tactic.Common

/-!
# Joins of tables with nullable keys

A join finds, for each row of the left table, the rows of the right table with
the same key; a null key finds nothing, and is found by nothing.

* `left_eq_map`, `inner_eq_filterMap`: where no left row finds two, a join is a map.
* `length_left_eq_iff`, `length_left_inner_eq_iff`: a left join, and a left join after
  an inner join, have one row for each left row they keep exactly when none of these
  finds two.
* `mem_outer`: what the rows of an outer join are.
* `nodup_outer`: an outer join has no two rows of the same name, if neither table has.
* `DropDuplicates`: which row of a key stays is open; no key stays twice.
-/

namespace Join

variable {α β κ : Type} [DecidableEq κ]

/-- The rows of the right table that the left row finds. -/
def found (keyL : α → Option κ) (keyR : β → Option κ) (right : List β) (a : α) : List β :=
  match keyL a with
  | none => []
  | some k => right.filter fun b => keyR b = some k

/-- `how="inner"`. -/
def inner (keyL : α → Option κ) (keyR : β → Option κ) (left : List α) (right : List β) :
    List (α × β) :=
  left.flatMap fun a => (found keyL keyR right a).map fun b => (a, b)

/-- The rows of a left join from one left row. -/
def orNull (a : α) : List β → List (α × Option β)
  | [] => [(a, none)]
  | bs => bs.map fun b => (a, some b)

/-- `how="left"`. -/
def left (keyL : α → Option κ) (keyR : β → Option κ) (left : List α) (right : List β) :
    List (α × Option β) :=
  left.flatMap fun a => orNull a (found keyL keyR right a)

/-- `how="outer"`: a left join, and the right rows that no left row finds. -/
def outer (keyL : α → Option κ) (keyR : β → Option κ) (ls : List α) (right : List β) :
    List (Option α × Option β) :=
  (left keyL keyR ls right).map (fun p => (some p.1, p.2)) ++
    (right.filter fun b => (found keyR keyL ls b).isEmpty).map fun b => (none, some b)

section lemmas

variable {keyL : α → Option κ} {keyR : β → Option κ} {ls : List α} {right : List β}

theorem length_orNull (a : α) (bs : List β) : (orNull a bs).length = max 1 bs.length := by
  cases bs with
  | nil => rfl
  | cons b bs =>
    simp only [orNull, List.length_map, List.length_cons]
    omega

theorem orNull_eq_singleton {a : α} {bs : List β} (h : bs.length ≤ 1) :
    orNull a bs = [(a, bs.head?)] := by
  match bs with
  | [] => rfl
  | [b] => rfl
  | _ :: _ :: _ => simp at h

theorem head?_found {k : κ} {a : α} (h : keyL a = some k) :
    (found keyL keyR right a).head? = right.find? fun b => keyR b = some k := by
  unfold found
  rw [h]
  exact List.head?_filter

/-- A key that no two rows share is found once at most. -/
theorem length_found_le_one (h : (right.map keyR).Nodup) (a : α) :
    (found keyL keyR right a).length ≤ 1 := by
  unfold found
  cases keyL a with
  | none => exact Nat.zero_le _
  | some k =>
    simp only
    induction right with
    | nil => exact Nat.zero_le _
    | cons b right ih =>
      rw [List.map_cons, List.nodup_cons] at h
      by_cases hb : keyR b = some k
      · have hrest : right.filter (fun b => decide (keyR b = some k)) = [] := by
          refine List.filter_eq_nil_iff.mpr fun c hc hck => h.1 ?_
          rw [hb]
          exact List.mem_map.mpr ⟨c, hc, by simpa using hck⟩
        simp [hb, hrest]
      · simpa [hb] using ih h.2

/-- **A left join as a map**, where no left row finds two. -/
theorem left_eq_map (h : ∀ a ∈ ls, (found keyL keyR right a).length ≤ 1) :
    left keyL keyR ls right = ls.map fun a => (a, (found keyL keyR right a).head?) := by
  unfold left
  induction ls with
  | nil => rfl
  | cons a ls ih =>
    rw [List.flatMap_cons, List.map_cons, ih fun b hb => h b (List.mem_cons_of_mem _ hb),
      orNull_eq_singleton (h a List.mem_cons_self), List.singleton_append]

/-- The left columns of a left join, where no left row finds two. -/
theorem map_left {γ : Type} (g : α → γ) (h : ∀ a ∈ ls, (found keyL keyR right a).length ≤ 1) :
    (left keyL keyR ls right).map (fun p => g p.1) = ls.map g := by
  rw [left_eq_map h, List.map_map]
  rfl

theorem length_left :
    (left keyL keyR ls right).length =
      (ls.map fun a => max 1 (found keyL keyR right a).length).sum := by
  simp only [left, List.length_flatMap, length_orNull]

/-- **An inner join as a map**, where no left row finds two. -/
theorem inner_eq_filterMap (h : ∀ a ∈ ls, (found keyL keyR right a).length ≤ 1) :
    inner keyL keyR ls right =
      ls.filterMap fun a => (found keyL keyR right a).head?.map fun b => (a, b) := by
  unfold inner
  induction ls with
  | nil => rfl
  | cons a ls ih =>
    have ha := h a List.mem_cons_self
    rw [List.flatMap_cons, ih fun b hb => h b (List.mem_cons_of_mem _ hb)]
    match hfound : found keyL keyR right a with
    | [] => simp [hfound]
    | [b] => simp [hfound]
    | _ :: _ :: _ => simp [hfound] at ha

/-- The left columns of an inner join, where no left row finds two. -/
theorem map_inner {γ : Type} (g : α → γ) (h : ∀ a ∈ ls, (found keyL keyR right a).length ≤ 1) :
    (inner keyL keyR ls right).map (fun p => g p.1) =
      (ls.filter fun a => !(found keyL keyR right a).isEmpty).map g := by
  rw [inner_eq_filterMap h]
  clear h
  induction ls with
  | nil => rfl
  | cons a ls ih =>
    cases hfound : found keyL keyR right a with
    | nil => simpa [hfound] using ih
    | cons b bs => simpa [hfound] using ih

/-- How often a row finds something: as often as its key occurs. -/
theorem length_found_le_one_iff (a : α) :
    (found keyL keyR right a).length ≤ 1 ↔
      ∀ k, keyL a = some k → (right.map keyR).count (some k) ≤ 1 := by
  have hcount : ∀ k, (right.filter fun b => decide (keyR b = some k)).length
      = (right.map keyR).count (some k) := by
    intro k
    rw [List.count, List.countP_map, List.countP_eq_length_filter]
    simp [Function.comp_def, beq_eq_decide]
  unfold found
  cases keyL a with
  | none => simp
  | some k => simp [hcount]

theorem mem_found {a : α} {b : β} :
    b ∈ found keyL keyR right a ↔ b ∈ right ∧ keyL a = keyR b ∧ keyL a ≠ none := by
  unfold found
  cases keyL a with
  | none => simp
  | some k => simp [eq_comm]

theorem mem_left {a : α} {y : Option β} :
    (a, y) ∈ left keyL keyR ls right ↔
      a ∈ ls ∧ ((∃ b ∈ found keyL keyR right a, y = some b) ∨
        found keyL keyR right a = [] ∧ y = none) := by
  have hrow : ∀ c, (a, y) ∈ orNull c (found keyL keyR right c) ↔
      a = c ∧ ((∃ b ∈ found keyL keyR right c, y = some b) ∨
        found keyL keyR right c = [] ∧ y = none) := by
    intro c
    cases found keyL keyR right c with
    | nil => simp [orNull]
    | cons b bs =>
      simp only [orNull, List.mem_map, Prod.mk.injEq]
      constructor
      · rintro ⟨d, hd, rfl, rfl⟩
        exact ⟨rfl, .inl ⟨d, hd, rfl⟩⟩
      · rintro ⟨rfl, ⟨d, hd, rfl⟩ | ⟨hnil, -⟩⟩
        · exact ⟨d, hd, rfl, rfl⟩
        · cases hnil
  unfold left
  rw [List.mem_flatMap]
  constructor
  · rintro ⟨c, hc, hmem⟩
    obtain ⟨rfl, h⟩ := (hrow c).mp hmem
    exact ⟨hc, h⟩
  · rintro ⟨ha, h⟩
    exact ⟨a, ha, (hrow a).mpr ⟨rfl, h⟩⟩

/-- **A row of an outer join** is a left row with a right row it finds, or either alone. -/
theorem mem_outer {x : Option α} {y : Option β} :
    (x, y) ∈ outer keyL keyR ls right ↔
      (∃ a ∈ ls, x = some a ∧ ((∃ b ∈ found keyL keyR right a, y = some b) ∨
        found keyL keyR right a = [] ∧ y = none)) ∨
      ∃ b ∈ right, found keyR keyL ls b = [] ∧ x = none ∧ y = some b := by
  unfold outer
  rw [List.mem_append]
  refine or_congr ?_ ?_
  · simp only [List.mem_map, Prod.exists, Prod.mk.injEq]
    constructor
    · rintro ⟨a, b, hmem, rfl, rfl⟩
      obtain ⟨ha, h⟩ := mem_left.mp hmem
      exact ⟨a, ha, rfl, h⟩
    · rintro ⟨a, ha, rfl, h⟩
      exact ⟨a, y, mem_left.mpr ⟨ha, h⟩, rfl, rfl⟩
  · simp only [List.mem_map, List.mem_filter, List.isEmpty_iff, Prod.mk.injEq]
    constructor
    · rintro ⟨b, ⟨hb, hnone⟩, rfl, rfl⟩
      exact ⟨b, hb, hnone, rfl, rfl⟩
    · rintro ⟨b, hb, hnone, rfl, rfl⟩
      exact ⟨b, ⟨hb, hnone⟩, rfl, rfl⟩

theorem exists_mem_left {a : α} (ha : a ∈ ls) : ∃ y, (a, y) ∈ left keyL keyR ls right := by
  cases hfound : found keyL keyR right a with
  | nil => exact ⟨none, mem_left.mpr ⟨ha, .inr ⟨hfound, rfl⟩⟩⟩
  | cons b bs =>
    exact ⟨some b, mem_left.mpr ⟨ha, .inl ⟨b, hfound ▸ List.mem_cons_self, rfl⟩⟩⟩

/-- Every row of either side is in an outer join. -/
theorem exists_mem_outer_left {a : α} (ha : a ∈ ls) :
    ∃ y, (some a, y) ∈ outer keyL keyR ls right := by
  obtain ⟨y, hy⟩ : ∃ y, (a, y) ∈ left keyL keyR ls right := exists_mem_left ha
  exact ⟨y, List.mem_append_left _ (List.mem_map.mpr ⟨(a, y), hy, rfl⟩)⟩

theorem exists_mem_outer_right {b : β} (hb : b ∈ right) :
    ∃ x, (x, some b) ∈ outer keyL keyR ls right := by
  cases hfound : found keyR keyL ls b with
  | nil => exact ⟨none, mem_outer.mpr (.inr ⟨b, hb, hfound, rfl, rfl⟩)⟩
  | cons a as =>
    have ha : a ∈ found keyR keyL ls b := hfound ▸ List.mem_cons_self
    obtain ⟨ha, hkey, hnone⟩ := mem_found.mp ha
    exact ⟨some a, mem_outer.mpr (.inl ⟨a, ha, rfl,
      .inl ⟨b, mem_found.mpr ⟨hb, hkey.symm, hkey ▸ hnone⟩, rfl⟩⟩)⟩

/-- **An outer join has no two rows of the same name**, if neither table has, and rows
of the same name find each other. -/
theorem nodup_outer {ν : Type} {name : Option α × Option β → ν} {f : α → ν} {g : β → ν}
    (hleft : ∀ a ∈ ls, ∀ y, name (some a, y) = f a) (hright : ∀ b, name (none, some b) = g b)
    (hone : ∀ a ∈ ls, (found keyL keyR right a).length ≤ 1) (hf : (ls.map f).Nodup)
    (hg : (right.map g).Nodup)
    (hmeet : ∀ a ∈ ls, ∀ b ∈ right, f a = g b → found keyR keyL ls b ≠ []) :
    ((outer keyL keyR ls right).map name).Nodup := by
  have hnames : (outer keyL keyR ls right).map name =
      ls.map f ++ (right.filter fun b => (found keyR keyL ls b).isEmpty).map g := by
    rw [outer, List.map_append, List.map_map, List.map_map, left_eq_map hone, List.map_map]
    refine congrArg₂ _ (List.map_congr_left fun a ha => hleft a ha _) ?_
    exact List.map_congr_left fun b _ => hright b
  rw [hnames, List.nodup_append]
  refine ⟨hf, hg.sublist (List.filter_sublist.map g), ?_⟩
  intro x hx y hy heq
  obtain ⟨a, ha, rfl⟩ := List.mem_map.mp hx
  obtain ⟨b, hb, rfl⟩ := List.mem_map.mp hy
  obtain ⟨hb, hnone⟩ := List.mem_filter.mp hb
  exact hmeet a ha b hb heq (List.isEmpty_iff.mp hnone)

end lemmas

/-- Counts that are one at least add up to their number exactly when all are one. -/
theorem sum_eq_length_iff {f : α → ℕ} {xs : List α} (hpos : ∀ a ∈ xs, 1 ≤ f a) :
    (xs.map f).sum = xs.length ↔ ∀ a ∈ xs, f a = 1 := by
  induction xs with
  | nil => simp
  | cons a xs ih =>
    have ha := hpos a List.mem_cons_self
    have hxs : ∀ b ∈ xs, 1 ≤ f b := fun b hb => hpos b (List.mem_cons_of_mem _ hb)
    have hle : xs.length ≤ (xs.map f).sum := by
      clear ih hpos
      induction xs with
      | nil => simp
      | cons b xs ih =>
        have hb := hxs b List.mem_cons_self
        have := ih fun c hc => hxs c (List.mem_cons_of_mem _ hc)
        simp only [List.map_cons, List.sum_cons, List.length_cons]
        omega
    rw [List.map_cons, List.sum_cons, List.length_cons, List.forall_mem_cons, ← ih hxs]
    omega

/-! ### One row for each -/

section counting

variable {keyL : α → Option κ} {keyR : β → Option κ} {ls : List α} {right : List β}

theorem length_left_eq_iff :
    (left keyL keyR ls right).length = ls.length ↔
      ∀ a ∈ ls, (found keyL keyR right a).length ≤ 1 := by
  rw [length_left, sum_eq_length_iff fun a _ => Nat.le_max_left ..]
  refine forall₂_congr fun a _ => ?_
  omega

variable {γ μ : Type} [DecidableEq μ] {keyL' : α → Option μ} {keyR' : γ → Option μ}
  {right' : List γ}

theorem length_left_inner :
    (left (fun p : α × β => keyL' p.1) keyR' (inner keyL keyR ls right) right').length =
      (ls.map fun a => (found keyL keyR right a).length
        * max 1 (found keyL' keyR' right' a).length).sum := by
  have hfound : ∀ p : α × β, found (fun p : α × β => keyL' p.1) keyR' right' p
      = found keyL' keyR' right' p.1 := fun _ => rfl
  rw [length_left]
  unfold inner
  induction ls with
  | nil => rfl
  | cons a ls ih =>
    rw [List.flatMap_cons, List.map_append, List.sum_append, ih, List.map_cons, List.sum_cons,
      List.map_map]
    simp [Function.comp_def, hfound]

/-- **A left join after an inner join** has one row for each row that the inner join
keeps exactly when these find one row on either side. -/
theorem length_left_inner_eq_iff :
    (left (fun p : α × β => keyL' p.1) keyR' (inner keyL keyR ls right) right').length =
        (ls.filter fun a => !(found keyL keyR right a).isEmpty).length ↔
      ∀ a ∈ ls, found keyL keyR right a ≠ [] →
        (found keyL keyR right a).length ≤ 1 ∧ (found keyL' keyR' right' a).length ≤ 1 := by
  have hsum : (ls.map fun a => (found keyL keyR right a).length
        * max 1 (found keyL' keyR' right' a).length).sum =
      ((ls.filter fun a => !(found keyL keyR right a).isEmpty).map fun a =>
        (found keyL keyR right a).length * max 1 (found keyL' keyR' right' a).length).sum := by
    induction ls with
    | nil => rfl
    | cons a ls ih =>
      cases hfound : found keyL keyR right a with
      | nil => simp [hfound, ih]
      | cons b bs => simp [hfound, ih]
  rw [length_left_inner, hsum, sum_eq_length_iff]
  · simp only [List.mem_filter, Bool.not_eq_true', List.isEmpty_eq_false_iff, and_imp]
    refine forall₃_congr fun a _ hne => ?_
    have hpos := List.length_pos_iff.mpr hne
    constructor
    · intro hone
      have hleft := Nat.eq_one_of_mul_eq_one_right hone
      have hright := Nat.eq_one_of_mul_eq_one_left hone
      omega
    · intro ⟨hleft, hright⟩
      rw [show (found keyL keyR right a).length = 1 by omega, Nat.one_mul]
      omega
  · intro a ha
    have hne : found keyL keyR right a ≠ [] := by simpa using (List.mem_filter.mp ha).2
    exact Nat.mul_pos (List.length_pos_iff.mpr hne) (by omega)

end counting

/-! ### One row for each key -/

/-- `dropDuplicates`: one row of each key stays, whichever. -/
structure DropDuplicates (key : β → κ) (rows kept : List β) : Prop where
  sub : ∀ b ∈ kept, b ∈ rows
  nodup : (kept.map key).Nodup
  covers : ∀ b ∈ rows, ∃ b' ∈ kept, key b' = key b

end Join

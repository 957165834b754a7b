import EthPipeline.Base.Query
import Mathlib.Data.List.Nodup
import Mathlib.Tactic.Common

/-!
# A capped list with one entry for a key

Two ways an entry gets into the list: at its front, or merged in with others and
sorted.  Either is left out when an entry with its key is there already.

* `map_prepend`, `map_merge`: both commute with a map of the entries that keeps
  keys and order.
* `nodup_prepend`, `nodup_merge`: when they keep the values of another function
  of the entries apart.
* `pairwise_take_cons_iff`: when the front keeps the list in order.
* `cut_of_not_shows_merge`: what a merge leaves out stands behind what it keeps.
* `merge_merge`: merging the same entries in again changes nothing.
-/

namespace Feed

variable {α β κ τ : Type} [DecidableEq κ] {key : α → κ} {le : α → α → Bool} {cap : ℕ}

def Shows (key : α → κ) (xs : List α) (a : α) : Prop := ∃ p ∈ xs, key p = key a

instance (key : α → κ) (xs : List α) (a : α) : Decidable (Shows key xs a) :=
  inferInstanceAs (Decidable (∃ p ∈ xs, _))

def prepend (key : α → κ) (cap : ℕ) (xs : List α) (a : α) : List α :=
  if Shows key xs a then xs else (a :: xs).take cap

def push (key : α → κ) (xs : List α) (a : α) : List α :=
  if Shows key xs a then xs else xs ++ [a]

def merge (key : α → κ) (le : α → α → Bool) (cap : ℕ) (xs fetched : List α) : List α :=
  ((fetched.foldl (push key) xs).mergeSort le).take cap

/-! ### Maps of the entries -/

section Map

variable {f : α → β} {key' : β → κ} {le' : β → β → Bool}

omit [DecidableEq κ] in
theorem shows_map (hkey : ∀ a, key' (f a) = key a) (xs : List α) (a : α) :
    Shows key' (xs.map f) (f a) ↔ Shows key xs a := by
  simp [Shows, hkey]

theorem map_prepend (hkey : ∀ a, key' (f a) = key a) (xs : List α) (a : α) :
    (prepend key cap xs a).map f = prepend key' cap (xs.map f) (f a) := by
  unfold prepend
  simp only [shows_map hkey xs a]
  split
  · rfl
  · rw [List.map_take, List.map_cons]

theorem map_push (hkey : ∀ a, key' (f a) = key a) (xs : List α) (a : α) :
    (push key xs a).map f = push key' (xs.map f) (f a) := by
  unfold push
  simp only [shows_map hkey xs a]
  split
  · rfl
  · rw [List.map_append, List.map_singleton]

theorem map_foldl_push (hkey : ∀ a, key' (f a) = key a) (xs fetched : List α) :
    (fetched.foldl (push key) xs).map f = (fetched.map f).foldl (push key') (xs.map f) := by
  induction fetched generalizing xs with
  | nil => rfl
  | cons a fetched ih =>
    rw [List.foldl_cons, List.map_cons, List.foldl_cons, ← map_push hkey]
    exact ih _

theorem map_merge (hkey : ∀ a, key' (f a) = key a) (hle : ∀ a b, le a b = le' (f a) (f b))
    (xs fetched : List α) :
    (merge key le cap xs fetched).map f = merge key' le' cap (xs.map f) (fetched.map f) := by
  unfold merge
  rw [List.map_take, List.map_mergeSort fun a _ b _ => hle a b, map_foldl_push hkey]

end Map

/-! ### Entries kept apart -/

section Nodup

variable {tag : α → τ} {xs fetched : List α} {a : α}

theorem nodup_prepend (hxs : (xs.map tag).Nodup) (ha : ∀ p ∈ xs, tag p ≠ tag a) :
    ((prepend key cap xs a).map tag).Nodup := by
  unfold prepend
  split
  · exact hxs
  · have hcons : ((a :: xs).map tag).Nodup := by
      rw [List.map_cons, List.nodup_cons]
      refine ⟨?_, hxs⟩
      intro hmem
      obtain ⟨p, hp, heq⟩ := List.mem_map.mp hmem
      exact ha p hp heq
    exact hcons.sublist ((List.take_sublist cap _).map tag)

theorem nodup_push (hxs : (xs.map tag).Nodup) (ha : ∀ p ∈ xs, tag p = tag a → key p = key a) :
    ((push key xs a).map tag).Nodup := by
  unfold push
  split
  · exact hxs
  · next hnew =>
    rw [List.map_append, List.map_singleton, List.nodup_append]
    refine ⟨hxs, List.nodup_singleton _, ?_⟩
    intro t ht u hu
    obtain ⟨p, hp, rfl⟩ := List.mem_map.mp ht
    obtain rfl := List.mem_singleton.mp hu
    intro heq
    exact hnew ⟨p, hp, ha p hp heq⟩

/-- Entries of one tag have one key, those fetched and those already there. -/
theorem nodup_foldl_push (hxs : (xs.map tag).Nodup)
    (hfetched : ∀ a ∈ fetched, ∀ p ∈ xs ++ fetched, tag p = tag a → key p = key a) :
    ((fetched.foldl (push key) xs).map tag).Nodup := by
  induction fetched generalizing xs with
  | nil => exact hxs
  | cons a fetched ih =>
    refine ih (nodup_push hxs fun p hp => ?_) fun b hb p hp => ?_
    · exact hfetched a List.mem_cons_self p (List.mem_append_left _ hp)
    · have hmem : p ∈ xs ++ a :: fetched := by
        rcases List.mem_append.mp hp with hp | hp
        · unfold push at hp
          split at hp
          · exact List.mem_append_left _ hp
          · rcases List.mem_append.mp hp with hp | hp
            · exact List.mem_append_left _ hp
            · obtain rfl := List.mem_singleton.mp hp
              exact List.mem_append_right _ List.mem_cons_self
        · exact List.mem_append_right _ (List.mem_cons_of_mem _ hp)
      exact hfetched b (List.mem_cons_of_mem _ hb) p hmem

theorem nodup_merge (hxs : (xs.map tag).Nodup)
    (hfetched : ∀ a ∈ fetched, ∀ p ∈ xs ++ fetched, tag p = tag a → key p = key a) :
    ((merge key le cap xs fetched).map tag).Nodup := by
  have hperm := (List.mergeSort_perm (fetched.foldl (push key) xs) le).map tag
  have hsorted := hperm.nodup_iff.mpr (nodup_foldl_push hxs hfetched)
  exact hsorted.sublist ((List.take_sublist cap _).map tag)

end Nodup

/-! ### What is cut off -/

/-- What `prepend` cuts off. -/
def prependRest (key : α → κ) (cap : ℕ) (xs : List α) (a : α) : List α :=
  if Shows key xs a then [] else (a :: xs).drop cap

/-- What `merge` cuts off. -/
def mergeRest (key : α → κ) (le : α → α → Bool) (cap : ℕ) (xs fetched : List α) : List α :=
  ((fetched.foldl (push key) xs).mergeSort le).drop cap

theorem prepend_of_shows {xs : List α} {a : α} (h : Shows key xs a) :
    prepend key cap xs a = xs ∧ prependRest key cap xs a = [] := by
  rw [prepend, prependRest, if_pos h, if_pos h]
  exact ⟨rfl, rfl⟩

theorem prepend_of_not_shows {xs : List α} {a : α} (h : ¬Shows key xs a) :
    prepend key cap xs a = (a :: xs).take cap ∧ prependRest key cap xs a = (a :: xs).drop cap := by
  rw [prepend, prependRest, if_neg h, if_neg h]
  exact ⟨rfl, rfl⟩

theorem merge_append_rest (xs fetched : List α) :
    merge key le cap xs fetched ++ mergeRest key le cap xs fetched =
      (fetched.foldl (push key) xs).mergeSort le :=
  List.take_append_drop ..

theorem length_merge_le (xs fetched : List α) : (merge key le cap xs fetched).length ≤ cap := by
  rw [merge, List.length_take]
  exact Nat.min_le_left ..

/-- The entries that are pushed are new, and every entry has its key in the list then. -/
theorem foldl_push_eq (key : α → κ) (xs fetched : List α) :
    ∃ news, fetched.foldl (push key) xs = xs ++ news ∧ news ⊆ fetched ∧
      (∀ a ∈ news, ¬Shows key xs a) ∧ ∀ a ∈ fetched, Shows key (xs ++ news) a := by
  induction fetched generalizing xs with
  | nil =>
    refine ⟨[], (List.append_nil xs).symm, List.Subset.refl _, ?_, ?_⟩
    · exact fun a ha => nomatch ha
    · exact fun a ha => nomatch ha
  | cons a fetched ih =>
    rw [List.foldl_cons]
    by_cases ha : Shows key xs a
    · obtain ⟨news, heq, hsub, hnew, hall⟩ := ih xs
      refine ⟨news, by rw [push, if_pos ha, heq], List.subset_cons_of_subset a hsub, hnew, ?_⟩
      intro b hb
      rcases List.mem_cons.mp hb with rfl | hb
      · obtain ⟨p, hp, hkey⟩ := ha
        exact ⟨p, List.mem_append_left _ hp, hkey⟩
      · exact hall b hb
    · obtain ⟨news, heq, hsub, hnew, hall⟩ := ih (xs ++ [a])
      refine ⟨a :: news, by rw [push, if_neg ha, heq, List.append_assoc, List.singleton_append],
        List.cons_subset_cons a hsub, ?_, ?_⟩
      · intro b hb
        rcases List.mem_cons.mp hb with rfl | hb
        · exact ha
        · rintro ⟨p, hp, hkey⟩
          exact hnew b hb ⟨p, List.mem_append_left _ hp, hkey⟩
      · intro b hb
        rw [← List.singleton_append, ← List.append_assoc]
        rcases List.mem_cons.mp hb with rfl | hb
        · exact ⟨b, by simp, rfl⟩
        · exact hall b hb

theorem mem_of_mem_sorted {xs fetched : List α} {a : α}
    (h : a ∈ (fetched.foldl (push key) xs).mergeSort le) : a ∈ xs ∨ a ∈ fetched := by
  obtain ⟨news, heq, hsub, -, -⟩ := foldl_push_eq key xs fetched
  rw [List.mem_mergeSort, heq] at h
  exact (List.mem_append.mp h).imp_right fun hnews => hsub hnews

theorem mem_of_mem_merge {xs fetched : List α} {a : α} (h : a ∈ merge key le cap xs fetched) :
    a ∈ xs ∨ a ∈ fetched :=
  mem_of_mem_sorted (List.mem_of_mem_take h)

theorem mem_of_mem_mergeRest {xs fetched : List α} {a : α}
    (h : a ∈ mergeRest key le cap xs fetched) : a ∈ xs ∨ a ∈ fetched :=
  mem_of_mem_sorted (List.mem_of_mem_drop h)

/-- A merge keeps the entry that was there before. -/
theorem eq_of_mem_merge {xs fetched : List α} (hxs : (xs.map key).Nodup) {a p : α}
    (ha : a ∈ merge key le cap xs fetched) (hp : p ∈ xs) (hkey : key p = key a) : a = p := by
  obtain ⟨news, heq, -, hnew, -⟩ := foldl_push_eq key xs fetched
  have hmem : a ∈ xs ++ news := by
    rw [← heq]
    exact List.mem_mergeSort.mp (List.mem_of_mem_take ha)
  rcases List.mem_append.mp hmem with hold | hnews
  · exact List.inj_on_of_nodup_map hxs hold hp hkey.symm
  · exact absurd ⟨p, hp, hkey⟩ (hnew a hnews)

theorem merge_congr {le' : α → α → Bool} {xs fetched : List α}
    (h : ∀ a ∈ xs ++ fetched, ∀ b ∈ xs ++ fetched, le a b = le' a b) :
    (fetched.foldl (push key) xs).mergeSort le = (fetched.foldl (push key) xs).mergeSort le' := by
  obtain ⟨news, heq, hsub, -, -⟩ := foldl_push_eq key xs fetched
  have hmem : ∀ a ∈ xs ++ news, a ∈ xs ++ fetched := by
    intro a ha
    rcases List.mem_append.mp ha with ha | ha
    · exact List.mem_append_left _ ha
    · exact List.mem_append_right _ (hsub ha)
  rw [heq]
  have hsame : ∀ a ∈ xs ++ news, ∀ b ∈ xs ++ news, le a b = le' (id a) (id b) :=
    fun a ha b hb => h a (hmem a ha) b (hmem b hb)
  have hmap := List.map_mergeSort hsame
  rwa [List.map_id, List.map_id] at hmap

/-! ### The order -/

section Order

variable {xs fetched : List α} {a : α}

omit [DecidableEq κ] in
/-- **The front keeps the list in order** just when no entry comes before the new one. -/
theorem pairwise_take_cons_iff (htrans : ∀ a b c, le a b → le b c → le a c) (hcap : 1 < cap)
    (hsorted : xs.Pairwise (le · ·)) :
    ((a :: xs).take cap).Pairwise (le · ·) ↔ ∀ p ∈ xs, le a p := by
  constructor
  · intro h p hp
    obtain ⟨k, rfl⟩ := Nat.exists_eq_add_of_lt hcap
    cases xs with
    | nil => cases hp
    | cons x xs =>
      have hax : le a x := by
        rw [show 1 + k + 1 = k + 2 by omega] at h
        exact (List.pairwise_cons.mp h).1 x (by simp)
      rcases List.mem_cons.mp hp with rfl | hp
      · exact hax
      · exact htrans a x p hax ((List.pairwise_cons.mp hsorted).1 p hp)
  · intro h
    exact (List.pairwise_cons.mpr ⟨h, hsorted⟩).sublist (List.take_sublist ..)

theorem pairwise_sorted (htrans : ∀ a b c, le a b → le b c → le a c)
    (htotal : ∀ a b, le a b || le b a) :
    (merge key le cap xs fetched ++ mergeRest key le cap xs fetched).Pairwise (le · ·) := by
  rw [merge_append_rest]
  exact List.pairwise_mergeSort htrans htotal _

/-- **What a merge leaves out** stands behind all that it keeps, and the list is full then. -/
theorem cut_of_not_shows_merge (htrans : ∀ a b c, le a b → le b c → le a c)
    (htotal : ∀ a b, le a b || le b a) (ha : a ∈ xs ∨ a ∈ fetched)
    (hnot : ¬Shows key (merge key le cap xs fetched) a) :
    (merge key le cap xs fetched).length = cap ∧
      ∃ p, (p ∈ xs ∨ p ∈ fetched) ∧ key p = key a ∧ ∀ b ∈ merge key le cap xs fetched, le b p := by
  obtain ⟨news, heq, hsub, -, hall⟩ := foldl_push_eq key xs fetched
  have hshows : Shows key (xs ++ news) a := by
    rcases ha with ha | ha
    · exact ⟨a, List.mem_append_left _ ha, rfl⟩
    · exact hall a ha
  obtain ⟨p, hp, hkey⟩ := hshows
  have hsplit : p ∈ merge key le cap xs fetched ++ mergeRest key le cap xs fetched := by
    rw [merge_append_rest, List.mem_mergeSort, heq]
    exact hp
  have hrest : p ∈ mergeRest key le cap xs fetched := by
    rcases List.mem_append.mp hsplit with hkept | hrest
    · exact absurd ⟨p, hkept, hkey⟩ hnot
    · exact hrest
  refine ⟨?_, p, mem_of_mem_mergeRest hrest, hkey, fun b hb => ?_⟩
  · have hlong := List.length_pos_of_mem hrest
    rw [mergeRest, List.length_drop] at hlong
    rw [merge, List.length_take]
    omega
  · exact (List.pairwise_append.mp (pairwise_sorted htrans htotal)).2.2 b hb p hrest

theorem length_merge_of_full (fetched : List α) (h : cap ≤ xs.length) :
    (merge key le cap xs fetched).length = cap := by
  obtain ⟨news, heq, -⟩ := foldl_push_eq key xs fetched
  rw [merge, List.length_take, List.length_mergeSort, heq, List.length_append]
  omega

theorem length_merge_of_rest (h : mergeRest key le cap xs fetched ≠ []) :
    (merge key le cap xs fetched).length = cap := by
  have hpos := List.length_pos_of_ne_nil h
  rw [mergeRest, List.length_drop] at hpos
  rw [merge, List.length_take]
  omega

/-- Once the list is full, a merge puts nothing in that comes behind all its entries. -/
theorem le_of_mem_merge_of_full (htrans : ∀ a b c, le a b → le b c → le a c)
    (htotal : ∀ a b, le a b || le b a) (hfull : cap ≤ xs.length) {d : α}
    (hd : ∀ p ∈ xs, le p d) : ∀ a ∈ merge key le cap xs fetched, le a d := by
  obtain ⟨news, heq, -⟩ := foldl_push_eq key xs fetched
  have hfirst := Query.filter_eq_take (p := fun a => le a d)
    (List.pairwise_mergeSort htrans htotal (fetched.foldl (push key) xs))
    fun a b hab hb => htrans a b d hab hb
  have hcount : cap ≤ ((fetched.foldl (push key) xs).mergeSort le).countP fun a => le a d := by
    rw [(List.mergeSort_perm _ le).countP_eq, heq, List.countP_append,
      List.countP_eq_length.mpr hd]
    omega
  intro a ha
  have hmem : a ∈ ((fetched.foldl (push key) xs).mergeSort le).filter fun a => le a d := by
    rw [hfirst]
    exact (List.take_sublist_take_left hcount).subset ha
  exact (List.mem_filter.mp hmem).2

theorem mergeSort_append_of_le (htrans : ∀ a b c, le a b → le b c → le a c)
    (htotal : ∀ a b, le a b || le b a) {ys : List α} (hsorted : xs.Pairwise (le · ·))
    (h : ∀ a ∈ xs, ∀ b ∈ ys, le a b) : (xs ++ ys).mergeSort le = xs ++ ys.mergeSort le := by
  induction xs with
  | nil => rfl
  | cons x xs ih =>
    obtain ⟨hx, hsorted⟩ := List.pairwise_cons.mp hsorted
    have htail := ih hsorted fun a ha => h a (List.mem_cons_of_mem _ ha)
    obtain ⟨l₁, l₂, hcons, hrest, hfirst⟩ := List.mergeSort_cons htrans htotal x (xs ++ ys)
    have hnil : l₁ = [] := by
      refine List.eq_nil_iff_forall_not_mem.mpr fun b hb => ?_
      have hmem : b ∈ xs ++ ys := by
        refine List.mem_mergeSort.mp (?_ : b ∈ (xs ++ ys).mergeSort le)
        rw [hrest]
        exact List.mem_append_left _ hb
      have hle : le x b := by
        rcases List.mem_append.mp hmem with hb | hb
        · exact hx b hb
        · exact h x List.mem_cons_self b hb
      simpa [hle] using hfirst b hb
    rw [hnil, List.nil_append] at hcons hrest
    rw [List.cons_append, hcons, ← hrest, htail, List.cons_append]

/-- **Merging the same entries in again** changes nothing, if entries with one key are at
one place of the order. -/
theorem merge_merge (htrans : ∀ a b c, le a b → le b c → le a c)
    (htotal : ∀ a b, le a b || le b a)
    (hkey : ∀ a p, (a ∈ xs ∨ a ∈ fetched) → (p ∈ xs ∨ p ∈ fetched) → key p = key a →
      ∀ b, le b p → le b a) :
    merge key le cap (merge key le cap xs fetched) fetched = merge key le cap xs fetched := by
  obtain ⟨news, heq, hsub, hnew, -⟩ := foldl_push_eq key (merge key le cap xs fetched)
    fetched
  have hsorted : (merge key le cap xs fetched).Pairwise (le · ·) :=
    (List.pairwise_append.mp (pairwise_sorted htrans htotal)).1
  have hbehind : ∀ b ∈ merge key le cap xs fetched, ∀ a ∈ news, le b a := by
    intro b hb a ha
    obtain ⟨-, p, hp, hpa, hle⟩ := cut_of_not_shows_merge htrans htotal (.inr (hsub ha)) (hnew a ha)
    exact hkey a p (.inr (hsub ha)) hp hpa b (hle b hb)
  have hfull : news ≠ [] → (merge key le cap xs fetched).length = cap := by
    intro hne
    obtain ⟨a, ha⟩ := List.exists_mem_of_ne_nil news hne
    exact (cut_of_not_shows_merge htrans htotal (.inr (hsub ha)) (hnew a ha)).1
  conv_lhs => rw [merge]
  rw [heq, mergeSort_append_of_le htrans htotal hsorted hbehind]
  by_cases hnil : news = []
  · rw [hnil, List.mergeSort_nil, List.append_nil]
    exact List.take_of_length_le (length_merge_le xs fetched)
  · exact List.take_left' (hfull hnil)

end Order

end Feed

import EthPipeline.Base.Keyed

/-!
# Tables whose rows are replaced

`upsert` is `INSERT ... ON CONFLICT (key) DO UPDATE` of all columns: the row of a key is
replaced, and every other row stays.

* `find_upsertAll`: a key has the last row of the batch that has it, or the row from
  before.
* `find_insertAll`: of a batch that is inserted, the first row of a key stays.
-/

namespace Keyed

variable {κ ρ : Type} {key : ρ → κ} [DecidableEq κ]

/-- The row of a key. -/
def find (T : Keyed key) (k : κ) : Option ρ := T.rows.find? fun r => key r = k

/-- The last row of a list that has the key. -/
def lastOf (key : ρ → κ) (rs : List ρ) (k : κ) : Option ρ := rs.reverse.find? fun r => key r = k

/-- `INSERT ... ON CONFLICT (key) DO UPDATE`. -/
def upsert (T : Keyed key) (r : ρ) : Keyed key :=
  if T.HasKey (key r) then
    ⟨T.rows.map fun q => if key q = key r then r else q, by
      have hkeys : (T.rows.map fun q => if key q = key r then r else q).map key =
          T.rows.map key := by
        rw [List.map_map]
        refine List.map_congr_left fun q _ => ?_
        show key (if key q = key r then r else q) = key q
        split
        · next h => exact h.symm
        · rfl
      rw [hkeys]
      exact T.nodup⟩
  else T.insert r

/-- The rows of a batch, one at a time and in order. -/
def upsertAll (T : Keyed key) (rs : List ρ) : Keyed key := rs.foldl upsert T

variable {T U : Keyed key} {r q : ρ} {rs qs : List ρ} {k : κ}

theorem find?_key {rs : List ρ} (h : rs.find? (fun r => key r = k) = some r) :
    r ∈ rs ∧ key r = k := by
  have hkey := List.find?_some h
  exact ⟨List.mem_of_find?_eq_some h, of_decide_eq_true hkey⟩

theorem find_eq_some_iff : T.find k = some r ↔ r ∈ T.rows ∧ key r = k := by
  constructor
  · exact find?_key
  · rintro ⟨hr, rfl⟩
    cases hfind : T.find (key r) with
    | none =>
      have hno := List.find?_eq_none.mp hfind r hr
      exact absurd (decide_eq_true rfl) hno
    | some q =>
      obtain ⟨hq, hqr⟩ := find?_key hfind
      rw [List.inj_on_of_nodup_map T.nodup hq hr hqr]

theorem mem_rows_iff_find : r ∈ T.rows ↔ T.find (key r) = some r := by
  rw [find_eq_some_iff, and_iff_left rfl]

theorem hasKey_iff_isSome_find : T.HasKey k ↔ (T.find k).isSome := by
  rw [hasKey_iff, Option.isSome_iff_exists]
  exact exists_congr fun r => find_eq_some_iff.symm

theorem find_eq_none_iff : T.find k = none ↔ ¬T.HasKey k := by
  rw [hasKey_iff_isSome_find, Bool.not_eq_true, Option.isSome_eq_false_iff, Option.isNone_iff_eq_none]

@[simp] theorem find_empty : (empty : Keyed key).find k = none := rfl

theorem find_insert : (T.insert r).find k = (T.find k).or (if key r = k then some r else none) := by
  by_cases hkey : T.HasKey (key r)
  · rw [insert_of_hasKey hkey]
    split
    · next h =>
      subst h
      obtain ⟨q, hq⟩ := Option.isSome_iff_exists.mp (hasKey_iff_isSome_find.mp hkey)
      rw [hq, Option.some_or]
    · exact Option.or_none.symm
  · rw [find, rows_insert_of_not_hasKey hkey, List.find?_append, List.find?_singleton]
    simp only [decide_eq_true_eq]
    rfl

/-- **The first row of a key stays.** -/
theorem find_insertAll : (T.insertAll rs).find k = (T.find k).or (rs.find? fun r => key r = k) := by
  induction rs generalizing T with
  | nil => exact Option.or_none.symm
  | cons r rs ih =>
    rw [insertAll_cons, ih, find_insert, Option.or_assoc, List.find?_cons]
    by_cases h : key r = k
    · simp [h]
    · simp [h]

/-- **One row** is written, and no other key is touched. -/
theorem find_upsert : (T.upsert r).find k = if key r = k then some r else T.find k := by
  by_cases hkey : T.HasKey (key r)
  · have hrows : (T.upsert r).rows = T.rows.map fun q => if key q = key r then r else q := by
      rw [upsert, if_pos hkey]
    split
    · next h =>
      obtain ⟨q, hq, hqr⟩ := hasKey_iff.mp hkey
      refine find_eq_some_iff.mpr ⟨?_, h⟩
      rw [hrows]
      exact List.mem_map.mpr ⟨q, hq, if_pos hqr⟩
    · next h =>
      refine Option.ext fun q => ?_
      rw [find_eq_some_iff, find_eq_some_iff, hrows, List.mem_map]
      constructor
      · rintro ⟨⟨p, hp, rfl⟩, hk⟩
        by_cases hpr : key p = key r
        · rw [if_pos hpr] at hk
          exact absurd hk h
        · rw [if_neg hpr] at hk ⊢
          exact ⟨hp, hk⟩
      · rintro ⟨hq, rfl⟩
        exact ⟨⟨q, hq, if_neg (Ne.symm h)⟩, rfl⟩
  · have hrows : (T.upsert r).rows = T.rows ++ [r] := by
      rw [upsert, if_neg hkey, rows_insert_of_not_hasKey hkey]
    rw [find, hrows, List.find?_append]
    split
    · next h =>
      subst h
      have hnone : T.rows.find? (fun q => key q = key r) = none := find_eq_none_iff.mpr hkey
      rw [hnone, Option.none_or, List.find?_singleton, if_pos (decide_eq_true rfl)]
    · next h =>
      rw [List.find?_singleton, if_neg (by simpa using h), Option.or_none, find]

@[simp] theorem upsertAll_nil : T.upsertAll [] = T := rfl

@[simp] theorem upsertAll_cons : T.upsertAll (r :: rs) = (T.upsert r).upsertAll rs := rfl

theorem upsertAll_append : T.upsertAll (rs ++ qs) = (T.upsertAll rs).upsertAll qs :=
  List.foldl_append

theorem lastOf_cons : lastOf key (r :: rs) k =
    (lastOf key rs k).or (if key r = k then some r else none) := by
  rw [lastOf, List.reverse_cons, List.find?_append, List.find?_singleton]
  simp only [decide_eq_true_eq]
  rfl

theorem lastOf_eq_some (h : lastOf key rs k = some r) : r ∈ rs ∧ key r = k := by
  obtain ⟨hr, hk⟩ := find?_key h
  exact ⟨List.mem_reverse.mp hr, hk⟩

theorem lastOf_eq_none_iff : lastOf key rs k = none ↔ ∀ r ∈ rs, key r ≠ k := by
  rw [lastOf, List.find?_eq_none]
  simp

/-- Of a batch without repeated keys, the last row of a key is the only one. -/
theorem lastOf_eq_some_iff (h : (rs.map key).Nodup) :
    lastOf key rs k = some r ↔ r ∈ rs ∧ key r = k := by
  constructor
  · exact lastOf_eq_some
  · rintro ⟨hr, rfl⟩
    cases hlast : lastOf key rs (key r) with
    | none => exact absurd rfl (lastOf_eq_none_iff.mp hlast r hr)
    | some q =>
      obtain ⟨hq, hqr⟩ := lastOf_eq_some hlast
      rw [List.inj_on_of_nodup_map h hq hr hqr]

/-- **The last writer wins.** -/
theorem find_upsertAll : (T.upsertAll rs).find k = (lastOf key rs k).or (T.find k) := by
  induction rs generalizing T with
  | nil => rfl
  | cons r rs ih =>
    rw [upsertAll_cons, ih, find_upsert, lastOf_cons, Option.or_assoc]
    congr 1
    split
    · rfl
    · exact Option.none_or.symm

theorem find_upsertAll_empty : ((empty : Keyed key).upsertAll rs).find k = lastOf key rs k := by
  rw [find_upsertAll, find_empty, Option.or_none]

theorem HasKey.upsertAll (h : T.HasKey k) (rs : List ρ) : (T.upsertAll rs).HasKey k := by
  rw [hasKey_iff_isSome_find] at h ⊢
  rw [find_upsertAll, Option.isSome_or, h, Bool.or_true]

theorem HasKey.upsert (h : T.HasKey k) (r : ρ) : (T.upsert r).HasKey k := h.upsertAll [r]

theorem hasKey_upsertAll_of_mem (T : Keyed key) (h : r ∈ rs) : (T.upsertAll rs).HasKey (key r) := by
  rw [hasKey_iff_isSome_find, find_upsertAll, Option.isSome_or]
  cases hlast : lastOf key rs (key r) with
  | none => exact absurd rfl (lastOf_eq_none_iff.mp hlast r h)
  | some q => rfl

theorem mem_of_mem_upsertAll (h : r ∈ (T.upsertAll rs).rows) : r ∈ rs ∨ r ∈ T.rows := by
  rw [mem_rows_iff_find, find_upsertAll, Option.or_eq_some_iff] at h
  rcases h with h | ⟨-, h⟩
  · exact .inl (lastOf_eq_some h).1
  · exact .inr (mem_rows_iff_find.mpr h)

theorem mem_of_mem_upsert (h : r ∈ (T.upsert q).rows) : r = q ∨ r ∈ T.rows := by
  have hone : r ∈ (T.upsertAll [q]).rows := h
  rcases mem_of_mem_upsertAll hone with h | h
  · exact .inl (List.mem_singleton.mp h)
  · exact .inr h

/-- A row that no other row of the batch replaces stays. -/
theorem mem_upsertAll (hr : r ∈ T.rows) (hrs : ∀ q ∈ rs, key q = key r → q = r) :
    r ∈ (T.upsertAll rs).rows := by
  rw [mem_rows_iff_find] at hr ⊢
  rw [find_upsertAll]
  cases hlast : lastOf key rs (key r) with
  | none => rw [Option.none_or, hr]
  | some q =>
    obtain ⟨hq, hqr⟩ := lastOf_eq_some hlast
    rw [hrs q hq hqr, Option.some_or]

theorem mem_upsert (hr : r ∈ T.rows) (hq : key q = key r → q = r) : r ∈ (T.upsert q).rows := by
  have hone : r ∈ (T.upsertAll [q]).rows := by
    refine mem_upsertAll hr fun p hp hkey => ?_
    obtain rfl := List.mem_singleton.mp hp
    exact hq hkey
  exact hone

/-- The rows of a batch without repeated keys are in the table. -/
theorem mem_upsertAll_of_nodup (T : Keyed key) (h : (rs.map key).Nodup) (hr : r ∈ rs) :
    r ∈ (T.upsertAll rs).rows := by
  rw [mem_rows_iff_find, find_upsertAll, (lastOf_eq_some_iff h).mpr ⟨hr, rfl⟩, Option.some_or]

theorem mem_upsert_self (T : Keyed key) (r : ρ) : r ∈ (T.upsert r).rows := by
  rw [mem_rows_iff_find, find_upsert, if_pos rfl]

end Keyed

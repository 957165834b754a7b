import Mathlib.Data.List.Induction
import Mathlib.Data.List.Nodup
import Mathlib.Tactic.Common

/-!
# Tables with a primary key, and replayed inserts

`Keyed key` is a list of rows in the order they came in, with the proof that no
key occurs twice.  `insert` is `INSERT ... ON CONFLICT (key) DO NOTHING`: the
first row of a key stays.

* `insertAll_of_subset`: inserting rows whose keys are already there changes
  nothing, so a batch may be sent any number of times.
* `mem_insertAll_empty_iff`: which of the rows inserted are in the table.
* `storeAll`: a multi-row insert through a conversion `cast` of records to rows
  that can fail; all rows go in, or the statement fails and none does.
* `Buffered`: a consumer reads a `source` in order, keeps the records of a last
  part of it in a batch and has stored the records of a first part; after a
  restart it reads some of the source again.  The table is then always the one
  a single pass over a first part of the source gives (`Buffered.receive`,
  `Buffered.store`, `Buffered.clear`, `Buffered.restart`).
-/

/-- Rows in arrival order, no two with one key. -/
structure Keyed {κ ρ : Type} (key : ρ → κ) where
  rows : List ρ
  nodup : (rows.map key).Nodup

namespace Keyed

variable {κ ρ : Type} {key : ρ → κ}

theorem ext {T U : Keyed key} (h : T.rows = U.rows) : T = U := by
  cases T; cases U; cases h; rfl

instance [DecidableEq ρ] : DecidableEq (Keyed key) := fun T U =>
  decidable_of_iff (T.rows = U.rows) ⟨ext, fun h => h ▸ rfl⟩

/-- The table without rows. -/
def empty : Keyed key := ⟨[], List.nodup_nil⟩

@[simp] theorem rows_empty : (empty : Keyed key).rows = [] := rfl

/-- Some row has key `k`. -/
def HasKey (T : Keyed key) (k : κ) : Prop := k ∈ T.rows.map key

instance [DecidableEq κ] (T : Keyed key) (k : κ) : Decidable (T.HasKey k) :=
  inferInstanceAs (Decidable (k ∈ T.rows.map key))

theorem hasKey_iff {T : Keyed key} {k : κ} : T.HasKey k ↔ ∃ r ∈ T.rows, key r = k := by
  simp [HasKey]

variable [DecidableEq κ]

/-- `INSERT ... ON CONFLICT (key) DO NOTHING`. -/
def insert (T : Keyed key) (r : ρ) : Keyed key :=
  if h : T.HasKey (key r) then T
  else ⟨T.rows ++ [r], by
    rw [List.map_append, List.nodup_append]
    refine ⟨T.nodup, by simp, ?_⟩
    intro a ha b hb
    simp only [List.map_cons, List.map_nil, List.mem_singleton] at hb
    rintro rfl
    exact h (hb ▸ ha)⟩

/-- The rows inserted one at a time, in order. -/
def insertAll (T : Keyed key) (rs : List ρ) : Keyed key := rs.foldl insert T

@[simp] theorem insertAll_nil (T : Keyed key) : T.insertAll [] = T := rfl

@[simp] theorem insertAll_cons (T : Keyed key) (r : ρ) (rs : List ρ) :
    T.insertAll (r :: rs) = (T.insert r).insertAll rs := rfl

theorem insertAll_append (T : Keyed key) (rs qs : List ρ) :
    T.insertAll (rs ++ qs) = (T.insertAll rs).insertAll qs := List.foldl_append

theorem insert_of_hasKey {T : Keyed key} {r : ρ} (h : T.HasKey (key r)) : T.insert r = T :=
  dif_pos h

theorem rows_insert_of_not_hasKey {T : Keyed key} {r : ρ} (h : ¬T.HasKey (key r)) :
    (T.insert r).rows = T.rows ++ [r] := by
  rw [insert, dif_neg h]

theorem rows_prefix_insert (T : Keyed key) (r : ρ) : T.rows <+: (T.insert r).rows := by
  by_cases h : T.HasKey (key r)
  · have heq := insert_of_hasKey h
    exact heq.symm ▸ List.prefix_rfl
  · exact ⟨[r], (rows_insert_of_not_hasKey h).symm⟩

/-- An insert only appends. -/
theorem rows_prefix_insertAll (T : Keyed key) (rs : List ρ) : T.rows <+: (T.insertAll rs).rows := by
  induction rs generalizing T with
  | nil => exact List.prefix_rfl
  | cons r rs ih => exact (rows_prefix_insert T r).trans (ih (T.insert r))

theorem hasKey_insert_self (T : Keyed key) (r : ρ) : (T.insert r).HasKey (key r) := by
  by_cases h : T.HasKey (key r)
  · rwa [insert_of_hasKey h]
  · rw [HasKey, rows_insert_of_not_hasKey h]
    simp

theorem HasKey.insertAll {T : Keyed key} {k : κ} (h : T.HasKey k) (rs : List ρ) :
    (T.insertAll rs).HasKey k :=
  List.map_subset key (rows_prefix_insertAll T rs).subset h

theorem hasKey_insertAll_of_mem (T : Keyed key) {rs : List ρ} {r : ρ} (h : r ∈ rs) :
    (T.insertAll rs).HasKey (key r) := by
  induction rs generalizing T with
  | nil => simp at h
  | cons q rs ih =>
    rcases List.mem_cons.mp h with rfl | h
    · exact (hasKey_insert_self T r).insertAll rs
    · exact ih (T.insert q) h

/-- **Rows whose keys are there already change nothing.** -/
theorem insertAll_of_hasKey {T : Keyed key} {rs : List ρ} (h : ∀ r ∈ rs, T.HasKey (key r)) :
    T.insertAll rs = T := by
  induction rs with
  | nil => rfl
  | cons r rs ih =>
    rw [insertAll_cons, insert_of_hasKey (h r List.mem_cons_self)]
    exact ih fun q hq => h q (List.mem_cons_of_mem _ hq)

/-- **A part of a batch may be inserted again.** -/
theorem insertAll_of_subset (T : Keyed key) {rs qs : List ρ} (h : qs ⊆ rs) :
    (T.insertAll rs).insertAll qs = T.insertAll rs :=
  insertAll_of_hasKey fun _ hq => hasKey_insertAll_of_mem T (h hq)

theorem mem_of_mem_insert {T : Keyed key} {r q : ρ} (h : q ∈ (T.insert r).rows) :
    q ∈ T.rows ∨ q = r := by
  by_cases hk : T.HasKey (key r)
  · rw [insert_of_hasKey hk] at h
    exact .inl h
  · rw [rows_insert_of_not_hasKey hk] at h
    simpa using h

theorem mem_of_mem_insertAll {T : Keyed key} {rs : List ρ} {q : ρ}
    (h : q ∈ (T.insertAll rs).rows) : q ∈ T.rows ∨ q ∈ rs := by
  induction rs generalizing T with
  | nil => exact .inl h
  | cons r rs ih =>
    rcases ih h with h | h
    · rcases mem_of_mem_insert h with h | rfl
      · exact .inl h
      · exact .inr List.mem_cons_self
    · exact .inr (List.mem_cons_of_mem _ h)

/-- **The first row of a key stays**: what is in the table was inserted when no
other row of its key had been. -/
theorem mem_insertAll_empty_iff {rs : List ρ} {r : ρ} :
    r ∈ ((empty : Keyed key).insertAll rs).rows ↔
      ∃ firsts rest, rs = firsts ++ r :: rest ∧ ∀ q ∈ firsts, key q = key r → q = r := by
  constructor
  · intro h
    induction rs using List.reverseRecOn with
    | nil => simp at h
    | append_singleton rs q ih =>
      rw [insertAll_append, insertAll_cons, insertAll_nil] at h
      by_cases hk : ((empty : Keyed key).insertAll rs).HasKey (key q)
      · rw [insert_of_hasKey hk] at h
        obtain ⟨firsts, rest, rfl, hfirst⟩ := ih h
        exact ⟨firsts, rest ++ [q], by simp, hfirst⟩
      · rw [rows_insert_of_not_hasKey hk] at h
        rcases List.mem_append.mp h with h | h
        · obtain ⟨firsts, rest, rfl, hfirst⟩ := ih h
          exact ⟨firsts, rest ++ [q], by simp, hfirst⟩
        · obtain rfl := List.mem_singleton.mp h
          refine ⟨rs, [], rfl, fun p hp hkey => absurd ?_ hk⟩
          rw [← hkey]
          exact hasKey_insertAll_of_mem _ hp
  · rintro ⟨firsts, rest, rfl, hfirst⟩
    rw [insertAll_append, insertAll_cons]
    refine (rows_prefix_insertAll _ rest).subset ?_
    by_cases hk : ((empty : Keyed key).insertAll firsts).HasKey (key r)
    · rw [insert_of_hasKey hk]
      obtain ⟨q, hq, hkey⟩ := hasKey_iff.mp hk
      rcases mem_of_mem_insertAll hq with h | h
      · simp at h
      · exact hfirst q h hkey ▸ hq
    · rw [rows_insert_of_not_hasKey hk]
      simp

theorem length_insertAll_le (T : Keyed key) (rs : List ρ) :
    (T.insertAll rs).rows.length ≤ T.rows.length + rs.length := by
  induction rs generalizing T with
  | nil => exact Nat.le_refl _
  | cons r rs ih =>
    have hone : (T.insert r).rows.length ≤ T.rows.length + 1 := by
      by_cases h : T.HasKey (key r)
      · rw [insert_of_hasKey h]
        exact Nat.le_succ _
      · rw [rows_insert_of_not_hasKey h, List.length_append]
        exact Nat.le_refl _
    have hrest := ih (T.insert r)
    rw [insertAll_cons, List.length_cons]
    omega

/-! ### Records that become rows -/

variable {β : Type} {cast : β → Option ρ}

/-- A multi-row insert of records: every record has to become a row. -/
def storeAll (cast : β → Option ρ) (T : Keyed key) (bs : List β) : Option (Keyed key) :=
  if ∀ b ∈ bs, (cast b).isSome then some (T.insertAll (bs.filterMap cast)) else none

@[simp] theorem storeAll_nil (T : Keyed key) : T.storeAll cast [] = some T := by
  simp [storeAll]

theorem storeAll_eq_some {T T' : Keyed key} {bs : List β} :
    T.storeAll cast bs = some T' ↔
      (∀ b ∈ bs, (cast b).isSome) ∧ T.insertAll (bs.filterMap cast) = T' := by
  unfold storeAll
  split
  · next h => exact ⟨fun he => ⟨h, Option.some.inj he⟩, fun he => congrArg some he.2⟩
  · next h => exact ⟨fun he => by simp at he, fun he => absurd he.1 h⟩

theorem storeAll_append {T T' T'' : Keyed key} {bs cs : List β} (h : T.storeAll cast bs = some T')
    (h' : T'.storeAll cast cs = some T'') : T.storeAll cast (bs ++ cs) = some T'' := by
  rw [storeAll_eq_some] at *
  refine ⟨fun b hb => ?_, ?_⟩
  · rcases List.mem_append.mp hb with hb | hb
    · exact h.1 b hb
    · exact h'.1 b hb
  · rw [List.filterMap_append, insertAll_append, h.2, h'.2]

theorem storeAll_split {T U : Keyed key} {bs cs : List β}
    (h : T.storeAll cast (bs ++ cs) = some U) :
    ∃ T', T.storeAll cast bs = some T' ∧ T'.storeAll cast cs = some U := by
  obtain ⟨hall, rfl⟩ := storeAll_eq_some.mp h
  refine ⟨T.insertAll (bs.filterMap cast), storeAll_eq_some.mpr ⟨fun b hb => ?_, rfl⟩,
    storeAll_eq_some.mpr ⟨fun c hc => ?_, ?_⟩⟩
  · exact hall b (List.mem_append_left _ hb)
  · exact hall c (List.mem_append_right _ hc)
  · rw [List.filterMap_append, insertAll_append]

theorem rows_prefix_storeAll {T T' : Keyed key} {bs : List β} (h : T.storeAll cast bs = some T') :
    T.rows <+: T'.rows := by
  rw [← (storeAll_eq_some.mp h).2]
  exact rows_prefix_insertAll T _

/-- A store adds at most one row for each record. -/
theorem mem_of_mem_storeAll {T U : Keyed key} {bs : List β} (h : T.storeAll cast bs = some U) {r : ρ}
    (hr : r ∈ U.rows) : r ∈ T.rows ∨ ∃ b ∈ bs, cast b = some r := by
  obtain ⟨-, rfl⟩ := storeAll_eq_some.mp h
  rcases mem_of_mem_insertAll hr with hr | hr
  · exact .inl hr
  · exact .inr (List.mem_filterMap.mp hr)

theorem length_storeAll_le {T T' : Keyed key} {bs : List β} (h : T.storeAll cast bs = some T') :
    T'.rows.length ≤ T.rows.length + bs.length := by
  obtain ⟨-, rfl⟩ := storeAll_eq_some.mp h
  have hrows := length_insertAll_le T (bs.filterMap cast)
  have hfilter := List.length_filterMap_le cast bs
  omega

/-- After a store, the table has a row with the key of every record's row. -/
theorem exists_row_of_storeAll {T T' : Keyed key} {bs : List β} (h : T.storeAll cast bs = some T')
    {b : β} (hb : b ∈ bs) : ∃ r, cast b = some r ∧ T'.HasKey (key r) := by
  obtain ⟨hall, rfl⟩ := storeAll_eq_some.mp h
  obtain ⟨r, hr⟩ := Option.isSome_iff_exists.mp (hall b hb)
  exact ⟨r, hr, hasKey_insertAll_of_mem T (List.mem_filterMap.mpr ⟨b, hb, hr⟩)⟩

/-- **A stored part may be stored again**: it goes in, and changes nothing. -/
theorem storeAll_of_subset {T T' : Keyed key} {bs cs : List β} (h : T.storeAll cast bs = some T')
    (hsub : cs ⊆ bs) : T'.storeAll cast cs = some T' := by
  obtain ⟨hall, rfl⟩ := storeAll_eq_some.mp h
  rw [storeAll_eq_some]
  refine ⟨fun c hc => hall c (hsub hc), insertAll_of_subset T fun r hr => ?_⟩
  obtain ⟨c, hc, hcr⟩ := List.mem_filterMap.mp hr
  exact List.mem_filterMap.mpr ⟨c, hsub hc, hcr⟩

/-- A record list stored through a shorter one: only the rest is new. -/
theorem storeAll_append_of_subset {T T' U : Keyed key} {bs cs ds : List β}
    (h : T.storeAll cast bs = some T') (hsub : cs ⊆ bs)
    (h' : T'.storeAll cast (cs ++ ds) = some U) : T.storeAll cast (bs ++ ds) = some U := by
  refine storeAll_append h ?_
  obtain ⟨hall, rfl⟩ := storeAll_eq_some.mp h'
  have hcs := (storeAll_eq_some.mp (storeAll_of_subset h hsub)).2
  rw [storeAll_eq_some, List.filterMap_append, insertAll_append, hcs]
  exact ⟨fun d hd => hall d (List.mem_append_right _ hd), rfl⟩

end Keyed

/-! ### A consumer that reads its source again -/

/-- The table holds the records of the first `k` entries of `source`, and the
batch those of a part that starts at or before `k` and ends at `pos`.  `low` is
the place a restart goes back to. -/
def Buffered {α β κ ρ : Type} {key : ρ → κ} [DecidableEq κ] (cast : β → Option ρ)
    (record : α → Option β) (T₀ : Keyed key) (source : List α) (low pos k : ℕ) (T : Keyed key)
    (batch : List β) : Prop :=
  low ≤ k ∧ T₀.storeAll cast ((source.take k).filterMap record) = some T ∧
    ∃ c, c ≤ k ∧ c ≤ pos ∧ batch = ((source.take pos).drop c).filterMap record

namespace Buffered

open Keyed

variable {α β κ ρ : Type} {key : ρ → κ} [DecidableEq κ] {cast : β → Option ρ}
  {record : α → Option β} {T₀ T T' : Keyed key} {source : List α} {low pos k : ℕ} {batch : List β}

/-- The next entry of the source is read. -/
theorem receive (h : Buffered cast record T₀ source low pos k T batch) {a : α}
    (ha : source[pos]? = some a) :
    Buffered cast record T₀ source low (pos + 1) k T (batch ++ (record a).toList) := by
  obtain ⟨hlow, hT, c, hck, hcp, rfl⟩ := h
  refine ⟨hlow, hT, c, hck, by omega, ?_⟩
  obtain ⟨hlt, rfl⟩ := List.getElem?_eq_some_iff.mp ha
  rw [List.take_succ_eq_append_getElem hlt, List.drop_append_of_le_length (by simp; omega),
    List.filterMap_append]
  cases hr : record source[pos] <;> simp [hr]

/-- **The batch is stored**: the table is the one of a single pass over the
first `max k pos` entries. -/
theorem store (h : Buffered cast record T₀ source low pos k T batch)
    (hs : T.storeAll cast batch = some T') :
    Buffered cast record T₀ source low pos (max k pos) T' batch := by
  obtain ⟨hlow, hT, c, hck, hcp, rfl⟩ := h
  refine ⟨by omega, ?_, c, by omega, hcp, rfl⟩
  by_cases hk : pos ≤ k
  · -- the whole batch was in the table already
    have hsub : ((source.take pos).drop c).filterMap record ⊆ (source.take k).filterMap record :=
      List.Subset.trans (List.filterMap_subset record (List.drop_subset _ _))
        (List.filterMap_subset record (List.take_prefix_take_left hk).subset)
    rw [Nat.max_eq_left hk, hT]
    exact (storeAll_of_subset hT hsub).symm.trans hs
  · -- the batch is a stored part followed by the entries from `k` on
    have hsplit : (source.take pos).drop c
        = (source.take k).drop c ++ (source.take pos).drop k := by
      conv_lhs => rw [← List.take_append_drop k (source.take pos)]
      rw [List.take_take, Nat.min_eq_left (by omega)]
      by_cases hlen : c ≤ (source.take k).length
      · rw [List.drop_append_of_le_length hlen]
      · have hk' : source.length < k := by
          rw [List.length_take] at hlen
          omega
        rw [List.take_of_length_le (by omega : source.length ≤ k),
          List.take_of_length_le (by omega : source.length ≤ pos),
          List.drop_of_length_le (by omega : source.length ≤ k), List.append_nil, List.append_nil]
    rw [Nat.max_eq_right (by omega)]
    have hpos : source.take pos = source.take k ++ (source.take pos).drop k := by
      conv_lhs => rw [← List.take_append_drop k (source.take pos)]
      rw [List.take_take, Nat.min_eq_left (by omega)]
    rw [hpos, List.filterMap_append]
    rw [hsplit, List.filterMap_append] at hs
    exact storeAll_append_of_subset hT (List.filterMap_subset record (List.drop_subset _ _)) hs

/-- The batch is emptied once the table has everything read. -/
theorem clear (h : Buffered cast record T₀ source low pos k T batch) (hk : pos ≤ k) :
    Buffered cast record T₀ source low pos k T [] :=
  ⟨h.1, h.2.1, pos, hk, Nat.le_refl _, by
    rw [List.drop_of_length_le (by rw [List.length_take]; omega)]; rfl⟩

/-- The place a restart goes back to moves up to what is stored. -/
theorem commit (h : Buffered cast record T₀ source low pos k T batch) {low' : ℕ} (hk : low' ≤ k) :
    Buffered cast record T₀ source low' pos k T batch :=
  ⟨hk, h.2⟩

/-- A restart forgets the batch and goes back. -/
theorem restart (h : Buffered cast record T₀ source low pos k T batch) :
    Buffered cast record T₀ source low low k T [] :=
  ⟨h.1, h.2.1, low, h.1, Nat.le_refl _, by
    rw [List.drop_of_length_le (by rw [List.length_take]; omega)]; rfl⟩

end Buffered

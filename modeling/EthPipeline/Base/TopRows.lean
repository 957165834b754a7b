import EthPipeline.Base.Query

/-!
# The first rows of a table without repeated rows

What `ORDER BY … LIMIT n` may answer, without the order in between.

* `answer_iff_of_nodup`: sorted rows of the table, and the table's other rows come after
  them.
* `map_eq_of_answers`: two answers have the same values, one by one.
-/

namespace Query

variable {ρ : Type} {time : ρ → ℤ} {limit : ℕ} {rows result : List ρ}

/-- **An answer** leaves a row out only when it is full of rows that are not behind it. -/
theorem answer_iff_of_nodup (hnodup : rows.Nodup) :
    Answer (Newer time) limit rows result ↔
      result.Nodup ∧ result ⊆ rows ∧ result.Pairwise (Newer time) ∧ result.length ≤ limit ∧
        ∀ r ∈ rows, r ∉ result → result.length = limit ∧ ∀ a ∈ result, time r ≤ time a := by
  constructor
  · rintro ⟨sorted, hperm, hsorted, rfl⟩
    refine ⟨(hperm.nodup_iff.mpr hnodup).sublist (List.take_sublist _ _),
      fun r hr => hperm.subset (List.mem_of_mem_take hr), hsorted.sublist (List.take_sublist _ _),
      List.length_take_le _ _, fun r hr hnot => ?_⟩
    rw [← List.take_append_drop limit sorted, List.pairwise_append] at hsorted
    have hsplit : r ∈ sorted.take limit ++ sorted.drop limit := by
      rw [List.take_append_drop]
      exact hperm.symm.subset hr
    have hrest := (List.mem_append.mp hsplit).resolve_left hnot
    refine ⟨?_, fun a ha => hsorted.2.2 a ha r hrest⟩
    have hpos := List.length_pos_of_mem hrest
    rw [List.length_drop] at hpos
    rw [List.length_take]
    omega
  · rintro ⟨hdistinct, hsub, hsorted, hshort, homitted⟩
    classical
    obtain ⟨rest, hperm, hrest, -⟩ := answer_latest time 0 (rows.filter fun r => r ∉ result)
    have hmem : ∀ r, r ∈ rest ↔ r ∈ rows ∧ r ∉ result := fun r => by
      rw [hperm.mem_iff, List.mem_filter, decide_eq_true_eq]
    refine ⟨result ++ rest, ?_, ?_, ?_⟩
    · have hapart : (result ++ rest).Nodup := by
        refine List.nodup_append'.mpr ⟨hdistinct, hperm.nodup_iff.mpr (hnodup.filter _), ?_⟩
        exact fun r hr hmiss => ((hmem r).mp hmiss).2 hr
      refine (List.perm_ext_iff_of_nodup hapart hnodup).mpr fun r => ?_
      rw [List.mem_append, hmem]
      constructor
      · rintro (hr | hr)
        · exact hsub hr
        · exact hr.1
      · intro hr
        by_cases hchosen : r ∈ result
        · exact .inl hchosen
        · exact .inr ⟨hr, hchosen⟩
    · refine List.pairwise_append.mpr ⟨hsorted, hrest, fun a ha b hb => ?_⟩
      obtain ⟨hb, hnot⟩ := (hmem b).mp hb
      exact (homitted b hb hnot).2 a ha
    · cases hcase : rest with
      | nil => rw [List.append_nil, List.take_of_length_le hshort]
      | cons r rest' =>
        obtain ⟨hr, hnot⟩ := (hmem r).mp (hcase ▸ List.mem_cons_self)
        rw [List.take_left' (homitted r hr hnot).1]

/-- **Ties do not show** in the values that the rows are sorted by. -/
theorem map_eq_of_answers {other : List ρ} (h : Answer (Newer time) limit rows result)
    (h' : Answer (Newer time) limit rows other) : result.map time = other.map time := by
  obtain ⟨sorted, hperm, hsorted, rfl⟩ := h
  obtain ⟨sorted', hperm', hsorted', rfl⟩ := h'
  have hbelow : (sorted.map time).Pairwise fun a b => b ≤ a := List.pairwise_map.mpr hsorted
  have hbelow' : (sorted'.map time).Pairwise fun a b => b ≤ a := List.pairwise_map.mpr hsorted'
  have hsame : sorted.map time = sorted'.map time :=
    List.Perm.eq_of_pairwise (fun a b _ _ hab hba => le_antisymm hba hab) hbelow hbelow'
      ((hperm.trans hperm'.symm).map time)
  rw [List.map_take, List.map_take, hsame]

end Query

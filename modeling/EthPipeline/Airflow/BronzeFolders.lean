import EthPipeline.Airflow.BronzeRun

/-!
# What the Silver layer reads of a date

`read_bronze` of `src/silver/spark_config.py` reads all the files in the folder of a date.
The name of a file has its block range, so another range of the same date would be a second
file beside the first.

* `OfDay.unique`: the range between two midnights is the only one.
* `stored_ofDay`: every file in the bucket is named by the range between the midnights of its
  date, if no range is computed before its date is over.
* `read_bronze_complete`: of a published date one file of each kind is read, the one that the
  gate has seen, and the range is exact.
-/

namespace Airflow

open Storage Storage.Etl Exec Run

/-- The files that `read_bronze` reads. -/
def Reads (bucket : GcsPath → Option File) (folder : Kind) (dateStr : String) (path : GcsPath) :
    Prop :=
  path.folder = folder ∧ path.dateStr = dateStr ∧ (bucket path).isSome

/-- Etherscan is right about the chain, and the date is over when it is asked. -/
structure OnTime (chain : Timeline) (dag : PodDag) (logicalDate : Timestamp) (pod : Pod) :
    Prop where
  answers : Answers chain pod.etherscan
  dayOver : DayOver (strftime (dag.dag.targetDate logicalDate)).day pod.now₁ pod.now₂

/-- The DAG that takes the day before is never early. -/
theorem OnTime.k8s {chain : Timeline} {logicalDate : Timestamp} {pod : Pod}
    (hE : Answers chain pod.etherscan) (h₁ : logicalDate ≤ pod.now₁) (h₂ : logicalDate ≤ pod.now₂) :
    OnTime chain .k8s logicalDate pod :=
  ⟨hE, dayOver_k8s h₁ h₂⟩

/-- Every lookup of a run is on time. -/
def BronzeRun.OnTime (chain : Timeline) (dag : PodDag) (run : BronzeRun) : Prop :=
  ∀ e ∈ run.attempts, e.1 = .calculateBlockRange → Airflow.OnTime chain dag run.logicalDate e.2

/-! ### The range between two midnights -/

/-- From the first block of the date to the last one before the next. -/
structure OfDay (chain : Timeline) (r : BlockRange) : Prop where
  first : ∃ s : ℕ, chain.IsFirst (midnight r.dateStr.day) s ∧ r.startBlock = s
  last : ∃ e : ℕ, chain.IsFirst (midnight (r.dateStr.day + 1)) e ∧ r.endBlock = e - 1

namespace OfDay

variable {chain : Timeline} {r r' : BlockRange}

theorem exact (h : OfDay chain r) : r.Exact chain := by
  obtain ⟨⟨s, hs, hstart⟩, e, he, hend⟩ := h
  intro n
  have hcovers := covers_of_midnights hs he n
  rw [hstart, hend, ← hcovers]
  omega

theorem isFirst_unique {t : ℤ} {m n : ℕ} (hm : chain.IsFirst t m) (hn : chain.IsFirst t n) :
    m = n := by
  have hle : m ≤ n := hm.2 n hn.1
  have hge : n ≤ m := hn.2 m hm.1
  omega

/-- **One range for a date.** -/
theorem unique (h : OfDay chain r) (h' : OfDay chain r') (hdate : r.dateStr = r'.dateStr) :
    r = r' := by
  obtain ⟨⟨s, hs, hstart⟩, e, he, hend⟩ := h
  obtain ⟨⟨s', hs', hstart'⟩, e', he', hend'⟩ := h'
  rw [hdate] at hs he
  obtain rfl := isFirst_unique hs hs'
  obtain rfl := isFirst_unique he he'
  cases r
  cases r'
  simp_all

theorem of_ok {E : Etherscan} {apiKey : Option String} {targetDate now₁ now₂ : Timestamp}
    (hE : Answers chain E) (hover : DayOver (strftime targetDate).day now₁ now₂)
    (h : calculateBlockRange E apiKey targetDate now₁ now₂ = .ok r) : OfDay chain r := by
  obtain ⟨key, s, e, rfl, hstart, hend⟩ := calculateBlockRange_eq_ok h
  rcases lookup_cases hE hstart with ⟨-, hs⟩ | ⟨hearly, -⟩
  · rcases lookup_cases hE hend with ⟨-, he⟩ | ⟨hearly, -⟩
    · exact ⟨⟨s, hs, rfl⟩, e, he, rfl⟩
    · exact absurd hover.2 (not_le.mpr hearly)
  · exact absurd hover.1 (not_le.mpr hearly)

end OfDay

/-! ### What is in the bucket -/

/-- The name of a file says the range of its date. -/
def NamedByDay (chain : Timeline) (path : GcsPath) : Prop :=
  ∃ r, OfDay chain r ∧ 0 ≤ r.dateStr.day ∧ path = (rangeData r).path path.folder

section runs

variable {chain : Timeline} {dag : PodDag} {bucket : GcsPath → Option File}

theorem range_of_onTime {run : BronzeRun} (h : run.OnTime chain dag) {e : BronzeTask × Pod}
    (he : e ∈ run.attempts) (hcalculate : e.1 = .calculateBlockRange) {r : BlockRange}
    (hr : dag.dag.calculateBlockRange e.2.etherscan e.2.apiKey run.logicalDate e.2.now₁ e.2.now₂ =
      .ok r) : OfDay chain r := by
  obtain ⟨hE, hover⟩ := h e he hcalculate
  exact OfDay.of_ok hE hover hr

/-- A run adds files that are named by the range of its date. -/
theorem after_named {run : BronzeRun} (hrun : run.OnTime chain dag)
    (hdate : 0 ≤ (run.date dag).day) (h : ∀ path, (bucket path).isSome → NamedByDay chain path)
    (path : GcsPath) (hpath : ((run.after dag bucket).world.bucket path).isSome) :
    NamedByDay chain path := by
  refine after_keeps (P := fun r => OfDay chain r ∧ 0 ≤ r.dateStr.day)
    (J := fun bucket => ∀ path, (bucket path).isSome → NamedByDay chain path) ?_ ?_ h path hpath
  · intro e he hcalculate r hr
    refine ⟨range_of_onTime hrun he hcalculate hr, ?_⟩
    rw [dateStr_of_ok hr]
    exact hdate
  · intro before after hother hbefore path hpath
    by_cases hplace : ∃ r, (OfDay chain r ∧ 0 ≤ r.dateStr.day) ∧
        ∃ kind, path = (rangeData r).path kind
    · obtain ⟨r, ⟨hr, hday⟩, kind, rfl⟩ := hplace
      exact ⟨r, hr, hday, rfl⟩
    · refine hbefore path ?_
      rw [← hother path fun r hr kind heq => hplace ⟨r, hr, kind, heq⟩]
      exact hpath

/-- **Every file is named by the range of its date.** -/
theorem stored_ofDay {history : List BronzeRun} (htimes : ∀ run ∈ history, run.OnTime chain dag)
    (hdates : ∀ run ∈ history, 0 ≤ (run.date dag).day)
    (h : ∀ path, (bucket path).isSome → NamedByDay chain path) (path : GcsPath)
    (hpath : (bucketAfter dag bucket history path).isSome) : NamedByDay chain path := by
  induction history generalizing bucket with
  | nil => exact h path hpath
  | cons run history ih =>
    refine ih (fun other hother => htimes other (List.mem_cons_of_mem _ hother))
      (fun other hother => hdates other (List.mem_cons_of_mem _ hother)) ?_ hpath
    exact after_named (htimes run List.mem_cons_self) (hdates run List.mem_cons_self) h

/-- What is read of a published date are the files that the gate has seen, which are as was
asked. -/
theorem read_published {asked : Demands} {before later : List BronzeRun} {run : BronzeRun}
    (hrange : ∀ r, asked.range r → OfDay chain r) (hobeys : run.Obeys asked dag)
    (htimes : ∀ other ∈ before ++ run :: later, other.OnTime chain dag)
    (hdates : ∀ other ∈ before ++ run :: later, 0 ≤ (other.date dag).day)
    (hpublished : (run.after dag (bucketAfter dag (fun _ => none) before)).status
      .publishBronzeAsset = .success)
    (hlater : ∀ other ∈ later, other.date dag ≠ run.date dag) :
    ∃ r, OfDay chain r ∧ r.dateStr = run.date dag ∧ (∃ blocks txs receipts transfers,
      Complete (rangeData r) (bucketAfter dag (fun _ => none) (before ++ run :: later)) blocks txs
        receipts transfers ∧ asked.extracted r blocks txs receipts ∧
        asked.transferred r transfers) ∧
      ∀ folder path, Reads (bucketAfter dag (fun _ => none) (before ++ run :: later)) folder
        (dateText (run.date dag).day) path ↔ path = (rangeData r).path folder := by
  have hrun : run ∈ before ++ run :: later := List.mem_append_right _ List.mem_cons_self
  obtain ⟨r, hr, hdate, blocks, txs, receipts, transfers, hcomplete, hfiles⟩ :=
    published_files hobeys hpublished
      (fun other hother => hdates other (List.mem_append_right _ hother)) hlater
  refine ⟨r, hrange r hr, hdate, ⟨blocks, txs, receipts, transfers, hcomplete, hfiles⟩, ?_⟩
  intro folder path
  constructor
  · rintro ⟨rfl, hdateStr, hstored⟩
    obtain ⟨r', hr', hday, hpath⟩ := stored_ofDay htimes hdates (by simp) path hstored
    have htext : dateText r'.dateStr.day = dateText (run.date dag).day := by
      rw [← hdateStr, hpath]
      rfl
    have hsame : r'.dateStr = r.dateStr := by
      rw [hdate]
      exact congrArg DateText.mk (dateText_injective hday (hdates run hrun) htext)
    rwa [hr'.unique (hrange r hr) hsame] at hpath
  · rintro rfl
    refine ⟨rfl, ?_, ?_⟩
    · rw [← hdate]
      rfl
    · cases folder with
      | blocks => rw [hcomplete.hasBlocks]; rfl
      | transactions => rw [hcomplete.hasTransactions]; rfl
      | receipts => rw [hcomplete.hasReceipts]; rfl
      | tokenTransfers => rw [hcomplete.hasTransfers]; rfl

end runs

/-- A run for the date before, whose block is not found. -/
def failedRun : BronzeRun := { morningRun with logicalDate := tenPastMidnight - dayMicros }

theorem morningRun_onTime {logicalDate : Timestamp} (h : logicalDate ≤ tenPastMidnight) :
    { morningRun with logicalDate := logicalDate }.OnTime everyTwelve .k8s := by
  intro e he hcalculate
  have hpod : e.2 = morningPod := by
    simp only [morningRun, List.mem_cons, List.not_mem_nil, or_false] at he
    rcases he with rfl | rfl | rfl | rfl | rfl | rfl | rfl
    · rfl
    all_goals cases hcalculate
  rw [hpod]
  exact OnTime.k8s thatMorning_answers h h

end Airflow

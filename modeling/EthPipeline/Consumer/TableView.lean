import EthPipeline.Consumer.Machine

/-!
# One table and its batch

What a step of the consumer does to one table: nothing, the record of a message
goes into the batch, the batch goes into the table, the batch is emptied
(`Move`).  Two ways to read the table's messages in order:

* `Arrived`: within one process, in the order they were polled;
* `Replayed`: over a whole history, in the order of the log, when the topic has
  one partition.

In both the table is the one a single pass over a first part of the messages
gives (`Buffered`).
-/

namespace Consumer

/-- A table, its batch, and the record a message adds to the batch. -/
structure TableView {κ ρ β : Type} (key : ρ → κ) (cast : β → Option ρ) where
  table : World → Keyed key
  batch : World → List β
  record : Position → Option β

section View

variable {κ ρ β : Type} [DecidableEq κ] {key : ρ → κ} {cast : β → Option ρ}
  {D : Deployment} {V : TableView key cast} {T₀ : Keyed key}

/-- What a step does to the table. -/
inductive Move (D : Deployment) (V : TableView key cast) :
    World × Option Position → World × Option Position → Prop
  | idle {w w' : World} {hand : Option Position} (hp : w'.position = w.position)
      (ho : w'.polled = w.polled) (hc : w'.committed = w.committed)
      (ht : V.table w' = V.table w) (hb : V.batch w' = V.batch w) : Move D V (w, hand) (w', hand)
  | poll {w : World} {pos : Position} {raw : RawValue} (h : D.message pos = some raw)
      (hpos : pos.offset = w.position pos.topic pos.partition)
      (ht : V.table (w.take pos) = V.table w) (hb : V.batch (w.take pos) = V.batch w) :
      Move D V (w, none) (w.take pos, some pos)
  | handle {w w' : World} {pos : Position} (hp : w'.position = w.position)
      (ho : w'.polled = w.polled) (hc : w'.committed = w.committed)
      (ht : V.table w' = V.table w) (hb : V.batch w' = V.batch w ++ (V.record pos).toList) :
      Move D V (w, some pos) (w', none)
  | store {w w' : World} {hand : Option Position} (hp : w'.position = w.position)
      (ho : w'.polled = w.polled) (hc : w'.committed = w.committed)
      (hs : (V.table w).storeAll cast (V.batch w) = some (V.table w'))
      (hb : V.batch w' = V.batch w) : Move D V (w, hand) (w', hand)
  | commit {w w' : World} (hs : (V.table w).storeAll cast (V.batch w) = some (V.table w))
      (hp : w'.position = w.position) (ho : w'.polled = w.polled)
      (hc : w'.committed = w.position) (ht : V.table w' = V.table w)
      (hb : V.batch w' = V.batch w) : Move D V (w, none) (w', none)
  | clear {w w' : World} {hand : Option Position}
      (hs : (V.table w).storeAll cast (V.batch w) = some (V.table w))
      (hp : w'.position = w.position) (ho : w'.polled = w.polled)
      (hc : w'.committed = w.committed) (ht : V.table w' = V.table w) (hb : V.batch w' = []) :
      Move D V (w, hand) (w', hand)

/-! ### One process -/

/-- The messages dealt with, in the order they were polled. -/
def handled (w : World) (hand : Option Position) : List Position :=
  match hand with
  | none => w.polled.reverse
  | some _ => w.polled.tail.reverse

/-- The message in hand is the one polled last. -/
def HandIsLast (w : World) (hand : Option Position) : Prop :=
  ∀ pos, hand = some pos → w.polled.head? = some pos

theorem Step.handIsLast {calm : Prop} {w w' : World} {hand hand' : Option Position}
    (hstep : Step D calm (w, hand) (w', hand')) (h : HandIsLast w hand) : HandIsLast w' hand' := by
  cases hstep with
  | poll => exact fun pos hpos => hpos
  | quiet => exact h
  | lookup => exact h
  | redisError => exact h
  | store => exact h
  | hand => exact h
  | commit => exact h
  | clear => exact h
  | _ => exact fun pos hpos => by simp at hpos

/-- The table and the batch of a process that started on `T₀`. -/
structure Arrived (V : TableView key cast) (T₀ : Keyed key) (w : World) (hand : Option Position) :
    Prop where
  last : HandIsLast w hand
  buffered : ∃ k, ∀ source, handled w hand <+: source →
    Buffered cast V.record T₀ source 0 (handled w hand).length k (V.table w) (V.batch w)

theorem handled_none_of_head {w : World} {pos : Position} (h : w.polled.head? = some pos) :
    handled w none = handled w (some pos) ++ [pos] := by
  obtain ⟨rest, hrest⟩ := List.head?_eq_some_iff.mp h
  simp [handled, hrest]

theorem handled_congr {w w' : World} (ho : w'.polled = w.polled) (hand : Option Position) :
    handled w' hand = handled w hand := by
  cases hand <;> simp [handled, ho]

theorem Arrived.move {w w' : World} {hand hand' : Option Position} (h : Arrived V T₀ w hand)
    (hmove : Move D V (w, hand) (w', hand')) : Arrived V T₀ w' hand' := by
  obtain ⟨hlast, k, hbuf⟩ := h
  cases hmove with
  | idle _ ho _ ht hb =>
    refine ⟨fun pos hpos => ho ▸ hlast pos hpos, k, ?_⟩
    rw [handled_congr ho, ht, hb]
    exact hbuf
  | poll _ _ ht hb =>
    refine ⟨fun _ hpos => hpos, k, ?_⟩
    rw [ht, hb]
    exact hbuf
  | @handle w w' pos _ ho _ ht hb =>
    refine ⟨fun _ hpos => by simp at hpos, k, fun source hsource => ?_⟩
    have hhead : handled w' none = handled w (some pos) ++ [pos] := by
      rw [handled_congr ho]
      exact handled_none_of_head (hlast pos rfl)
    rw [hhead] at hsource ⊢
    have hget : source[(handled w (some pos)).length]? = some pos := by
      obtain ⟨rest, rfl⟩ := hsource
      simp
    have hpre := (List.prefix_append (handled w (some pos)) [pos]).trans hsource
    rw [List.length_append, ht, hb]
    exact (hbuf source hpre).receive hget
  | store _ ho _ hs hb =>
    refine ⟨fun pos hpos => ho ▸ hlast pos hpos, max k (handled w hand).length, ?_⟩
    rw [handled_congr ho, hb]
    exact fun source hsource => (hbuf source hsource).store hs
  | commit _ _ ho _ ht hb =>
    refine ⟨fun pos hpos => by simp at hpos, k, ?_⟩
    rw [handled_congr ho, ht, hb]
    exact hbuf
  | clear hs _ ho _ ht hb =>
    refine ⟨fun pos hpos => ho ▸ hlast pos hpos, max k (handled w hand).length, ?_⟩
    rw [handled_congr ho, ht, hb]
    exact fun source hsource => ((hbuf source hsource).store hs).clear (Nat.le_max_right _ _)

theorem Arrived.start {w : World} (hp : w.polled = []) (hb : V.batch w = [])
    (ht : V.table w = T₀) : Arrived V T₀ w none := by
  refine ⟨fun pos hpos => by simp at hpos, 0, fun source _ => ?_⟩
  have hnil : (handled w none).length = 0 := by simp [handled, hp]
  rw [hnil, hb, ht]
  exact ⟨Nat.le_refl _, Keyed.storeAll_nil T₀, 0, Nat.le_refl _, Nat.le_refl _, by simp⟩

theorem Arrived.exists_of_mem_batch {w : World} {hand : Option Position} (h : Arrived V T₀ w hand)
    {b : β} (hb : b ∈ V.batch w) : ∃ pos ∈ handled w hand, V.record pos = some b := by
  obtain ⟨k, hbuf⟩ := h.buffered
  obtain ⟨-, -, c, -, -, hbatch⟩ := hbuf _ List.prefix_rfl
  rw [hbatch] at hb
  obtain ⟨pos, hpos, hrecord⟩ := List.mem_filterMap.mp hb
  exact ⟨pos, List.mem_of_mem_take (List.mem_of_mem_drop hpos), hrecord⟩

/-- **At the end of a process** whose batch is stored, the table holds the record
of every message polled, inserted in that order. -/
theorem Arrived.table_eq {w : World} (h : Arrived V T₀ w none)
    (hs : (V.table w).storeAll cast (V.batch w) = some (V.table w)) :
    T₀.storeAll cast (w.polled.reverse.filterMap V.record) = some (V.table w) := by
  obtain ⟨k, hbuf⟩ := h.buffered
  obtain ⟨-, hT, -⟩ := (hbuf _ List.prefix_rfl).store hs
  rwa [List.take_of_length_le (Nat.le_max_right _ _)] at hT

/-! ### A history -/

/-- The messages of the first partition of a topic. -/
def logPositions (D : Deployment) (topic : Topic) : List Position :=
  (List.range (D.log topic 0).length).map fun i => ⟨topic, 0, i⟩

/-- The offset of the next message of the topic to deal with. -/
def reached (topic : Topic) (w : World) (hand : Option Position) : ℕ :=
  match hand with
  | none => w.position topic 0
  | some pos => if pos.topic = topic then pos.offset else w.position topic 0

/-- The table and the batch of a history that started on `T₀`, for a topic with
one partition. -/
structure Replayed (D : Deployment) (V : TableView key cast) (topic : Topic) (T₀ : Keyed key)
    (w : World) (hand : Option Position) : Prop where
  next : ∀ pos, hand = some pos → pos.topic = topic → (logPositions D topic)[pos.offset]? = some pos ∧
    w.position topic 0 = pos.offset + 1
  buffered : ∃ k, Buffered cast V.record T₀ (logPositions D topic) (w.committed topic 0)
    (reached topic w hand) k (V.table w) (V.batch w)

theorem logPositions_getElem {topic : Topic} {pos : Position} {raw : RawValue}
    (h : D.message pos = some raw) (ht : pos.topic = topic) (hp : pos.partition = 0) :
    (logPositions D topic)[pos.offset]? = some pos := by
  have hlt : pos.offset < (D.log topic 0).length := by
    rw [← ht, ← hp]
    exact (List.getElem?_eq_some_iff.mp h).1
  obtain ⟨t, p, i⟩ := pos
  simp only at ht hp hlt
  subst ht hp
  simp [logPositions, hlt]

/-- Messages of another topic add no record. -/
theorem filterMap_logPositions_eq_nil {β' : Type} {f : Position → Option β'} {topic other : Topic}
    (hf : ∀ pos, pos.topic ≠ topic → f pos = none) (hne : other ≠ topic) :
    (logPositions D other).filterMap f = [] := by
  rw [List.filterMap_eq_nil_iff]
  intro pos hpos
  obtain ⟨i, -, rfl⟩ := List.mem_map.mp hpos
  exact hf _ hne

variable {topic : Topic} {w w' : World} {hand hand' : Option Position}

theorem reached_congr (hp : w'.position = w.position) (hand : Option Position) :
    reached topic w' hand = reached topic w hand := by
  cases hand <;> simp [reached, hp]

theorem Replayed.move (hsingle : ∀ p, p ≠ 0 → D.log topic p = [])
    (hrecord : ∀ pos, pos.topic ≠ topic → V.record pos = none) (h : Replayed D V topic T₀ w hand)
    (hmove : Move D V (w, hand) (w', hand')) : Replayed D V topic T₀ w' hand' := by
  obtain ⟨hnext, k, hbuf⟩ := h
  cases hmove with
  | idle hp _ hc ht hb =>
    refine ⟨hp ▸ hnext, k, ?_⟩
    rw [hc, reached_congr hp, ht, hb]
    exact hbuf
  | @poll _ pos raw hm hpos ht hb =>
    have hpartition : pos.topic = topic → pos.partition = 0 := by
      intro htopic
      by_contra hne
      rw [Deployment.message, htopic, hsingle _ hne] at hm
      simp at hm
    have hreached : reached topic (w.take pos) (some pos) = reached topic w none := by
      unfold reached
      dsimp only
      split
      · next htopic => rw [hpos, htopic, hpartition htopic]
      · next htopic => exact if_neg fun heq => htopic heq.1.symm
    refine ⟨fun pos' heq htopic => ?_, k, ?_⟩
    · obtain rfl := Option.some.inj heq
      refine ⟨logPositions_getElem hm htopic (hpartition htopic), ?_⟩
      exact if_pos ⟨htopic.symm, (hpartition htopic).symm⟩
    · rw [ht, hb, hreached]
      exact hbuf
  | @handle _ _ pos hp _ hc ht hb =>
    refine ⟨fun pos' heq => by simp at heq, k, ?_⟩
    rw [hc, ht, hb]
    by_cases htopic : pos.topic = topic
    · obtain ⟨hget, hposition⟩ := hnext pos rfl htopic
      have hbefore : reached topic w (some pos) = pos.offset := if_pos htopic
      have hafter : reached topic w' none = pos.offset + 1 := (congrFun (congrFun hp _) _).trans hposition
      rw [hafter]
      rw [hbefore] at hbuf
      exact hbuf.receive hget
    · have hbefore : reached topic w (some pos) = w.position topic 0 := if_neg htopic
      have hafter : reached topic w' none = w.position topic 0 := congrFun (congrFun hp _) _
      rw [hafter, hrecord pos htopic, Option.toList_none, List.append_nil, ← hbefore]
      exact hbuf
  | store hp _ hc hs hb =>
    refine ⟨hp ▸ hnext, max k (reached topic w hand), ?_⟩
    rw [hc, reached_congr hp, hb]
    exact hbuf.store hs
  | commit hs hp _ hc ht hb =>
    refine ⟨fun pos hpos => by simp at hpos, max k (reached topic w none), ?_⟩
    rw [hc, reached_congr hp, ht, hb]
    exact (hbuf.store hs).commit (Nat.le_max_right _ _)
  | clear hs hp _ hc ht hb =>
    refine ⟨hp ▸ hnext, max k (reached topic w hand), ?_⟩
    rw [hc, reached_congr hp, ht, hb]
    exact (hbuf.store hs).clear (Nat.le_max_right _ _)

theorem Replayed.restart (ht : V.table w.restart = V.table w) (hb : V.batch w.restart = [])
    (h : Replayed D V topic T₀ w hand) : Replayed D V topic T₀ w.restart none := by
  obtain ⟨-, k, hbuf⟩ := h
  refine ⟨fun pos hpos => by simp at hpos, k, ?_⟩
  rw [ht, hb]
  exact hbuf.restart

theorem Replayed.start {redis : ℤ → Option IsoText} {db : Tables}
    (hb : V.batch (World.initial db redis) = []) (ht : V.table (World.initial db redis) = T₀) :
    Replayed D V topic T₀ (World.initial db redis) none := by
  refine ⟨fun pos hpos => by simp at hpos, 0, ?_⟩
  rw [hb, ht]
  exact ⟨Nat.le_refl _, Keyed.storeAll_nil T₀, 0, Nat.le_refl _, Nat.le_refl _,
    by simp [reached, World.initial]⟩

/-- **When everything is committed**, the table holds the record of every message
of the log, inserted in that order. -/
theorem Replayed.table_eq (h : Replayed D V topic T₀ w hand)
    (hc : w.committed topic 0 = (D.log topic 0).length) :
    T₀.storeAll cast ((logPositions D topic).filterMap V.record) = some (V.table w) := by
  obtain ⟨k, hlow, hT, -⟩ := h.buffered
  have hlen : (logPositions D topic).length ≤ k := by
    rw [hc] at hlow
    simpa [logPositions] using hlow
  rwa [List.take_of_length_le hlen] at hT

end View

end Consumer

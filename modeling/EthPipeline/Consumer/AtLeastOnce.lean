import EthPipeline.Consumer.Refinement

/-!
# Nothing below a committed offset is missing

The offsets are committed for everything polled at once, so the invariant speaks
of every message below the consumer's position: it is in hand, or its effect is
there, or a record for it is buffered and the committed offset has not passed it
(`Accounted`).  An `Effect` says for some topics what the effect is and what
stands for it in the batches; `Accounted.step` is proved once for all of them.

* `committed_transactions`: rows and alerts of transactions, over every history.
* `committed_effects_of_idle_redisErrors`: blocks and token transfers, over every
  history in which Redis calls raise only while nothing is buffered.
-/

namespace Consumer

/-- What is due for the messages of some topics. -/
structure Effect (D : Deployment) where
  watched : Topic → Prop
  /-- The effect of the message is there. -/
  settled : Position → RawValue → World → Prop
  /-- A record for the message is buffered. -/
  pending : Position → RawValue → World → Prop
  settled_mono : ∀ {pos raw w w'}, Grows w w' → settled pos raw w → settled pos raw w'
  pending_mono : ∀ {pos raw w w'}, w.txBatch ⊆ w'.txBatch → w.tokenBatch ⊆ w'.tokenBatch →
    pending pos raw w → pending pos raw w'
  settled_of_pending : ∀ {pos raw w}, Stored w → Published D w → pending pos raw w →
    settled pos raw w
  handled : ∀ {pos raw w w'}, watched pos.topic → D.message pos = some raw →
    Step D False (w, some pos) (w', none) → settled pos raw w' ∨ pending pos raw w'

variable {D : Deployment} {e : Effect D} {w w' : World} {hand hand' : Option Position}
  {db₀ : Tables} {redis₀ : ℤ → Option IsoText}

/-- The invariant: every watched message below the position is in hand, settled,
or buffered and not yet committed. -/
structure Accounted (e : Effect D) (w : World) (hand : Option Position) : Prop where
  committed_le : ∀ t p, w.committed t p ≤ w.position t p
  hand_ge : ∀ pos, hand = some pos → e.watched pos.topic →
    w.committed pos.topic pos.partition ≤ pos.offset
  done : ∀ pos raw, e.watched pos.topic → D.message pos = some raw →
    pos.offset < w.position pos.topic pos.partition →
      hand = some pos ∨ e.settled pos raw w ∨
        (w.committed pos.topic pos.partition ≤ pos.offset ∧ e.pending pos raw w)

namespace Accounted

theorem initial (db : Tables) (redis : ℤ → Option IsoText) :
    Accounted e (World.initial db redis) none where
  committed_le := fun _ _ => Nat.le_refl _
  hand_ge := fun _ h => by simp at h
  done := fun pos _ _ _ h => absurd h (Nat.not_lt_zero pos.offset)

/-- A restart forgets what is buffered and in hand, and none of it was below the
committed offset. -/
theorem restart (h : Accounted e w hand) : Accounted e w.restart none where
  committed_le := fun _ _ => Nat.le_refl _
  hand_ge := fun _ h => by simp at h
  done := by
    intro pos raw hwatched hm hlt
    replace hlt : pos.offset < w.committed pos.topic pos.partition := hlt
    rcases h.done pos raw hwatched hm (Nat.lt_of_lt_of_le hlt (h.committed_le _ _)) with
      hhand | hs | ⟨hle, -⟩
    · have := h.hand_ge pos hhand hwatched
      omega
    · exact .inr (.inl (e.settled_mono (Grows.restart w) hs))
    · omega

/-- A step that moves no offset and keeps what is in hand. -/
theorem same (h : Accounted e w hand) (hstep : Step D False (w, hand) (w', hand))
    (hp : w'.position = w.position) (hc : w'.committed = w.committed) : Accounted e w' hand where
  committed_le := by rw [hp, hc]; exact h.committed_le
  hand_ge := by rw [hc]; exact h.hand_ge
  done := by
    intro pos raw hwatched hm hlt
    rw [hp] at hlt
    rcases h.done pos raw hwatched hm hlt with hhand | hs | ⟨hle, hpend⟩
    · exact .inl hhand
    · exact .inr (.inl (e.settled_mono hstep.grows hs))
    · rcases hstep.batches with ⟨htx, htt⟩ | ⟨hs, hpub⟩
      · exact .inr (.inr ⟨hc ▸ hle, e.pending_mono htx htt hpend⟩)
      · have hset := e.settled_of_pending hs hpub hpend
        exact .inr (.inl (e.settled_mono hstep.grows hset))

/-- A step that deals with the message in hand. -/
theorem handled {pos : Position} {raw : RawValue} (h : Accounted e w (some pos))
    (hm : D.message pos = some raw) (hstep : Step D False (w, some pos) (w', none))
    (hp : w'.position = w.position) (hc : w'.committed = w.committed) : Accounted e w' none where
  committed_le := by rw [hp, hc]; exact h.committed_le
  hand_ge := fun _ h => by simp at h
  done := by
    intro pos' raw' hwatched hm' hlt
    rw [hp] at hlt
    rcases h.done pos' raw' hwatched hm' hlt with hhand | hs | ⟨hle, hpend⟩
    · obtain rfl := Option.some.inj hhand
      obtain rfl := Option.some.inj (hm.symm.trans hm')
      rcases e.handled hwatched hm hstep with hs | hpend
      · exact .inr (.inl hs)
      · exact .inr (.inr ⟨hc ▸ h.hand_ge pos rfl hwatched, hpend⟩)
    · exact .inr (.inl (e.settled_mono hstep.grows hs))
    · rcases hstep.batches with ⟨htx, htt⟩ | ⟨hs, hpub⟩
      · exact .inr (.inr ⟨hc ▸ hle, e.pending_mono htx htt hpend⟩)
      · have hset := e.settled_of_pending hs hpub hpend
        exact .inr (.inl (e.settled_mono hstep.grows hset))

theorem poll {pos : Position} (h : Accounted e w none)
    (hpos : pos.offset = w.position pos.topic pos.partition) :
    Accounted e (w.take pos) (some pos) where
  committed_le := by
    intro t p
    have hle := h.committed_le t p
    show w.committed t p ≤ if t = pos.topic ∧ p = pos.partition then _ else _
    split
    · next heq =>
      obtain ⟨rfl, rfl⟩ := heq
      omega
    · exact hle
  hand_ge := by
    intro pos' heq _
    obtain rfl := Option.some.inj heq
    have hle := h.committed_le pos.topic pos.partition
    show w.committed pos.topic pos.partition ≤ pos.offset
    omega
  done := by
    intro pos' raw hwatched hm hlt
    have hgrows : Grows w (w.take pos) := Grows.take w pos
    -- below the new position: the message polled, or below the old position
    have hcases : pos = pos' ∨ pos'.offset < w.position pos'.topic pos'.partition := by
      replace hlt : pos'.offset < if pos'.topic = pos.topic ∧ pos'.partition = pos.partition
        then pos.offset + 1 else w.position pos'.topic pos'.partition := hlt
      split at hlt
      · next heq =>
        rw [heq.1, heq.2]
        rcases Nat.lt_succ_iff_lt_or_eq.mp hlt with hlt | hoff
        · exact .inr (hpos ▸ hlt)
        · left
          cases pos
          cases pos'
          simp only at heq hoff
          rw [heq.1, heq.2, hoff]
      · exact .inr hlt
    rcases hcases with rfl | hlt
    · exact .inl rfl
    · rcases h.done pos' raw hwatched hm hlt with hhand | hs | ⟨hle, hpend⟩
      · simp at hhand
      · exact .inr (.inl (e.settled_mono hgrows hs))
      · have htake : e.pending pos' raw (w.take pos) :=
          e.pending_mono (List.Subset.refl w.txBatch) (List.Subset.refl w.tokenBatch) hpend
        exact .inr (.inr ⟨hle, htake⟩)

/-- **A commit passes only what is settled**: the batches are stored and their
alerts acknowledged, and a watched message is not in hand. -/
theorem commit (h : Accounted e w hand) (hs : Stored w) (hp : Published D w)
    (hl : ∀ pos, hand = some pos → ¬e.watched pos.topic) :
    Accounted e { w with committed := w.position } hand where
  committed_le := fun _ _ => Nat.le_refl _
  hand_ge := fun pos hpos hwatched => absurd hwatched (hl pos hpos)
  done := by
    intro pos raw hwatched hm hlt
    have hgrows : Grows w { w with committed := w.position } := { Grows.refl w with }
    rcases h.done pos raw hwatched hm hlt with hhand | hset | ⟨-, hpend⟩
    · exact .inl hhand
    · exact .inr (.inl (e.settled_mono hgrows hset))
    · exact .inr (.inl (e.settled_mono hgrows (e.settled_of_pending hs hp hpend)))

/-- **Every step keeps the invariant**, if a message that may be committed while
in hand is not a watched one. -/
theorem step (hl : ∀ pos, LostInHand w (some pos) → ¬e.watched pos.topic)
    (h : Accounted e w hand) (hstep : Step D False (w, hand) (w', hand')) :
    Accounted e w' hand' := by
  cases hstep with
  | poll hm hpos => exact h.poll hpos
  | commit hs hp hlost => exact h.commit hs hp fun pos hpos => hl pos (hpos ▸ hlost)
  | quiet r q a m e' c l ha hr => exact h.same (.quiet r q a m e' c l ha hr) rfl rfl
  | lookup hm ht ha hn => exact h.same (.lookup hm ht ha hn) rfl rfl
  | redisError hm hu hc => exact h.same (.redisError hm hu hc) rfl rfl
  | store hT hU => exact h.same (.store hT hU) rfl rfl
  | hand hs htx ha => exact h.same (.hand hs htx ha) rfl rfl
  | clear hs hp hlost => exact h.same (.clear hs hp hlost) rfl rfl
  | reject hm hr => exact h.handled hm (.reject hm hr) rfl rfl
  | cache hm ht ha => exact h.handled hm (.cache hm ht ha) rfl rfl
  | appendTransaction hm ht ha => exact h.handled hm (.appendTransaction hm ht ha) rfl rfl
  | appendTokenTransfer hm ht ha ht' =>
    exact h.handled hm (.appendTokenTransfer hm ht ha ht') rfl rfl
  | skip hm ht ha hnone hlook => exact h.handled hm (.skip hm ht ha hnone hlook) rfl rfl

/-- What the invariant says of a message below the committed offset. -/
theorem settled_of_lt (h : Accounted e w hand) {pos : Position} {raw : RawValue}
    (hwatched : e.watched pos.topic) (hm : D.message pos = some raw)
    (hlt : pos.offset < w.committed pos.topic pos.partition) : e.settled pos raw w := by
  rcases h.done pos raw hwatched hm (Nat.lt_of_lt_of_le hlt (h.committed_le _ _)) with
    hhand | hs | ⟨hle, -⟩
  · have := h.hand_ge pos hhand hwatched
    omega
  · exact hs
  · omega

end Accounted

/-! ### Transactions -/

/-- The row of a transaction, and the alert of a whale. -/
def transactionEffect (D : Deployment) : Effect D where
  watched := fun t => t = .transactions
  settled := fun _ raw w => ∀ now tx, AcceptsTransaction D raw now tx →
    w.db.HasTransaction tx.hash ∧
      (D.whaleThresholdWei ≤ tx.value → ∃ a ∈ w.acked, a.hash = tx.hash)
  pending := fun _ raw w => ∀ now tx, AcceptsTransaction D raw now tx →
    ∃ tx' ∈ w.txBatch, tx'.hash = tx.hash ∧ tx'.value = tx.value
  settled_mono := by
    intro pos raw w w' hg h now tx ha
    refine ⟨(h now tx ha).1.mono hg.db, fun hv => ?_⟩
    obtain ⟨a, hmem, he⟩ := (h now tx ha).2 hv
    exact ⟨a, hg.acked hmem, he⟩
  pending_mono := by
    intro pos raw w w' htx _ h now tx ha
    obtain ⟨tx', hmem, he⟩ := h now tx ha
    exact ⟨tx', htx hmem, he⟩
  settled_of_pending := by
    intro pos raw w hs hp h now tx ha
    obtain ⟨tx', hmem, hhash, hvalue⟩ := h now tx ha
    refine ⟨?_, fun hv => ?_⟩
    · rw [← hhash]
      exact Tables.hasTransaction_of_insert hs.1 hmem
    · rw [← hhash]
      exact hp tx' hmem (hvalue ▸ hv)
  handled := by
    intro pos raw w w' hwatched hm hstep
    cases hstep with
    | reject hm' hr =>
      obtain rfl := Option.some.inj (hm.symm.trans hm')
      rw [hwatched] at hr
      exact .inl fun now tx ha => absurd ha (hr now tx)
    | cache _ ht => rw [hwatched] at ht; simp at ht
    | appendTokenTransfer _ ht => rw [hwatched] at ht; simp at ht
    | skip _ ht => rw [hwatched] at ht; simp at ht
    | appendTransaction hm' _ ha =>
      obtain rfl := Option.some.inj (hm.symm.trans hm')
      refine .inr fun now tx' ha' => ⟨_, List.mem_append_right _ (List.mem_singleton_self _), ?_⟩
      exact ha'.congr ha

/-- Every alert handed over had its row committed at that moment. -/
def HandedStored (w : World) : Prop := ∀ p ∈ w.handed, p.2.HasTransaction p.1.hash

theorem HandedStored.step (h : HandedStored w) (hstep : Step D False (w, hand) (w', hand')) :
    HandedStored w' := by
  cases hstep with
  | hand hs htx ha =>
    intro p hp
    rcases List.mem_cons.mp hp with rfl | hp
    · have hrow := Tables.hasTransaction_of_insert hs.1 htx
      exact ha ▸ hrow
    · exact h p hp
  | _ => exact h

/-- **Below the committed offset every accepted transaction has its row, and
every whale an acknowledged alert; and no alert is handed over before its row is
committed.** -/
theorem committed_transactions (D : Deployment) (db : Tables) (redis : ℤ → Option IsoText)
    (css : List (List Choice)) :
    let w := sessions D (World.initial db redis) css
    (∀ pos raw now tx, pos.topic = .transactions → D.message pos = some raw →
      pos.offset < w.committed pos.topic pos.partition → AcceptsTransaction D raw now tx →
        w.db.HasTransaction tx.hash ∧
          (D.whaleThresholdWei ≤ tx.value → ∃ a ∈ w.acked, a.hash = tx.hash)) ∧
      ∀ p ∈ w.handed, p.2.HasTransaction p.1.hash := by
  intro w
  obtain ⟨hand, hreach⟩ := sessions_reachable D (World.initial db redis) css
  have hacc : Accounted (transactionEffect D) w hand := by
    refine hreach.invariant (Accounted.initial db redis) ?_ fun w hand h => h.restart
    intro w hand w' hand' hstep h
    exact h.step (fun pos hl => (hl pos rfl).1) hstep
  have hhanded : HandedStored w := by
    refine hreach.invariant (P := fun w _ => HandedStored w) ?_ ?_ fun w hand h => h
    · intro p hp
      simp [World.initial] at hp
    · intro w hand w' hand' hstep h
      exact h.step hstep
  refine ⟨fun pos raw now tx ht hm hlt ha => ?_, hhanded⟩
  exact hacc.settled_of_lt (e := transactionEffect D) ht hm hlt now tx ha

/-! ### Blocks and token transfers -/

/-- The timestamp of a block in Redis. -/
def blockEffect (D : Deployment) : Effect D where
  watched := fun t => t = .blocks
  settled := fun pos raw w => ∀ b, AcceptsBlock D raw b →
    (pos, b.number, isoformat b.timestamp) ∈ w.cached
  pending := fun _ _ _ => False
  settled_mono := fun hg h b ha => hg.cached (h b ha)
  pending_mono := fun _ _ h => h
  settled_of_pending := fun _ _ h => h.elim
  handled := by
    intro pos raw w w' hwatched hm hstep
    cases hstep with
    | reject hm' hr =>
      obtain rfl := Option.some.inj (hm.symm.trans hm')
      rw [hwatched] at hr
      exact .inl fun b ha => absurd ha (hr b)
    | cache hm' _ ha =>
      obtain rfl := Option.some.inj (hm.symm.trans hm')
      refine .inl fun b' ha' => ?_
      obtain ⟨data, rfl, hc⟩ := ha
      obtain ⟨data', he, hc'⟩ := ha'
      cases he
      obtain rfl := Except.ok.inj (hc'.symm.trans hc)
      exact List.mem_cons_self
    | appendTransaction _ ht => rw [hwatched] at ht; simp at ht
    | appendTokenTransfer _ ht => rw [hwatched] at ht; simp at ht
    | skip _ ht => rw [hwatched] at ht; simp at ht

/-- The row of a token transfer, unless it was skipped. -/
def tokenTransferEffect (D : Deployment) : Effect D where
  watched := fun t => t = .tokenTransfers
  settled := fun pos raw w => ∀ now tt, AcceptsTokenTransfer D raw now tt →
    w.db.HasTokenTransfer tt.transactionHash tt.logIndex ∨ pos ∈ w.skipped
  pending := fun _ raw w => ∀ now tt, AcceptsTokenTransfer D raw now tt →
    ∃ tt' ∈ w.tokenBatch, tt'.transactionHash = tt.transactionHash ∧ tt'.logIndex = tt.logIndex
  settled_mono := by
    intro pos raw w w' hg h now tt ha
    rcases h now tt ha with h | h
    · exact .inl (h.mono hg.db)
    · exact .inr (hg.skipped h)
  pending_mono := by
    intro pos raw w w' _ htt h now tt ha
    obtain ⟨tt', hmem, he⟩ := h now tt ha
    exact ⟨tt', htt hmem, he⟩
  settled_of_pending := by
    intro pos raw w hs _ h now tt ha
    obtain ⟨tt', hmem, hhash, hindex⟩ := h now tt ha
    have hrow := Tables.hasTokenTransfer_of_insert hs.2 hmem
    exact .inl (hhash ▸ hindex ▸ hrow)
  handled := by
    intro pos raw w w' hwatched hm hstep
    cases hstep with
    | reject hm' hr =>
      obtain rfl := Option.some.inj (hm.symm.trans hm')
      rw [hwatched] at hr
      exact .inl fun now tt ha => absurd ha (hr now tt)
    | cache _ ht => rw [hwatched] at ht; simp at ht
    | appendTransaction _ ht => rw [hwatched] at ht; simp at ht
    | skip => exact .inl fun _ _ _ => .inr List.mem_cons_self
    | appendTokenTransfer hm' _ ha =>
      obtain rfl := Option.some.inj (hm.symm.trans hm')
      refine .inr fun now tt' ha' => ⟨_, List.mem_append_right _ (List.mem_singleton_self _), ?_⟩
      rw [← ha'.congr ha]
      exact ⟨rfl, rfl⟩

theorem Accounted.of_idle (hreach : Reachable D (World.initial db₀ redis₀) w hand)
    (hidle : IdleRedisErrors w) : Accounted e w hand := by
  revert hidle
  refine hreach.invariant (P := fun w hand => IdleRedisErrors w → Accounted e w hand)
    (fun _ => Accounted.initial db₀ redis₀) ?_ fun w hand h hidle => (h hidle).restart
  intro w hand w' hand' hstep h hidle
  have hidle' : IdleRedisErrors w := fun n hn => hidle n (hstep.grows.redisErrors hn)
  refine (h hidle').step (fun pos hl => ?_) hstep
  exact absurd (hidle'.hand_none hl) (by simp)

/-- **Below the committed offset every accepted block is cached and every accepted
transfer stored or skipped**, in every history in which Redis calls raise only
while nothing is buffered. -/
theorem committed_effects_of_idle_redisErrors (D : Deployment) (db : Tables)
    (redis : ℤ → Option IsoText) (css : List (List Choice))
    (hidle : IdleRedisErrors (sessions D (World.initial db redis) css)) :
    let w := sessions D (World.initial db redis) css
    (∀ pos raw b, pos.topic = .blocks → D.message pos = some raw →
      pos.offset < w.committed pos.topic pos.partition → AcceptsBlock D raw b →
        (pos, b.number, isoformat b.timestamp) ∈ w.cached) ∧
      ∀ pos raw now tt, pos.topic = .tokenTransfers → D.message pos = some raw →
        pos.offset < w.committed pos.topic pos.partition → AcceptsTokenTransfer D raw now tt →
          w.db.HasTokenTransfer tt.transactionHash tt.logIndex ∨ pos ∈ w.skipped := by
  intro w
  obtain ⟨hand, hreach⟩ := sessions_reachable D (World.initial db redis) css
  refine ⟨fun pos raw b ht hm hlt ha => ?_, fun pos raw now tt ht hm hlt ha => ?_⟩
  · have hacc : Accounted (blockEffect D) w hand := Accounted.of_idle hreach hidle
    exact hacc.settled_of_lt (e := blockEffect D) ht hm hlt b ha
  · have hacc : Accounted (tokenTransferEffect D) w hand := Accounted.of_idle hreach hidle
    exact hacc.settled_of_lt (e := tokenTransferEffect D) ht hm hlt now tt ha

/-- One transaction, and one block. -/
def blockAfterTransaction : Deployment where
  log
    | .transactions, 0 =>
      [.json (.obj [("hash", .str "0xa1"), ("block_timestamp", .int 1700000000),
        ("from_address", .str "0xb1")])]
    | .blocks, 0 => [.json (.obj [("number", .int 7), ("timestamp", .int 1700000000)])]
    | _, _ => []
  pydantic := .plain

/-- Start, the transaction, and the block up to its write to Redis. -/
def untilCacheWrite : List Choice :=
  [.well, .well, .well, .well, .next .transactions, .well, .well, .next .blocks]

theorem acceptsBlock_blockAfterTransaction :
    AcceptsBlock blockAfterTransaction
      (.json (.obj [("number", .int 7), ("timestamp", .int 1700000000)]))
      ⟨7, 1700000000000000⟩ :=
  ⟨_, rfl, by decide +kernel⟩

/-- Redis fails on the block while nothing is buffered, and the process ends; in the next one
the write goes well, and a signal ends the loop. -/
def blockTwice : List (List Choice) :=
  [[.well, .well, .well, .well, .next .blocks, .fails] ++ List.replicate 9 .well,
    untilCacheWrite ++ [.well, .stop] ++ List.replicate 9 .well]

theorem block_cached_of_idle :
    let w := sessions blockAfterTransaction (World.initial .empty fun _ => none) blockTwice
    w.redisErrors = [0] ∧ IdleRedisErrors w ∧ w.committed .blocks 0 = 1 ∧
      (⟨.blocks, 0, 0⟩, 7, isoformat 1700000000000000) ∈ w.cached := by
  have hidle : IdleRedisErrors
      (sessions blockAfterTransaction (World.initial .empty fun _ => none) blockTwice) := by
    decide +kernel
  refine ⟨by decide +kernel, hidle, by decide +kernel, ?_⟩
  exact (committed_effects_of_idle_redisErrors _ _ _ _ hidle).1 ⟨.blocks, 0, 0⟩ _ _ rfl rfl
    (by decide +kernel) acceptsBlock_blockAfterTransaction

/-- **A Redis error with a transaction in the buffer**: the exception leaves the
loop, the flush in `finally` commits the block's offset, and the block is not
cached. -/
theorem block_lost_at_redisError :
    ∃ css raw b,
      let w := sessions blockAfterTransaction (World.initial .empty fun _ => none) css
      blockAfterTransaction.message ⟨.blocks, 0, 0⟩ = some raw ∧
        AcceptsBlock blockAfterTransaction raw b ∧ 0 < w.committed .blocks 0 ∧
          (⟨.blocks, 0, 0⟩, b.number, isoformat b.timestamp) ∉ w.cached := by
  refine ⟨[untilCacheWrite ++ [.fails] ++ List.replicate 9 .well], _, _, rfl,
    acceptsBlock_blockAfterTransaction, ?_, ?_⟩
  · decide +kernel
  · decide +kernel

end Consumer

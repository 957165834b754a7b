import EthPipeline.Consumer.Replay

/-!
# The order of the topics

A transfer without a timestamp of its own waits for a key of Redis that only the
same loop can write, so it gets the timestamp of a block polled before it, or is
skipped.

* `Dates`: the timestamp an order gives a transfer.
* `same_table_iff_datedAlike`: in two calm runs over the same messages, the
  tables of token transfers agree and have every transfer if and only if the
  transfers fit the columns and both orders date them alike.
* `datedAlike_iff_blocksFirst`: for the messages of one chain, that is: both
  orders put the block of every transfer before it.
* `transfer_before_block_skipped`: two orders of one block and one transfer with
  different tables.
-/

namespace Consumer

open Relation

section Untimed

variable (D : Deployment)

/-- The block a message announces. -/
def blockAt (pos : Position) : Option BlockModel :=
  match pos.topic, D.message pos with
  | .blocks, some (.json data) => (construct (BlockModel.validate D.pydantic) data).toOption
  | _, _ => none

/-- The transfer of a message. -/
def transferAt (pos : Position) : Option TokenTransferModel :=
  match pos.topic, D.message pos with
  | .tokenTransfers, some (.json data) =>
    (construct (TokenTransferModel.validate D.pydantic 0) data).toOption
  | _, _ => none

/-- The messages are blocks and transfers, and no transfer has a timestamp. -/
structure Untimed : Prop where
  noTransactions : ∀ p, D.log .transactions p = []
  undated : ∀ pos tt, transferAt D pos = some tt → tt.timestamp = none

/-- The messages before `pos`. -/
def before (order : List Position) (pos : Position) : List Position :=
  order.takeWhile (· ≠ pos)

/-- The timestamp of block `n` after the messages `ps`: a later message of the
block overwrites the key of an earlier one. -/
def blockTime (ps : List Position) (n : ℤ) : Option Timestamp :=
  ps.reverse.findSome? fun p =>
    (blockAt D p).bind fun b => if b.number = n then some b.timestamp else none

/-- Every transfer fits the columns of its table. -/
def Fits : Prop :=
  ∀ pos tt, transferAt D pos = some tt →
    (TokenTransferRow.ofModel { tt with timestamp := some 0 }).isSome

/-- The timestamp of the last block before the transfer that has its number. -/
def foundTime (order : List Position) (pos : Position) : Option Timestamp :=
  (transferAt D pos).bind fun tt => blockTime D (before order pos) tt.blockNumber

/-- The columns of the transfer, with the timestamp `t`. -/
def rowAt (pos : Position) (t : Timestamp) : Option TokenTransferRow :=
  (transferAt D pos).bind fun tt => TokenTransferRow.ofModel { tt with timestamp := some t }

/-- **The order dates the transfer with `t`**: the last block before it that has
its number has this timestamp, and no different transfer of its hash and log
index that finds `t` too comes before it. -/
def Dates (order : List Position) (pos : Position) (t : Timestamp) : Prop :=
  foundTime D order pos = some t ∧
    ∀ q ∈ before order pos, foundTime D order q = some t →
      (rowAt D q t).map TokenTransferRow.key = (rowAt D pos t).map TokenTransferRow.key →
        rowAt D q t = rowAt D pos t

/-- The order dates every transfer, or a copy of it. -/
def DatesAll (order : List Position) : Prop :=
  ∀ pos, (transferAt D pos).isSome → ∃ p t, Dates D order p t ∧ rowAt D p t = rowAt D pos t

/-- What one order dates, the other dates alike: the transfer itself or a copy. -/
def DatedIn (order order' : List Position) : Prop :=
  ∀ pos t, Dates D order pos t → ∃ p, Dates D order' p t ∧ rowAt D p t = rowAt D pos t

/-- Both orders date every transfer, and alike. -/
structure DatedAlike (order order' : List Position) : Prop where
  all : DatesAll D order
  left : DatedIn D order order'
  right : DatedIn D order' order

/-- The transfer is in the table, with all its columns and some timestamp. -/
def HasTransferAt (w : World) (pos : Position) : Prop :=
  ∃ t r, rowAt D pos t = some r ∧ r ∈ w.db.tokenTransfers.rows

variable {D}

theorem before_of_prefixed {order ps : List Position} {pos : Position}
    (h : ps ++ [pos] <+: order) (hpos : pos ∉ ps) : before order pos = ps := by
  obtain ⟨rest, rfl⟩ := h
  have hall : ∀ p ∈ ps, decide (p ≠ pos) = true := by
    intro p hp
    exact decide_eq_true fun heq => hpos (heq ▸ hp)
  rw [before, List.append_assoc, List.takeWhile_append_of_pos hall]
  simp

/-- A message of the order stands after the messages before it. -/
theorem eq_before_append {order : List Position} {pos : Position} (h : pos ∈ order) :
    ∃ rest, order = before order pos ++ pos :: rest := by
  induction order with
  | nil => simp at h
  | cons p ps ih =>
    by_cases hp : p = pos
    · exact ⟨ps, by simp [before, hp]⟩
    · obtain ⟨rest, hrest⟩ := ih ((List.mem_cons.mp h).resolve_left (Ne.symm hp))
      refine ⟨rest, ?_⟩
      simpa [before, hp] using hrest

theorem before_append_subset (ps rest : List Position) (pos : Position) :
    before (ps ++ pos :: rest) pos ⊆ ps := by
  induction ps with
  | nil => simp [before]
  | cons p ps ih =>
    by_cases hp : p = pos
    · simp [before, hp]
    · rw [List.cons_append, before, List.takeWhile_cons_of_pos (by simpa using hp)]
      exact List.cons_subset_cons p ih

theorem blockTime_eq_some {ps : List Position} {n : ℤ} {t : Timestamp}
    (h : blockTime D ps n = some t) :
    ∃ p ∈ ps, ∃ b, blockAt D p = some b ∧ b.number = n ∧ b.timestamp = t := by
  obtain ⟨p, hp, hb⟩ := List.exists_of_findSome?_eq_some h
  obtain ⟨b, hb, hn⟩ := Option.bind_eq_some_iff.mp hb
  split at hn
  · next heq => exact ⟨p, List.mem_reverse.mp hp, b, hb, heq, Option.some.inj hn⟩
  · simp at hn

theorem blockTime_append_of_not_block {ps : List Position} {pos : Position}
    (h : blockAt D pos = none) (n : ℤ) : blockTime D (ps ++ [pos]) n = blockTime D ps n := by
  simp [blockTime, h]

/-- The last message of a block decides. -/
theorem blockTime_append_of_block {ps : List Position} {pos : Position} {b : BlockModel}
    (h : blockAt D pos = some b) (n : ℤ) :
    blockTime D (ps ++ [pos]) n = if b.number = n then some b.timestamp else blockTime D ps n := by
  by_cases hn : b.number = n
  · simp [blockTime, h, hn]
  · simp [blockTime, h, hn]

theorem blockAt_eq_none {pos : Position} (h : pos.topic ≠ .blocks) : blockAt D pos = none := by
  unfold blockAt
  split
  · next heq _ => exact absurd heq h
  · rfl

theorem blockAt_of_accepts {pos : Position} {raw : RawValue} {b : BlockModel}
    (hm : D.message pos = some raw) (ht : pos.topic = .blocks) (ha : AcceptsBlock D raw b) :
    blockAt D pos = some b := by
  obtain ⟨data, rfl, hc⟩ := ha
  simp [blockAt, ht, hm, hc, Except.toOption]

theorem blockAt_of_rejects {pos : Position} {raw : RawValue} (hm : D.message pos = some raw)
    (hr : Rejects D pos.topic raw) : blockAt D pos = none := by
  unfold blockAt
  split
  · next data ht hm' =>
    rw [ht] at hr
    obtain rfl := Option.some.inj (hm.symm.trans hm')
    cases hc : construct (BlockModel.validate D.pydantic) data with
    | error e => rfl
    | ok b => exact absurd ⟨data, rfl, hc⟩ (hr b)
  · rfl

theorem message_isSome_of_transferAt {pos : Position} {tt : TokenTransferModel}
    (h : transferAt D pos = some tt) : (D.message pos).isSome := by
  unfold transferAt at h
  split at h
  · next hm =>
    rw [hm]
    rfl
  · simp at h

/-- What Redis answers to a transfer when nothing but the order decides. -/
def knownBefore (D : Deployment) (order : List Position) (pos : Position) (n : ℤ) :
    Option IsoText :=
  (blockTime D (before order pos) n).map isoformat

/-! ### A calm run in a given order -/

/-- The invariant of a calm run whose messages are polled in the order `order`:
Redis has the blocks dealt with, and has answered from them. -/
structure InOrder (D : Deployment) (order : List Position) (w : World) (hand : Option Position) :
    Prop where
  last : HandIsLast w hand
  once : w.polled.Nodup
  passed : ∀ p ∈ w.polled, p.offset < w.position p.topic p.partition
  redis : ∀ n, w.redis n = (blockTime D (handled w hand) n).map isoformat
  answers : ∀ l ∈ w.lookups, l.2.2 = knownBefore D order l.1 l.2.1
  redisErrors : w.redisErrors = []
  txBatch : w.txBatch = []

variable {order : List Position} {w w' : World} {hand hand' : Option Position}

theorem InOrder.before_eq {pos : Position} (h : InOrder D order w (some pos))
    (hpre : w.polled.reverse <+: order) : before order pos = handled w (some pos) := by
  obtain ⟨rest, hrest⟩ := List.head?_eq_some_iff.mp (h.last pos rfl)
  have honce := h.once
  rw [hrest] at hpre honce
  rw [List.reverse_cons] at hpre
  have hnot : pos ∉ rest.reverse := by
    rw [List.mem_reverse]
    exact (List.nodup_cons.mp honce).1
  rw [before_of_prefixed hpre hnot]
  simp [handled, hrest]

/-- The message in hand is dealt with, and is no block that Redis keeps. -/
theorem InOrder.handle {pos : Position} (h : InOrder D order w (some pos))
    (hb : blockAt D pos = none) (n : ℤ) :
    w.redis n = (blockTime D (handled w none) n).map isoformat := by
  rw [handled_none_of_head (h.last pos rfl), blockTime_append_of_not_block hb]
  exact h.redis n

theorem InOrder.poll {pos : Position} (h : InOrder D order w none)
    (hpos : pos.offset = w.position pos.topic pos.partition) :
    InOrder D order (w.take pos) (some pos) := by
  refine ⟨fun _ heq => heq, ?_, ?_, h.redis, h.answers, h.redisErrors, h.txBatch⟩
  · refine List.nodup_cons.mpr ⟨fun hmem => ?_, h.once⟩
    have hlt := h.passed pos hmem
    omega
  · intro p hp
    show p.offset < if p.topic = pos.topic ∧ p.partition = pos.partition then _ else _
    rcases List.mem_cons.mp hp with rfl | hp
    · rw [if_pos ⟨rfl, rfl⟩]
      exact Nat.lt_succ_self _
    · have hlt := h.passed p hp
      split
      · next heq =>
        rw [heq.1, heq.2] at hlt
        omega
      · exact hlt

theorem InOrder.step (hc : Untimed D) (hstep : Step D True (w, hand) (w', hand'))
    (hpre : w'.polled.reverse <+: order) (h : InOrder D order w hand) :
    InOrder D order w' hand' := by
  have hnotx : ∀ {pos : Position} {raw : RawValue}, D.message pos = some raw →
      pos.topic ≠ .transactions := by
    intro pos raw hm ht
    rw [Deployment.message, ht, hc.noTransactions] at hm
    simp at hm
  have hlast := hstep.handIsLast h.last
  cases hstep with
  | quiet _ _ _ redis _ _ _ _ hr =>
    refine ⟨hlast, h.once, h.passed, fun n => ?_, h.answers, h.redisErrors, h.txBatch⟩
    show redis n = _
    rw [hr trivial]
    exact h.redis n
  | poll _ hpos => exact h.poll hpos
  | reject hm hr =>
    exact ⟨hlast, h.once, h.passed, h.handle (blockAt_of_rejects hm hr), h.answers, h.redisErrors,
      h.txBatch⟩
  | @cache _ pos _ b hm ht ha =>
    refine ⟨hlast, h.once, h.passed, fun n => ?_, h.answers, h.redisErrors, h.txBatch⟩
    have hb := blockAt_of_accepts hm ht ha
    have hhandled : handled w none = handled w (some pos) ++ [pos] :=
      handled_none_of_head (h.last pos rfl)
    show Function.update w.redis b.number (some (isoformat b.timestamp)) n
      = (blockTime D (handled w none) n).map isoformat
    rw [hhandled, blockTime_append_of_block hb]
    by_cases hn : n = b.number
    · subst hn
      rw [Function.update_self, if_pos rfl]
      rfl
    · rw [Function.update_of_ne hn, h.redis n, if_neg (Ne.symm hn)]
  | appendTransaction hm ht => exact absurd ht (hnotx hm)
  | appendTokenTransfer hm ht =>
    exact ⟨hlast, h.once, h.passed, h.handle (blockAt_eq_none (by simp [ht])), h.answers,
      h.redisErrors, h.txBatch⟩
  | skip hm ht =>
    exact ⟨hlast, h.once, h.passed, h.handle (blockAt_eq_none (by simp [ht])), h.answers,
      h.redisErrors, h.txBatch⟩
  | @lookup _ pos _ _ tt hm ht ha =>
    refine ⟨hlast, h.once, h.passed, h.redis, fun l hl => ?_, h.redisErrors, h.txBatch⟩
    rcases List.mem_cons.mp hl with rfl | hl
    · rw [knownBefore, h.before_eq hpre]
      exact h.redis tt.blockNumber
    · exact h.answers l hl
  | redisError _ _ hcalm => exact absurd trivial hcalm
  | store => exact ⟨hlast, h.once, h.passed, h.redis, h.answers, h.redisErrors, h.txBatch⟩
  | hand => exact ⟨hlast, h.once, h.passed, h.redis, h.answers, h.redisErrors, h.txBatch⟩
  | commit => exact ⟨hlast, h.once, h.passed, h.redis, h.answers, h.redisErrors, h.txBatch⟩
  | clear => exact ⟨hlast, h.once, h.passed, h.redis, h.answers, h.redisErrors, rfl⟩

theorem Untimed.dated (hc : Untimed D) (pos : Position) : Dated D pos := by
  intro hne data hm haccepted fields v hdata hv
  cases ht : pos.topic with
  | blocks => exact absurd ht hne
  | transactions =>
    rw [Deployment.message, ht, hc.noTransactions] at hm
    simp at hm
  | tokenTransfers =>
    subst hdata
    rw [ht] at haccepted
    have hex : ∃ now tt, AcceptsTokenTransfer D (.json (.obj fields)) now tt := by
      simpa [Rejects] using haccepted
    obtain ⟨now, tt, data, he, hcon⟩ := hex
    cases he
    obtain ⟨_, he, hval⟩ := construct_eq_ok.mp hcon
    cases he
    obtain ⟨-, hval⟩ := TokenTransferModel.validate_eq_some hval 0
    have hat : transferAt D pos = some { tt with
        timestamp := (Fields.timestamp fields).map (parseEthTimestamp 0) } := by
      simp [transferAt, ht, hm, construct, hval, Except.toOption]
    have hnone := hc.undated pos _ hat
    rw [hv] at hnone
    simp at hnone

/-- The view of a run in the given order. -/
def orderedView (D : Deployment) (order : List Position) :
    TableView TokenTransferRow.key TokenTransferRow.ofModel :=
  tokenTransferView D 0 (knownBefore D order)

/-- The record of a transfer carries the time of its block, if that came first. -/
theorem Untimed.record_eq (hc : Untimed D) (order : List Position) (pos : Position) :
    (orderedView D order).record pos = (transferAt D pos).bind fun tt =>
      (blockTime D (before order pos) tt.blockNumber).map fun t =>
        { tt with timestamp := some t } := by
  cases hat : transferAt D pos with
  | none =>
    unfold transferAt at hat
    by_cases ht : pos.topic = .tokenTransfers
    · cases hm : D.message pos with
      | none => simp [orderedView, tokenTransferView, hm]
      | some raw =>
        cases raw with
        | json data =>
          simp only [ht, hm] at hat
          simp [orderedView, tokenTransferView, ht, hm, recordTokenTransfer, hat]
        | _ => simp [orderedView, tokenTransferView, hm, recordTokenTransfer]
    · exact tokenTransferView_record_of_ne ht
  | some tt =>
    have hnone := hc.undated pos tt hat
    unfold transferAt at hat
    split at hat
    · next data ht hm =>
      simp [orderedView, tokenTransferView, ht, hm, recordTokenTransfer, hat, hnone, knownBefore,
        Function.comp_def]
    · simp at hat

/-- **What a calm run comes to.** -/
theorem Untimed.calm_run (hc : Untimed D) {cs : List Choice} (hcalm : ∀ c ∈ cs, c.Calm)
    (hend : (main D (World.initial .empty fun _ => none) cs).outcome ≠ .cut) :
    let w := (main D (World.initial .empty fun _ => none) cs).state
    InOrder D w.polled.reverse w none ∧
      Arrived (orderedView D w.polled.reverse) Keyed.empty w none ∧ (Storable w → Stored w) := by
  intro w
  have hended : Ended D True (World.initial .empty fun _ => none, none) w :=
    main_ends D rfl rfl (fun c hc _ => hcalm c hc) hend
  obtain ⟨hand, hsteps, hhand⟩ := hended.at_hand
  have hinv : ∀ order, w.polled.reverse <+: order →
      InOrder D order w hand ∧ Arrived (orderedView D order) Keyed.empty w hand := by
    intro order
    refine Steps.invariant (P := fun w hand => w.polled.reverse <+: order →
      InOrder D order w hand ∧ Arrived (orderedView D order) Keyed.empty w hand) ?_ hsteps ?_
    · intro w hand w' hand' hstep ih hpre
      obtain ⟨hin, harr⟩ := ih ((List.reverse_prefix.mpr hstep.grows.polled).trans hpre)
      have hin' := hin.step hc hstep hpre
      have hsteady : Steady D (knownBefore D order) w' :=
        ⟨fun pos _ => hc.dated pos, hin'.answers, by simp [IdleRedisErrors, hin'.redisErrors]⟩
      have hmem : ∀ pos, hand = some pos → pos ∈ w.polled := fun pos hpos =>
        List.mem_of_mem_head? (hin.last pos hpos)
      exact ⟨hin', harr.move (tokenTransfers_move hstep hsteady hmem)⟩
    · intro _
      refine ⟨⟨fun _ h => by simp at h, List.nodup_nil, ?_, fun _ => rfl, ?_, rfl, rfl⟩,
        Arrived.start rfl rfl rfl⟩
      · simp [World.initial]
      · simp [World.initial]
  obtain ⟨hin, harr⟩ := hinv w.polled.reverse List.prefix_rfl
  have hnone : hand = none := by
    cases hand with
    | none => rfl
    | some pos => exact absurd hin.redisErrors (hhand rfl)
  subst hnone
  exact ⟨hin, harr, hended.stored trivial⟩

/-- A transfer fits its columns with every timestamp or with none. -/
theorem ofModel_isSome_congr (tt : TokenTransferModel) (t t' : Timestamp) :
    (TokenTransferRow.ofModel { tt with timestamp := some t }).isSome =
      (TokenTransferRow.ofModel { tt with timestamp := some t' }).isSome := by
  simp only [TokenTransferRow.ofModel, Option.bind_eq_bind, Option.pure_def, Option.bind_some]
  cases varchar 66 tt.transactionHash <;> cases int4 tt.logIndex <;>
    cases varchar 42 tt.tokenAddress <;> cases varchar 42 tt.fromAddress <;>
    cases varchar 42 tt.toAddress <;> rfl

/-! ### The rows an order leaves -/

theorem rowAt_eq_some {pos : Position} {t : Timestamp} {r : TokenTransferRow}
    (h : rowAt D pos t = some r) : ∃ tt, transferAt D pos = some tt ∧ r.timestamp = t ∧
      varchar 66 tt.transactionHash = some r.transactionHash ∧ r.logIndex = tt.logIndex := by
  obtain ⟨tt, hat, hrow⟩ := Option.bind_eq_some_iff.mp h
  obtain ⟨hhash, hindex, htime, -⟩ := TokenTransferRow.ofModel_eq_some hrow
  exact ⟨tt, hat, (Option.some.inj htime).symm, hhash, hindex⟩

theorem Fits.exists_rowAt (hfits : Fits D) {pos : Position} (h : (transferAt D pos).isSome)
    (t : Timestamp) : ∃ r, rowAt D pos t = some r := by
  obtain ⟨tt, hat⟩ := Option.isSome_iff_exists.mp h
  have hsome := hfits pos tt hat
  rw [ofModel_isSome_congr tt 0 t] at hsome
  obtain ⟨r, hr⟩ := Option.isSome_iff_exists.mp hsome
  exact ⟨r, by rw [rowAt, hat]; exact hr⟩

theorem isSome_of_foundTime {pos : Position} {t : Timestamp} (h : foundTime D order pos = some t) :
    (transferAt D pos).isSome := by
  obtain ⟨tt, hat, -⟩ := Option.bind_eq_some_iff.mp h
  rw [hat]
  rfl

/-- The row a message adds: its columns with the time it finds. -/
theorem Untimed.row_eq (hc : Untimed D) (order : List Position) (pos : Position) :
    ((orderedView D order).record pos).bind TokenTransferRow.ofModel =
      (foundTime D order pos).bind (rowAt D pos) := by
  rw [hc.record_eq]
  cases hat : transferAt D pos with
  | none => simp [foundTime, hat]
  | some tt =>
    simp only [foundTime, hat, Option.bind_some]
    cases blockTime D (before order pos) tt.blockNumber with
    | none => rfl
    | some t => simp [rowAt, hat]

/-- **Dated with its own timestamp**: no row of the same key comes before it. -/
theorem dates_iff {pos : Position} {r : TokenTransferRow} (hr : rowAt D pos r.timestamp = some r) :
    Dates D order pos r.timestamp ↔
      (foundTime D order pos).bind (rowAt D pos) = some r ∧
        ∀ q ∈ before order pos, ∀ r', (foundTime D order q).bind (rowAt D q) = some r' →
          r'.key = r.key → r' = r := by
  have hsplit : ∀ q r', (foundTime D order q).bind (rowAt D q) = some r' ↔
      foundTime D order q = some r'.timestamp ∧ rowAt D q r'.timestamp = some r' := by
    intro q r'
    rw [Option.bind_eq_some_iff]
    constructor
    · rintro ⟨t, ht, hrow⟩
      obtain ⟨-, -, rfl, -⟩ := rowAt_eq_some hrow
      exact ⟨ht, hrow⟩
    · rintro ⟨ht, hrow⟩
      exact ⟨_, ht, hrow⟩
  constructor
  · rintro ⟨hfound, hfirst⟩
    refine ⟨(hsplit pos r).mpr ⟨hfound, hr⟩, fun q hq r' hr' hkey => ?_⟩
    obtain ⟨hq', hrow⟩ := (hsplit q r').mp hr'
    have htime : r'.timestamp = r.timestamp := congrArg (fun k => k.2.2) hkey
    rw [htime] at hq' hrow
    have hsame := hfirst q hq hq' (by rw [hrow, hr, Option.map_some, Option.map_some, hkey])
    rw [hrow, hr] at hsame
    exact Option.some.inj hsame
  · rintro ⟨hrow, hfirst⟩
    refine ⟨((hsplit pos r).mp hrow).1, fun q hq hfound hkey => ?_⟩
    rw [hr, Option.map_some] at hkey
    obtain ⟨r', hrow', hkey⟩ := Option.map_eq_some_iff.mp hkey
    have htime : r'.timestamp = r.timestamp := congrArg (fun k => k.2.2) hkey
    rw [hr, hrow']
    rw [← htime] at hfound hrow'
    rw [hfirst q hq r' ((hsplit q r').mpr ⟨hfound, hrow'⟩) hkey]

/-- Inserted in the order of their messages, the rows that stay are those with no
other row of their key before them. -/
theorem mem_insertAll_filterMap {f : Position → Option TokenTransferRow} {r : TokenTransferRow} :
    r ∈ ((Keyed.empty : Keyed TokenTransferRow.key).insertAll (order.filterMap f)).rows ↔
      ∃ pos ∈ order, f pos = some r ∧
        ∀ q ∈ before order pos, ∀ r', f q = some r' → r'.key = r.key → r' = r := by
  rw [Keyed.mem_insertAll_empty_iff]
  constructor
  · rintro ⟨firsts, rest, hsplit, hfirst⟩
    obtain ⟨ps, qs, rfl, rfl, hqs⟩ := List.filterMap_eq_append_iff.mp hsplit
    obtain ⟨skipped, pos, after, rfl, hskipped, hrow, -⟩ := List.filterMap_eq_cons_iff.mp hqs
    refine ⟨pos, by simp, hrow, fun q hq r' hr' hkey => ?_⟩
    rw [← List.append_assoc] at hq
    rcases List.mem_append.mp (before_append_subset _ _ _ hq) with hq | hq
    · exact hfirst r' (List.mem_filterMap.mpr ⟨q, hq, hr'⟩) hkey
    · rw [hskipped q hq] at hr'
      simp at hr'
  · rintro ⟨pos, hpos, hrow, hfirst⟩
    obtain ⟨rest, hsplit⟩ := eq_before_append hpos
    refine ⟨(before order pos).filterMap f, rest.filterMap f, ?_, fun r' hr' hkey => ?_⟩
    · conv_lhs => rw [hsplit]
      rw [List.filterMap_append, List.filterMap_cons_some hrow]
    · obtain ⟨q, hq, hrow'⟩ := List.mem_filterMap.mp hr'
      exact hfirst q hq r' hrow' hkey

/-- **The table after a calm run** whose transfers fit: the rows its order dates. -/
theorem Untimed.mem_rows_iff (hc : Untimed D) (hfits : Fits D) (hin : InOrder D order w none)
    (harr : Arrived (orderedView D order) Keyed.empty w none) (hstored : Storable w → Stored w)
    (horder : order = w.polled.reverse)
    (hall : ∀ pos, pos ∈ w.polled ↔ (D.message pos).isSome) (r : TokenTransferRow) :
    r ∈ w.db.tokenTransfers.rows ↔
      ∃ pos, Dates D order pos r.timestamp ∧ rowAt D pos r.timestamp = some r := by
  have htable : Keyed.storeAll TokenTransferRow.ofModel Keyed.empty
      (w.polled.reverse.filterMap (orderedView D order).record) = some w.db.tokenTransfers := by
    refine harr.table_eq (Tables.insertTokenTransfersBatch_eq_some (hstored ⟨?_, ?_⟩).2).1
    · simp [hin.txBatch]
    · intro tt' hmem
      obtain ⟨pos, -, hrecord⟩ := harr.exists_of_mem_batch hmem
      rw [hc.record_eq] at hrecord
      obtain ⟨tt, hat, hrecord⟩ := Option.bind_eq_some_iff.mp hrecord
      obtain ⟨t, -, rfl⟩ := Option.map_eq_some_iff.mp hrecord
      rw [ofModel_isSome_congr tt t 0]
      exact hfits pos tt hat
  have hrows := (Keyed.storeAll_eq_some.mp htable).2
  rw [← horder, List.filterMap_filterMap] at hrows
  simp only [hc.row_eq] at hrows
  rw [← hrows, mem_insertAll_filterMap]
  constructor
  · rintro ⟨pos, -, hrow, hfirst⟩
    obtain ⟨t, -, hrowAt⟩ := Option.bind_eq_some_iff.mp hrow
    obtain ⟨-, -, rfl, -⟩ := rowAt_eq_some hrowAt
    exact ⟨pos, (dates_iff hrowAt).mpr ⟨hrow, hfirst⟩, hrowAt⟩
  · rintro ⟨pos, hdates, hrowAt⟩
    obtain ⟨tt, hat, -⟩ := rowAt_eq_some hrowAt
    refine ⟨pos, ?_, (dates_iff hrowAt).mp hdates⟩
    rw [horder, List.mem_reverse, hall]
    exact message_isSome_of_transferAt hat

end Untimed

/-- **Topic order matters, and how.**  Two calm runs over the same blocks and
transfers, each to its end, leave the same table of token transfers with every
transfer in it if and only if the transfers fit their columns and both orders
date them alike. -/
theorem same_table_iff_datedAlike (D : Deployment) (hc : Untimed D) (cs₁ cs₂ : List Choice)
    (hcalm : ∀ c ∈ cs₁ ++ cs₂, c.Calm)
    (hend₁ : (main D (World.initial .empty fun _ => none) cs₁).outcome ≠ .cut)
    (hend₂ : (main D (World.initial .empty fun _ => none) cs₂).outcome ≠ .cut)
    (hall₁ : ∀ pos, pos ∈ (main D (World.initial .empty fun _ => none) cs₁).state.polled ↔
      (D.message pos).isSome)
    (hall₂ : ∀ pos, pos ∈ (main D (World.initial .empty fun _ => none) cs₂).state.polled ↔
      (D.message pos).isSome) :
    let w₁ := (main D (World.initial .empty fun _ => none) cs₁).state
    let w₂ := (main D (World.initial .empty fun _ => none) cs₂).state
    ((∀ r, r ∈ w₁.db.tokenTransfers.rows ↔ r ∈ w₂.db.tokenTransfers.rows) ∧
      ∀ pos, (transferAt D pos).isSome → HasTransferAt D w₁ pos) ↔
    Fits D ∧ DatedAlike D w₁.polled.reverse w₂.polled.reverse := by
  intro w₁ w₂
  obtain ⟨hin₁, harr₁, hstored₁⟩ :=
    hc.calm_run (fun c h => hcalm c (List.mem_append_left _ h)) hend₁
  obtain ⟨hin₂, harr₂, hstored₂⟩ :=
    hc.calm_run (fun c h => hcalm c (List.mem_append_right _ h)) hend₂
  have hrows₁ := fun hfits => hc.mem_rows_iff hfits hin₁ harr₁ hstored₁ rfl hall₁
  have hrows₂ := fun hfits => hc.mem_rows_iff hfits hin₂ harr₂ hstored₂ rfl hall₂
  constructor
  · rintro ⟨hsame, hcontains⟩
    have hfits : Fits D := by
      intro pos tt hat
      obtain ⟨t, r, hrow, -⟩ := hcontains pos (by rw [hat]; rfl)
      rw [ofModel_isSome_congr tt 0 t]
      rw [rowAt, hat, Option.bind_some] at hrow
      rw [hrow]
      rfl
    refine ⟨hfits, fun pos hat => ?_, fun pos t hdates => ?_, fun pos t hdates => ?_⟩
    · obtain ⟨t, r, hrow, hmem⟩ := hcontains pos hat
      obtain ⟨-, -, rfl, -⟩ := rowAt_eq_some hrow
      obtain ⟨p, hdates, hp⟩ := (hrows₁ hfits r).mp hmem
      exact ⟨p, r.timestamp, hdates, hp.trans hrow.symm⟩
    · obtain ⟨r, hrow⟩ := hfits.exists_rowAt (isSome_of_foundTime hdates.1) t
      obtain ⟨-, -, rfl, -⟩ := rowAt_eq_some hrow
      obtain ⟨p, hdates', hp⟩ :=
        (hrows₂ hfits r).mp ((hsame r).mp ((hrows₁ hfits r).mpr ⟨pos, hdates, hrow⟩))
      exact ⟨p, hdates', hp.trans hrow.symm⟩
    · obtain ⟨r, hrow⟩ := hfits.exists_rowAt (isSome_of_foundTime hdates.1) t
      obtain ⟨-, -, rfl, -⟩ := rowAt_eq_some hrow
      obtain ⟨p, hdates', hp⟩ :=
        (hrows₁ hfits r).mp ((hsame r).mpr ((hrows₂ hfits r).mpr ⟨pos, hdates, hrow⟩))
      exact ⟨p, hdates', hp.trans hrow.symm⟩
  · rintro ⟨hfits, hall, hleft, hright⟩
    refine ⟨fun r => ?_, fun pos hat => ?_⟩
    · rw [hrows₁ hfits, hrows₂ hfits]
      constructor
      · rintro ⟨pos, hdates, hrow⟩
        obtain ⟨p, hdates', hp⟩ := hleft pos _ hdates
        exact ⟨p, hdates', hp.trans hrow⟩
      · rintro ⟨pos, hdates, hrow⟩
        obtain ⟨p, hdates', hp⟩ := hright pos _ hdates
        exact ⟨p, hdates', hp.trans hrow⟩
    · obtain ⟨p, t, hdates, hp⟩ := hall pos hat
      obtain ⟨r, hrow⟩ := hfits.exists_rowAt hat t
      obtain ⟨-, -, rfl, -⟩ := rowAt_eq_some hrow
      exact ⟨r.timestamp, r, hrow, (hrows₁ hfits r).mpr ⟨p, hdates, hp.trans hrow⟩⟩

/-! ### One chain -/

section OneChain

variable (D : Deployment)

/-- The messages are those of one chain: a block number has one timestamp, and no
two transfers have one hash and log index. -/
structure OneChain : Prop where
  oneTime : ∀ p q b c, blockAt D p = some b → blockAt D q = some c → b.number = c.number →
    b.timestamp = c.timestamp
  oneTransfer : ∀ p q tt uu h, transferAt D p = some tt → transferAt D q = some uu →
    varchar 66 tt.transactionHash = some h → varchar 66 uu.transactionHash = some h →
      tt.logIndex = uu.logIndex → p = q

/-- The block of every transfer comes before it. -/
def BlocksFirst (order : List Position) : Prop :=
  ∀ pos, (transferAt D pos).isSome → (foundTime D order pos).isSome

variable {D} {order order' : List Position}

theorem OneChain.eq_of_key_eq (h : OneChain D) {p q : Position} {t : Timestamp}
    {r r' : TokenTransferRow} (hp : rowAt D p t = some r) (hq : rowAt D q t = some r')
    (hkey : r.key = r'.key) : p = q := by
  obtain ⟨tt, hat, -, hhash, hindex⟩ := rowAt_eq_some hp
  obtain ⟨uu, hau, -, hhash', hindex'⟩ := rowAt_eq_some hq
  have hh : r.transactionHash = r'.transactionHash := congrArg Prod.fst hkey
  have hi : r.logIndex = r'.logIndex := congrArg (fun k => k.2.1) hkey
  exact h.oneTransfer p q tt uu r.transactionHash hat hau hhash (hh ▸ hhash')
    (hindex.symm.trans (hi.trans hindex'))

theorem OneChain.dates_iff_foundTime (h : OneChain D) (hfits : Fits D) {pos : Position}
    {t : Timestamp} : Dates D order pos t ↔ foundTime D order pos = some t := by
  refine ⟨And.left, fun hfound => ⟨hfound, fun q _ hq hkey => ?_⟩⟩
  obtain ⟨r, hr⟩ := hfits.exists_rowAt (isSome_of_foundTime hfound) t
  obtain ⟨r', hr'⟩ := hfits.exists_rowAt (isSome_of_foundTime hq) t
  rw [hr, hr', Option.map_some, Option.map_some] at hkey
  obtain rfl := h.eq_of_key_eq hr' hr (Option.some.inj hkey)
  rfl

theorem OneChain.foundTime_congr (h : OneChain D) {pos : Position} {t t' : Timestamp}
    (ht : foundTime D order pos = some t) (ht' : foundTime D order' pos = some t') : t = t' := by
  obtain ⟨tt, hat, hfirst⟩ := Option.bind_eq_some_iff.mp ht
  obtain ⟨uu, hau, hsecond⟩ := Option.bind_eq_some_iff.mp ht'
  obtain rfl := Option.some.inj (hat.symm.trans hau)
  obtain ⟨p, -, b, hb, hn, rfl⟩ := blockTime_eq_some hfirst
  obtain ⟨q, -, c, hc, hn', rfl⟩ := blockTime_eq_some hsecond
  exact h.oneTime p q b c hb hc (hn.trans hn'.symm)

/-- **On one chain**, both orders date the transfers alike if and only if both
have the block of every transfer before it. -/
theorem OneChain.datedAlike_iff_blocksFirst (h : OneChain D) (hfits : Fits D) :
    DatedAlike D order order' ↔ BlocksFirst D order ∧ BlocksFirst D order' := by
  have hcopy : ∀ {pos p t}, (transferAt D pos).isSome → rowAt D p t = rowAt D pos t →
      p = pos := by
    intro pos p t hat hsame
    obtain ⟨r, hr⟩ := hfits.exists_rowAt hat t
    exact h.eq_of_key_eq (hsame.trans hr) hr rfl
  constructor
  · rintro ⟨hall, hleft, -⟩
    have hdated : ∀ pos, (transferAt D pos).isSome → ∃ t, Dates D order pos t := by
      intro pos hat
      obtain ⟨p, t, hdates, hsame⟩ := hall pos hat
      exact ⟨t, hcopy hat hsame ▸ hdates⟩
    refine ⟨fun pos hat => ?_, fun pos hat => ?_⟩
    · obtain ⟨t, hdates⟩ := hdated pos hat
      rw [hdates.1]
      rfl
    · obtain ⟨t, hdates⟩ := hdated pos hat
      obtain ⟨p, hdates', hsame⟩ := hleft pos t hdates
      obtain rfl := hcopy hat hsame
      rw [hdates'.1]
      rfl
  · rintro ⟨hfirst, hfirst'⟩
    have hboth : ∀ {order order'}, BlocksFirst D order' → DatedIn D order order' := by
      intro order order' hfirst' pos t hdates
      obtain ⟨t', ht'⟩ :=
        Option.isSome_iff_exists.mp (hfirst' pos (isSome_of_foundTime hdates.1))
      obtain rfl := h.foundTime_congr hdates.1 ht'
      exact ⟨pos, (h.dates_iff_foundTime hfits).mpr ht', rfl⟩
    refine ⟨fun pos hat => ?_, hboth hfirst', hboth hfirst⟩
    obtain ⟨t, ht⟩ := Option.isSome_iff_exists.mp (hfirst pos hat)
    exact ⟨pos, t, (h.dates_iff_foundTime hfits).mpr ht, rfl⟩

end OneChain

/-- A block and a transfer of it. -/
def blockAndTransfer : Deployment where
  log
    | .blocks, 0 => [.json (.obj [("number", .int 7), ("timestamp", .int 1700000000)])]
    | .tokenTransfers, 0 =>
      [.json (.obj [("transaction_hash", .str "0xa1"), ("log_index", .int 0),
        ("block_number", .int 7), ("token_address", .str "0xc1"), ("from_address", .str "0xb1"),
        ("to_address", .str "0xb2"), ("value", .int 5)])]
    | _, _ => []
  pydantic := .plain

/-- The transfer of `blockAndTransfer`. -/
def theTransfer : TokenTransferModel where
  transactionHash := "0xa1"
  logIndex := 0
  timestamp := none
  blockNumber := 7
  tokenAddress := "0xc1"
  fromAddress := "0xb1"
  toAddress := "0xb2"
  value := 5

def blockThenTransfer : List Choice :=
  [.well, .well, .well, .well, .next .blocks, .well, .well, .next .tokenTransfers, .well, .well,
    .stop] ++ List.replicate 9 .well

/-- The eleven lookups and the ten pauses between them come before the block. -/
def transferThenBlock : List Choice :=
  [.well, .well, .well, .well, .next .tokenTransfers, .well] ++ List.replicate 21 .well ++
    [.well, .next .blocks, .well, .stop] ++ List.replicate 9 .well

theorem message_blockAndTransfer {pos : Position} (h : (blockAndTransfer.message pos).isSome) :
    pos = ⟨.blocks, 0, 0⟩ ∨ pos = ⟨.tokenTransfers, 0, 0⟩ := by
  obtain ⟨topic, partition, offset⟩ := pos
  cases topic <;> cases partition <;> cases offset <;>
    simp_all [Deployment.message, blockAndTransfer]

theorem transferAt_blockAndTransfer {pos : Position} {tt : TokenTransferModel}
    (h : transferAt blockAndTransfer pos = some tt) :
    pos = ⟨.tokenTransfers, 0, 0⟩ ∧ tt = theTransfer := by
  rcases message_blockAndTransfer (message_isSome_of_transferAt h) with rfl | rfl
  · simp [transferAt] at h
  · have hat : transferAt blockAndTransfer ⟨.tokenTransfers, 0, 0⟩ = some theTransfer := by
      decide +kernel
    exact ⟨rfl, Option.some.inj (h.symm.trans hat)⟩

theorem untimed_blockAndTransfer : Untimed blockAndTransfer where
  noTransactions := fun p => by cases p <;> rfl
  undated := fun pos tt h => by rw [(transferAt_blockAndTransfer h).2]; rfl

theorem oneChain_blockAndTransfer : OneChain blockAndTransfer where
  oneTime := by
    have hpos : ∀ p b, blockAt blockAndTransfer p = some b → p = ⟨.blocks, 0, 0⟩ := by
      intro p b hb
      have hsome : (blockAndTransfer.message p).isSome := by
        cases hm : blockAndTransfer.message p with
        | none => simp [blockAt, hm] at hb
        | some raw => rfl
      rcases message_blockAndTransfer hsome with rfl | rfl
      · rfl
      · rw [blockAt_eq_none (by decide)] at hb
        simp at hb
    intro p q b c hb hc _
    obtain rfl := hpos p b hb
    obtain rfl := hpos q c hc
    rw [Option.some.inj (hb.symm.trans hc)]
  oneTransfer := fun p q tt uu h hp hq _ _ _ =>
    (transferAt_blockAndTransfer hp).1.trans (transferAt_blockAndTransfer hq).1.symm

theorem calm_blockAndTransfer : ∀ c ∈ blockThenTransfer ++ transferThenBlock, c.Calm := by
  have hwell : Choice.well.Calm := ⟨rfl, rfl, fun n h => by simp [Choice.well] at h⟩
  have hstop : Choice.stop.Calm := ⟨rfl, rfl, fun n h => by simp [Choice.stop] at h⟩
  have hnext : ∀ topic, (Choice.next topic).Calm := fun topic =>
    ⟨rfl, rfl, fun n h => by simp [Choice.next] at h⟩
  simp [blockThenTransfer, transferThenBlock, or_imp, forall_and, hwell, hstop, hnext]

/-- The block first, twice: the transfer is in the table. -/
theorem block_before_transfer_kept :
    HasTransferAt blockAndTransfer (main blockAndTransfer (World.initial .empty fun _ => none)
      blockThenTransfer).state ⟨.tokenTransfers, 0, 0⟩ := by
  have hpolled : (main blockAndTransfer (World.initial .empty fun _ => none)
      blockThenTransfer).state.polled = [⟨.tokenTransfers, 0, 0⟩, ⟨.blocks, 0, 0⟩] := by
    decide +kernel
  have hall : ∀ pos, pos ∈ (main blockAndTransfer (World.initial .empty fun _ => none)
      blockThenTransfer).state.polled ↔ (blockAndTransfer.message pos).isSome := by
    intro pos
    rw [hpolled]
    constructor
    · intro hmem
      rcases List.mem_cons.mp hmem with rfl | hmem
      · rfl
      · rw [List.mem_singleton.mp hmem]
        rfl
    · intro hsome
      rcases message_blockAndTransfer hsome with rfl | rfl <;> simp
  have hat : transferAt blockAndTransfer ⟨.tokenTransfers, 0, 0⟩ = some theTransfer := by
    decide +kernel
  have hfirst : BlocksFirst blockAndTransfer [⟨.blocks, 0, 0⟩, ⟨.tokenTransfers, 0, 0⟩] := by
    intro pos hsome
    obtain ⟨tt, htt⟩ := Option.isSome_iff_exists.mp hsome
    obtain ⟨rfl, rfl⟩ := transferAt_blockAndTransfer htt
    decide +kernel
  have hfits : Fits blockAndTransfer := by
    intro pos tt htt
    rw [(transferAt_blockAndTransfer htt).2]
    decide +kernel
  have hcalm : ∀ c ∈ blockThenTransfer ++ blockThenTransfer, c.Calm := by
    intro c hc
    exact calm_blockAndTransfer c (by grind)
  have hboth := (same_table_iff_datedAlike blockAndTransfer untimed_blockAndTransfer
    blockThenTransfer blockThenTransfer hcalm (by decide +kernel) (by decide +kernel) hall
    hall).mpr
  rw [hpolled] at hboth
  have hdated := (oneChain_blockAndTransfer.datedAlike_iff_blocksFirst hfits).mpr ⟨hfirst, hfirst⟩
  exact (hboth ⟨hfits, hdated⟩).2 _ (by rw [hat]; rfl)

/-- **The transfer polled before its block is skipped**: the two orders of one
block and one transfer leave different tables. -/
theorem transfer_before_block_skipped :
    let w₁ := (main blockAndTransfer (World.initial .empty fun _ => none) blockThenTransfer).state
    let w₂ := (main blockAndTransfer (World.initial .empty fun _ => none) transferThenBlock).state
    (∀ c ∈ blockThenTransfer ++ transferThenBlock, c.Calm) ∧
      w₁.polled.reverse = [⟨.blocks, 0, 0⟩, ⟨.tokenTransfers, 0, 0⟩] ∧
      w₂.polled.reverse = [⟨.tokenTransfers, 0, 0⟩, ⟨.blocks, 0, 0⟩] ∧
      w₁.db.tokenTransfers.rows.length = 1 ∧ w₂.db.tokenTransfers.rows = [] :=
  ⟨calm_blockAndTransfer, by decide +kernel⟩

end Consumer

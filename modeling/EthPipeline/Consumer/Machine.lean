import EthPipeline.Consumer.Main
import Mathlib.Logic.Relation

/-!
# What a step of the consumer can do

The moves of the consumer, as a relation on worlds with the message *in hand*:
the one polled last, while the loop has neither dealt with it nor dropped it.
Each constructor of `Step` is one change a run can make to what the results speak
of (offsets, tables, buffers, alerts, history), with what the code has made sure
of at that point; `Refinement.lean` proves that the program makes no other.

A commit with a message still in hand is possible: when a Redis call raised, the
message is lost to the loop, and `finally` may flush.  `redisErrors` then has the
number of records that were buffered.
-/

namespace Consumer

open Relation

/-! ### Accepted messages -/

def AcceptsBlock (D : Deployment) (raw : RawValue) (b : BlockModel) : Prop :=
  ∃ data, raw = .json data ∧ construct (BlockModel.validate D.pydantic) data = .ok b

def AcceptsTransaction (D : Deployment) (raw : RawValue) (now : Timestamp) (tx : TransactionModel) :
    Prop :=
  ∃ data, raw = .json data ∧ construct (TransactionModel.validate D.pydantic now) data = .ok tx

def AcceptsTokenTransfer (D : Deployment) (raw : RawValue) (now : Timestamp)
    (tt : TokenTransferModel) : Prop :=
  ∃ data, raw = .json data ∧ construct (TokenTransferModel.validate D.pydantic now) data = .ok tt

/-- The model of the message's topic refuses its payload. -/
def Rejects (D : Deployment) (topic : Topic) (raw : RawValue) : Prop :=
  match topic with
  | .blocks => ∀ b, ¬AcceptsBlock D raw b
  | .transactions => ∀ now tx, ¬AcceptsTransaction D raw now tx
  | .tokenTransfers => ∀ now tt, ¬AcceptsTokenTransfer D raw now tt

/-- Hash and value are the payload's, whatever the clock. -/
theorem AcceptsTransaction.congr {D : Deployment} {raw : RawValue} {now now' : Timestamp}
    {tx tx' : TransactionModel} (h : AcceptsTransaction D raw now tx)
    (h' : AcceptsTransaction D raw now' tx') : tx'.hash = tx.hash ∧ tx'.value = tx.value := by
  obtain ⟨data, rfl, hc⟩ := h
  obtain ⟨data', he, hc'⟩ := h'
  cases he
  obtain ⟨fields, rfl, hv⟩ := construct_eq_ok.mp hc
  obtain ⟨fields', he, hv'⟩ := construct_eq_ok.mp hc'
  cases he
  obtain ⟨v, -, -, hv''⟩ := TransactionModel.validate_eq_some hv now'
  obtain rfl := Option.some.inj (hv''.symm.trans hv')
  exact ⟨rfl, rfl⟩

theorem AcceptsTokenTransfer.congr {D : Deployment} {raw : RawValue} {now now' : Timestamp}
    {tt tt' : TokenTransferModel} (h : AcceptsTokenTransfer D raw now tt)
    (h' : AcceptsTokenTransfer D raw now' tt') : { tt' with timestamp := tt.timestamp } = tt := by
  obtain ⟨data, rfl, hc⟩ := h
  obtain ⟨data', he, hc'⟩ := h'
  cases he
  obtain ⟨fields, rfl, hv⟩ := construct_eq_ok.mp hc
  obtain ⟨fields', he, hv'⟩ := construct_eq_ok.mp hc'
  cases he
  obtain ⟨-, hv''⟩ := TokenTransferModel.validate_eq_some hv now'
  obtain rfl := Option.some.inj (hv''.symm.trans hv')
  rfl

/-! ### The conditions of a flush -/

/-- Both batches are in the tables: inserting them again changes nothing. -/
def Stored (w : World) : Prop :=
  w.db.insertTransactionsBatch w.txBatch = some w.db ∧
    w.db.insertTokenTransfersBatch w.tokenBatch = some w.db

/-- The broker has acknowledged an alert for every whale of the batch. -/
def Published (D : Deployment) (w : World) : Prop :=
  ∀ tx ∈ w.txBatch, D.whaleThresholdWei ≤ tx.value → ∃ a ∈ w.acked, a.hash = tx.hash

/-- A message still in hand at a flush was lost to a Redis error. -/
def LostInHand (w : World) (hand : Option Position) : Prop :=
  ∀ pos, hand = some pos → pos.topic ≠ .transactions ∧ ∃ n ∈ w.redisErrors, n ≠ 0

/-- Every Redis call that raised, raised while nothing was buffered. -/
def IdleRedisErrors (w : World) : Prop := ∀ n ∈ w.redisErrors, n = 0

instance (w : World) : Decidable (IdleRedisErrors w) :=
  inferInstanceAs (Decidable (∀ n ∈ w.redisErrors, n = 0))

/-- Every record of the batches fits its columns. -/
def Storable (w : World) : Prop :=
  (∀ tx ∈ w.txBatch, (TransactionRow.ofModel tx).isSome) ∧
    ∀ tt ∈ w.tokenBatch, (TokenTransferRow.ofModel tt).isSome

theorem IdleRedisErrors.hand_none {w : World} {hand : Option Position} (h : IdleRedisErrors w)
    (hl : LostInHand w hand) : hand = none := by
  cases hand with
  | none => rfl
  | some pos =>
    obtain ⟨-, n, hn, hne⟩ := hl pos rfl
    exact absurd (h n hn) hne

/-! ### Steps -/

/-- A step: the world and the message in hand, before and after.  In `calm`
Redis does not fail and forgets nothing. -/
inductive Step (D : Deployment) (calm : Prop) :
    World × Option Position → World × Option Position → Prop
  | quiet {w : World} {hand : Option Position} (running queue acked redis error conn leased)
      (ha : w.acked ⊆ acked) (hr : calm → redis = w.redis) :
      Step D calm (w, hand) ({ w with running, queue, acked, redis, error, conn, leased }, hand)
  | poll {w : World} {pos : Position} {raw : RawValue} (h : D.message pos = some raw)
      (hpos : pos.offset = w.position pos.topic pos.partition) :
      Step D calm (w, none) (w.take pos, some pos)
  | reject {w : World} {pos : Position} {raw : RawValue} (h : D.message pos = some raw)
      (hr : Rejects D pos.topic raw) : Step D calm (w, some pos) (w, none)
  | cache {w : World} {pos : Position} {raw : RawValue} {b : BlockModel}
      (h : D.message pos = some raw) (htopic : pos.topic = .blocks) (ha : AcceptsBlock D raw b) :
      Step D calm (w, some pos) ({ w with
        redis := Function.update w.redis b.number (some (isoformat b.timestamp))
        cached := (pos, b.number, isoformat b.timestamp) :: w.cached }, none)
  | appendTransaction {w : World} {pos : Position} {raw : RawValue} {now : Timestamp}
      {tx : TransactionModel} (h : D.message pos = some raw) (htopic : pos.topic = .transactions)
      (ha : AcceptsTransaction D raw now tx) :
      Step D calm (w, some pos) ({ w with txBatch := w.txBatch ++ [tx] }, none)
  | appendTokenTransfer {w : World} {pos : Position} {raw : RawValue} {now : Timestamp}
      {tt : TokenTransferModel} {t : Timestamp} (h : D.message pos = some raw)
      (htopic : pos.topic = .tokenTransfers) (ha : AcceptsTokenTransfer D raw now tt)
      (ht : tt.timestamp = some t ∨
        tt.timestamp = none ∧ (pos, tt.blockNumber, some (isoformat t)) ∈ w.lookups) :
      Step D calm (w, some pos)
        ({ w with tokenBatch := w.tokenBatch ++ [{ tt with timestamp := some t }] }, none)
  | skip {w : World} {pos : Position} {raw : RawValue} {now : Timestamp} {tt : TokenTransferModel}
      (h : D.message pos = some raw) (htopic : pos.topic = .tokenTransfers)
      (ha : AcceptsTokenTransfer D raw now tt) (ht : tt.timestamp = none)
      (hl : (pos, tt.blockNumber, none) ∈ w.lookups) :
      Step D calm (w, some pos) ({ w with skipped := pos :: w.skipped }, none)
  | lookup {w : World} {pos : Position} {raw : RawValue} {now : Timestamp} {tt : TokenTransferModel}
      (h : D.message pos = some raw) (htopic : pos.topic = .tokenTransfers)
      (ha : AcceptsTokenTransfer D raw now tt) (ht : tt.timestamp = none) :
      Step D calm (w, some pos)
        ({ w with lookups := (pos, tt.blockNumber, w.redis tt.blockNumber) :: w.lookups }, some pos)
  | redisError {w : World} {pos : Position} {raw : RawValue} (h : D.message pos = some raw)
      (hu : pos.topic = .blocks ∨ pos.topic = .tokenTransfers ∧ ∃ now tt,
        AcceptsTokenTransfer D raw now tt ∧ tt.timestamp = none) (hc : ¬calm) :
      Step D calm (w, some pos) ({ w with redisErrors := w.buffered :: w.redisErrors }, some pos)
  | store {w : World} {hand : Option Position} {T U : Tables}
      (hT : w.db.insertTransactionsBatch w.txBatch = some T)
      (hU : T.insertTokenTransfersBatch w.tokenBatch = some U) :
      Step D calm (w, hand) ({ w with db := U }, hand)
  | hand {w : World} {hand : Option Position} {tx : TransactionModel} {a : WhaleAlert}
      (hs : Stored w) (htx : tx ∈ w.txBatch) (ha : a.hash = tx.hash) :
      Step D calm (w, hand) ({ w with handed := (a, w.db) :: w.handed }, hand)
  | commit {w : World} {hand : Option Position} (hs : Stored w) (hp : Published D w)
      (hl : LostInHand w hand) : Step D calm (w, hand) ({ w with committed := w.position }, hand)
  | clear {w : World} {hand : Option Position} (hs : Stored w) (hp : Published D w)
      (hl : LostInHand w hand) :
      Step D calm (w, hand) ({ w with txBatch := [], tokenBatch := [] }, hand)

/-- What no step and no restart takes back. -/
structure Grows (w w' : World) : Prop where
  db : w.db.Le w'.db
  acked : w.acked ⊆ w'.acked
  cached : w.cached ⊆ w'.cached
  skipped : w.skipped ⊆ w'.skipped
  redisErrors : w.redisErrors ⊆ w'.redisErrors
  lookups : w.lookups ⊆ w'.lookups
  polled : w.polled <:+ w'.polled

theorem Grows.refl (w : World) : Grows w w :=
  ⟨.refl _, fun _ h => h, fun _ h => h, fun _ h => h, fun _ h => h, fun _ h => h, List.suffix_rfl⟩

theorem Grows.restart (w : World) : Grows w w.restart := { Grows.refl w with }

theorem Grows.take (w : World) (pos : Position) : Grows w (w.take pos) :=
  { Grows.refl w with polled := List.suffix_cons _ _ }

variable {D : Deployment} {calm : Prop} {w w' : World} {hand hand' : Option Position}

theorem Step.grows (h : Step D calm (w, hand) (w', hand')) : Grows w w' := by
  have hrefl := Grows.refl w
  cases h with
  | quiet _ _ acked _ _ _ _ ha => exact { hrefl with acked := ha }
  | poll => exact Grows.take w _
  | cache => exact { hrefl with cached := List.subset_cons_self _ _ }
  | skip => exact { hrefl with skipped := List.subset_cons_self _ _ }
  | lookup => exact { hrefl with lookups := List.subset_cons_self _ _ }
  | redisError => exact { hrefl with redisErrors := List.subset_cons_self _ _ }
  | store hT hU =>
    have hle := (Tables.le_insertTransactionsBatch hT).trans (Tables.le_insertTokenTransfersBatch hU)
    exact { hrefl with db := hle }
  | _ => exact { hrefl with }

/-- The batches only grow, until they are cleared. -/
theorem Step.batches (h : Step D calm (w, hand) (w', hand')) :
    (w.txBatch ⊆ w'.txBatch ∧ w.tokenBatch ⊆ w'.tokenBatch) ∨ (Stored w ∧ Published D w) := by
  cases h with
  | appendTransaction => exact .inl ⟨List.subset_append_left _ _, fun _ h => h⟩
  | appendTokenTransfer => exact .inl ⟨fun _ h => h, List.subset_append_left _ _⟩
  | clear hs hp => exact .inr ⟨hs, hp⟩
  | _ => exact .inl ⟨fun _ h => h, fun _ h => h⟩

/-- What a run of one process can lead to. -/
def Steps (D : Deployment) (calm : Prop) :
    World × Option Position → World × Option Position → Prop :=
  ReflTransGen (Step D calm)

/-- What a history can lead to: steps, and restarts. -/
inductive Reachable (D : Deployment) (w₀ : World) : World → Option Position → Prop
  | start : Reachable D w₀ w₀ none
  | step {w w' : World} {hand hand' : Option Position} (h : Reachable D w₀ w hand)
      (hs : Step D False (w, hand) (w', hand')) : Reachable D w₀ w' hand'
  | restart {w : World} {hand : Option Position} (h : Reachable D w₀ w hand) :
      Reachable D w₀ w.restart none

theorem Reachable.steps {D : Deployment} {w₀ w : World} {hand : Option Position}
    (h : Reachable D w₀ w hand) {a : World × Option Position} (hs : Steps D False (w, hand) a) :
    Reachable D w₀ a.1 a.2 := by
  induction hs with
  | refl => exact h
  | tail _ hstep ih => exact .step ih hstep

/-- **Invariants of a history**: true at the start, kept by every step and by a
restart. -/
theorem Reachable.invariant {D : Deployment} {w₀ : World} {P : World → Option Position → Prop}
    (hstart : P w₀ none)
    (hstep : ∀ w hand w' hand', Step D False (w, hand) (w', hand') → P w hand → P w' hand')
    (hrestart : ∀ w hand, P w hand → P w.restart none) {w : World} {hand : Option Position}
    (h : Reachable D w₀ w hand) : P w hand := by
  induction h with
  | start => exact hstart
  | step _ hs ih => exact hstep _ _ _ _ hs ih
  | restart _ ih => exact hrestart _ _ ih

/-- An invariant of the steps of one process. -/
theorem Steps.invariant {D : Deployment} {calm : Prop} {P : World → Option Position → Prop}
    (hstep : ∀ w hand w' hand', Step D calm (w, hand) (w', hand') → P w hand → P w' hand')
    {a b : World × Option Position} (h : Steps D calm a b) (ha : P a.1 a.2) : P b.1 b.2 := by
  induction h with
  | refl => exact ha
  | tail _ hs ih => exact hstep _ _ _ _ hs ih

end Consumer

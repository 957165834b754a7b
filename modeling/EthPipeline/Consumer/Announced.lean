import EthPipeline.Base.Resume
import EthPipeline.Consumer.AtLeastOnce

/-!
# Announced whales are stored, and stay so

Every instant of every history, and every later one.  A process that is cut after some
calls, and the same process after more of them, are compared by `Exec.Resumes`.

* `Ongoing`: what a program leaves, wherever it is cut; one rule for each call.
* `announced_stored`: an alert that was handed to the producer is that of a whale in the
  transactions topic, its row was committed before, and nothing is taken back later.
-/

namespace Consumer

open Exec

/-- A message of the transactions topic describes the transaction. -/
def Described (D : Deployment) (tx : TransactionModel) : Prop :=
  ∃ pos raw now, pos.topic = .transactions ∧ D.message pos = some raw ∧
    AcceptsTransaction D raw now tx

/-- The alert of a whale of the transactions topic. -/
def Announces (D : Deployment) (a : WhaleAlert) : Prop :=
  ∃ tx, Described D tx ∧ D.whaleThresholdWei ≤ tx.value ∧ buildWhaleAlertPayload tx = .ok a

/-! ### What the results speak of -/

structure Ledger where
  txBatch : List TransactionModel
  db : Tables
  conn : Option Tables
  handed : List (WhaleAlert × Tables)
  acked : List WhaleAlert
  committed : Topic → ℕ → ℕ
  position : Topic → ℕ → ℕ

def World.ledger (w : World) : Ledger :=
  ⟨w.txBatch, w.db, w.conn, w.handed, w.acked, w.committed, w.position⟩

structure Ledger.Genuine (D : Deployment) (l : Ledger) : Prop where
  batch : ∀ tx ∈ l.txBatch, Described D tx
  handed : ∀ p ∈ l.handed, Announces D p.1 ∧ p.2.Le l.db
  conn : ∀ T ∈ l.conn, l.db.Le T
  offsets : ∀ t p, l.committed t p ≤ l.position t p

/-- Nothing is taken back: no row, no alert, no acknowledgement, no committed offset. -/
structure Ledger.Onward (l l' : Ledger) : Prop where
  db : l.db.Le l'.db
  handed : l.handed <:+ l'.handed
  acked : l.acked ⊆ l'.acked
  committed : ∀ t p, l.committed t p ≤ l'.committed t p

theorem Ledger.Onward.refl (l : Ledger) : l.Onward l :=
  ⟨.refl _, List.suffix_rfl, fun _ h => h, fun _ _ => Nat.le_refl _⟩

theorem Ledger.Onward.trans {l l' l'' : Ledger} (h : l.Onward l') (g : l'.Onward l'') :
    l.Onward l'' :=
  ⟨h.db.trans g.db, h.handed.trans g.handed, fun _ ha => g.acked (h.acked ha),
    fun t p => (h.committed t p).trans (g.committed t p)⟩

def World.Genuine (D : Deployment) (w : World) : Prop := w.ledger.Genuine D

def World.Onward (w w' : World) : Prop := w.ledger.Onward w'.ledger

instance : IsPreorder World World.Onward where
  refl w := Ledger.Onward.refl w.ledger
  trans _ _ _ h g := h.trans g

/-- From a genuine world a program goes on to genuine ones, and takes nothing back. -/
abbrev Ongoing {α : Type} (D : Deployment) (c : Prog α) (Q : α → Prop) : Prop :=
  Resumes (World.Genuine D) World.Onward c Q

variable {D : Deployment} {w : World} {α : Type} {Q : α → Prop}

theorem ledger_after (w : World) (bs : List Background) :
    ∃ acked, w.acked ⊆ acked ∧ (w.after bs).ledger = { w.ledger with acked } := by
  obtain ⟨running, queue, acked, redis, hafter, hacked, -⟩ := World.later_after w bs
  exact ⟨acked, hacked, by rw [hafter]; rfl⟩

theorem genuine_after (h : w.Genuine D) (bs : List Background) : (w.after bs).Genuine D := by
  obtain ⟨acked, -, hledger⟩ := ledger_after w bs
  rw [World.Genuine, hledger]
  exact { h with }

theorem onward_after (w : World) (bs : List Background) : w.Onward (w.after bs) := by
  obtain ⟨acked, hacked, hledger⟩ := ledger_after w bs
  rw [World.Onward, hledger]
  exact { Ledger.Onward.refl w.ledger with acked := hacked }

/-! ### One call -/

namespace Ongoing

theorem service {f : Choice → World → Except Exc α × World}
    (hstep : ∀ c w, w.Genuine D → (f c w).2.Genuine D ∧ w.Onward (f c w).2)
    (hvalue : ∀ c w a, (f c w).1 = .ok a → Q a) : Ongoing D (Consumer.service f) Q := by
  refine Resumes.call ?_ ?_ ?_
  · intro c w hw
    exact (hstep c _ (genuine_after hw c.background)).1
  · intro c w hw
    have hafter := onward_after w c.background
    exact trans_of World.Onward hafter (hstep c _ (genuine_after hw c.background)).2
  · exact fun c w a _ h => hvalue c _ a h

/-- A call that leaves alone what the results speak of. -/
theorem quiet {f : Choice → World → Except Exc α × World}
    (h : ∀ c w, (f c w).2.ledger = w.ledger) : Ongoing D (Consumer.service f) fun _ => True := by
  refine service (fun c w hw => ?_) fun _ _ _ _ => trivial
  rw [World.Genuine, World.Onward, h c w]
  exact ⟨hw, .refl _⟩

theorem same {g : World → World} (h : ∀ w, (g w).ledger = w.ledger) :
    Ongoing D (Exec.modifyState g : Prog Unit) fun _ => True := by
  refine Resumes.modifyState (fun w hw => ?_) fun w _ => ?_
  · rw [World.Genuine, h w]
    exact hw
  · rw [World.Onward, h w]
    exact .refl _

theorem guarded {body : Prog α} {handler : Exc → Prog α} (hbody : Ongoing D body Q)
    (hhandler : ∀ e, Ongoing D (handler e) Q) : Ongoing D (exceptException body handler) Q := by
  refine Resumes.tryCatch hbody fun e => ?_
  split
  · exact hhandler e
  · exact Resumes.raise e

theorem when {p : Prop} [Decidable p] {body : Prog Unit} (h : p → Ongoing D body fun _ => True) :
    Ongoing D (Exec.when p body) fun _ => True := by
  unfold Exec.when
  split
  · exact h ‹_›
  · exact Resumes.pure trivial

theorem probe (on : Service) (error : Exc) : Ongoing D (Call.probe on error) fun _ => True := by
  refine quiet fun c w => ?_
  split
  · rfl
  · rfl

theorem getBlockTimestamp (blockNumber : ℤ) :
    Ongoing D (Call.getBlockTimestamp blockNumber) fun _ => True := by
  refine quiet fun c w => ?_
  split
  · rfl
  · rfl

theorem cacheBlockTimestamp (blockNumber : ℤ) (timestamp : IsoText) :
    Ongoing D (Call.cacheBlockTimestamp blockNumber timestamp) fun _ => True := by
  refine quiet fun c w => ?_
  dsimp only
  split
  · rfl
  · rfl
  · rfl

/-- What is polled is in the log, below the position. -/
theorem poll : Ongoing D (Call.poll D) fun polled => ∀ data, polled.2 = some data →
    ∃ pos, polled.1 = some pos.topic ∧ D.message pos = some (.json data) := by
  refine service (fun c w hw => ?_) fun c w polled h data hdata => ?_
  · split
    · exact ⟨hw, .refl _⟩
    · exact ⟨hw, .refl _⟩
    · exact ⟨hw, .refl _⟩
    · split
      · exact ⟨hw, .refl _⟩
      · refine ⟨{ hw with offsets := fun t p => ?_ }, { Ledger.Onward.refl w.ledger with }⟩
        have hle := hw.offsets t p
        show w.committed t p ≤ if _ then _ else _
        split
        · next heq =>
          obtain ⟨rfl, rfl⟩ := heq
          exact Nat.le_succ_of_le hle
        · exact hle
  · split at h
    · obtain rfl := Except.ok.inj h
      cases hdata
    · obtain rfl := Except.ok.inj h
      cases hdata
    · cases h
    · next topic partition _ =>
      split at h
      · obtain rfl := Except.ok.inj h
        cases hdata
      · next raw hraw =>
        obtain rfl := Except.ok.inj h
        refine ⟨⟨topic, partition, w.position topic partition⟩, ?_⟩
        rw [hraw]
        cases raw with
        | tombstone => cases hdata
        | undecodable => cases hdata
        | json value =>
          cases value with
          | null => cases hdata
          | _ =>
            obtain rfl := Option.some.inj hdata
            exact ⟨rfl, rfl⟩

theorem commitOffsets : Ongoing D Call.commitOffsets fun _ => True := by
  have hcommit : ∀ w : World, w.Genuine D →
      World.Genuine D { w with committed := w.position } ∧
        w.Onward { w with committed := w.position } := by
    intro w hw
    have hgenuine : World.Genuine D { w with committed := w.position } :=
      { hw with offsets := fun _ _ => Nat.le_refl _ }
    exact ⟨hgenuine, { Ledger.Onward.refl w.ledger with committed := hw.offsets }⟩
  refine service (fun c w hw => ?_) fun _ _ _ _ => trivial
  split
  · exact hcommit w hw
  · exact ⟨hw, .refl _⟩
  · exact hcommit w hw
  · exact ⟨hw, .refl _⟩

/-! ### The connection -/

/-- A call that leaves another transaction open, or none. -/
theorem connect (hw : w.Genuine D) {conn : Option Tables} {leased : ℕ}
    (hconn : ∀ T ∈ conn, w.db.Le T) :
    World.Genuine D { w with conn, leased } ∧ w.Onward { w with conn, leased } :=
  ⟨{ hw with conn := hconn }, { Ledger.Onward.refl w.ledger with }⟩

theorem getConnection : Ongoing D Call.getConnection fun _ => True := by
  refine service (fun c w hw => ?_) fun _ _ _ _ => trivial
  split
  · refine connect hw fun T hT => ?_
    obtain rfl := Option.some.inj hT
    exact .refl _
  · exact ⟨hw, .refl _⟩

theorem releaseConnection : Ongoing D Call.releaseConnection fun _ => True :=
  service (fun _ _ hw => connect hw fun _ hT => by cases hT) fun _ _ _ _ => trivial

theorem execute {statement : Tables → Option Tables}
    (hstatement : ∀ T U, statement T = some U → T.Le U) :
    Ongoing D (Call.execute statement) fun _ => True := by
  refine service (fun c w hw => ?_) fun _ _ _ _ => trivial
  split
  · next T _ hT =>
    refine connect hw fun U hU => ?_
    obtain rfl := Option.some.inj hU
    obtain ⟨T₀, hT₀, hstep⟩ := Option.bind_eq_some_iff.mp hT
    exact (hw.conn T₀ hT₀).trans (hstatement T₀ T hstep)
  · exact ⟨hw, .refl _⟩

theorem rollback : Ongoing D Call.rollback fun _ => True := by
  refine service (fun c w hw => ?_) fun _ _ _ _ => trivial
  split
  · refine connect hw fun T hT => ?_
    obtain ⟨-, -, rfl⟩ := Option.map_eq_some_iff.mp hT
    exact .refl _
  · exact ⟨hw, .refl _⟩

theorem commitTransaction : Ongoing D Call.commitTransaction fun _ => True := by
  have hcommit : ∀ w : World, w.Genuine D →
      World.Genuine D { w with db := w.conn.getD w.db } ∧
        w.Onward { w with db := w.conn.getD w.db } := by
    intro w hw
    have hle : w.db.Le (w.conn.getD w.db) := by
      cases hconn : w.conn with
      | none => exact .refl _
      | some T => exact hw.conn T hconn
    have hhanded : ∀ p ∈ w.handed, Announces D p.1 ∧ p.2.Le (w.conn.getD w.db) :=
      fun p hp => ⟨(hw.handed p hp).1, (hw.handed p hp).2.trans hle⟩
    refine ⟨{ hw with handed := hhanded, conn := fun T hT => ?_ },
      { Ledger.Onward.refl w.ledger with db := hle }⟩
    have hT : w.conn = some T := hT
    show (w.conn.getD w.db).Le T
    rw [hT]
    exact .refl _
  refine service (fun c w hw => ?_) fun _ _ _ _ => trivial
  split
  · exact hcommit w hw
  · exact hcommit w hw
  · exact ⟨hw, .refl _⟩

/-! ### The producer -/

theorem produce {alert : WhaleAlert} (ha : Announces D alert) :
    Ongoing D (Call.produce alert) fun _ => True := by
  have hhanded : ∀ (w : World) (queue : List InFlight), w.Genuine D →
      World.Genuine D { w with handed := (alert, w.db) :: w.handed, queue } ∧
        w.Onward { w with handed := (alert, w.db) :: w.handed, queue } := by
    intro w queue hw
    refine ⟨{ hw with handed := fun p hp => ?_ },
      { Ledger.Onward.refl w.ledger with handed := List.suffix_cons _ _ }⟩
    rcases List.mem_cons.mp hp with rfl | hp
    · exact ⟨ha, .refl _⟩
    · exact hw.handed p hp
  refine service (fun c w hw => ?_) fun _ _ _ _ => trivial
  split
  · exact hhanded w _ hw
  · exact hhanded w _ hw
  · exact hhanded w w.queue hw

end Ongoing

/-! ### The program -/

section Program

open Resumes Ongoing

variable (D : Deployment)

theorem ongoing_producerFlush : Ongoing D producerFlush fun _ => True := by
  refine bind (quiet fun c w => rfl) fun remaining _ => ?_
  split
  · exact raise _
  · refine bind getState fun w _ => ?_
    cases w.error with
    | some err => exact bind (same fun _ => rfl) fun _ _ => raise _
    | none => exact pure trivial

theorem ongoing_publishWhaleAlerts {txs : List TransactionModel} (htxs : ∀ tx ∈ txs, Described D tx) :
    Ongoing D (publishWhaleAlerts D txs) fun _ => True := by
  have hsend : ∀ tx ∈ whaleTransactions D txs, Ongoing D (do
      let alert ← ofExcept (buildWhaleAlertPayload tx)
      sendMessage alert) fun _ => True := by
    intro tx htx
    obtain ⟨hmem, hwhale⟩ := mem_whaleTransactions.mp htx
    have hpayload : Ongoing D (ofExcept (buildWhaleAlertPayload tx)) (Announces D) :=
      ofExcept fun alert ha => ⟨tx, htxs tx hmem, hwhale, ha⟩
    exact bind hpayload fun alert ha => bind (produce ha) fun _ _ => quiet fun _ _ => rfl
  refine bind (forEach _ hsend) fun _ _ => ?_
  exact bind (when fun _ => ongoing_producerFlush D) fun _ _ => pure trivial

theorem ongoing_flushBatches : Ongoing D (flushBatches D) fun _ => True := by
  have hbody : Ongoing D (flushBody D) fun _ => True := by
    refine bind (probe _ _) fun _ _ => bind getState fun w hw => ?_
    refine bind (when fun _ => execute fun T U => Tables.le_insertTransactionsBatch) fun _ _ => ?_
    refine bind (when fun _ => execute fun T U => Tables.le_insertTokenTransfersBatch) fun _ _ => ?_
    refine bind commitTransaction fun _ _ => ?_
    refine bind (ongoing_publishWhaleAlerts D hw.batch) fun _ _ => bind commitOffsets fun _ _ => ?_
    refine modifyState (fun v hv => ?_) fun v _ => ?_
    · exact { hv with batch := fun tx htx => by cases htx }
    · exact { Ledger.Onward.refl v.ledger with }
  refine bind getConnection fun _ _ => tryFinally (guarded hbody fun e => ?_) releaseConnection
  exact bind rollback fun _ _ => raise e

theorem ongoing_retryLookup (blockNumber : ℤ) (retries : ℕ) (cachedTime : Option IsoText) :
    Ongoing D (retryLookup blockNumber retries cachedTime) fun _ => True := by
  induction retries generalizing cachedTime with
  | zero => exact pure trivial
  | succ retries ih =>
    unfold retryLookup
    split
    · exact bind (quiet fun _ _ => rfl) fun _ _ => bind (getBlockTimestamp _) fun _ _ => ih _
    · exact pure trivial

theorem ongoing_enrichTokenTimestamp (tt : TokenTransferModel) :
    Ongoing D (enrichTokenTimestamp tt) fun _ => True := by
  unfold enrichTokenTimestamp
  split
  · exact pure trivial
  · refine bind (getBlockTimestamp _) fun cachedTime _ => ?_
    refine bind (ongoing_retryLookup D _ _ _) fun cachedTime _ => ?_
    cases cachedTime with
    | none => exact bind (same fun _ => rfl) fun _ _ => pure trivial
    | some text => exact pure trivial

/-- A payload that a message of its topic carries. -/
theorem ongoing_handleMessage {topic : Option Topic} {data : Json}
    (hdata : ∃ pos, topic = some pos.topic ∧ D.message pos = some (.json data)) :
    Ongoing D (handleMessage D topic data) fun _ => True := by
  obtain ⟨pos, rfl, hmessage⟩ := hdata
  cases htopic : pos.topic with
  | blocks => exact bind (ofExcept fun _ _ => trivial) fun block _ => cacheBlockTimestamp _ _
  | transactions =>
    refine bind (Q := fun _ => True) (quiet fun _ _ => rfl) fun now _ => ?_
    refine bind (ofExcept (Q := Described D) fun tx htx => ?_) fun tx htx => ?_
    · exact ⟨pos, _, now, htopic, hmessage, data, rfl, htx⟩
    · refine modifyState (fun w hw => { hw with batch := fun tx' htx' => ?_ }) fun w _ => ?_
      · rcases List.mem_append.mp htx' with htx' | htx'
        · exact hw.batch tx' htx'
        · obtain rfl := List.mem_singleton.mp htx'
          exact htx
      · exact { Ledger.Onward.refl w.ledger with }
  | tokenTransfers =>
    refine bind (Q := fun _ => True) (quiet fun _ _ => rfl) fun now _ => ?_
    refine bind (ofExcept (Q := fun _ => True) fun _ _ => trivial) fun tt _ => ?_
    refine bind (ongoing_enrichTokenTimestamp D tt) fun enriched _ => ?_
    cases enriched with
    | some tt => exact same fun _ => rfl
    | none => exact pure trivial

theorem ongoing_flushIfFull : Ongoing D (flushIfFull D) fun _ => True :=
  bind getState fun _ _ => when fun _ =>
    guarded (ongoing_flushBatches D) fun _ => pure trivial

theorem ongoing_round : Ongoing D (round D) fun _ => True := by
  refine bind (Q := fun _ => True) (quiet fun _ _ => rfl) fun running _ => ?_
  split
  · refine bind poll fun polled hpolled => ?_
    obtain ⟨topic, data⟩ := polled
    cases data with
    | none => exact bind (ongoing_flushIfFull D) fun _ _ => pure trivial
    | some data =>
      have hhandled : Ongoing D (handleOrSkip D topic data) fun _ => True := by
        refine tryCatch (bind (ongoing_handleMessage D (hpolled data rfl)) fun _ _ => ?_) fun e => ?_
        · exact pure trivial
        · split
          · exact pure trivial
          · exact raise e
      refine bind hhandled fun _ _ => bind (when fun _ => ongoing_flushIfFull D) fun _ _ => ?_
      exact pure trivial
  · exact pure trivial

theorem ongoing_main : Ongoing D (main D) fun _ => True := by
  have hattempt : ∀ on error, Ongoing D (attempt on error) fun _ => True := fun on error =>
    guarded (bind (probe on error) fun _ _ => pure trivial) fun _ => pure trivial
  have hclose : Ongoing D (do
      Call.probe .kafka .kafkaException
      Call.probe .postgres .databaseError : Prog Unit) fun _ => True :=
    bind (probe _ _) fun _ _ => probe _ _
  have hshutdown : Ongoing D (shutdown D) fun _ => True := by
    refine bind getState fun w _ => bind (when fun _ => ?_) fun _ _ => tryFinally ?_ hclose
    · exact guarded (ongoing_flushBatches D) fun _ => pure trivial
    · exact guarded (ongoing_producerFlush D) fun _ => pure trivial
  refine bind (hattempt _ _) fun database _ => ?_
  split
  · refine bind (probe _ _) fun _ _ => bind (hattempt _ _) fun redis _ => ?_
    split
    · refine tryFinally (tryCatch (loop (round_productive D) (ongoing_round D)) fun e => ?_) hshutdown
      split
      · exact pure trivial
      · exact raise e
    · exact bind (ongoing_producerFlush D) fun _ _ => hclose
  · exact pure trivial

end Program

/-! ### Histories -/

theorem genuine_initial (D : Deployment) (db : Tables) (redis : ℤ → Option IsoText) :
    (World.initial db redis).Genuine D where
  batch := fun _ h => by cases h
  handed := fun _ h => by cases h
  conn := fun _ h => by cases h
  offsets := fun _ _ => Nat.le_refl 0

theorem genuine_restart (h : w.Genuine D) : w.restart.Genuine D where
  batch := fun _ h => by cases h
  handed := h.handed
  conn := fun _ h => by cases h
  offsets := fun _ _ => Nat.le_refl _

theorem onward_restart (w : World) : w.Onward w.restart := { Ledger.Onward.refl w.ledger with }

theorem sessions_append (D : Deployment) (w : World) (css css' : List (List Choice)) :
    sessions D w (css ++ css') = sessions D (sessions D w css) css' := by
  induction css generalizing w with
  | nil => rfl
  | cons cs css ih => exact ih _

theorem sessions_ongoing (D : Deployment) (css : List (List Choice)) (h : w.Genuine D) :
    (sessions D w css).Genuine D ∧ w.Onward (sessions D w css) := by
  induction css generalizing w with
  | nil => exact ⟨h, .refl _⟩
  | cons cs css ih =>
    have hrestart := genuine_restart h
    obtain ⟨hgenuine, honward⟩ := ih ((ongoing_main D).keeps w.restart cs hrestart)
    have hmain := (ongoing_main D).onward w.restart cs hrestart
    exact ⟨hgenuine, ((onward_restart w).trans hmain).trans honward⟩

/-- **Nothing is taken back**: a process that went on for more choices, and others started
after it, against the process that was cut. -/
theorem sessions_later (h : w.Genuine D) (before : List (List Choice)) (cs ds : List Choice)
    (later : List (List Choice)) :
    (sessions D w (before ++ [cs])).Onward (sessions D w (before ++ (cs ++ ds) :: later)) := by
  have hbefore := genuine_restart (sessions_ongoing D before h).1
  rw [sessions_append, sessions_append]
  have hmore := (ongoing_main D).onward_append hbefore cs ds
  have hgenuine := (ongoing_main D).keeps _ (cs ++ ds) hbefore
  exact hmore.trans (sessions_ongoing D later hgenuine).2

theorem handedStored_sessions (D : Deployment) (db : Tables) (redis : ℤ → Option IsoText)
    (css : List (List Choice)) : HandedStored (sessions D (World.initial db redis) css) := by
  obtain ⟨hand, hreach⟩ := sessions_reachable D (World.initial db redis) css
  refine hreach.invariant (P := fun w _ => HandedStored w) ?_ ?_ fun w hand h => h
  · intro p hp
    cases hp
  · intro w hand w' hand' hstep h
    exact h.step hstep

/-- What can be said of an alert when the tables are `db`: it is that of a whale of the
transactions topic, whose row was in the tables `p.2` of the moment when it was handed to
the producer, and these rows are still there. -/
structure StoredWhale (D : Deployment) (db : Tables) (p : WhaleAlert × Tables)
    (tx : TransactionModel) : Prop where
  described : Described D tx
  whale : D.whaleThresholdWei ≤ tx.value
  payload : buildWhaleAlertPayload tx = .ok p.1
  row : p.2.HasTransaction tx.hash
  kept : p.2.Le db

theorem storedWhale_of_handed {D : Deployment} {db : Tables} {redis : ℤ → Option IsoText}
    {css : List (List Choice)} {p : WhaleAlert × Tables}
    (hp : p ∈ (sessions D (World.initial db redis) css).handed) :
    ∃ tx, StoredWhale D (sessions D (World.initial db redis) css).db p tx := by
  have hgenuine := (sessions_ongoing D css (genuine_initial D db redis)).1
  obtain ⟨⟨tx, hdescribed, hwhale, hpayload⟩, hkept⟩ := hgenuine.handed p hp
  have hrow := handedStored_sessions D db redis css p hp
  rw [buildWhaleAlertPayload_hash hpayload] at hrow
  exact ⟨tx, hdescribed, hwhale, hpayload, hrow, hkept⟩

/-- **Announced whales are stored, and stay so.**  At any instant every alert that was ever
handed to the producer, whatever became of it, belongs to a whale of the topic that was
stored before; and no later instant takes back a row, an alert, an acknowledgement or a
committed offset. -/
theorem announced_stored (D : Deployment) (db : Tables) (redis : ℤ → Option IsoText)
    (before : List (List Choice)) (cs ds : List Choice) (later : List (List Choice)) :
    let w := sessions D (World.initial db redis) (before ++ [cs])
    let w' := sessions D (World.initial db redis) (before ++ (cs ++ ds) :: later)
    (∀ p ∈ w.handed, ∃ tx, StoredWhale D w.db p tx) ∧
      w.db.Le w'.db ∧ w.handed <:+ w'.handed ∧ w.acked ⊆ w'.acked ∧
        ∀ t p, w.committed t p ≤ w'.committed t p := by
  intro w w'
  have honward : w.Onward w' := sessions_later (genuine_initial D db redis) before cs ds later
  exact ⟨fun p hp => storedWhale_of_handed hp, honward.db, honward.handed, honward.acked,
    honward.committed⟩

end Consumer

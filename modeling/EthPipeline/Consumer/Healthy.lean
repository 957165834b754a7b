import EthPipeline.Consumer.Flush
import Mathlib.Data.Set.Basic

/-!
# The consumer among healthy services

What a flush is when no service fails: a function of what the messages have left behind,
the `View` (buffers, tables, cache, alerts).

* `publishWhaleAlerts_healthy`: the alerts of a batch are sent and acknowledged.
* `flushBatches_healthy`: a flush returns exactly when the batch fits the tables and
  the alerts (`View.Fits`), and what it leaves is `View.flushed`.
* `flushIfFull_healthy`: a round of the loop flushes a full batch, and catches what fails.
-/

namespace Consumer

open Exec

/-! ### Healthy services -/

/-- No call fails, and the broker acknowledges by the next call what it was given.
Signals come and keys expire as they like. -/
structure Choice.Healthy (c : Choice) : Prop where
  fault : ∀ on, c.fault on = .none
  poll : c.poll ≠ .failed
  delivered : .delivered 0 ∈ c.background
  reported : ∀ i error, .undelivered i error ∉ c.background

/-- The choices of a healthy run over `cs`. -/
def Among (cs : List Choice) (c : Choice) : Prop := c ∈ cs ∧ c.Healthy

/-- The key that expires. -/
def Background.key : Background → Option ℤ
  | .expired n => some n
  | _ => none

/-- The cache without the keys `ns`. -/
def forget (redis : ℤ → Option IsoText) (ns : List ℤ) : ℤ → Option IsoText :=
  ns.foldl (fun m n => Function.update m n none) redis

theorem forget_append (redis : ℤ → Option IsoText) (ns ms : List ℤ) :
    forget redis (ns ++ ms) = forget (forget redis ns) ms := List.foldl_append

theorem forget_eq_none {redis : ℤ → Option IsoText} {n : ℤ} (h : redis n = none) (ns : List ℤ) :
    forget redis ns n = none := by
  induction ns generalizing redis with
  | nil => exact h
  | cons m ns ih =>
    apply ih
    show Function.update redis m none n = none
    by_cases hn : n = m
    · rw [hn, Function.update_self]
    · rw [Function.update_of_ne hn]
      exact h

theorem deliver_of_reported {w : World} (h : ∀ q ∈ w.queue, q.report.isSome) (i : ℕ)
    (error : Option String) : w.deliver i error = w := by
  unfold World.deliver
  split
  · next alert hx =>
    have hsome := h _ (List.mem_of_getElem? hx)
    cases hsome
  · rfl

/-- With every alert reported, the background only forgets keys and may clear the flag. -/
theorem after_of_reported (bs : List Background) {w : World}
    (h : ∀ q ∈ w.queue, q.report.isSome) :
    ∃ running, w.after bs =
      { w with running, redis := forget w.redis (bs.filterMap Background.key) } := by
  induction bs generalizing w with
  | nil => exact ⟨w.running, rfl⟩
  | cons b bs ih =>
    have hdelivered : ∀ i error, ∃ running, (w.deliver i error).after bs =
        { w with running, redis := forget w.redis (bs.filterMap Background.key) } := by
      intro i error
      rw [deliver_of_reported h]
      exact ih h
    cases b with
    | signal => exact ih (w := w.background .signal) h
    | delivered i => exact hdelivered i none
    | undelivered i error => exact hdelivered i (some error)
    | expired n => exact ih (w := w.background (.expired n)) h

/-- The one alert in the queue is delivered. -/
theorem after_of_handed (bs : List Background) {w : World} {alert : WhaleAlert}
    (h : w.queue = [⟨alert, none⟩]) (hd : .delivered 0 ∈ bs)
    (hu : ∀ i error, .undelivered i error ∉ bs) :
    ∃ running, w.after bs = { w with
      running
      redis := forget w.redis (bs.filterMap Background.key)
      queue := [⟨alert, some none⟩]
      acked := alert :: w.acked } := by
  induction bs generalizing w with
  | nil => cases hd
  | cons b bs ih =>
    have hu' : ∀ i error, .undelivered i error ∉ bs :=
      fun i error hmem => hu i error (List.mem_cons_of_mem _ hmem)
    have hd' : Background.delivered 0 ≠ b → .delivered 0 ∈ bs :=
      fun hne => (List.mem_cons.mp hd).resolve_left hne
    cases b with
    | signal => exact ih (w := w.background .signal) h (hd' (by simp)) hu'
    | delivered i =>
      cases i with
      | zero =>
        have hdeliver : w.deliver 0 none =
            { w with queue := [⟨alert, some none⟩], acked := alert :: w.acked } := by
          simp [World.deliver, h]
        show ∃ running, (w.deliver 0 none).after bs = _
        rw [hdeliver]
        exact after_of_reported bs (by simp)
      | succ i =>
        have hdeliver : w.deliver (i + 1) none = w := by
          simp [World.deliver, h]
        show ∃ running, (w.deliver (i + 1) none).after bs = _
        rw [hdeliver]
        exact ih h (hd' (by simp)) hu'
    | undelivered i error => exact absurd List.mem_cons_self (hu i error)
    | expired n => exact ih (w := w.background (.expired n)) h (hd' (by simp)) hu'

/-! ### What a run leaves behind -/

/-- Buffers, tables, cache, and the alerts the broker has acknowledged. -/
structure View where
  txBatch : List TransactionModel
  tokenBatch : List TokenTransferModel
  db : Tables
  redis : ℤ → Option IsoText
  alerted : Set WhaleAlert

def World.view (w : World) : View := ⟨w.txBatch, w.tokenBatch, w.db, w.redis, {a | a ∈ w.acked}⟩

/-- The value of the transaction in ETH is a double. -/
def hasAlert (tx : TransactionModel) : Bool := (buildWhaleAlertPayload tx).toOption.isSome

/-- The alerts of the transactions before the first that has none. -/
def alertsOf (txs : List TransactionModel) : List WhaleAlert :=
  (txs.takeWhile hasAlert).filterMap fun tx => (buildWhaleAlertPayload tx).toOption

theorem hasAlert_of_ok {tx : TransactionModel} {alert : WhaleAlert}
    (h : buildWhaleAlertPayload tx = .ok alert) : hasAlert tx = true := by
  unfold hasAlert
  rw [h]
  rfl

theorem hasAlert_of_error {tx : TransactionModel} {e : Exc}
    (h : buildWhaleAlertPayload tx = .error e) : hasAlert tx = false := by
  unfold hasAlert
  rw [h]
  rfl

theorem alertsOf_of_ok {tx : TransactionModel} {alert : WhaleAlert} (txs : List TransactionModel)
    (h : buildWhaleAlertPayload tx = .ok alert) :
    alertsOf (tx :: txs) = alert :: alertsOf txs := by
  have hsome : (buildWhaleAlertPayload tx).toOption = some alert := by
    rw [h]
    rfl
  unfold alertsOf
  rw [List.takeWhile_cons_of_pos (hasAlert_of_ok h)]
  exact List.filterMap_cons_some hsome

theorem alertsOf_of_error {tx : TransactionModel} {e : Exc} (txs : List TransactionModel)
    (h : buildWhaleAlertPayload tx = .error e) : alertsOf (tx :: txs) = [] := by
  have hnone : ¬hasAlert tx := by
    rw [hasAlert_of_error h]
    decide
  unfold alertsOf
  rw [List.takeWhile_cons_of_neg hnone, List.filterMap_nil]

namespace View

def buffered (v : View) : ℕ := v.txBatch.length + v.tokenBatch.length

def expire (v : View) (ns : List ℤ) : View := { v with redis := forget v.redis ns }

def alert (v : View) (alerts : List WhaleAlert) : View :=
  { v with alerted := v.alerted ∪ {a | a ∈ alerts} }

/-- The tables with both batches, if every record fits its columns. -/
def stored (v : View) : Option Tables :=
  (v.db.insertTransactionsBatch v.txBatch).bind (·.insertTokenTransfersBatch v.tokenBatch)

/-- Every whale of the batch has an alert. -/
def Announceable (D : Deployment) (v : View) : Prop :=
  ∀ tx ∈ whaleTransactions D v.txBatch, hasAlert tx

instance (D : Deployment) (v : View) : Decidable (v.Announceable D) :=
  inferInstanceAs (Decidable (∀ tx ∈ whaleTransactions D v.txBatch, hasAlert tx))

/-- The batch fits: every record its columns, and every whale an alert. -/
def Fits (D : Deployment) (v : View) : Prop := v.stored.isSome ∧ v.Announceable D

/-- The batch is stored, and its whales are announced as far as that goes. -/
def announced (D : Deployment) (v : View) (T : Tables) : View :=
  alert { v with db := T } (alertsOf (whaleTransactions D v.txBatch))

def cleared (v : View) : View := { v with txBatch := [], tokenBatch := [] }

/-- After a flush. -/
def flushed (D : Deployment) (v : View) : View :=
  match v.stored with
  | none => v
  | some T => if v.Announceable D then (v.announced D T).cleared else v.announced D T

/-- After `flushIfFull`. -/
def settle (D : Deployment) (v : View) : View :=
  if D.batchSize ≤ v.buffered then v.flushed D else v

variable {D : Deployment} {v : View}

theorem expire_append (ns ms : List ℤ) : v.expire (ns ++ ms) = (v.expire ns).expire ms := by
  unfold expire
  rw [forget_append]

theorem alert_nil : v.alert [] = v := by
  unfold alert
  simp

theorem alert_cons (a : WhaleAlert) (alerts : List WhaleAlert) :
    v.alert (a :: alerts) = (v.alert [a]).alert alerts := by
  have hset : {b | b ∈ a :: alerts} = {b | b ∈ [a]} ∪ {b | b ∈ alerts} := by
    ext b
    simp
  unfold alert
  rw [hset, Set.union_assoc]

theorem alert_alert (alerts : List WhaleAlert) : (v.alert alerts).alert alerts = v.alert alerts := by
  unfold alert
  rw [Set.union_assoc, Set.union_self]

theorem flushed_of_none (h : v.stored = none) : v.flushed D = v := by
  unfold flushed
  rw [h]

theorem flushed_of_announceable {T : Tables} (h : v.stored = some T) (ha : v.Announceable D) :
    v.flushed D = (v.announced D T).cleared := by
  unfold flushed
  rw [h]
  exact if_pos ha

theorem flushed_of_not_announceable {T : Tables} (h : v.stored = some T)
    (ha : ¬v.Announceable D) : v.flushed D = v.announced D T := by
  unfold flushed
  rw [h]
  exact if_neg ha

theorem flushed_expire (ns : List ℤ) : (v.expire ns).flushed D = (v.flushed D).expire ns := by
  cases h : v.stored with
  | none =>
    have h' : (v.expire ns).stored = none := h
    rw [flushed_of_none h, flushed_of_none h']
  | some T =>
    have h' : (v.expire ns).stored = some T := h
    by_cases ha : v.Announceable D
    · have ha' : (v.expire ns).Announceable D := ha
      rw [flushed_of_announceable h ha, flushed_of_announceable h' ha']
      rfl
    · have ha' : ¬(v.expire ns).Announceable D := ha
      rw [flushed_of_not_announceable h ha, flushed_of_not_announceable h' ha']
      rfl

theorem settle_expire (ns : List ℤ) : (v.expire ns).settle D = (v.settle D).expire ns := by
  unfold settle
  rw [flushed_expire]
  by_cases h : D.batchSize ≤ v.buffered
  · rw [if_pos h]
    exact if_pos h
  · rw [if_neg h]
    exact if_neg h

/-- Nothing buffered, nothing to do. -/
theorem flushed_of_empty (htx : v.txBatch = []) (htoken : v.tokenBatch = []) :
    v.flushed D = v := by
  obtain ⟨txBatch, tokenBatch, db, redis, alerted⟩ := v
  obtain rfl : txBatch = [] := htx
  obtain rfl : tokenBatch = [] := htoken
  have hstored : View.stored ⟨[], [], db, redis, alerted⟩ = some db := by
    simp [stored]
  have hwhales : (⟨[], [], db, redis, alerted⟩ : View).Announceable D := by
    intro tx htx
    cases htx
  rw [flushed_of_announceable hstored hwhales]
  show (alert ⟨[], [], db, redis, alerted⟩ []).cleared = _
  rw [alert_nil]
  rfl

/-- **A flush that failed fails again**, and a second flush changes nothing. -/
theorem flushed_flushed : (v.flushed D).flushed D = v.flushed D := by
  cases h : v.stored with
  | none => rw [flushed_of_none h, flushed_of_none h]
  | some T =>
    by_cases ha : v.Announceable D
    · rw [flushed_of_announceable h ha]
      exact flushed_of_empty rfl rfl
    · obtain ⟨U, hU, hT⟩ := Option.bind_eq_some_iff.mp h
      obtain ⟨hU', hT'⟩ := Tables.insert_again hU hT
      have hstored : (v.announced D T).stored = some T :=
        Option.bind_eq_some_iff.mpr ⟨T, hU', hT'⟩
      rw [flushed_of_not_announceable h ha, flushed_of_not_announceable hstored ha]
      exact alert_alert (v := { v with db := T }) (alertsOf (whaleTransactions D v.txBatch))

theorem settle_settle : (v.settle D).settle D = v.settle D := by
  by_cases h : D.batchSize ≤ v.buffered
  · have hsettle : v.settle D = v.flushed D := if_pos h
    rw [hsettle]
    unfold settle
    rw [flushed_flushed, ite_self]
  · have hsettle : v.settle D = v := if_neg h
    rw [hsettle, hsettle]

theorem settle_of_empty (htx : v.txBatch = []) (htoken : v.tokenBatch = []) :
    v.settle D = v := by
  unfold settle
  rw [flushed_of_empty htx htoken, ite_self]

end View

/-! ### Calls -/

variable {D : Deployment} {cs : List Choice} {ps : List Position} {v : View} {w : World}

/-- The view is `v`, up to keys that have expired, the messages polled are `ps`, and the
producer is at rest. -/
structure Has (cs : List Choice) (ps : List Position) (v : View) (w : World) : Prop where
  queue : w.queue = []
  error : w.error = none
  polled : w.polled = ps
  view : ∃ ns, (∀ n ∈ ns, ∃ c ∈ cs, .expired n ∈ c.background) ∧ w.view = v.expire ns

theorem view_acknowledged (w : World) (alert : WhaleAlert) :
    World.view { w with acked := alert :: w.acked } = w.view.alert [alert] := by
  have hset : {a | a ∈ alert :: w.acked} = {a | a ∈ w.acked} ∪ {a | a ∈ [alert]} := by
    ext a
    simp [or_comm]
  unfold World.view View.alert
  rw [hset]

theorem mem_filterMap_key {bs : List Background} {n : ℤ} :
    n ∈ bs.filterMap Background.key ↔ .expired n ∈ bs := by
  rw [List.mem_filterMap]
  constructor
  · rintro ⟨b, hb, hkey⟩
    cases b with
    | expired m =>
      obtain rfl := Option.some.inj hkey
      exact hb
    | _ => cases hkey
  · intro h
    exact ⟨_, h, rfl⟩

theorem Has.background (h : Has cs ps v w) {c : Choice} (hc : c ∈ cs) (running : Bool) :
    Has cs ps v { w with
      running, redis := forget w.redis (c.background.filterMap Background.key) } := by
  obtain ⟨ns, hns, hview⟩ := h.view
  refine ⟨h.queue, h.error, h.polled, ns ++ c.background.filterMap Background.key, ?_, ?_⟩
  · intro n hn
    rcases List.mem_append.mp hn with hn | hn
    · exact hns n hn
    · exact ⟨c, hc, mem_filterMap_key.mp hn⟩
  · rw [View.expire_append, ← hview]
    rfl

theorem after_of_queue_nil (h : w.queue = []) (bs : List Background) :
    ∃ running, w.after bs =
      { w with running, redis := forget w.redis (bs.filterMap Background.key) } := by
  apply after_of_reported
  rw [h]
  intro q hq
  cases hq

/-- A call of a healthy service, from an assertion that the flag and the cache cannot break. -/
theorem healthy_service {α : Type} {f : Choice → World → Except Exc α × World} {P : World → Prop}
    {Q : α → World → Prop} {E : Exc → World → Prop} (hqueue : ∀ w, P w → w.queue = [])
    (hP : ∀ w c running, P w → c ∈ cs → P { w with
      running, redis := forget w.redis (c.background.filterMap Background.key) })
    (h : ∀ c w, Among cs c → P w → ∃ a w', f c w = (.ok a, w') ∧ Q a w') :
    Triple (Among cs) P (service f) Q E fun _ => True := by
  have hstable : Stable (Among cs) P := by
    intro c w hc hw
    obtain ⟨running, he⟩ := after_of_queue_nil (hqueue w hw) c.background
    rw [he]
    exact hP w c running hw hc.1
  refine Triple.service hstable (fun _ _ => trivial) ?_ ?_
  · intro c w a w' hc hw hf
    obtain ⟨a', w'', hf', hQ⟩ := h c w hc hw
    obtain ⟨ha, rfl⟩ := Prod.mk.inj (hf.symm.trans hf')
    obtain rfl := Except.ok.inj ha
    exact hQ
  · intro c w e w' hc hw hf
    obtain ⟨a', w'', hf', -⟩ := h c w hc hw
    cases (Prod.mk.inj (hf.symm.trans hf')).1

/-- The same from a view. -/
theorem Has.service {α : Type} {f : Choice → World → Except Exc α × World}
    {Q : α → World → Prop} {E : Exc → World → Prop}
    (h : ∀ c w, Among cs c → Has cs ps v w → ∃ a w', f c w = (.ok a, w') ∧ Q a w') :
    Triple (Among cs) (Has cs ps v) (Consumer.service f) Q E fun _ => True :=
  healthy_service (fun _ hw => hw.queue) (fun _ _ running hw hc => hw.background hc running) h

/-! ### A flush -/

/-- A connection is open, and its transaction has come to `T`. -/
structure Transacting (cs : List Choice) (ps : List Position) (v : View) (T : Tables) (w : World) :
    Prop extends Has cs ps v w where
  conn : w.conn = some T

theorem Transacting.service {α : Type} {f : Choice → World → Except Exc α × World} {T : Tables}
    {Q : α → World → Prop} {E : Exc → World → Prop}
    (h : ∀ c w, Among cs c → Transacting cs ps v T w → ∃ a w', f c w = (.ok a, w') ∧ Q a w') :
    Triple (Among cs) (Transacting cs ps v T) (Consumer.service f) Q E fun _ => True :=
  healthy_service (fun _ hw => hw.queue)
    (fun _ _ running hw hc => ⟨hw.toHas.background hc running, hw.conn⟩) h

/-- A statement fails only on a batch that does not fit. -/
theorem execute_healthy {statement : Tables → Option Tables} {T : Tables} {E : Exc → World → Prop}
    (hfail : ∀ w, statement T = none → Has cs ps v w → E .databaseError w) :
    Triple (Among cs) (Transacting cs ps v T) (Call.execute statement)
      (fun _ w => ∃ U, statement T = some U ∧ Transacting cs ps v U w) E fun _ => True := by
  have hstable : Stable (Among cs) (Transacting cs ps v T) := by
    intro c w hc hw
    obtain ⟨running, he⟩ := after_of_queue_nil hw.queue c.background
    rw [he]
    exact ⟨hw.toHas.background hc.1 running, hw.conn⟩
  refine Triple.service hstable (fun _ _ => trivial) ?_ ?_
  · intro c w u w' hc h hf
    split at hf <;> simp only [Prod.mk.injEq, reduceCtorEq, false_and] at hf
    next U _ hU =>
      rw [h.conn, Option.bind_some] at hU
      rw [← hf.2]
      exact ⟨U, hU, { h.toHas with }, rfl⟩
  · intro c w e w' hc h hf
    split at hf <;> simp only [Prod.mk.injEq, Except.error.injEq, reduceCtorEq, false_and] at hf
    next hne =>
      rw [← hf.1, ← hf.2]
      cases hU : statement T with
      | none => exact hfail w hU h.toHas
      | some U =>
        rw [h.conn, Option.bind_some] at hne
        exact absurd hU (hne U (hc.2.fault .postgres))

/-- A batch is inserted by one statement, and an empty one by none. -/
theorem insertBatch_healthy {β : Type} {insert : Tables → List β → Option Tables} {batch : List β}
    {T : Tables} {E : Exc → World → Prop} (hnil : insert T [] = some T)
    (hfail : ∀ w, insert T batch = none → Has cs ps v w → E .databaseError w) :
    Triple (Among cs) (Transacting cs ps v T)
      (when (batch ≠ []) (Call.execute fun T => insert T batch))
      (fun _ w => ∃ U, insert T batch = some U ∧ Transacting cs ps v U w) E fun _ => True := by
  apply Triple.when
  · exact fun _ => execute_healthy hfail
  · intro w hempty h
    refine ⟨T, ?_, h⟩
    rw [not_not.mp hempty]
    exact hnil

/-- An alert is sent, and acknowledged before the next call. -/
theorem sendMessage_healthy (alert : WhaleAlert) {E : Exc → World → Prop} :
    Triple (Among cs) (Has cs ps v) (sendMessage alert) (fun _ => Has cs ps (v.alert [alert])) E
      fun _ => True := by
  apply Triple.bind (Q := fun _ w => w.queue = [⟨alert, none⟩] ∧ Has cs ps v { w with queue := [] })
  · apply Has.service
    intro c w hc h
    rw [hc.2.fault .kafka]
    refine ⟨(), _, rfl, ?_, { h with queue := rfl }⟩
    show w.queue ++ [⟨alert, none⟩] = _
    rw [h.queue]
    rfl
  · intro _
    refine Triple.call (fun _ _ => trivial) ?_ ?_
    · rintro c w u w' hc ⟨hqueue, h⟩ hf
      obtain ⟨running, he⟩ := after_of_handed c.background hqueue hc.2.delivered hc.2.reported
      rw [← (Prod.mk.inj hf).2, he]
      obtain ⟨ns, hns, hview⟩ := (h.background hc.1 running).view
      refine ⟨rfl, h.error, h.polled, ns, hns, ?_⟩
      show _ = (v.expire ns).alert [alert]
      rw [← hview]
      exact view_acknowledged { w with
        redis := forget w.redis (c.background.filterMap Background.key) } alert
    · intro c w e w' _ _ hf
      cases hf

/-- The alerts go out up to the first transaction that has none. -/
theorem sendAll_healthy (txs : List TransactionModel) (v : View) :
    Triple (Among cs) (Has cs ps v)
      (forEach txs fun tx => do
        let alert ← ofExcept (buildWhaleAlertPayload tx)
        sendMessage alert)
      (fun _ w => (∀ tx ∈ txs, hasAlert tx) ∧ Has cs ps (v.alert (alertsOf txs)) w)
      (fun e w => e.isException ∧ (¬∀ tx ∈ txs, hasAlert tx) ∧
        Has cs ps (v.alert (alertsOf txs)) w) fun _ => True := by
  induction txs generalizing v with
  | nil =>
    apply Triple.pure
    intro w h
    refine ⟨by simp, ?_⟩
    show Has cs ps (v.alert []) w
    rw [View.alert_nil]
    exact h
  | cons tx txs ih =>
    cases hp : buildWhaleAlertPayload tx with
    | error e =>
      have hraise : e.isException := by
        unfold buildWhaleAlertPayload at hp
        split at hp
        · cases hp
        · cases hp
          rfl
      apply Triple.bind (Q := fun _ _ => False)
      · refine Triple.bind (Q := fun _ _ => False) (Triple.ofExcept ?_ ?_) fun _ _ _ h => h.elim
        · intro alert w he
          rw [hp] at he
          cases he
        · intro e' w he h
          rw [hp] at he
          obtain rfl := Except.error.inj he
          refine ⟨hraise, fun hall => ?_, ?_⟩
          · have := hall tx List.mem_cons_self
            rw [hasAlert_of_error hp] at this
            cases this
          · rw [alertsOf_of_error txs hp, View.alert_nil]
            exact h
      · intro _ _ _ h
        exact h.elim
    | ok alert =>
      have hsome := hasAlert_of_ok hp
      have hforall : (∀ tx' ∈ tx :: txs, hasAlert tx') ↔ ∀ tx' ∈ txs, hasAlert tx' := by
        simp [hsome]
      have halerts : v.alert (alertsOf (tx :: txs)) = (v.alert [alert]).alert (alertsOf txs) := by
        rw [alertsOf_of_ok txs hp]
        exact View.alert_cons alert (alertsOf txs)
      rw [hforall, halerts]
      refine Triple.bind (Q := fun _ => Has cs ps (v.alert [alert])) ?_ fun _ => ih _
      refine Triple.bind (Q := fun a w => a = alert ∧ Has cs ps v w) (Triple.ofExcept ?_ ?_) ?_
      · intro a w he h
        rw [hp] at he
        exact ⟨(Except.ok.inj he).symm, h⟩
      · intro e w he
        rw [hp] at he
        cases he
      · intro a
        apply Triple.given
        rintro rfl
        exact sendMessage_healthy a

theorem producerFlush_healthy {E : Exc → World → Prop} :
    Triple (Among cs) (Has cs ps v) producerFlush (fun _ => Has cs ps v) E fun _ => True := by
  apply Triple.bind (Q := fun remaining w => remaining = 0 ∧ Has cs ps v w)
  · apply Has.service
    intro c w hc h
    obtain ⟨hqueue, herror⟩ : (Call.serve w).queue = [] ∧ (Call.serve w).error = none := by
      unfold Call.serve
      rw [h.queue, h.error]
      exact ⟨rfl, rfl⟩
    refine ⟨_, _, rfl, ?_, { h with queue := hqueue, error := herror }⟩
    rw [hqueue]
    rfl
  · intro remaining
    apply Triple.given
    rintro rfl
    refine Triple.bind (Q := fun u w => u.error = none ∧ Has cs ps v w)
      (Triple.getState fun w h => ⟨h.error, h⟩) fun u => ?_
    apply Triple.given
    intro herror
    rw [herror]
    exact Triple.pure fun w h => h

theorem publishWhaleAlerts_healthy (txs : List TransactionModel) (v : View) :
    Triple (Among cs) (Has cs ps v) (publishWhaleAlerts D txs)
      (fun _ w => (∀ tx ∈ whaleTransactions D txs, hasAlert tx) ∧
        Has cs ps (v.alert (alertsOf (whaleTransactions D txs))) w)
      (fun e w => e.isException ∧ (¬∀ tx ∈ whaleTransactions D txs, hasAlert tx) ∧
        Has cs ps (v.alert (alertsOf (whaleTransactions D txs))) w) fun _ => True := by
  refine Triple.bind (sendAll_healthy _ v) fun _ => ?_
  apply Triple.given
  intro hall
  refine Triple.bind (Q := fun _ => Has cs ps (v.alert (alertsOf (whaleTransactions D txs)))) ?_
    fun _ => Triple.pure fun w h => ⟨hall, h⟩
  exact Triple.when (fun _ => producerFlush_healthy) fun w _ h => h

theorem commitTransaction_healthy (T : Tables) {E : Exc → World → Prop} :
    Triple (Among cs) (Transacting cs ps v T) Call.commitTransaction
      (fun _ => Has cs ps { v with db := T }) E fun _ => True := by
  apply Transacting.service
  intro c w hc h
  obtain ⟨ns, hns, hview⟩ := h.view
  rw [hc.2.fault .postgres, h.conn]
  refine ⟨(), _, rfl, h.queue, h.error, h.polled, ns, hns, ?_⟩
  exact congrArg (fun u : View => { u with db := T }) hview

theorem commitOffsets_healthy {E : Exc → World → Prop} :
    Triple (Among cs) (Has cs ps v) Call.commitOffsets (fun _ => Has cs ps v) E
      fun _ => True := by
  apply Has.service
  intro c w hc h
  rw [hc.2.fault .kafka]
  exact ⟨(), _, rfl, { h with }⟩

/-- **The body of a flush**: it returns exactly when the batch fits. -/
theorem flushBody_healthy :
    Triple (Among cs) (Transacting cs ps v v.db) (flushBody D)
      (fun _ w => v.Fits D ∧ Has cs ps (v.flushed D) w)
      (fun e w => e.isException ∧ ¬v.Fits D ∧ Has cs ps (v.flushed D) w) fun _ => True := by
  have hrefused : ∀ w, v.stored = none → Has cs ps v w →
      Exc.databaseError.isException ∧ ¬v.Fits D ∧ Has cs ps (v.flushed D) w := by
    intro w hnone h
    refine ⟨rfl, fun hfits => ?_, ?_⟩
    · have hsome := hfits.1
      rw [hnone] at hsome
      cases hsome
    · rw [View.flushed_of_none hnone]
      exact h
  apply Triple.bind (Q := fun _ => Transacting cs ps v v.db)
  · -- conn.autocommit = False
    apply Transacting.service
    intro c w hc h
    rw [if_pos (hc.2.fault .postgres)]
    exact ⟨(), w, rfl, h⟩
  intro _
  refine Triple.bind (Q := fun u w => (u.txBatch = v.txBatch ∧ u.tokenBatch = v.tokenBatch) ∧
    Transacting cs ps v v.db w) (Triple.getState fun w h => ?_) fun u => ?_
  · obtain ⟨ns, -, hview⟩ := h.view
    exact ⟨⟨congrArg View.txBatch hview, congrArg View.tokenBatch hview⟩, h⟩
  apply Triple.given
  rintro ⟨htx, htoken⟩
  rw [htx, htoken]
  refine Triple.bind (insertBatch_healthy v.db.insertTransactionsBatch_nil fun w hnone h => ?_)
    fun _ => ?_
  · refine hrefused w ?_ h
    unfold View.stored
    rw [hnone]
    rfl
  apply Triple.of_exists
  intro U
  apply Triple.given
  intro hU
  have hstored : v.stored = U.insertTokenTransfersBatch v.tokenBatch := by
    unfold View.stored
    rw [hU]
    rfl
  refine Triple.bind (insertBatch_healthy U.insertTokenTransfersBatch_nil fun w hnone h =>
    hrefused w (hstored.trans hnone) h) fun _ => ?_
  apply Triple.of_exists
  intro T
  apply Triple.given
  intro hinsert
  have hT : v.stored = some T := hstored.trans hinsert
  refine Triple.bind (commitTransaction_healthy T) fun _ => ?_
  refine Triple.bind ((publishWhaleAlerts_healthy v.txBatch { v with db := T }).conseq
    (fun _ h => h) (fun _ _ h => h) ?_) fun _ => ?_
  · rintro e w ⟨he, hwhales, h⟩
    refine ⟨he, fun hfits => hwhales hfits.2, ?_⟩
    rw [View.flushed_of_not_announceable hT hwhales]
    exact h
  apply Triple.given
  intro hwhales
  refine Triple.bind commitOffsets_healthy fun _ => Triple.modifyState fun w h => ?_
  refine ⟨⟨by rw [hT]; rfl, hwhales⟩, ?_⟩
  rw [View.flushed_of_announceable hT hwhales]
  obtain ⟨ns, hns, hview⟩ := h.view
  refine ⟨h.queue, h.error, h.polled, ns, hns, ?_⟩
  exact congrArg View.cleared hview

theorem releaseConnection_healthy {E : Exc → World → Prop} :
    Triple (Among cs) (Has cs ps v) Call.releaseConnection (fun _ => Has cs ps v) E
      fun _ => True := by
  apply Has.service
  intro c w hc h
  exact ⟨(), _, rfl, { h with }⟩

/-- **`flush_batches` among healthy services** returns exactly when the batch fits. -/
theorem flushBatches_healthy :
    Triple (Among cs) (Has cs ps v) (flushBatches D)
      (fun _ w => v.Fits D ∧ Has cs ps (v.flushed D) w)
      (fun e w => e.isException ∧ ¬v.Fits D ∧ Has cs ps (v.flushed D) w) fun _ => True := by
  apply Triple.bind (Q := fun _ => Transacting cs ps v v.db)
  · apply Has.service
    intro c w hc h
    obtain ⟨ns, -, hview⟩ := h.view
    rw [if_pos (hc.2.fault .postgres)]
    exact ⟨(), _, rfl, { h with }, congrArg (fun u => some u.db) hview⟩
  intro _
  apply Triple.tryFinally (B := fun _ w => v.Fits D ∧ Has cs ps (v.flushed D) w)
    (F := fun e w => e.isException ∧ ¬v.Fits D ∧ Has cs ps (v.flushed D) w)
  · refine Triple.tryCatch flushBody_healthy fun e => ?_
    apply Triple.given
    intro he
    apply Triple.given
    intro hfits
    apply Triple.ite
    · intro _
      refine Triple.bind (Q := fun _ => Has cs ps (v.flushed D)) ?_ fun _ =>
        Triple.raise fun w h => ⟨he, hfits, h⟩
      apply Has.service
      intro c w hc h
      rw [if_pos (hc.2.fault .postgres)]
      exact ⟨(), _, rfl, { h with }⟩
    · intro hne
      exact absurd he hne
  · intro _
    apply Triple.given
    intro hfits
    exact releaseConnection_healthy.post fun _ w h => ⟨hfits, h⟩
  · intro e
    apply Triple.given
    intro he
    apply Triple.given
    intro hfits
    exact releaseConnection_healthy.post fun _ w h => ⟨he, hfits, h⟩

/-- A flush that fails is caught. -/
theorem flushIfFull_healthy {E : Exc → World → Prop} :
    Triple (Among cs) (Has cs ps v) (flushIfFull D) (fun _ => Has cs ps (v.settle D)) E
      fun _ => True := by
  refine Triple.bind (Q := fun u w => u.buffered = v.buffered ∧ Has cs ps v w)
    (Triple.getState fun w h => ?_) fun u => ?_
  · obtain ⟨ns, -, hview⟩ := h.view
    exact ⟨congrArg View.buffered hview, h⟩
  apply Triple.given
  intro hbuffered
  rw [hbuffered]
  unfold View.settle
  apply Triple.when
  · intro hfull
    rw [if_pos hfull]
    refine Triple.tryCatch (flushBatches_healthy.post fun _ w h => h.2) fun e => ?_
    apply Triple.given
    intro he
    rw [if_pos he]
    exact Triple.pure fun w h => h.2
  · intro w hnot h
    rw [if_neg hnot]
    exact h

end Consumer

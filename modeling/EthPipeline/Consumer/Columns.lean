import EthPipeline.Consumer.Contents

/-!
# Records and columns

Which accepted records become rows, and what that means for a healthy run: pydantic
bounds neither the length of a text nor the size of an integer, the columns do.

* `transactionRow_isSome_iff`, `tokenTransferRow_isSome_iff`: the records that fit.
* `RecordsFit.replay`: over messages whose records fit, no flush fails and the buffers
  stay below `batchSize`.
* `fitting_records_flush`: that, of a run.
-/

namespace Consumer

open Exec

/-! ### Columns -/

/-- A text that a `VARCHAR(n)` takes: no NUL, and nothing but blanks past `n`. -/
def VarcharFits (n : ℕ) (s : String) : Prop :=
  '\x00' ∉ s.toList ∧ ∀ c ∈ s.toList.drop n, c = ' '

instance (n : ℕ) (s : String) : Decidable (VarcharFits n s) :=
  have : Decidable (∀ c ∈ s.toList.drop n, c = ' ') := List.decidableBAll _ _
  inferInstanceAs (Decidable ('\x00' ∉ s.toList ∧ ∀ c ∈ s.toList.drop n, c = ' '))

/-- The range of an `INTEGER`. -/
def Int4Fits (n : ℤ) : Prop := -2 ^ 31 ≤ n ∧ n < 2 ^ 31

theorem varchar_isSome_iff {n : ℕ} {s : String} : (varchar n s).isSome ↔ VarcharFits n s := by
  unfold varchar VarcharFits
  by_cases hnul : '\x00' ∈ s.toList
  · rw [if_pos hnul]
    exact ⟨fun h => (by cases h), fun h => absurd hnul h.1⟩
  · rw [if_neg hnul]
    by_cases hlen : s.length ≤ n
    · rw [if_pos hlen]
      refine ⟨fun _ => ⟨hnul, fun c hc => ?_⟩, fun _ => rfl⟩
      have hdrop : s.toList.drop n = [] := List.drop_eq_nil_of_le (by rwa [String.length_toList])
      rw [hdrop] at hc
      cases hc
    · rw [if_neg hlen]
      by_cases hblank : ∀ c ∈ s.toList.drop n, c = ' '
      · rw [if_pos (by simpa using hblank)]
        exact ⟨fun _ => ⟨hnul, hblank⟩, fun _ => rfl⟩
      · rw [if_neg (by simpa using hblank)]
        exact ⟨fun h => (by cases h), fun h => absurd h.2 hblank⟩

theorem int4_isSome_iff {n : ℤ} : (int4 n).isSome ↔ Int4Fits n := by
  unfold int4 Int4Fits
  split
  · next h => exact ⟨fun _ => h, fun _ => rfl⟩
  · next h => exact ⟨fun hsome => (by cases hsome), fun hfits => absurd hfits h⟩

theorem nullable_isSome_iff {α : Type} {column : α → Option α} {a : Option α} :
    (nullable column a).isSome ↔ ∀ b ∈ a, (column b).isSome := by
  cases a with
  | none => simp [nullable]
  | some a => simp [nullable]

/-- The transaction fits the columns of `transactions`. -/
structure TransactionModel.FitsColumns (tx : TransactionModel) : Prop where
  hash : VarcharFits 66 tx.hash
  fromAddress : VarcharFits 42 tx.fromAddress
  toAddress : ∀ a ∈ tx.toAddress, VarcharFits 42 a

/-- The transfer fits the columns of `token_transfers`, its timestamp apart. -/
structure TokenTransferModel.FitsColumns (tt : TokenTransferModel) : Prop where
  transactionHash : VarcharFits 66 tt.transactionHash
  logIndex : Int4Fits tt.logIndex
  tokenAddress : VarcharFits 42 tt.tokenAddress
  fromAddress : VarcharFits 42 tt.fromAddress
  toAddress : VarcharFits 42 tt.toAddress

/-- **The transactions that become rows.** -/
theorem transactionRow_isSome_iff {tx : TransactionModel} :
    (TransactionRow.ofModel tx).isSome ↔ tx.FitsColumns := by
  constructor
  · intro h
    obtain ⟨r, hr⟩ := Option.isSome_iff_exists.mp h
    simp only [TransactionRow.ofModel, Option.bind_eq_bind, Option.bind_eq_some_iff] at hr
    obtain ⟨hash, h1, src, h2, dst, h3, -⟩ := hr
    refine ⟨varchar_isSome_iff.mp ?_, varchar_isSome_iff.mp ?_, fun a ha => ?_⟩
    · rw [h1]
      rfl
    · rw [h2]
      rfl
    · have hto : (nullable (varchar 42) tx.toAddress).isSome := by
        rw [h3]
        rfl
      exact varchar_isSome_iff.mp (nullable_isSome_iff.mp hto a ha)
  · intro h
    obtain ⟨hash, h1⟩ := Option.isSome_iff_exists.mp (varchar_isSome_iff.mpr h.hash)
    obtain ⟨src, h2⟩ := Option.isSome_iff_exists.mp (varchar_isSome_iff.mpr h.fromAddress)
    have hto : (nullable (varchar 42) tx.toAddress).isSome :=
      nullable_isSome_iff.mpr fun a ha => varchar_isSome_iff.mpr (h.toAddress a ha)
    obtain ⟨dst, h3⟩ := Option.isSome_iff_exists.mp hto
    simp only [TransactionRow.ofModel, Option.bind_eq_bind, h1, h2, h3, Option.bind_some]
    rfl

/-- **The transfers that become rows**, once they have a timestamp. -/
theorem tokenTransferRow_isSome_iff {tt : TokenTransferModel} (ht : tt.timestamp.isSome) :
    (TokenTransferRow.ofModel tt).isSome ↔ tt.FitsColumns := by
  obtain ⟨t, ht⟩ := Option.isSome_iff_exists.mp ht
  constructor
  · intro h
    obtain ⟨r, hr⟩ := Option.isSome_iff_exists.mp h
    simp only [TokenTransferRow.ofModel, Option.bind_eq_bind, Option.bind_eq_some_iff] at hr
    obtain ⟨hash, h1, idx, h2, t, -, token, h3, src, h4, dst, h5, -⟩ := hr
    refine ⟨varchar_isSome_iff.mp ?_, int4_isSome_iff.mp ?_, varchar_isSome_iff.mp ?_,
      varchar_isSome_iff.mp ?_, varchar_isSome_iff.mp ?_⟩
    · rw [h1]
      rfl
    · rw [h2]
      rfl
    · rw [h3]
      rfl
    · rw [h4]
      rfl
    · rw [h5]
      rfl
  · intro h
    obtain ⟨hash, h1⟩ := Option.isSome_iff_exists.mp (varchar_isSome_iff.mpr h.transactionHash)
    obtain ⟨idx, h2⟩ := Option.isSome_iff_exists.mp (int4_isSome_iff.mpr h.logIndex)
    obtain ⟨token, h3⟩ := Option.isSome_iff_exists.mp (varchar_isSome_iff.mpr h.tokenAddress)
    obtain ⟨src, h4⟩ := Option.isSome_iff_exists.mp (varchar_isSome_iff.mpr h.fromAddress)
    obtain ⟨dst, h5⟩ := Option.isSome_iff_exists.mp (varchar_isSome_iff.mpr h.toAddress)
    simp only [TokenTransferRow.ofModel, Option.bind_eq_bind, h1, h2, h3, h4, h5, ht,
      Option.bind_some]
    rfl

/-! ### Buffers that fit -/

variable {D : Deployment} {cs : List Choice} {v u : View} {w w₀ : World}

/-- The transaction becomes a row and, if it is a whale, has an alert. -/
def TransactionModel.Accommodated (D : Deployment) (tx : TransactionModel) : Prop :=
  tx.FitsColumns ∧ (D.whaleThresholdWei ≤ tx.value → hasAlert tx)

/-- What the model makes of the message at `pos`, if it accepts it, is accommodated. -/
def RecordFits (D : Deployment) (pos : Position) : Prop :=
  ∀ raw, D.message pos = some raw →
    match pos.topic with
    | .blocks => True
    | .transactions => ∀ now tx, AcceptsTransaction D raw now tx → tx.Accommodated D
    | .tokenTransfers => ∀ now tt, AcceptsTokenTransfer D raw now tt → tt.FitsColumns

/-- Everything buffered is accommodated. -/
structure RecordsFit (D : Deployment) (v : View) : Prop where
  transactions : ∀ tx ∈ v.txBatch, tx.Accommodated D
  tokens : ∀ tt ∈ v.tokenBatch, tt.FitsColumns ∧ tt.timestamp.isSome

theorem RecordsFit.fits (h : RecordsFit D v) : v.Fits D := by
  constructor
  · obtain ⟨T, hT⟩ := Option.isSome_iff_exists.mp (Tables.insertTransactionsBatch_isSome
      (T := v.db) fun tx htx => transactionRow_isSome_iff.mpr (h.transactions tx htx).1)
    unfold View.stored
    rw [hT]
    exact Tables.insertTokenTransfersBatch_isSome fun tt htt =>
      (tokenTransferRow_isSome_iff (h.tokens tt htt).2).mpr (h.tokens tt htt).1
  · intro tx htx
    obtain ⟨htx, hwhale⟩ := mem_whaleTransactions.mp htx
    exact (h.transactions tx htx).2 hwhale

theorem RecordsFit.empty (htx : v.txBatch = []) (htoken : v.tokenBatch = []) :
    RecordsFit D v := by
  constructor
  · rw [htx]
    intro tx hmem
    cases hmem
  · rw [htoken]
    intro tt hmem
    cases hmem

/-- What fits is flushed. -/
theorem RecordsFit.flushed (h : RecordsFit D v) :
    (v.flushed D).txBatch = [] ∧ (v.flushed D).tokenBatch = [] := by
  obtain ⟨T, hT⟩ := Option.isSome_iff_exists.mp h.fits.1
  rw [View.flushed_of_announceable hT h.fits.2]
  exact ⟨rfl, rfl⟩

theorem RecordsFit.settle (hsize : 0 < D.batchSize) (h : RecordsFit D v) :
    RecordsFit D (v.settle D) ∧ (v.settle D).buffered < D.batchSize := by
  unfold View.settle
  by_cases hfull : D.batchSize ≤ v.buffered
  · obtain ⟨htx, htoken⟩ := h.flushed
    rw [if_pos hfull]
    refine ⟨.empty htx htoken, ?_⟩
    unfold View.buffered
    rw [htx, htoken]
    exact hsize
  · rw [if_neg hfull]
    exact ⟨h, by omega⟩

theorem json_of_payload {raw : RawValue} {data : Json} (h : payload raw = some data) :
    raw = .json data := by
  cases raw with
  | tombstone => cases h
  | undecodable => cases h
  | json data' =>
    cases data' with
    | null => cases h
    | _ => exact congrArg RawValue.json (Option.some.inj h)

theorem fits_of_dated {tt tt' : TokenTransferModel} (htt : tt.FitsColumns)
    (h : v.dated tt = some tt') : tt'.FitsColumns ∧ tt'.timestamp.isSome := by
  unfold View.dated at h
  split at h
  · next hsome =>
    obtain rfl := Option.some.inj h
    exact ⟨htt, hsome⟩
  · obtain ⟨text, -, rfl⟩ := Option.map_eq_some_iff.mp h
    exact ⟨{ htt with }, rfl⟩

theorem RecordsFit.receive {pos : Position} {data : Json} {now : Timestamp} (h : RecordsFit D v)
    (hm : D.message pos = some (.json data)) (hfits : RecordFits D pos)
    (hu : v.receive D now data pos.topic = .ok u) : RecordsFit D u := by
  have hrecord := hfits _ hm
  cases htopic : pos.topic with
  | blocks =>
    rw [htopic] at hu
    cases hc : construct (BlockModel.validate D.pydantic) data with
    | error e =>
      simp only [View.receive, hc] at hu
      cases hu
    | ok block =>
      simp only [View.receive, hc] at hu
      obtain rfl := Except.ok.inj hu
      exact ⟨h.transactions, h.tokens⟩
  | transactions =>
    rw [htopic] at hu hrecord
    cases hc : construct (TransactionModel.validate D.pydantic now) data with
    | error e =>
      simp only [View.receive, hc] at hu
      cases hu
    | ok tx =>
      simp only [View.receive, hc] at hu
      obtain rfl := Except.ok.inj hu
      refine ⟨fun tx' htx' => ?_, h.tokens⟩
      rcases List.mem_append.mp htx' with htx' | htx'
      · exact h.transactions tx' htx'
      · obtain rfl := List.mem_singleton.mp htx'
        exact hrecord now tx' ⟨data, rfl, hc⟩
  | tokenTransfers =>
    rw [htopic] at hu hrecord
    cases hc : construct (TokenTransferModel.validate D.pydantic now) data with
    | error e =>
      simp only [View.receive, hc] at hu
      cases hu
    | ok tt =>
      simp only [View.receive, hc] at hu
      obtain rfl := Except.ok.inj hu
      refine ⟨h.transactions, fun tt' htt' => ?_⟩
      rcases List.mem_append.mp htt' with htt' | htt'
      · exact h.tokens tt' htt'
      · exact fits_of_dated (hrecord now tt ⟨data, rfl, hc⟩) (Option.mem_toList.mp htt')

/-- An event of the run adds a record that fits, if its message's records do. -/
theorem RecordsFit.arrive {e : Event} (h : RecordsFit D v) (he : e.From D cs)
    (hfits : ∀ pos ∈ e.position, RecordFits D pos) : RecordsFit D (v.arrive D e) := by
  cases e with
  | expired n => exact ⟨h.transactions, h.tokens⟩
  | message pos raw now =>
    unfold View.arrive
    dsimp only
    cases hp : payload raw with
    | none => exact h
    | some data =>
      obtain rfl := json_of_payload hp
      rw [Option.bind_some]
      cases hu : v.receive D now data pos.topic with
      | error e => exact h
      | ok u => exact h.receive he.1 (hfits pos rfl) hu

/-- **Over messages whose records fit, the buffers stay below `batchSize`.** -/
theorem RecordsFit.replay (hsize : 0 < D.batchSize) {es : List Event}
    (hes : ∀ e ∈ es, e.From D cs) (hfits : ∀ pos ∈ positions es, RecordFits D pos)
    (h : RecordsFit D v) (hroom : v.buffered < D.batchSize) :
    RecordsFit D (v.replay D es) ∧ (v.replay D es).buffered < D.batchSize := by
  induction es generalizing v with
  | nil => exact ⟨h, hroom⟩
  | cons e es ih =>
    have hposition : ∀ pos ∈ e.position, RecordFits D pos := by
      intro pos hpos
      apply hfits
      exact List.mem_filterMap.mpr ⟨e, List.mem_cons_self, hpos⟩
    obtain ⟨hstep, hroom'⟩ := (h.arrive (hes e List.mem_cons_self) hposition).settle hsize
    apply ih
    · exact fun e' he' => hes e' (List.mem_cons_of_mem _ he')
    · intro pos hpos
      obtain ⟨e', he', hpos'⟩ := List.mem_filterMap.mp hpos
      exact hfits pos (List.mem_filterMap.mpr ⟨e', List.mem_cons_of_mem _ he', hpos'⟩)
    · exact hstep
    · exact hroom'

theorem RecordsFit.came {es : List Event} (h : RecordsFit D v) (hcame : Came D cs v es u)
    (hfits : ∀ pos ∈ positions es, RecordFits D pos) : RecordsFit D u := by
  cases hcame with
  | nothing => exact h
  | message hns hm hnow =>
    rw [positions_message] at hfits
    have hfrom : Event.From D cs (.message _ _ _) := ⟨hm, hnow⟩
    refine RecordsFit.arrive (v := v.expire _) ⟨h.transactions, h.tokens⟩ hfrom ?_
    intro pos hpos
    obtain rfl := Option.some.inj hpos
    exact hfits _ List.mem_cons_self

/-! ### Every flush of a run -/

/-- A flush of what fits does not raise. -/
theorem flushBatches_of_recordsFit {ps : List Position} {rest : List Choice}
    (h : RecordsFit D v) (hhas : Has cs ps v w) (hrest : ∀ c ∈ rest, Among cs c) (e : Exc) :
    (flushBatches D w rest).outcome ≠ .raised e := by
  have hmeets := (flushBatches_healthy (D := D) w rest hhas hrest).2
  intro hraised
  rw [hraised] at hmeets
  exact hmeets.2.1 h.fits

/-- What holds where a flush may begin: what is buffered fits if the records polled do. -/
def FitsSince (D : Deployment) (cs : List Choice) (w₀ w : World) : Prop :=
  ∃ es v, Has cs ((positions es).reverse ++ w₀.polled) v w ∧
    ((∀ pos ∈ positions es, RecordFits D pos) → RecordsFit D v)

/-- The same between two rounds: nothing is left of a full buffer. -/
def RoomSince (D : Deployment) (cs : List Choice) (w₀ w : World) : Prop :=
  ∃ es v, Has cs ((positions es).reverse ++ w₀.polled) v w ∧
    ((∀ pos ∈ positions es, RecordFits D pos) → RecordsFit D v ∧ v.buffered < D.batchSize)

theorem Absorbed.room (hsize : 0 < D.batchSize) {es : List Event}
    (h : Absorbed D cs w₀.restart es w) : RoomSince D cs w₀ w := by
  refine ⟨es, _, h.has, fun hfits => ?_⟩
  apply RecordsFit.replay hsize h.from_run hfits
  · exact .empty rfl rfl
  · exact hsize

theorem iterations_absorbed (w : World) (n : ℕ) :
    Triple (Among cs) (· = w.restart) (iterations (round D) n)
      (fun _ w' => ∃ es, Absorbed D cs w.restart es w' ∧ ∀ pos ∈ positions es, ¬Bare D pos)
      (fun _ w' => ∃ es, Absorbed D cs w.restart es w') fun _ => True := by
  have hround : Triple (Among cs) _ (round D) _ _ _ := round_healthy (restart_settled D w)
  refine Triple.conseq (Triple.iterations (J := fun w' => ∃ es, Absorbed D cs w.restart es w' ∧
    ∀ pos ∈ positions es, ¬Bare D pos) (Q := fun w' => ∃ es, Absorbed D cs w.restart es w' ∧
    ∀ pos ∈ positions es, ¬Bare D pos) (E := fun _ w' => ∃ es, Absorbed D cs w.restart es w')
    ?_ n) ?_ ?_ fun _ _ h => h
  · refine hround.conseq (fun _ h => h) (fun again w' h => ?_) ?_
    · cases again <;> exact h
    · rintro e w' ⟨es, h, -⟩
      exact ⟨es, h⟩
  · rintro w' rfl
    exact ⟨[], .start D cs w, by simp [positions]⟩
  · intro again w' h
    cases again <;> exact h

/-- Where a round may flush. -/
theorem atFlush_healthy (hsize : 0 < D.batchSize) (w : World) (n : ℕ) :
    Triple (Among cs) (· = w.restart)
      (iterations (round D) n >>= fun again => if again then beforeFlush D else pure none)
      (fun _ w' => FitsSince D cs w w') (fun _ _ => True) fun _ => True := by
  refine Triple.bind ((iterations_absorbed w n).conseq (fun _ h => h) (fun _ _ h => h)
    fun _ _ _ => trivial) fun again => ?_
  apply Triple.of_exists
  rintro es w' cs' ⟨h, -⟩ hH
  obtain ⟨hes, hhas⟩ := h
  have hv : (w.restart.view.replay D es).settle D = w.restart.view.replay D es :=
    View.replay_settled (restart_settled D w)
  have hrecords : (∀ pos ∈ positions es, RecordFits D pos) →
      RecordsFit D (w.restart.view.replay D es) := fun hfits =>
    (RecordsFit.replay (v := w.restart.view) hsize hes hfits (.empty rfl rfl) hsize).1
  cases again with
  | false => exact Triple.pure (fun w' h => ⟨es, _, h, hrecords⟩) w' cs' hhas hH
  | true =>
    refine (beforeFlush_healthy hv).conseq (fun _ h => h) ?_ (fun _ _ _ => trivial) w' cs' hhas hH
    rintro flushing w' ⟨es', u, hcame, -, -, h⟩
    refine ⟨es ++ es', u, ?_, fun hfits => ?_⟩
    · rw [positions_append, List.reverse_append, List.append_assoc]
      exact h
    · rw [positions_append] at hfits
      refine (hrecords fun pos hpos => ?_).came hcame fun pos hpos => ?_
      · exact hfits pos (List.mem_append_left _ hpos)
      · exact hfits pos (List.mem_append_right _ hpos)

theorem polled_eq {es : List Event} {ps : List Position} {v : View}
    (h : Has cs ((positions es).reverse ++ w₀.polled) v w)
    (hps : w.polled = ps.reverse ++ w₀.polled) : positions es = ps := by
  rw [h.polled] at hps
  exact List.reverse_injective (List.append_cancel_right hps)

/-- `n` rounds of a new process. -/
def afterRounds (D : Deployment) (w : World) (cs : List Choice) (n : ℕ) :
    Result World Choice Exc Bool :=
  iterations (round D) n w.restart cs

/-- `n` rounds of a new process, and the next one up to its flush. -/
def atFlush (D : Deployment) (w : World) (cs : List Choice) (n : ℕ) :
    Result World Choice Exc (Option Bool) :=
  (iterations (round D) n >>= fun again => if again then beforeFlush D else pure none) w.restart cs

/-- **A record becomes a row exactly when it fits the columns; and as long as the records
a healthy run polls fit, every flush succeeds and the buffers stay below `batchSize`.** -/
theorem fitting_records_flush (D : Deployment) (w : World) (cs : List Choice) (n : ℕ)
    (ps : List Position) (hsize : 0 < D.batchSize) (hcs : ∀ c ∈ cs, c.Healthy)
    (hfits : ∀ pos ∈ ps, RecordFits D pos) :
    (∀ tx, (TransactionRow.ofModel tx).isSome ↔ tx.FitsColumns) ∧
    (∀ tt : TokenTransferModel, tt.timestamp.isSome →
      ((TokenTransferRow.ofModel tt).isSome ↔ tt.FitsColumns)) ∧
    (∀ r, r = afterRounds D w cs n → r.outcome ≠ .cut → r.state.polled = ps.reverse ++ w.polled →
      r.state.buffered < D.batchSize ∧ ∀ e, (flushBatches D r.state r.rest).outcome ≠ .raised e) ∧
    ∀ r, r = atFlush D w cs n → r.outcome = .ok (some true) →
      r.state.polled = ps.reverse ++ w.polled →
      ∀ e, (flushBatches D r.state r.rest).outcome ≠ .raised e := by
  have hamong : ∀ c ∈ cs, Among cs c := fun c hc => ⟨hc, hcs c hc⟩
  refine ⟨fun tx => transactionRow_isSome_iff, fun tt => tokenTransferRow_isSome_iff, ?_, ?_⟩
  · rintro r rfl hcut hps
    have hmeets := iterations_absorbed (D := D) w n w.restart cs rfl hamong
    have hroom : RoomSince D cs w (afterRounds D w cs n).state := by
      have hstate := hmeets.2
      unfold afterRounds at hcut ⊢
      rcases hr : (iterations (round D) n w.restart cs).outcome with again | e | _
      · rw [hr] at hstate
        obtain ⟨es, h, -⟩ := hstate
        exact h.room hsize
      · rw [hr] at hstate
        obtain ⟨es, h⟩ := hstate
        exact h.room hsize
      · exact absurd hr hcut
    obtain ⟨es, v, hhas, hroom⟩ := hroom
    obtain rfl := polled_eq hhas hps
    obtain ⟨hrecords, hlt⟩ := hroom hfits
    obtain ⟨ns, -, hview⟩ := hhas.view
    have hbuffered : (afterRounds D w cs n).state.buffered = v.buffered :=
      congrArg View.buffered hview
    rw [hbuffered]
    exact ⟨hlt, flushBatches_of_recordsFit hrecords hhas hmeets.1⟩
  · rintro r rfl hok hps
    have hmeets := atFlush_healthy hsize w n w.restart cs rfl hamong
    have hstate := hmeets.2
    rw [show ((iterations (round D) n >>= fun again => if again then beforeFlush D else pure none)
      w.restart cs).outcome = .ok (some true) from hok] at hstate
    obtain ⟨es, v, hhas, hrecords⟩ := hstate
    obtain rfl := polled_eq hhas hps
    exact flushBatches_of_recordsFit (hrecords hfits) hhas hmeets.1

/-! ### A hash that is too long -/

/-- A transaction in the log, and batches of one. -/
def oneHash (hash : String) : Deployment where
  log := fun topic partition =>
    if topic = .transactions ∧ partition = 0 then
      [.json (.obj [("hash", .str hash), ("timestamp", .int 1700000000),
        ("from_address", .str "0xa")])]
    else []
  pydantic := .plain
  batchSize := 1

/-- A poll, and calls enough for a flush. -/
def onePoll : List Choice :=
  [.prompt .nothing, .prompt (.message .transactions 0)] ++ List.replicate 7 (.prompt .nothing)

theorem healthy_onePoll : ∀ c ∈ onePoll, c.Healthy := by
  intro c hc
  simp only [onePoll, List.cons_append, List.nil_append, List.mem_cons] at hc
  rcases hc with rfl | rfl | hc
  · exact Choice.healthy_prompt (by simp)
  · exact Choice.healthy_prompt (by simp)
  · obtain rfl := List.eq_of_mem_replicate hc
    exact Choice.healthy_prompt (by simp)

theorem recordFits_oneHash : RecordFits (oneHash "0xaa") ⟨.transactions, 0, 0⟩ := by
  rintro raw hm now tx ⟨data, rfl, hc⟩
  obtain rfl := RawValue.json.inj (Option.some.inj hm)
  obtain rfl := Except.ok.inj hc
  refine ⟨⟨?_, ?_, fun a ha => by cases ha⟩, fun hwhale => ?_⟩
  · show VarcharFits 66 "0xaa"
    decide
  · show VarcharFits 42 "0xa"
    decide
  · exact absurd hwhale (show ¬(100 * 10 ^ 18 : ℤ) ≤ 0 by decide)

theorem short_hash_flushed :
    ((afterRounds (oneHash "0xaa") (World.initial .empty fun _ => none) onePoll 1).state.buffered : ℤ)
      < (oneHash "0xaa").batchSize :=
  ((fitting_records_flush (oneHash "0xaa") (World.initial .empty fun _ => none) onePoll 1
    [⟨.transactions, 0, 0⟩] (by decide) healthy_onePoll (by simpa using recordFits_oneHash)).2.2.1
    _ rfl (by decide +kernel) (by decide +kernel)).1

/-- **A hash of 67 characters is accepted, and its batch is never stored.** -/
theorem long_hash_kept :
    (∀ c ∈ onePoll, c.Healthy) ∧
      (afterRounds (oneHash (String.ofList (List.replicate 67 'a')))
        (World.initial .empty fun _ => none) onePoll 1).outcome = .ok true ∧
      (afterRounds (oneHash (String.ofList (List.replicate 67 'a')))
        (World.initial .empty fun _ => none) onePoll 1).state.buffered = 1 := by
  refine ⟨healthy_onePoll, ?_, ?_⟩
  · decide +kernel
  · decide +kernel

end Consumer

import EthPipeline.Frontend.WhaleHook

/-!
# The order of the dashboard's list

The list of `useWhaleWebSocket` with readable timestamps.  A response is merged in
and the list sorted, and an alert is put in front of it, wherever it belongs.

* `onResponse_correct`: what a merge makes of the list, and that a second merge of
  the same response changes nothing.
* `newestFirst_iff_inOrder`: the list stays sorted, newest first, just when no alert
  is older than an entry it is put in front of.
* `late_alert_in_front`: two alerts that arrive in the other order.
-/

namespace Frontend

open Backend Run

/-- Both times are readable, and that of `b` is not later. -/
def NotOlder (B : Browser) (a b : WhaleAlert) : Prop :=
  (time B a).isSome ∧ (time B b).isSome ∧ newestFirst B a b

instance (B : Browser) (a b : WhaleAlert) : Decidable (NotOlder B a b) :=
  inferInstanceAs (Decidable (_ ∧ _ ∧ _))

/-! ### The comparator on readable times -/

def rank (B : Browser) (a : WhaleAlert) : ℤ := (time B a).getD 0

def rankLe (B : Browser) (a b : WhaleAlert) : Bool := rank B b ≤ rank B a

theorem rankLe_trans (B : Browser) (a b c : WhaleAlert) (hab : rankLe B a b)
    (hbc : rankLe B b c) : rankLe B a c := by
  have hab : rank B b ≤ rank B a := of_decide_eq_true hab
  have hbc : rank B c ≤ rank B b := of_decide_eq_true hbc
  exact decide_eq_true (hbc.trans hab)

theorem rankLe_total (B : Browser) (a b : WhaleAlert) : rankLe B a b || rankLe B b a := by
  have h := le_total (rank B b) (rank B a)
  simpa [rankLe] using h

theorem newestFirst_eq_rankLe {B : Browser} {a b : WhaleAlert} (ha : (time B a).isSome)
    (hb : (time B b).isSome) : newestFirst B a b = rankLe B a b := by
  obtain ⟨ta, hta⟩ := Option.isSome_iff_exists.mp ha
  obtain ⟨tb, htb⟩ := Option.isSome_iff_exists.mp hb
  simp [newestFirst, rankLe, rank, hta, htb]

theorem notOlder_iff {B : Browser} {a b : WhaleAlert} (ha : (time B a).isSome)
    (hb : (time B b).isSome) : NotOlder B a b ↔ rankLe B a b := by
  rw [NotOlder, newestFirst_eq_rankLe ha hb]
  exact ⟨fun h => h.2.2, fun h => ⟨ha, hb, h⟩⟩

theorem pairwise_notOlder_iff {B : Browser} {xs : List WhaleAlert}
    (hread : ∀ a ∈ xs, (time B a).isSome) :
    xs.Pairwise (NotOlder B) ↔ xs.Pairwise (rankLe B · ·) := by
  constructor
  · exact fun h => h.imp_of_mem fun ha hb hab => (notOlder_iff (hread _ ha) (hread _ hb)).mp hab
  · exact fun h => h.imp_of_mem fun ha hb hab => (notOlder_iff (hread _ ha) (hread _ hb)).mpr hab

/-- On readable times the comparator sorts by them. -/
theorem sorted_eq_rank {B : Browser} {messages fetched : List WhaleAlert}
    (hread : ∀ a ∈ messages ++ fetched, (time B a).isSome) :
    (fetched.foldl (Feed.push WhaleAlert.id) messages).mergeSort (newestFirst B) =
      (fetched.foldl (Feed.push WhaleAlert.id) messages).mergeSort (rankLe B) :=
  Feed.merge_congr fun a ha b hb => newestFirst_eq_rankLe (hread a ha) (hread b hb)

theorem merge_eq_rank {B : Browser} {messages fetched : List WhaleAlert}
    (hread : ∀ a ∈ messages ++ fetched, (time B a).isSome) :
    Feed.merge WhaleAlert.id (newestFirst B) maxAlerts messages fetched =
        Feed.merge WhaleAlert.id (rankLe B) maxAlerts messages fetched ∧
      Feed.mergeRest WhaleAlert.id (newestFirst B) maxAlerts messages fetched =
        Feed.mergeRest WhaleAlert.id (rankLe B) maxAlerts messages fetched := by
  rw [Feed.merge, Feed.mergeRest, sorted_eq_rank hread]
  exact ⟨rfl, rfl⟩

/-! ### One merge -/

/-- `merged` is the list that `messages` and `fetched` come to. -/
structure MergeOf (B : Browser) (messages fetched merged : List WhaleAlert) : Prop where
  distinct : (merged.map (·.id)).Nodup
  sorted : merged.Pairwise (NotOlder B)
  short : merged.length ≤ maxAlerts
  source : ∀ a ∈ merged, a ∈ messages ∨ a ∈ fetched
  /-- An entry whose id is left out is not newer than any that is kept. -/
  omitted : ∀ a, a ∈ messages ∨ a ∈ fetched → (∀ b ∈ merged, b.id ≠ a.id) →
    merged.length = maxAlerts ∧ ∀ b ∈ merged, NotOlder B b a
  first : ∀ a ∈ merged, ∀ p ∈ messages, p.id = a.id → a = p

theorem mergeOf_merge {B : Browser} {messages fetched : List WhaleAlert}
    (hids : (messages.map (·.id)).Nodup)
    (hread : ∀ a ∈ messages ++ fetched, (time B a).isSome)
    (hsame : ∀ a ∈ messages ++ fetched, ∀ b ∈ messages ++ fetched, a.id = b.id →
      time B a = time B b) :
    MergeOf B messages fetched
      (Feed.merge WhaleAlert.id (newestFirst B) maxAlerts messages fetched) := by
  have hsource : ∀ a ∈ Feed.merge WhaleAlert.id (newestFirst B) maxAlerts messages fetched,
      a ∈ messages ∨ a ∈ fetched := fun a ha => Feed.mem_of_mem_merge ha
  refine ⟨?_, ?_, Feed.length_merge_le .., hsource, ?_, ?_⟩
  · exact Feed.nodup_merge hids fun a _ p _ hid => hid
  · rw [pairwise_notOlder_iff fun a ha => hread a (List.mem_append.mpr (hsource a ha)),
      (merge_eq_rank hread).1]
    exact (List.pairwise_append.mp
      (Feed.pairwise_sorted (rankLe_trans B) (rankLe_total B))).1
  · intro a ha hnot
    rw [(merge_eq_rank hread).1] at hnot hsource ⊢
    obtain ⟨hfull, p, hp, hid, hle⟩ := Feed.cut_of_not_shows_merge (rankLe_trans B)
      (rankLe_total B) ha fun ⟨b, hb, hid⟩ => hnot b hb hid
    refine ⟨hfull, fun b hb => ?_⟩
    have hmem := List.mem_append.mpr ha
    have hrank : rank B p = rank B a := by
      rw [rank, rank, hsame p (List.mem_append.mpr hp) a hmem hid]
    rw [notOlder_iff (hread b (List.mem_append.mpr (hsource b hb))) (hread a hmem), rankLe, ← hrank]
    exact hle b hb
  · exact fun a ha p hp hid => Feed.eq_of_mem_merge hids ha hp hid

/-- **A merge of a response.** -/
theorem onResponse_correct (B : Browser) (messages : List WhaleAlert) (whales : List Payload)
    (hids : (messages.map (·.id)).Nodup)
    (hread : ∀ a ∈ messages ++ whales.map fetchedAlert, (time B a).isSome)
    (hsame : ∀ a ∈ messages ++ whales.map fetchedAlert, ∀ b ∈ messages ++ whales.map fetchedAlert,
      a.id = b.id → time B a = time B b) :
    MergeOf B messages (whales.map fetchedAlert) (onResponse B messages whales) ∧
      onResponse B (onResponse B messages whales) whales = onResponse B messages whales := by
  refine ⟨mergeOf_merge hids hread hsame, ?_⟩
  have hmerged : ∀ a ∈ onResponse B messages whales ++ whales.map fetchedAlert,
      (time B a).isSome := by
    intro a ha
    refine hread a (List.mem_append.mpr ?_)
    rcases List.mem_append.mp ha with ha | ha
    · exact Feed.mem_of_mem_merge ha
    · exact .inr ha
  have hagain := (merge_eq_rank hmerged).1
  have honce := (merge_eq_rank hread).1
  rw [onResponse, hagain, onResponse, honce]
  refine Feed.merge_merge (rankLe_trans B) (rankLe_total B) fun a p ha hp hid b hle => ?_
  have hrank : rank B p = rank B a := by
    rw [rank, rank, hsame p (List.mem_append.mpr hp) a (List.mem_append.mpr ha) hid]
  rwa [rankLe, ← hrank]

/-- A row of a response with a hash and the text of its time. -/
def row (hash time : String) : Payload := [("hash", .str hash), ("timestamp", .str time)]

/-- A browser, on the times of two instants. -/
def atTwoInstants : Browser :=
  ⟨fun s => if s = "2023-11-14T22:13:20Z" then some 1700000000000
    else if s = "2023-11-14T22:13:32Z" then some 1700000012000 else none⟩

/-- The older of two rows is in the list. -/
theorem two_rows_merged_twice :
    onResponse atTwoInstants (onResponse atTwoInstants [fetchedAlert (row "0xa1" "2023-11-14T22:13:20Z")]
        [row "0xa2" "2023-11-14T22:13:32Z", row "0xa1" "2023-11-14T22:13:20Z"])
        [row "0xa2" "2023-11-14T22:13:32Z", row "0xa1" "2023-11-14T22:13:20Z"] =
      onResponse atTwoInstants [fetchedAlert (row "0xa1" "2023-11-14T22:13:20Z")]
        [row "0xa2" "2023-11-14T22:13:32Z", row "0xa1" "2023-11-14T22:13:20Z"] :=
  (onResponse_correct _ _ _ (by decide) (by decide +kernel) (by decide +kernel)).2

/-! ### The list and what fell out of it -/

/-- The times an event brings are readable. -/
def Readable (B : Browser) : HookEvent → Prop
  | .message data fresh now => ∀ alert ∈ liveAlert data fresh now, (time B alert).isSome
  | .response whales => ∀ a ∈ whales.map fetchedAlert, (time B a).isSome

/-- The list, and the entries that were cut off it so far. -/
structure Alerts where
  shown : List WhaleAlert
  dropped : List WhaleAlert

/-- What an event cuts off. -/
def cutOff (B : Browser) (messages : List WhaleAlert) : HookEvent → List WhaleAlert
  | .message data fresh now =>
    match liveAlert data fresh now with
    | some alert => Feed.prependRest WhaleAlert.id maxAlerts messages alert
    | none => []
  | .response whales =>
    Feed.mergeRest WhaleAlert.id (newestFirst B) maxAlerts messages (whales.map fetchedAlert)

def alertStep (B : Browser) (s : Alerts) (e : {e : HookEvent // Readable B e}) : Option Alerts :=
  some ⟨hookStep B s.shown e, s.dropped ++ cutOff B s.shown e⟩

/-- The list is sorted and short, and nothing that fell out of it is newer than an entry. -/
structure NewestFirst (B : Browser) (s : Alerts) : Prop where
  sorted : s.shown.Pairwise (NotOlder B)
  short : s.shown.length ≤ maxAlerts
  dropped : ∀ d ∈ s.dropped, ∀ a ∈ s.shown, NotOlder B a d

/-- An alert that gets into the list is not older than its entries. -/
def InOrder (B : Browser) (s : Alerts) (e : {e : HookEvent // Readable B e}) : Prop :=
  match e.1 with
  | .message data fresh now => ∀ alert ∈ liveAlert data fresh now,
      ¬Feed.Shows WhaleAlert.id s.shown alert → ∀ p ∈ s.shown, NotOlder B alert p
  | .response _ => True

/-- Times stay readable, and something is cut off a full list only. -/
structure Kept (B : Browser) (s : Alerts) : Prop where
  readable : ∀ a ∈ s.shown ++ s.dropped, (time B a).isSome
  full : s.dropped ≠ [] → s.shown.length = maxAlerts
  short : s.shown.length ≤ maxAlerts

/-- All that an event can do: the list stays, an alert is put in front of it, or a response
is merged in. -/
theorem alertStep_cases {B : Browser} {s s' : Alerts} {e : {e : HookEvent // Readable B e}}
    (h : alertStep B s e = some s') :
    (s' = s ∧ (InOrder B s e ↔ True)) ∨
      (∃ a, (time B a).isSome ∧ ¬Feed.Shows WhaleAlert.id s.shown a ∧
        s' = ⟨(a :: s.shown).take maxAlerts, s.dropped ++ (a :: s.shown).drop maxAlerts⟩ ∧
        (InOrder B s e ↔ ∀ p ∈ s.shown, NotOlder B a p)) ∨
      ∃ fetched, (∀ a ∈ fetched, (time B a).isSome) ∧
        s' = ⟨Feed.merge WhaleAlert.id (newestFirst B) maxAlerts s.shown fetched,
          s.dropped ++ Feed.mergeRest WhaleAlert.id (newestFirst B) maxAlerts s.shown fetched⟩ ∧
        (InOrder B s e ↔ True) := by
  obtain ⟨e, he⟩ := e
  obtain rfl := Option.some.inj h
  cases e with
  | response whales => exact .inr (.inr ⟨_, he, rfl, Iff.rfl⟩)
  | message data fresh now =>
    cases halert : liveAlert data fresh now with
    | none =>
      refine .inl ⟨?_, ?_⟩
      · simp [hookStep, onMessage, cutOff, halert]
      · simp [InOrder, halert]
    | some a =>
      by_cases hshows : Feed.Shows WhaleAlert.id s.shown a
      · have hkeep : Feed.prepend WhaleAlert.id maxAlerts s.shown a = s.shown ∧
            Feed.prependRest WhaleAlert.id maxAlerts s.shown a = [] := Feed.prepend_of_shows hshows
        refine .inl ⟨?_, ?_⟩
        · simp [hookStep, onMessage, cutOff, halert, hkeep]
        · simp [InOrder, halert, hshows]
      · have hfront : Feed.prepend WhaleAlert.id maxAlerts s.shown a =
              (a :: s.shown).take maxAlerts ∧
            Feed.prependRest WhaleAlert.id maxAlerts s.shown a = (a :: s.shown).drop maxAlerts :=
          Feed.prepend_of_not_shows hshows
        refine .inr (.inl ⟨a, he a halert, hshows, ?_, ?_⟩)
        · simp [hookStep, onMessage, cutOff, halert, hfront]
        · simp [InOrder, halert, hshows]

theorem kept_step {B : Browser} {s s' : Alerts} {e : {e : HookEvent // Readable B e}}
    (h : alertStep B s e = some s') (hs : Kept B s) : Kept B s' := by
  obtain ⟨hread, hfull, hshort⟩ := hs
  obtain ⟨rfl, -⟩ | ⟨a, ha, -, rfl, -⟩ | ⟨fetched, hfetched, rfl, -⟩ := alertStep_cases h
  · exact ⟨hread, hfull, hshort⟩
  · have hcons : ∀ b ∈ a :: s.shown, (time B b).isSome := by
      intro b hb
      rcases List.mem_cons.mp hb with rfl | hb
      · exact ha
      · exact hread b (List.mem_append_left _ hb)
    refine ⟨fun b hb => ?_, fun hne => ?_, ?_⟩
    · simp only [List.mem_append] at hb
      rcases hb with hb | hb | hb
      · exact hcons b (List.mem_of_mem_take hb)
      · exact hread b (List.mem_append_right _ hb)
      · exact hcons b (List.mem_of_mem_drop hb)
    · rw [List.length_take, List.length_cons]
      by_cases hdropped : s.dropped = []
      · rw [hdropped, List.nil_append] at hne
        have hpos := List.length_pos_of_ne_nil hne
        rw [List.length_drop, List.length_cons] at hpos
        omega
      · rw [hfull hdropped]
        omega
    · rw [List.length_take]
      exact min_le_left ..
  · have hall : ∀ b, b ∈ s.shown ∨ b ∈ fetched → (time B b).isSome := by
      rintro b (hb | hb)
      · exact hread b (List.mem_append_left _ hb)
      · exact hfetched b hb
    refine ⟨fun b hb => ?_, fun hne => ?_, Feed.length_merge_le ..⟩
    · simp only [List.mem_append] at hb
      rcases hb with hb | hb | hb
      · exact hall b (Feed.mem_of_mem_merge hb)
      · exact hread b (List.mem_append_right _ hb)
      · exact hall b (Feed.mem_of_mem_mergeRest hb)
    · by_cases hdropped : s.dropped = []
      · rw [hdropped, List.nil_append] at hne
        exact Feed.length_merge_of_rest hne
      · exact Feed.length_merge_of_full fetched (hfull hdropped).ge

/-- In front of a sorted list an alert must not be older than any entry. -/
theorem newestFirst_front_iff {B : Browser} {s : Alerts} {a : WhaleAlert} (hs : Kept B s)
    (hnew : NewestFirst B s) (ha : (time B a).isSome) :
    NewestFirst B ⟨(a :: s.shown).take maxAlerts,
      s.dropped ++ (a :: s.shown).drop maxAlerts⟩ ↔ ∀ p ∈ s.shown, NotOlder B a p := by
  have hread : ∀ p ∈ s.shown, (time B p).isSome := fun p hp =>
    hs.readable p (List.mem_append_left _ hp)
  have hcons : ∀ p ∈ a :: s.shown, (time B p).isSome := by
    intro p hp
    rcases List.mem_cons.mp hp with rfl | hp
    · exact ha
    · exact hread p hp
  have hsorted := (pairwise_notOlder_iff hread).mp hnew.sorted
  have hfront : ((a :: s.shown).take maxAlerts).Pairwise (NotOlder B) ↔
      ∀ p ∈ s.shown, NotOlder B a p := by
    rw [pairwise_notOlder_iff fun p hp => hcons p (List.mem_of_mem_take hp),
      Feed.pairwise_take_cons_iff (rankLe_trans B) (by decide) hsorted]
    exact forall₂_congr fun p hp => (notOlder_iff ha (hread p hp)).symm
  refine ⟨fun h => hfront.mp h.sorted, fun h => ⟨hfront.mpr h, ?_, ?_⟩⟩
  · rw [List.length_take]
    exact min_le_left ..
  · intro d hd b hb
    rcases List.mem_append.mp hd with hbefore | hd
    · -- something was dropped before, so the list is not empty
      rcases List.mem_cons.mp (List.mem_of_mem_take hb) with rfl | hb
      · have hlong := hs.full (List.ne_nil_of_mem hbefore)
        obtain ⟨p, hp⟩ := List.exists_mem_of_length_pos (by rw [hlong]; decide)
        have hdread := hs.readable d (List.mem_append_right _ hbefore)
        have hpd := (notOlder_iff (hread p hp) hdread).mp (hnew.dropped d hbefore p hp)
        have hbp := (notOlder_iff ha (hread p hp)).mp (h p hp)
        exact (notOlder_iff ha hdread).mpr (rankLe_trans B _ _ _ hbp hpd)
      · exact hnew.dropped d hbefore b hb
    · have hall : (a :: s.shown).Pairwise (NotOlder B) :=
        List.pairwise_cons.mpr ⟨h, hnew.sorted⟩
      rw [← List.take_append_drop maxAlerts (a :: s.shown)] at hall
      exact (List.pairwise_append.mp hall).2.2 b hb d hd

theorem newestFirst_merge {B : Browser} {s : Alerts} {fetched : List WhaleAlert} (hs : Kept B s)
    (hnew : NewestFirst B s) (hfetched : ∀ a ∈ fetched, (time B a).isSome) :
    NewestFirst B ⟨Feed.merge WhaleAlert.id (newestFirst B) maxAlerts s.shown fetched,
      s.dropped ++ Feed.mergeRest WhaleAlert.id (newestFirst B) maxAlerts s.shown fetched⟩ := by
  have hall : ∀ b ∈ s.shown ++ fetched, (time B b).isSome := by
    intro b hb
    rcases List.mem_append.mp hb with hb | hb
    · exact hs.readable b (List.mem_append_left _ hb)
    · exact hfetched b hb
  obtain ⟨hmerge, hrest⟩ := merge_eq_rank hall
  rw [hmerge, hrest]
  have hread : ∀ b, b ∈ s.shown ∨ b ∈ fetched → (time B b).isSome :=
    fun b hb => hall b (List.mem_append.mpr hb)
  have hpairwise : (Feed.merge WhaleAlert.id (rankLe B) maxAlerts s.shown fetched ++
      Feed.mergeRest WhaleAlert.id (rankLe B) maxAlerts s.shown fetched).Pairwise (rankLe B · ·) :=
    Feed.pairwise_sorted (rankLe_trans B) (rankLe_total B)
  have hsorted := List.pairwise_append.mp hpairwise
  refine ⟨?_, Feed.length_merge_le .., fun d hd b hb => ?_⟩
  · exact (pairwise_notOlder_iff fun b hb => hread b (Feed.mem_of_mem_merge hb)).mpr hsorted.1
  · have hbread := hread b (Feed.mem_of_mem_merge hb)
    rcases List.mem_append.mp hd with hd | hd
    · have hdread := hs.readable d (List.mem_append_right _ hd)
      refine (notOlder_iff hbread hdread).mpr ?_
      refine Feed.le_of_mem_merge_of_full (rankLe_trans B) (rankLe_total B)
        (hs.full (List.ne_nil_of_mem hd)).ge (fun p hp => ?_) b hb
      exact (notOlder_iff (hread p (.inl hp)) hdread).mp (hnew.dropped d hd p hp)
    · exact (notOlder_iff hbread (hread d (Feed.mem_of_mem_mergeRest hd))).mpr
        (hsorted.2.2 b hb d hd)

theorem newestFirst_step {B : Browser} {s s' : Alerts} {e : {e : HookEvent // Readable B e}}
    (h : alertStep B s e = some s') (hs : Kept B s) (hnew : NewestFirst B s) :
    NewestFirst B s' ↔ InOrder B s e := by
  obtain ⟨rfl, horder⟩ | ⟨a, ha, -, rfl, horder⟩ | ⟨fetched, hfetched, rfl, horder⟩ :=
    alertStep_cases h
  · rw [horder]
    exact iff_true_intro hnew
  · rw [horder]
    exact newestFirst_front_iff hs hnew ha
  · rw [horder]
    exact iff_true_intro (newestFirst_merge hs hnew hfetched)

/-- **Newest first**, after every event of a run, just when no alert is older than an entry
of the list it gets into. -/
theorem newestFirst_iff_inOrder (B : Browser) (es : List {e : HookEvent // Readable B e}) :
    (∀ n, NewestFirst B (runs (alertStep B) ⟨[], []⟩ (es.take n))) ↔
      Meets (alertStep B) (InOrder B) ⟨[], []⟩ es := by
  refine always_iff_meets (I := Kept B) (fun s e s' h hs => kept_step h hs) ?_ ?_ ?_
  · exact fun s e s' h hs hnew => newestFirst_step h hs hnew
  · refine ⟨?_, fun hne => absurd rfl hne, Nat.zero_le _⟩
    exact fun a ha => nomatch ha
  · exact ⟨List.Pairwise.nil, Nat.zero_le _, fun d hd => nomatch hd⟩

/-- **An alert that arrives late** stands in front of a newer one. -/
theorem late_alert_in_front :
    ∃ es : List {e : HookEvent // Readable atTwoInstants e},
      ¬∀ n, NewestFirst atTwoInstants (runs (alertStep atTwoInstants) ⟨[], []⟩ (es.take n)) := by
  refine ⟨[⟨.message (row "0xa2" "2023-11-14T22:13:32Z") "1700000013000-0.25" "", ?_⟩,
    ⟨.message (row "0xa1" "2023-11-14T22:13:20Z") "1700000013000-0.75" "", ?_⟩], fun h => ?_⟩
  · intro alert halert
    obtain rfl := Option.some.inj halert
    decide
  · intro alert halert
    obtain rfl := Option.some.inj halert
    decide
  · have hsorted := (h 2).sorted
    revert hsorted
    decide +kernel

end Frontend

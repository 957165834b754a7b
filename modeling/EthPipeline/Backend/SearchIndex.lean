import EthPipeline.Backend.Catalogue

/-!
# The index beside the table

Servers that all have one file of tokens, and the script that makes the index again.

* `index_agrees`: the index holds rows of the table only, as they are.
* `index_complete`: a start-up whose bulk request goes well leaves the two equal.
* `loadable_tokensFile`: the files of `top1000_erc20_tokens.py` that this is true of.
-/

namespace Backend

open Consumer Processes Csv

/-! ### One file -/

/-- A file that is loaded as it is: every record fits its columns, and no address is there
twice. -/
structure Loadable (py : PyText) (file : List Char) (rows : List (String × Token)) : Prop where
  parsed : tokenRows py file = some rows
  sent : tokenActions py file = some rows
  nodup : (rows.map Prod.fst).Nodup

variable {py : PyText} {s s' : Stores} {stage stage' : Stage} {file : List Char}
  {rows : List (String × Token)}

/-! ### The files of the collector -/

/-- A token whose texts the columns keep as they are. -/
def TokenRecord.Fits (py : PyText) (r : TokenRecord) : Prop :=
  varchar 42 (py.lower r.address.text) = some (py.lower r.address.text) ∧
    varchar 50 r.symbol = some r.symbol ∧ varchar 255 r.name = some r.name

theorem row_loaded {r : TokenRecord} (h : r.Fits py) :
    (r.loaded py).row = some (r.loaded py).document := by
  obtain ⟨haddress, hsymbol, hname⟩ := h
  simp [LoadedToken.row, LoadedToken.document, TokenRecord.loaded, haddress, hsymbol, hname,
    nullable, int2]

theorem loadable_tokensFile {tokens : List TokenRecord}
    (hclean : ∀ r ∈ tokens, Clean r.name.toList ∧ Clean r.symbol.toList)
    (hfits : ∀ r ∈ tokens, r.Fits py)
    (hdistinct : (tokens.map fun r => py.lower r.address.text).Nodup) :
    Loadable py (tokensFile tokens) (tokens.map fun r => (r.loaded py).document) := by
  have hloaded := (loadTokens_iff py tokens).mpr hclean
  refine ⟨?_, ?_, ?_⟩
  · rw [tokenRows, hloaded, Option.bind_some]
    have hrows : (tokens.map (TokenRecord.loaded py)).mapM LoadedToken.row =
        some ((tokens.map (TokenRecord.loaded py)).map LoadedToken.document) := by
      refine Traverse.mapM_of_forall_mem fun token htoken => ?_
      obtain ⟨r, hr, rfl⟩ := List.mem_map.mp htoken
      exact row_loaded (hfits r hr)
    rw [hrows, List.map_map]
    rfl
  · rw [tokenActions, hloaded, Option.map_some, List.map_map]
    rfl
  · rw [List.map_map]
    exact hdistinct

/-- A token of the collector. -/
def tether : TokenRecord where
  rank := ⟨"1", by decide, by decide⟩
  marketRank := ⟨"3", by decide, by decide⟩
  name := "Tether"
  symbol := "USDT"
  address := ⟨"0xdAC1", by decide, by decide⟩
  marketCapUsd := ⟨"1.5", by decide, by decide⟩

theorem loadable_tether :
    Loadable asciiText (tokensFile [tether]) [("0xdac1", ⟨some "USDT", some "Tether", some 18⟩)] := by
  have hrow : [tether].map (fun r => (r.loaded asciiText).document) =
      [("0xdac1", ⟨some "USDT", some "Tether", some 18⟩)] := by decide +kernel
  rw [← hrow]
  refine loadable_tokensFile (fun r hr => ?_) (fun r hr => ?_) (List.nodup_singleton _)
  · obtain rfl := List.mem_singleton.mp hr
    decide +kernel
  · obtain rfl := List.mem_singleton.mp hr
    exact ⟨by decide +kernel, by decide +kernel, by decide +kernel⟩

/-- A server with the file of the collector, up to its bulk request. -/
def tetherLoaded : List CatalogueEvent :=
  [.start (.startup ⟨some (tokensFile [tether]), none⟩), .act 0 .done, .act 0 .done]

def tetherSent : List CatalogueEvent :=
  [.act 0 .done, .act 0 (.item "0xdac1" true), .act 0 .done]

/-! ### The index in every run -/

/-- Servers that have this file of tokens, or none. -/
def OneFile (file : List Char) : Launch → Prop
  | .startup files => ∀ g ∈ files.tokens, g = file
  | .rebuild => True

/-- The index holds nothing but rows of the table, as they are. -/
structure Agreeing (rows : List (String × Token)) (s : Stores) : Prop where
  tokens : s.tokens.rows ⊆ rows
  index : s.index.rows ⊆ s.tokens.rows

/-- A process has nothing else to send. -/
def AgreesWith (file : List Char) (rows : List (String × Token)) (s : Stores) : Stage → Prop
  | .loadTokens files => ∀ g ∈ files.tokens, g = file
  | .loadLabels files | .loadIndex files =>
    (∀ g ∈ files.tokens, g = file) ∧ (files.tokens.isSome → rows ⊆ s.tokens.rows)
  | .bulk actions => actions ⊆ s.tokens.rows
  | _ => True

theorem Loadable.eq_of_key (hfile : Loadable py file rows) {r q : String × Token} (hr : r ∈ rows)
    (hq : q ∈ rows) (hkey : q.1 = r.1) : q = r :=
  List.inj_on_of_nodup_map hfile.nodup hq hr hkey

/-- What a server reads: the file, or nothing. -/
theorem Loadable.ofFile (hfile : Loadable py file rows) {read : Option (List Char)}
    (hread : ∀ g ∈ read, g = file) {loaded : List (String × Token)} :
    (ofFile (tokenRows py) read = some loaded → loaded ⊆ rows ∧ (read.isSome → loaded = rows)) ∧
      (ofFile (tokenActions py) read = some loaded → loaded ⊆ rows ∧ (read.isSome → loaded = rows)) := by
  cases read with
  | none =>
    constructor
    · intro h
      obtain rfl := Option.some.inj h
      exact ⟨List.nil_subset rows, fun hnone => by cases hnone⟩
    · intro h
      obtain rfl := Option.some.inj h
      exact ⟨List.nil_subset rows, fun hnone => by cases hnone⟩
  | some g =>
    obtain rfl := hread g rfl
    constructor
    · intro h
      obtain rfl := Option.some.inj (hfile.parsed.symm.trans h)
      exact ⟨List.Subset.refl rows, fun _ => rfl⟩
    · intro h
      obtain rfl := Option.some.inj (hfile.sent.symm.trans h)
      exact ⟨List.Subset.refl rows, fun _ => rfl⟩

/-- No row of the table is replaced by another. -/
theorem Moved.tokens_subset (h : Moved py s stage s' stage') (hfile : Loadable py file rows)
    (hs : Agreeing rows s) (hstage : AgreesWith file rows s stage) :
    s.tokens.rows ⊆ s'.tokens.rows := by
  intro r hr
  cases h with
  | tokens hrows hnext =>
    have hsub := ((hfile.ofFile hstage).1 hrows).1
    exact Keyed.mem_upsertAll hr fun q hq hkey => hfile.eq_of_key (hs.tokens hr) (hsub hq) hkey
  | _ => exact hr

theorem AgreesWith.mono (h : AgreesWith file rows s stage) (hsub : s.tokens.rows ⊆ s'.tokens.rows) :
    AgreesWith file rows s' stage := by
  cases stage with
  | loadTokens files => exact h
  | loadLabels files => exact ⟨h.1, fun hsome => List.Subset.trans (h.2 hsome) hsub⟩
  | loadIndex files => exact ⟨h.1, fun hsome => List.Subset.trans (h.2 hsome) hsub⟩
  | bulk actions => exact List.Subset.trans h hsub
  | _ => trivial

theorem Moved.agreeing (h : Moved py s stage s' stage') (hfile : Loadable py file rows)
    (hs : Agreeing rows s) (hstage : AgreesWith file rows s stage) :
    Agreeing rows s' ∧ AgreesWith file rows s' stage' := by
  have hkeep := h.tokens_subset hfile hs hstage
  cases h with
  | @tokens files loaded next hrows hnext =>
    obtain ⟨hsub, hall⟩ := (hfile.ofFile hstage).1 hrows
    refine ⟨⟨fun r hr => ?_, List.Subset.trans hs.index hkeep⟩, ?_⟩
    · rcases Keyed.mem_of_mem_upsertAll hr with hr | hr
      · exact hsub hr
      · exact hs.tokens hr
    · rcases hnext with rfl | rfl
      · refine ⟨hstage, fun hsome r hr => ?_⟩
        obtain rfl := hall hsome
        exact Keyed.mem_upsertAll_of_nodup s.tokens hfile.nodup hr
      · trivial
  | labels hrows hnext =>
    refine ⟨⟨hs.tokens, hs.index⟩, ?_⟩
    rcases hnext with rfl | rfl
    · exact hstage
    · trivial
  | @actions files actions hactions =>
    refine ⟨hs, fun r hr => ?_⟩
    obtain ⟨hsub, -⟩ := (hfile.ofFile hstage.1).2 hactions
    cases hread : files.tokens with
    | none =>
      rw [hread] at hactions
      obtain rfl := Option.some.inj hactions
      cases hr
    | some g => exact hstage.2 (by rw [hread]; rfl) (hsub hr)
  | recreated hnext =>
    refine ⟨⟨hs.tokens, List.nil_subset _⟩, ?_⟩
    rcases hnext with rfl | rfl <;> trivial
  | fetched => exact ⟨hs, List.Subset.refl _⟩
  | accepted hd =>
    refine ⟨⟨hs.tokens, fun e he => ?_⟩, fun e he => hstage (List.mem_of_mem_eraseP he)⟩
    rcases Keyed.mem_of_mem_upsert he with rfl | he
    · exact hstage hd
    · exact hs.index he
  | refused => exact ⟨hs, fun e he => hstage (List.mem_of_mem_eraseP he)⟩
  | ended => exact ⟨hs, trivial⟩

theorem rules_agreeing (hfile : Loadable py file rows) :
    Rules Launch.stage (move py) (OneFile file) (Agreeing rows) (AgreesWith file rows) where
  begins s x hx _ := by
    cases x with
    | startup files => exact hx
    | rebuild => trivial
  keeps _ _ _ _ _ h hs hstage := (moved_of_move h).agreeing hfile hs hstage
  others _ _ _ _ _ _ h hs hstage hother :=
    hother.mono ((moved_of_move h).tokens_subset hfile hs hstage)

theorem agreeing_initial : Holds (Agreeing rows) (AgreesWith file rows) Catalogue.initial where
  store := ⟨List.nil_subset _, List.nil_subset _⟩
  processes p hp := by cases hp

/-- **With one file** the index never holds anything but rows of the table as they are, and
the table nothing but rows of the file, in whatever order servers and script go. -/
theorem index_agrees (hfile : Loadable py file rows) {events : List CatalogueEvent}
    (hevents : ∀ e ∈ events, Starting (OneFile file) e) :
    (Catalogue.after py events).store.index.rows ⊆ (Catalogue.after py events).store.tokens.rows ∧
      (Catalogue.after py events).store.tokens.rows ⊆ rows := by
  have hholds := runs_holds (rules_agreeing hfile) hevents agreeing_initial
  exact ⟨hholds.store.index, hholds.store.tokens⟩

theorem starting_tether (e : CatalogueEvent) (he : e ∈ tetherLoaded ++ tetherSent) :
    Starting (OneFile (tokensFile [tether])) e := by
  simp only [tetherLoaded, tetherSent, List.cons_append, List.nil_append, List.mem_cons,
    List.not_mem_nil, or_false] at he
  rcases he with rfl | rfl | rfl | rfl | rfl | rfl
  · exact fun g hg => (Option.some.inj hg).symm
  all_goals trivial

theorem tether_agrees :
    (Catalogue.after asciiText (tetherLoaded ++ tetherSent)).store.index.rows ⊆
        (Catalogue.after asciiText (tetherLoaded ++ tetherSent)).store.tokens.rows ∧
      (Catalogue.after asciiText (tetherLoaded ++ tetherSent)).store.tokens.rows ⊆
        [("0xdac1", ⟨some "USDT", some "Tether", some 18⟩)] :=
  index_agrees loadable_tether starting_tether

/-! ### A request that goes well -/

/-- The request of the `i`-th process goes well, and the index is not made again meanwhile. -/
def Undisturbed (i : ℕ) (c : Catalogue) : CatalogueEvent → Prop
  | .start _ => True
  | .act j .done => c.processes[j]? ≠ some .recreate
  | .act j .lost => j ≠ i ∧ c.processes[j]? ≠ some .recreate
  | .act j .broken => j ≠ i
  | .act j (.item _ accepted) => j = i → accepted

/-- A row of the file is in the index, or it is still to be sent. -/
def InIndexOr (file : List Char) (rows : List (String × Token)) (s : Stores) : Stage → Prop
  | .loadIndex files => files.tokens = some file
  | .bulk actions => ∀ r ∈ rows, r ∈ s.index.rows ∨ r ∈ actions
  | .ended => rows ⊆ s.index.rows
  | _ => False

instance (i : ℕ) (c : Catalogue) : ∀ e, Decidable (Undisturbed i c e)
  | .start _ => inferInstanceAs (Decidable True)
  | .act j .done => inferInstanceAs (Decidable (c.processes[j]? ≠ some .recreate))
  | .act j .lost => inferInstanceAs (Decidable (j ≠ i ∧ c.processes[j]? ≠ some .recreate))
  | .act j .broken => inferInstanceAs (Decidable (j ≠ i))
  | .act j (.item _ accepted) => inferInstanceAs (Decidable (j = i → accepted))

def Indexing (file : List Char) (rows : List (String × Token)) (i : ℕ) (c : Catalogue) : Prop :=
  ∃ stage, c.processes[i]? = some stage ∧ InIndexOr file rows c.store stage

theorem finish_index (h : finish py s stage = some (s', stage')) (hstage : stage ≠ .recreate) :
    s'.index = s.index := by
  cases stage with
  | recreate => exact absurd rfl hstage
  | loadTokens files =>
    obtain ⟨rows, -, h⟩ := Option.map_eq_some_iff.mp h
    cases h
    rfl
  | loadLabels files =>
    obtain ⟨rows, -, h⟩ := Option.map_eq_some_iff.mp h
    cases h
    rfl
  | loadIndex files =>
    obtain ⟨actions, -, h⟩ := Option.map_eq_some_iff.mp h
    cases h
    rfl
  | fetch => cases h; rfl
  | bulk actions =>
    cases actions with
    | nil => cases h; rfl
    | cons d actions => cases h
  | ended => cases h

/-- What a move leaves of the index, if it does not make it again. -/
theorem move_index {reply : CallResult} (h : move py s stage reply = some (s', stage'))
    (hdone : reply = .done → stage ≠ .recreate) (hlost : reply = .lost → stage ≠ .recreate) :
    s'.index = s.index ∨ ∃ actions d, stage = .bulk actions ∧ d ∈ actions ∧
      s'.index = s.index.upsert d := by
  cases reply with
  | done => exact .inl (finish_index h (hdone rfl))
  | lost =>
    obtain ⟨⟨t, next⟩, hfinish, h⟩ := Option.map_eq_some_iff.mp h
    cases h
    exact .inl (finish_index hfinish (hlost rfl))
  | broken => cases h; exact .inl rfl
  | item id accepted =>
    cases stage with
    | bulk actions =>
      obtain ⟨d, hd, h⟩ := Option.map_eq_some_iff.mp h
      cases h
      cases accepted with
      | true => exact .inr ⟨actions, d, rfl, (Keyed.find?_key hd).1, rfl⟩
      | false => exact .inl rfl
    | _ => cases h

/-- A row of the file stays in the index. -/
theorem mem_index_of_move (hfile : Loadable py file rows) {reply : CallResult}
    (h : move py s stage reply = some (s', stage')) (hs : Agreeing rows s)
    (hstage : AgreesWith file rows s stage) (hdone : reply = .done → stage ≠ .recreate)
    (hlost : reply = .lost → stage ≠ .recreate) {r : String × Token} (hrow : r ∈ rows)
    (hr : r ∈ s.index.rows) : r ∈ s'.index.rows := by
  rcases move_index h hdone hlost with hsame | ⟨actions, d, rfl, hd, hupsert⟩
  · rwa [hsame]
  · rw [hupsert]
    exact Keyed.mem_upsert hr fun hkey => hfile.eq_of_key hrow (hs.tokens (hstage hd)) hkey

theorem InIndexOr.of_index (h : InIndexOr file rows s stage)
    (hindex : ∀ r ∈ rows, r ∈ s.index.rows → r ∈ s'.index.rows) :
    InIndexOr file rows s' stage := by
  cases stage with
  | loadIndex files => exact h
  | bulk actions => exact fun r hr => (h r hr).imp (hindex r hr) id
  | ended => exact fun r hr => hindex r hr (h hr)
  | _ => exact h

/-- A move of the process itself. -/
theorem InIndexOr.move (hfile : Loadable py file rows) {reply : CallResult}
    (h : move py s stage reply = some (s', stage')) (hs : Agreeing rows s)
    (hstage : AgreesWith file rows s stage) (hreply : reply ≠ .lost ∧ reply ≠ .broken)
    (haccepted : ∀ id accepted, reply = .item id accepted → accepted)
    (hor : InIndexOr file rows s stage) : InIndexOr file rows s' stage' := by
  cases reply with
  | lost => exact absurd rfl hreply.1
  | broken => exact absurd rfl hreply.2
  | done =>
    cases stage with
    | loadIndex files =>
      obtain ⟨actions, hactions, h⟩ := Option.map_eq_some_iff.mp h
      cases h
      have hread : files.tokens = some file := hor
      rw [hread] at hactions
      obtain rfl := Option.some.inj (hfile.sent.symm.trans hactions)
      exact fun r hr => .inr hr
    | bulk actions =>
      cases actions with
      | nil =>
        cases h
        exact fun r hr => (hor r hr).resolve_right List.not_mem_nil
      | cons d actions => cases h
    | ended => cases h
    | _ => exact absurd hor id
  | item id accepted =>
    have hkeep := fun r hr => mem_index_of_move hfile h hs hstage (nomatch ·) (nomatch ·) (r := r) hr
    cases stage with
    | bulk actions =>
      obtain ⟨d, hd, h⟩ := Option.map_eq_some_iff.mp h
      cases h
      obtain ⟨hmem, rfl⟩ := Keyed.find?_key hd
      obtain rfl : accepted = true := haccepted _ accepted rfl
      intro r hr
      rcases hor r hr with hindex | haction
      · exact .inl (hkeep r hr hindex)
      · by_cases hkey : r.1 = d.1
        · obtain rfl := hfile.eq_of_key (hs.tokens (hstage hmem)) hr hkey
          exact .inl (Keyed.mem_upsert_self _ _)
        · exact .inr ((List.mem_eraseP_of_neg (by simpa using hkey)).mpr haction)
    | _ => cases h

/-- What is shared by all states of such a run. -/
def Completing (file : List Char) (rows : List (String × Token)) (i : ℕ) (c : Catalogue) : Prop :=
  Holds (Agreeing rows) (AgreesWith file rows) c ∧ Indexing file rows i c

theorem completing_step (hfile : Loadable py file rows) {i : ℕ} {c c' : Catalogue}
    {e : CatalogueEvent} (h : step Launch.stage (move py) c e = some c')
    (he : Starting (OneFile file) e) (hun : Undisturbed i c e) (hc : Completing file rows i c) :
    Completing file rows i c' := by
  obtain ⟨hholds, stage, hstage, hor⟩ := hc
  refine ⟨step_holds (rules_agreeing hfile) h he hholds, ?_⟩
  cases e with
  | start x =>
    obtain rfl := Option.some.inj h
    have hi := (List.getElem?_eq_some_iff.mp hstage).1
    exact ⟨stage, (List.getElem?_append_left hi).trans hstage, hor⟩
  | act j reply =>
    obtain ⟨p, s', p', hp, hmove, rfl⟩ := step_act h
    have hJ := hholds.processes p (List.mem_of_getElem? hp)
    by_cases hji : j = i
    · subst hji
      obtain rfl := Option.some.inj (hp.symm.trans hstage)
      have hj := (List.getElem?_eq_some_iff.mp hp).1
      refine ⟨p', List.getElem?_set_self hj, ?_⟩
      refine hor.move hfile hmove hholds.store hJ ?_ ?_
      · constructor
        · rintro rfl
          exact hun.1 rfl
        · rintro rfl
          exact hun rfl
      · rintro id accepted rfl
        exact hun rfl
    · refine ⟨stage, (List.getElem?_set_ne hji).trans hstage, hor.of_index fun r hr hindex => ?_⟩
      refine mem_index_of_move hfile hmove hholds.store hJ ?_ ?_ hr hindex
      · rintro rfl rfl
        exact hun hp
      · rintro rfl rfl
        exact hun.2 hp

/-- **A bulk request that goes well**: when the server that sent it is up, the index, the table
and the file have the same tokens, whatever other servers did in the meantime. -/
theorem index_complete (hfile : Loadable py file rows) {before after : List CatalogueEvent}
    (hevents : ∀ e ∈ before ++ after, Starting (OneFile file) e) {i : ℕ} {files : CsvFiles}
    (hserver : (Catalogue.after py before).processes[i]? = some (.loadIndex files))
    (hread : files.tokens = some file)
    (hun : Run.Meets (step Launch.stage (move py)) (Undisturbed i) (Catalogue.after py before) after)
    (hended : (Catalogue.after py (before ++ after)).processes[i]? = some .ended) :
    (∀ row, row ∈ (Catalogue.after py (before ++ after)).store.index.rows ↔ row ∈ rows) ∧
      ∀ row, row ∈ (Catalogue.after py (before ++ after)).store.tokens.rows ↔ row ∈ rows := by
  have hbefore := runs_holds (rules_agreeing hfile)
    (fun e he => hevents e (List.mem_append_left after he)) agreeing_initial
  have hstarting : Run.Meets (step Launch.stage (move py)) (fun _ => Starting (OneFile file))
      (Catalogue.after py before) after :=
    Run.meets_of_forall (fun e he => hevents e (List.mem_append_right before he)) _
  have hend : Completing file rows i (Catalogue.after py (before ++ after)) := by
    rw [Catalogue.after, Run.runs_append]
    exact Run.runs_invariant_of_meets (fun c e c' h hC hc => completing_step hfile h hC.1 hC.2 hc)
      (hstarting.and hun) ⟨hbefore, .loadIndex files, hserver, hread⟩
  obtain ⟨hholds, stage, hstage, hor⟩ := hend
  obtain rfl := Option.some.inj (hended.symm.trans hstage)
  have hindex := hholds.store.index
  have htokens := hholds.store.tokens
  exact ⟨fun row => ⟨fun h => htokens (hindex h), fun h => hor h⟩,
    fun row => ⟨fun h => htokens h, fun h => hindex (hor h)⟩⟩

theorem tether_complete :
    (∀ row, row ∈ (Catalogue.after asciiText (tetherLoaded ++ tetherSent)).store.index.rows ↔
        row ∈ [("0xdac1", ⟨some "USDT", some "Tether", some 18⟩)]) ∧
      ∀ row, row ∈ (Catalogue.after asciiText (tetherLoaded ++ tetherSent)).store.tokens.rows ↔
        row ∈ [("0xdac1", ⟨some "USDT", some "Tether", some 18⟩)] := by
  have hserver : (Catalogue.after asciiText tetherLoaded).processes[0]? =
      some (.loadIndex ⟨some (tokensFile [tether]), none⟩) := by decide +kernel
  exact index_complete loadable_tether starting_tether hserver rfl (by decide +kernel)
    (by decide +kernel)

end Backend

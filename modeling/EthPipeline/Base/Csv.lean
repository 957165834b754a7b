import Mathlib.Data.List.Basic
import Mathlib.Tactic.Common

/-!
# Writing and reading CSV

The writer puts a field in quotes when it has a comma, a quote or a line break.  The
reader of Python's `csv` module is a state machine over the lines it is given, and
`str.splitlines` cuts a text at more characters than the writer quotes for.

* `readRows_encode`: what is written is read again, if no field has a character that
  cuts a line.
* `readRows_clean`: no field that is read has one.
-/

namespace Csv

abbrev Field := List Char

/-! ### Lines -/

/-- The characters that end a line for `str.splitlines`. -/
def isBoundary (c : Char) : Bool :=
  c ∈ ['\n', '\x0b', '\x0c', '\r', '\x1c', '\x1d', '\x1e', '\x85', '\u2028', '\u2029']

/-- `str.splitlines`, after the characters `line` of a line. -/
def splitFrom (line : List Char) : List Char → List (List Char)
  | [] => if line = [] then [] else [line]
  | '\r' :: '\n' :: rest => line :: splitFrom [] rest
  | c :: rest => if isBoundary c then line :: splitFrom [] rest else splitFrom (line ++ [c]) rest

def splitlines (text : List Char) : List (List Char) := splitFrom [] text

/-- What reading a file in text mode makes of its line ends. -/
def universalNewlines : List Char → List Char
  | [] => []
  | '\r' :: '\n' :: rest => '\n' :: universalNewlines rest
  | c :: rest => (if c = '\r' then '\n' else c) :: universalNewlines rest

theorem not_boundary_of_splitFrom {text line : List Char} (hline : ∀ c ∈ line, ¬isBoundary c) :
    ∀ l ∈ splitFrom line text, ∀ c ∈ l, ¬isBoundary c := by
  induction line, text using splitFrom.induct with
  | case1 => simp [splitFrom]
  | case2 line hne =>
    rw [splitFrom, if_neg hne]
    intro l hl
    rwa [List.mem_singleton.mp hl]
  | case3 line rest ih =>
    rw [splitFrom]
    intro l hl
    rcases List.mem_cons.mp hl with rfl | hl
    · exact hline
    · exact ih (by simp) l hl
  | case4 line c rest hcrlf hc ih =>
    rw [splitFrom, if_pos hc]
    · intro l hl
      rcases List.mem_cons.mp hl with rfl | hl
      · exact hline
      · exact ih (by simp) l hl
    · exact hcrlf
  | case5 line c rest hcrlf hc ih =>
    rw [splitFrom, if_neg hc]
    · refine ih fun d hd => ?_
      rcases List.mem_append.mp hd with hd | hd
      · exact hline d hd
      · rwa [List.mem_singleton.mp hd]
    · exact hcrlf

theorem splitFrom_append {text rest line : List Char} (htext : ∀ c ∈ text, ¬isBoundary c) :
    splitFrom line (text ++ '\n' :: rest) = (line ++ text) :: splitlines rest := by
  induction text generalizing line with
  | nil =>
    rw [List.nil_append, List.append_nil, splitFrom, if_pos (by decide)]
    · rfl
    · simp
  | cons c text ih =>
    have hc : ¬isBoundary c := htext c List.mem_cons_self
    rw [List.cons_append, splitFrom, if_neg hc, ih fun d hd => htext d (List.mem_cons_of_mem c hd),
      List.append_assoc, List.singleton_append]
    intro _ heq _
    rw [heq] at hc
    exact hc rfl

/-- Lines that have no boundary, each with its end. -/
theorem splitlines_flatMap {lines : List (List Char)} (h : ∀ l ∈ lines, ∀ c ∈ l, ¬isBoundary c) :
    splitlines (lines.flatMap (· ++ ['\n'])) = lines := by
  induction lines with
  | nil => rfl
  | cons line lines ih =>
    rw [List.flatMap_cons, List.append_assoc, List.singleton_append, splitlines,
      splitFrom_append (h line List.mem_cons_self), List.nil_append,
      ih fun l hl => h l (List.mem_cons_of_mem line hl)]

theorem universalNewlines_eq {text : List Char} (h : '\r' ∉ text) : universalNewlines text = text := by
  induction text with
  | nil => rfl
  | cons c text ih =>
    have hc : c ≠ '\r' := fun heq => h (heq ▸ List.mem_cons_self)
    rw [universalNewlines, if_neg hc, ih fun hmem => h (List.mem_cons_of_mem c hmem)]
    exact fun _ heq => absurd heq hc

/-! ### The writer -/

def isSpecial (c : Char) : Bool := c ∈ [',', '"', '\n', '\r']

def doubled (f : Field) : List Char := f.flatMap fun c => if c = '"' then ['"', '"'] else [c]

def quoteField (f : Field) : List Char :=
  if f.any isSpecial then '"' :: (doubled f ++ ['"']) else f

def encodeRow : List Field → List Char
  | [] => []
  | f :: fs => quoteField f ++ fs.flatMap fun g => ',' :: quoteField g

def encode (rows : List (List Field)) : List Char := rows.flatMap fun row => encodeRow row ++ ['\n']

/-! ### The reader -/

inductive ReaderState where
  | startRecord | startField | inField | inQuotedField | quoteInQuotedField | eatCrnl
  deriving DecidableEq, Repr

structure Reader where
  fields : List Field
  field : Field
  state : ReaderState
  deriving DecidableEq, Repr

/-- `csv.field_size_limit()`. -/
def fieldLimit : ℕ := 131072

namespace Reader

def init : Reader := ⟨[], [], .startRecord⟩

/-- `parse_add_char`; `none` is an exception. -/
def addChar (r : Reader) (c : Char) (state : ReaderState) : Option Reader :=
  if r.field.length < fieldLimit then some ⟨r.fields, r.field ++ [c], state⟩ else none

/-- `parse_save_field`. -/
def saveField (r : Reader) (state : ReaderState) : Reader := ⟨r.fields ++ [r.field], [], state⟩

def isNewline (c : Char) : Bool := c = '\n' || c = '\r'

/-- `START_FIELD`, which `START_RECORD` falls through to. -/
def processStart (r : Reader) (c : Char) : Option Reader :=
  if isNewline c then some (r.saveField .eatCrnl)
  else if c = '"' then some ⟨r.fields, r.field, .inQuotedField⟩
  else if c = ',' then some (r.saveField .startField)
  else r.addChar c .inField

/-- `parse_process_char` for a character of a line. -/
def process (r : Reader) (c : Char) : Option Reader :=
  match r.state with
  | .startRecord =>
    if isNewline c then some ⟨r.fields, r.field, .eatCrnl⟩ else r.processStart c
  | .startField => r.processStart c
  | .inField =>
    if isNewline c then some (r.saveField .eatCrnl)
    else if c = ',' then some (r.saveField .startField)
    else r.addChar c .inField
  | .inQuotedField =>
    if c = '"' then some ⟨r.fields, r.field, .quoteInQuotedField⟩ else r.addChar c .inQuotedField
  | .quoteInQuotedField =>
    if c = '"' then r.addChar c .inQuotedField
    else if c = ',' then some (r.saveField .startField)
    else if isNewline c then some (r.saveField .eatCrnl)
    else r.addChar c .inField
  | .eatCrnl => if isNewline c then some r else none

/-- `parse_process_char` for the end of a line. -/
def processEol (r : Reader) : Reader :=
  match r.state with
  | .startRecord => r
  | .startField => r.saveField .startRecord
  | .inField => r.saveField .startRecord
  | .inQuotedField => r
  | .quoteInQuotedField => r.saveField .startRecord
  | .eatCrnl => ⟨r.fields, r.field, .startRecord⟩

def processLine (r : Reader) (line : List Char) : Option Reader :=
  (line.foldlM process r).map processEol

end Reader

/-- The rows of the lines; a quoted field goes on in the next line. -/
def readRows (r : Reader) : List (List Char) → Option (List (List Field))
  | [] => some (if r.field ≠ [] ∨ r.state = .inQuotedField then [r.fields ++ [r.field]] else [])
  | line :: lines => do
    let r ← r.processLine line
    if r.state = .startRecord then
      let rows ← readRows .init lines
      return r.fields :: rows
    else readRows r lines

/-! ### Reading what was written -/

/-- A field that survives: it is not cut, and not too long. -/
def Clean (f : Field) : Prop := (∀ c ∈ f, ¬isBoundary c) ∧ f.length ≤ fieldLimit

instance (f : Field) : Decidable (Clean f) :=
  decidable_of_iff ((f.all fun c => !isBoundary c) = true ∧ f.length ≤ fieldLimit)
    (by simp [Clean])

namespace Reader

theorem addChar_of_lt {fields : List Field} {f : Field} {before : ReaderState}
    (h : f.length < fieldLimit) (c : Char) (state : ReaderState) :
    addChar ⟨fields, f, before⟩ c state = some ⟨fields, f ++ [c], state⟩ :=
  if_pos h

theorem isSpecial_iff (c : Char) : isSpecial c ↔ c = ',' ∨ c = '"' ∨ isNewline c := by
  simp [isSpecial, isNewline]

/-- Characters of a field without quotes. -/
theorem foldlM_plain {fields : List Field} {f : Field} (hplain : ∀ c ∈ f, ¬isSpecial c) (before : Field)
    (hlength : before.length + f.length ≤ fieldLimit) :
    f.foldlM process ⟨fields, before, .inField⟩ = some ⟨fields, before ++ f, .inField⟩ := by
  induction f generalizing before with
  | nil => rw [List.append_nil]; rfl
  | cons c f ih =>
    rw [List.length_cons] at hlength
    have hc := hplain c List.mem_cons_self
    rw [isSpecial_iff, not_or, not_or] at hc
    have hstep : process ⟨fields, before, .inField⟩ c =
        some ⟨fields, before ++ [c], .inField⟩ := by
      simp only [process, if_neg hc.2.2, if_neg hc.1]
      exact addChar_of_lt (by omega) c _
    rw [List.foldlM_cons, hstep, Option.bind_eq_bind, Option.bind_some,
      ih (fun d hd => hplain d (List.mem_cons_of_mem c hd)) _ (by
        rw [List.length_append, List.length_singleton]
        omega), List.append_assoc, List.singleton_append]

/-- Characters between quotes. -/
theorem foldlM_doubled {fields : List Field} (f before : Field)
    (hlength : before.length + f.length ≤ fieldLimit) :
    (doubled f).foldlM process ⟨fields, before, .inQuotedField⟩ =
      some ⟨fields, before ++ f, .inQuotedField⟩ := by
  induction f generalizing before with
  | nil => rw [List.append_nil]; rfl
  | cons c f ih =>
    rw [List.length_cons] at hlength
    have hroom : before.length < fieldLimit := by omega
    have hstep : (if c = '"' then ['"', '"'] else [c]).foldlM process
        ⟨fields, before, .inQuotedField⟩ = some ⟨fields, before ++ [c], .inQuotedField⟩ := by
      split
      · next hc =>
        subst hc
        have hquote : process ⟨fields, before, .quoteInQuotedField⟩ '"' =
            some ⟨fields, before ++ ['"'], .inQuotedField⟩ := addChar_of_lt hroom _ _
        have hfirst : process ⟨fields, before, .inQuotedField⟩ '"' =
            some ⟨fields, before, .quoteInQuotedField⟩ := rfl
        rw [List.foldlM_cons, hfirst, Option.bind_eq_bind, Option.bind_some, List.foldlM_cons,
          hquote]
        rfl
      · next hc =>
        have hother : process ⟨fields, before, .inQuotedField⟩ c =
            some ⟨fields, before ++ [c], .inQuotedField⟩ := by
          simp only [process, if_neg hc]
          exact addChar_of_lt hroom c _
        rw [List.foldlM_cons, hother]
        rfl
    rw [doubled, List.flatMap_cons, List.foldlM_append, hstep, Option.bind_eq_bind,
      Option.bind_some, ← doubled, ih _ (by
        rw [List.length_append, List.length_singleton]
        omega), List.append_assoc, List.singleton_append]

/-- **A field is read** up to the comma or the end of the line. -/
theorem foldlM_quoteField (fields : List Field) {f : Field} (hlength : f.length ≤ fieldLimit) :
    ∃ state, (quoteField f).foldlM process ⟨fields, [], .startField⟩ = some ⟨fields, f, state⟩ ∧
      process ⟨fields, f, state⟩ ',' = some ⟨fields ++ [f], [], .startField⟩ ∧
        processEol ⟨fields, f, state⟩ = ⟨fields ++ [f], [], .startRecord⟩ := by
  rw [quoteField]
  split
  · refine ⟨.quoteInQuotedField, ?_, rfl, rfl⟩
    have hopen : process ⟨fields, [], .startField⟩ '"' = some ⟨fields, [], .inQuotedField⟩ := rfl
    rw [List.foldlM_cons, hopen, Option.bind_eq_bind, Option.bind_some, List.foldlM_append,
      foldlM_doubled f [] (by rwa [List.length_nil, Nat.zero_add])]
    rfl
  · next hspecial =>
    have hplain : ∀ c ∈ f, ¬isSpecial c := by simpa using hspecial
    cases f with
    | nil => exact ⟨.startField, rfl, rfl, rfl⟩
    | cons c f =>
      refine ⟨.inField, ?_, rfl, rfl⟩
      have hc := hplain c List.mem_cons_self
      rw [isSpecial_iff, not_or, not_or] at hc
      have hstart : process ⟨fields, [], .startField⟩ c = some ⟨fields, [c], .inField⟩ := by
        simp only [process, processStart, if_neg hc.2.2, if_neg hc.2.1, if_neg hc.1]
        exact addChar_of_lt (show [].length < fieldLimit by decide) c _
      rw [List.length_cons] at hlength
      rw [List.foldlM_cons, hstart, Option.bind_eq_bind, Option.bind_some,
        foldlM_plain (fun d hd => hplain d (List.mem_cons_of_mem c hd)) [c] (by
          rw [List.length_singleton]
          omega)]
      rfl

/-- **A row is read** from its line. -/
theorem processLine_encodeRow (fields : List Field) (f : Field) (fs : List Field)
    (hlength : ∀ g ∈ f :: fs, g.length ≤ fieldLimit) :
    processLine ⟨fields, [], .startField⟩ (encodeRow (f :: fs)) =
      some ⟨fields ++ f :: fs, [], .startRecord⟩ := by
  induction fs generalizing fields f with
  | nil =>
    obtain ⟨state, hfield, -, heol⟩ := foldlM_quoteField fields (hlength f List.mem_cons_self)
    rw [encodeRow, List.flatMap_nil, List.append_nil, processLine, hfield, Option.map_some, heol]
  | cons g fs ih =>
    obtain ⟨state, hfield, hcomma, -⟩ := foldlM_quoteField fields (hlength f List.mem_cons_self)
    have hrest := ih (fields ++ [f]) g fun e he => hlength e (List.mem_cons_of_mem f he)
    have hrow : encodeRow (f :: g :: fs) = quoteField f ++ ',' :: encodeRow (g :: fs) := rfl
    rw [processLine] at hrest ⊢
    rw [hrow, List.foldlM_append, hfield, Option.bind_eq_bind, Option.bind_some,
      List.foldlM_cons, hcomma, Option.bind_eq_bind, Option.bind_some, hrest, List.append_assoc,
      List.singleton_append]

/-- A record starts with a field. -/
theorem processLine_init {line : List Char} (hne : line ≠ []) (hline : ∀ c ∈ line, ¬isBoundary c) :
    processLine init line = processLine ⟨[], [], .startField⟩ line := by
  cases line with
  | nil => exact absurd rfl hne
  | cons c line =>
    have hc := hline c List.mem_cons_self
    have hnewline : ¬isNewline c := by
      intro h
      simp only [isNewline, Bool.or_eq_true, decide_eq_true_eq] at h
      rcases h with rfl | rfl
      · exact hc rfl
      · exact hc rfl
    have hstart : process init c = process ⟨[], [], .startField⟩ c := by
      simp only [process, init, if_neg hnewline]
      rfl
    rw [processLine, processLine, List.foldlM_cons, List.foldlM_cons, hstart]

end Reader

theorem not_boundary_quoteField {f : Field} (hf : ∀ c ∈ f, ¬isBoundary c) :
    ∀ c ∈ quoteField f, ¬isBoundary c := by
  have hdoubled : ∀ c ∈ doubled f, c ∈ f := by
    intro c hc
    obtain ⟨d, hd, hcd⟩ := List.mem_flatMap.mp hc
    split at hcd
    · next hquote =>
      obtain rfl : c = '"' := by simpa using hcd
      exact hquote ▸ hd
    · rwa [List.mem_singleton.mp hcd]
  intro c hc
  rw [quoteField] at hc
  split at hc
  · rcases List.mem_cons.mp hc with rfl | hc
    · decide
    · rcases List.mem_append.mp hc with hc | hc
      · exact hf c (hdoubled c hc)
      · rw [List.mem_singleton.mp hc]
        decide
  · exact hf c hc

theorem not_boundary_encodeRow {row : List Field} (hrow : ∀ f ∈ row, ∀ c ∈ f, ¬isBoundary c) :
    ∀ c ∈ encodeRow row, ¬isBoundary c := by
  cases row with
  | nil => exact fun c hc => nomatch hc
  | cons f fs =>
    intro c hc
    rw [encodeRow] at hc
    rcases List.mem_append.mp hc with hc | hc
    · exact not_boundary_quoteField (hrow f List.mem_cons_self) c hc
    · obtain ⟨g, hg, hc⟩ := List.mem_flatMap.mp hc
      rcases List.mem_cons.mp hc with rfl | hc
      · decide
      · exact not_boundary_quoteField (hrow g (List.mem_cons_of_mem f hg)) c hc

/-- A row of more than one field has a comma. -/
theorem encodeRow_ne_nil {row : List Field} (hrow : 1 < row.length) : encodeRow row ≠ [] := by
  match row, hrow with
  | f :: g :: fs, _ => simp [encodeRow]

/-- The lines of the rows are the rows. -/
theorem readRows_encodeRow {rows : List (List Field)} (hlong : ∀ row ∈ rows, 1 < row.length)
    (hclean : ∀ row ∈ rows, ∀ f ∈ row, Clean f) :
    readRows .init (rows.map encodeRow) = some rows := by
  induction rows with
  | nil => rfl
  | cons row rows ih =>
    have hrow := hlong row List.mem_cons_self
    have hfields := hclean row List.mem_cons_self
    have hline : Reader.processLine .init (encodeRow row) = some ⟨row, [], .startRecord⟩ := by
      rw [Reader.processLine_init (encodeRow_ne_nil hrow)
        (not_boundary_encodeRow fun f hf => (hfields f hf).1)]
      match row, hrow with
      | f :: fs, _ =>
        exact Reader.processLine_encodeRow [] f fs fun g hg => (hfields g hg).2
    have hrest := ih (fun r hr => hlong r (List.mem_cons_of_mem row hr))
      fun r hr => hclean r (List.mem_cons_of_mem row hr)
    rw [List.map_cons, readRows, hline, Option.bind_eq_bind, Option.bind_some, if_pos rfl, hrest]
    rfl

/-- **What is written is read again.** -/
theorem readRows_encode {rows : List (List Field)} (hlong : ∀ row ∈ rows, 1 < row.length)
    (hclean : ∀ row ∈ rows, ∀ f ∈ row, Clean f) :
    readRows .init (splitlines (universalNewlines (encode rows))) = some rows := by
  have hlines : ∀ line ∈ rows.map encodeRow, ∀ c ∈ line, ¬isBoundary c := by
    intro line hline
    obtain ⟨row, hrow, rfl⟩ := List.mem_map.mp hline
    exact not_boundary_encodeRow fun f hf => (hclean row hrow f hf).1
  have hencode : encode rows = (rows.map encodeRow).flatMap (· ++ ['\n']) := by
    rw [encode, List.flatMap_map]
  have hreturn : '\r' ∉ encode rows := by
    intro hmem
    rw [hencode] at hmem
    obtain ⟨line, hline, hc⟩ := List.mem_flatMap.mp hmem
    rcases List.mem_append.mp hc with hc | hc
    · exact hlines line hline _ hc rfl
    · exact absurd (List.mem_singleton.mp hc) (by decide)
  rw [universalNewlines_eq hreturn, hencode, splitlines_flatMap hlines,
    readRows_encodeRow hlong hclean]

/-! ### What can be read at all -/

namespace Reader

/-- The fields so far are clean. -/
structure Sound (r : Reader) : Prop where
  fields : ∀ f ∈ r.fields, Clean f
  field : Clean r.field

theorem clean_nil : Clean [] := by
  refine ⟨?_, Nat.zero_le _⟩
  exact fun c hc => nomatch hc

theorem Sound.all {r : Reader} (h : r.Sound) : ∀ f ∈ r.fields ++ [r.field], Clean f := by
  intro f hf
  rcases List.mem_append.mp hf with hf | hf
  · exact h.fields f hf
  · rw [List.mem_singleton.mp hf]
    exact h.field

theorem Sound.saveField {r : Reader} (h : r.Sound) (state : ReaderState) :
    (r.saveField state).Sound := ⟨h.all, clean_nil⟩

theorem Sound.state {r : Reader} (h : r.Sound) (state : ReaderState) :
    Sound ⟨r.fields, r.field, state⟩ := ⟨h.fields, h.field⟩

theorem Sound.addChar {r r' : Reader} (h : r.Sound) {c : Char} (hc : ¬isBoundary c)
    {state : ReaderState} (hr : r.addChar c state = some r') : r'.Sound := by
  rw [Reader.addChar, Option.ite_none_right_eq_some, Option.some.injEq] at hr
  obtain ⟨hlt, rfl⟩ := hr
  refine ⟨h.fields, fun d hd => ?_, ?_⟩
  · rcases List.mem_append.mp hd with hd | hd
    · exact h.field.1 d hd
    · rwa [List.mem_singleton.mp hd]
  · rw [List.length_append, List.length_singleton]
    exact hlt

theorem Sound.processStart {r r' : Reader} (h : r.Sound) {c : Char} (hc : ¬isBoundary c)
    (hr : r.processStart c = some r') : r'.Sound := by
  unfold Reader.processStart at hr
  split at hr
  · cases hr
    exact h.saveField _
  · split at hr
    · cases hr
      exact h.state _
    · split at hr
      · cases hr
        exact h.saveField _
      · exact h.addChar hc hr

theorem Sound.process {r r' : Reader} (h : r.Sound) {c : Char} (hc : ¬isBoundary c)
    (hr : r.process c = some r') : r'.Sound := by
  unfold Reader.process at hr
  cases hstate : r.state with
  | startRecord =>
    simp only [hstate] at hr
    split at hr
    · cases hr
      exact h.state _
    · exact h.processStart hc hr
  | startField =>
    simp only [hstate] at hr
    exact h.processStart hc hr
  | inField =>
    simp only [hstate] at hr
    split at hr
    · cases hr
      exact h.saveField _
    · split at hr
      · cases hr
        exact h.saveField _
      · exact h.addChar hc hr
  | inQuotedField =>
    simp only [hstate] at hr
    split at hr
    · cases hr
      exact h.state _
    · exact h.addChar hc hr
  | quoteInQuotedField =>
    simp only [hstate] at hr
    split at hr
    · exact h.addChar hc hr
    · split at hr
      · cases hr
        exact h.saveField _
      · split at hr
        · cases hr
          exact h.saveField _
        · exact h.addChar hc hr
  | eatCrnl =>
    simp only [hstate] at hr
    split at hr
    · cases hr
      exact h
    · cases hr

theorem Sound.processEol {r : Reader} (h : r.Sound) : r.processEol.Sound := by
  unfold Reader.processEol
  cases r.state with
  | startRecord => exact h
  | startField => exact h.saveField _
  | inField => exact h.saveField _
  | inQuotedField => exact h
  | quoteInQuotedField => exact h.saveField _
  | eatCrnl => exact h.state _

theorem Sound.foldlM {line : List Char} (hline : ∀ c ∈ line, ¬isBoundary c) {r r' : Reader}
    (h : r.Sound) (hr : line.foldlM Reader.process r = some r') : r'.Sound := by
  induction line generalizing r with
  | nil =>
    cases hr
    exact h
  | cons c line ih =>
    rw [List.foldlM_cons, Option.bind_eq_bind, Option.bind_eq_some_iff] at hr
    obtain ⟨next, hnext, hr⟩ := hr
    exact ih (fun d hd => hline d (List.mem_cons_of_mem c hd))
      (h.process (hline c List.mem_cons_self) hnext) hr

theorem Sound.processLine {line : List Char} (hline : ∀ c ∈ line, ¬isBoundary c) {r r' : Reader}
    (h : r.Sound) (hr : r.processLine line = some r') : r'.Sound := by
  obtain ⟨next, hnext, rfl⟩ := Option.map_eq_some_iff.mp hr
  exact (h.foldlM hline hnext).processEol

end Reader

/-- **No field that is read** has a character that cuts a line, or is too long. -/
theorem readRows_clean {lines : List (List Char)} (hlines : ∀ l ∈ lines, ∀ c ∈ l, ¬isBoundary c)
    {r : Reader} (h : r.Sound) {rows : List (List Field)} (hrows : readRows r lines = some rows) :
    ∀ row ∈ rows, ∀ f ∈ row, Clean f := by
  induction lines generalizing r rows with
  | nil =>
    rw [readRows, Option.some.injEq] at hrows
    subst hrows
    intro row hrow
    split at hrow
    · rw [List.mem_singleton.mp hrow]
      exact h.all
    · cases hrow
  | cons line lines ih =>
    have hrest : ∀ l ∈ lines, ∀ c ∈ l, ¬isBoundary c :=
      fun l hl => hlines l (List.mem_cons_of_mem line hl)
    rw [readRows, Option.bind_eq_bind, Option.bind_eq_some_iff] at hrows
    obtain ⟨next, hnext, hrows⟩ := hrows
    have hsound := h.processLine (hlines line List.mem_cons_self) hnext
    split at hrows
    · rw [Option.bind_eq_bind, Option.bind_eq_some_iff] at hrows
      obtain ⟨others, hothers, hrows⟩ := hrows
      obtain rfl := Option.some.inj hrows
      intro row hrow
      rcases List.mem_cons.mp hrow with rfl | hrow
      · exact hsound.fields
      · refine ih hrest ⟨?_, Reader.clean_nil⟩ hothers row hrow
        exact fun f hf => nomatch hf
    · exact ih hrest hsound hrows

theorem readRows_splitlines_clean {text : List Char} {rows : List (List Field)}
    (hrows : readRows .init (splitlines text) = some rows) : ∀ row ∈ rows, ∀ f ∈ row, Clean f := by
  refine readRows_clean (not_boundary_of_splitFrom ?_) ⟨?_, Reader.clean_nil⟩ hrows
  · exact fun c hc => nomatch hc
  · exact fun f hf => nomatch hf

end Csv

import EthPipeline.Silver.WhaleTxns

/-!
# Entities of labels

A label is a brand and what tells its wallets apart: `Brand: text` or `Brand 14`.

* `Brand.entity_eq_iff`: the entity of such a label is its brand exactly when the brand is
  plain.
* `entity_eq_empty_iff`: which labels have no entity.
* `normalises_iff`: the labels that the entity is right for.
-/

namespace Silver

/-! ### Blanks -/

/-- `trim`. -/
def trimBlanks (cs : List Char) : List Char := (cs.dropWhile (· = ' ')).rdropWhile (· = ' ')

variable {cs : List Char}

theorem trimBlanks_eq_self (hfirst : cs.head? ≠ some ' ') (hlast : cs.getLast? ≠ some ' ') :
    trimBlanks cs = cs := by
  have hdrop : cs.dropWhile (· = ' ') = cs := by
    cases cs with
    | nil => rfl
    | cons c cs => exact List.dropWhile_cons_of_neg (by simpa using hfirst)
  unfold trimBlanks
  rw [hdrop, List.rdropWhile_eq_self_iff]
  intro hne
  rw [List.getLast?_eq_some_getLast hne] at hlast
  simpa using hlast

theorem head?_trimBlanks (cs : List Char) : (trimBlanks cs).head? ≠ some ' ' := by
  intro hhead
  obtain ⟨rest, hrest⟩ := List.head?_eq_some_iff.mp hhead
  have hprefix : trimBlanks cs <+: cs.dropWhile (· = ' ') := List.rdropWhile_prefix _ _
  rw [hrest] at hprefix
  obtain ⟨after, hafter⟩ := hprefix
  have hnot := List.head?_dropWhile_not (· = ' ') cs
  rw [← hafter, List.cons_append, List.head?_cons] at hnot
  exact absurd rfl (of_decide_eq_false hnot)

theorem getLast?_trimBlanks (cs : List Char) : (trimBlanks cs).getLast? ≠ some ' ' := by
  intro hlast
  have hne : trimBlanks cs ≠ [] := by
    intro hnil
    rw [hnil] at hlast
    cases hlast
  rw [List.getLast?_eq_some_getLast hne] at hlast
  have hnot : ¬ decide ((trimBlanks cs).getLast hne = ' ') = true :=
    List.rdropWhile_last_not (· = ' ') (cs.dropWhile (· = ' ')) hne
  exact hnot (decide_eq_true (Option.some.inj hlast))

theorem trimBlanks_concat (cs : List Char) : trimBlanks (cs ++ [' ']) = trimBlanks cs := by
  unfold trimBlanks
  rw [List.dropWhile_append]
  split
  · next hempty =>
    rw [List.isEmpty_iff.mp hempty]
    rfl
  · exact List.rdropWhile_concat_pos _ _ _ (by decide)

theorem trimBlanks_eq_nil_iff : trimBlanks cs = [] ↔ ∀ c ∈ cs, c = ' ' := by
  unfold trimBlanks
  rw [List.rdropWhile_eq_nil_iff]
  constructor
  · intro h
    have hnil : cs.dropWhile (· = ' ') = [] := by
      by_contra hne
      obtain ⟨c, rest, hcons⟩ := List.exists_cons_of_ne_nil hne
      have hnot := List.head?_dropWhile_not (· = ' ') cs
      have hblank := h c (by rw [hcons]; exact List.mem_cons_self)
      rw [hcons] at hnot
      exact absurd hblank (by simpa using hnot)
    simpa using List.dropWhile_eq_nil_iff.mp hnil
  · intro h
    rw [List.dropWhile_eq_nil_iff.mpr (by simpa using h)]
    simp

theorem mem_of_mem_trimBlanks {c : Char} (h : c ∈ trimBlanks cs) : c ∈ cs :=
  (List.dropWhile_sublist _).subset ((List.rdropWhile_prefix _ _).subset h)

/-! ### Labels and brands -/

/-- `[0-9]`. -/
def IsDigit (c : Char) : Prop := '0' ≤ c ∧ c ≤ '9'

instance : DecidablePred IsDigit := fun c => inferInstanceAs (Decidable ('0' ≤ c ∧ c ≤ '9'))

/-- `[^0-9:#]`. -/
def IsNameChar (c : Char) : Prop := ¬ IsDigit c ∧ c ≠ ':' ∧ c ≠ '#'

instance : DecidablePred IsNameChar :=
  fun c => inferInstanceAs (Decidable (¬ IsDigit c ∧ c ≠ ':' ∧ c ≠ '#'))

theorem entity_eq (label : String) :
    entity label = String.ofList (trimBlanks (label.toList.takeWhile fun c => IsNameChar c)) := by
  have hname : ∀ c : Char, (!('0' ≤ c && c ≤ '9') && c ≠ ':' && c ≠ '#') =
      decide (IsNameChar c) := by
    intro c
    rw [Bool.eq_iff_iff]
    simp [IsNameChar, IsDigit, and_assoc]
  unfold entity
  simp only [hname]
  rfl

def IsNumber (number : String) : Prop := number ≠ "" ∧ ∀ c ∈ number.toList, IsDigit c

/-- The name of a brand: it holds no `:` and no `#`, and does not end like a wallet. -/
structure Brand (brand : String) : Prop where
  nonempty : brand ≠ ""
  colon : ':' ∉ brand.toList
  hash : '#' ∉ brand.toList
  unnumbered : ∀ name number, IsNumber number → brand ≠ name ++ " " ++ number

/-- `Brand: text` and `Brand 14`. -/
def LabelOf (brand label : String) : Prop :=
  (∃ text, label = brand ++ ":" ++ text) ∨
    ∃ number, IsNumber number ∧ label = brand ++ " " ++ number

/-- A brand without digits, and without blanks at its ends. -/
structure Plain (brand : String) : Prop where
  digits : ∀ c ∈ brand.toList, ¬ IsDigit c
  first : brand.toList.head? ≠ some ' '
  last : brand.toList.getLast? ≠ some ' '

/-- After blanks, the first character is one of a name. -/
def StartsWithName (label : String) : Prop :=
  ∃ c, (label.toList.dropWhile (· = ' ')).head? = some c ∧ IsNameChar c

/-! ### What the entity is -/

variable {brand label : String}

theorem plain_entity_digits (label : String) : ∀ c ∈ (entity label).toList, ¬ IsDigit c := by
  intro c hc
  rw [entity_eq, String.toList_ofList] at hc
  have hname := List.mem_takeWhile_imp (mem_of_mem_trimBlanks hc)
  exact (of_decide_eq_true hname).1

/-- **What an entity looks like.** -/
theorem plain_entity (label : String) : Plain (entity label) where
  digits := plain_entity_digits label
  first := by
    rw [entity_eq, String.toList_ofList]
    exact head?_trimBlanks _
  last := by
    rw [entity_eq, String.toList_ofList]
    exact getLast?_trimBlanks _

/-- What comes after the brand ends the name, but for a blank. -/
theorem Brand.takeWhile_label (hbrand : Brand brand) (hplain : Plain brand)
    (hlabel : LabelOf brand label) :
    (label.toList.takeWhile fun c => IsNameChar c) = brand.toList ∨
      (label.toList.takeWhile fun c => IsNameChar c) = brand.toList ++ [' '] := by
  have hname : ∀ c ∈ brand.toList, decide (IsNameChar c) = true := by
    intro c hc
    refine decide_eq_true ⟨hplain.digits c hc, ?_, ?_⟩
    · rintro rfl
      exact hbrand.colon hc
    · rintro rfl
      exact hbrand.hash hc
  rcases hlabel with ⟨text, rfl⟩ | ⟨number, ⟨hne, hdigits⟩, rfl⟩
  · left
    rw [String.toList_append, String.toList_append, List.append_assoc,
      List.takeWhile_append_of_pos hname]
    exact List.append_nil _
  · right
    cases hnumber : number.toList with
    | nil => exact absurd (String.toList_eq_nil_iff.mp hnumber) hne
    | cons d ds =>
      have hd : IsDigit d := hdigits d (by rw [hnumber]; exact List.mem_cons_self)
      rw [String.toList_append, String.toList_append, List.append_assoc,
        List.takeWhile_append_of_pos hname, hnumber]
      refine congrArg (brand.toList ++ ·) ?_
      show List.takeWhile _ (' ' :: d :: ds) = [' ']
      rw [List.takeWhile_cons_of_pos (by decide),
        List.takeWhile_cons_of_neg (by simpa using fun hname : IsNameChar d => hname.1 hd)]

/-- **The entity is the brand** exactly when the brand is plain. -/
theorem Brand.entity_eq_iff (hbrand : Brand brand) (hlabel : LabelOf brand label) :
    entity label = brand ↔ Plain brand := by
  constructor
  · intro h
    rw [← h]
    exact plain_entity label
  · intro hplain
    have htrim := trimBlanks_eq_self hplain.first hplain.last
    rw [entity_eq]
    rcases hbrand.takeWhile_label hplain hlabel with htake | htake
    · rw [htake, htrim, String.ofList_toList]
    · rw [htake, trimBlanks_concat, htrim, String.ofList_toList]

/-- **No entity.** -/
theorem entity_eq_empty_iff (label : String) : entity label = "" ↔ ¬ StartsWithName label := by
  obtain ⟨blanks, hblanks, hlabel⟩ : ∃ blanks : List Char, (∀ c ∈ blanks, c = ' ') ∧
      label.toList = blanks ++ label.toList.dropWhile (· = ' ') := by
    refine ⟨label.toList.takeWhile (· = ' '), fun c hc => ?_,
      List.takeWhile_append_dropWhile.symm⟩
    have hblank := List.mem_takeWhile_imp hc
    exact of_decide_eq_true hblank
  have hnames : ∀ c ∈ blanks, decide (IsNameChar c) = true := by
    intro c hc
    rw [hblanks c hc]
    decide
  have hnot := List.head?_dropWhile_not (· = ' ') label.toList
  unfold StartsWithName
  rw [entity_eq, String.ofList_eq_empty_iff, trimBlanks_eq_nil_iff]
  generalize label.toList.dropWhile (· = ' ') = rest at hlabel hnot ⊢
  rw [hlabel, List.takeWhile_append_of_pos hnames]
  cases rest with
  | nil => simpa using hblanks
  | cons c rest =>
    have hc : c ≠ ' ' := of_decide_eq_false hnot
    by_cases hname : IsNameChar c
    · rw [List.takeWhile_cons_of_pos (by simpa using hname)]
      refine iff_of_false (fun h => hc (h c (by simp))) ?_
      exact not_not.mpr ⟨c, rfl, hname⟩
    · rw [List.takeWhile_cons_of_neg (by simpa using hname), List.append_nil]
      refine iff_of_true hblanks ?_
      rintro ⟨c', hc', hname'⟩
      obtain rfl : c = c' := Option.some.inj hc'
      exact hname hname'

/-! ### A set of labels -/

/-- The stated rule: labels of a brand are mapped to it, labels of different brands to
different entities, and no label to the empty entity. -/
structure Normalises (labels : Set String) : Prop where
  brand : ∀ label ∈ labels, ∀ brand, Brand brand → LabelOf brand label → entity label = brand
  distinct : ∀ label ∈ labels, ∀ label' ∈ labels, ∀ brand brand', Brand brand → Brand brand' →
    LabelOf brand label → LabelOf brand' label' → brand ≠ brand' → entity label ≠ entity label'
  named : ∀ label ∈ labels, label ≠ "" → entity label ≠ ""

/-- Brands without digits and labels that start with a name. -/
structure PlainLabels (labels : Set String) : Prop where
  brands : ∀ label ∈ labels, ∀ brand, Brand brand → LabelOf brand label → Plain brand
  names : ∀ label ∈ labels, label ≠ "" → StartsWithName label

/-- **Entity normalisation**: the rule holds of the labels whose brands are plain and
that start with a name, and of no others. -/
theorem normalises_iff (labels : Set String) : Normalises labels ↔ PlainLabels labels := by
  constructor
  · rintro ⟨hbrand, -, hnamed⟩
    constructor
    · intro label hlabel brand hb hof
      exact (hb.entity_eq_iff hof).mp (hbrand label hlabel brand hb hof)
    · intro label hlabel hne
      exact not_not.mp ((entity_eq_empty_iff label).not.mp (hnamed label hlabel hne))
  · rintro ⟨hbrands, hnames⟩
    have hentity : ∀ label ∈ labels, ∀ brand, Brand brand → LabelOf brand label →
        entity label = brand := by
      intro label hlabel brand hb hof
      exact (hb.entity_eq_iff hof).mpr (hbrands label hlabel brand hb hof)
    refine ⟨hentity, ?_, ?_⟩
    · intro label hlabel label' hlabel' brand brand' hb hb' hof hof' hne
      rwa [hentity label hlabel brand hb hof, hentity label' hlabel' brand' hb' hof']
    · intro label hlabel hne
      exact (entity_eq_empty_iff label).not.mpr (not_not.mpr (hnames label hlabel hne))

/-- A name that has no blank before its last digits. -/
theorem unnumbered_of_getLast?
    (h : (brand.toList.rdropWhile fun c => IsDigit c).getLast? ≠ some ' ') (name number : String)
    (hnumber : IsNumber number) : brand ≠ name ++ " " ++ number := by
  rintro rfl
  refine h ?_
  have hdigits : ∀ c ∈ number.toList.reverse, decide (IsDigit c) = true := by
    intro c hc
    exact decide_eq_true (hnumber.2 c (List.mem_reverse.mp hc))
  unfold List.rdropWhile
  rw [String.toList_append, List.reverse_append, List.dropWhile_append_of_pos hdigits,
    String.toList_append, List.reverse_append]
  show (List.dropWhile _ (' ' :: name.toList.reverse)).reverse.getLast? = some ' '
  rw [List.dropWhile_cons_of_neg (by decide), List.reverse_cons, List.getLast?_concat]

/-- **Brands with digits**: what comes before the digit, or nothing. -/
theorem digits_not_normalised :
    entity "Uniswap V3: Router" = "Uniswap V" ∧ entity "Uniswap V2: Router" = "Uniswap V" ∧
      entity "1inch: Router" = "" ∧
      ¬ Normalises {"Uniswap V3: Router"} := by
  refine ⟨by decide +kernel, by decide +kernel, by decide +kernel, fun h => ?_⟩
  have hbrand : Brand "Uniswap V3" :=
    ⟨by decide, by decide, by decide, unnumbered_of_getLast? (by decide)⟩
  have hentity := h.brand "Uniswap V3: Router" rfl "Uniswap V3" hbrand (.inl ⟨" Router", rfl⟩)
  exact absurd hentity (by decide +kernel)

end Silver

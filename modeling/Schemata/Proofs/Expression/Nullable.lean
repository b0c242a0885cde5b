import Schemata.Proofs.Expression.Depth
import Schemata.Proofs.Expression.Forms
import Schemata.Proofs.Expression.Within
import Schemata.Proofs.Schema.Nodes

/-!
# Where marks for nullable come from

A parser without overrides marks a node as nullable for two reasons. One is the word `null` or
`undefined` as a name or as a member of a union. The other is a union without any members: where
nothing but bars and blanks stands, all members have been dropped, and what is left is the type that
has `null` as its only value. A text without the two words and without such a place is never
answered with a mark.

## Main definitions

* `Schema.MarkedOnly`: the nodes with a mark are all the type of `null` alone.
* `Form.MarksOnly`: a form that puts no other mark into its schema.
* `BareBars`: a text of bars and blanks.

## Main results

* `splitTop_eq_nil_iff`: a text with no parts at all is made of bars and blanks.
* `Form.markedOnly_schema`: a form adds no mark to those of its components.
* `Parser.markedOnly_read`: marks in readings.
* `Parser.nullable_in_answer`: marks in answers, and the answer to bars and blanks.

## Implementation notes

The words are looked for in the text as a whole. They cannot come about by cutting, since every
expression inside a text is a stretch of it.
-/

namespace Schemata

/-! ### Texts of bars and blanks -/

/-- Nothing but bars and blanks, with at least one bar. -/
def BareBars (text : List Char) : Prop := (∀ c ∈ text, c = '|' ∨ isBlank c = true) ∧ '|' ∈ text

theorem nonblankParts_eq_nil_iff {parts : List (List Char)} :
    nonblankParts parts = [] ↔ ∀ part ∈ parts, strip part = [] := by
  simp [nonblankParts, List.filter_eq_nil_iff]

/-- Where all parts are blank, there is nothing but delimiters between them. -/
theorem Cuts.eq_or_isBlank {d : Char} {s : Scan} {parts : List (List Char)} {text : List Char}
    (h : Cuts [d] s parts text) (blank : ∀ part ∈ parts, strip part = []) :
    ∀ c ∈ text, c = d ∨ isBlank c = true := by
  induction h with
  | last =>
    intro c hc
    exact .inr (strip_eq_nil_iff.mp (blank _ List.mem_cons_self) c hc)
  | cut _ _ _ ih =>
    rw [List.forall_mem_cons] at blank
    intro c hc
    rcases List.mem_append.mp hc with hc | hc
    · exact .inr (strip_eq_nil_iff.mp blank.1 c hc)
    rcases List.mem_append.mp hc with hc | hc
    · exact .inl (List.mem_singleton.mp hc)
    · exact ih blank.2 c hc

/-- The first of the delimiters in a text of delimiters and blanks stands at top level, so that none
is left in a part. -/
theorem Cuts.strip_eq_nil {d : Char} {parts : List (List Char)} {text : List Char}
    (h : Cuts [d] .start parts text) (all : ∀ c ∈ text, c = d ∨ isBlank c = true) :
    ∀ part ∈ parts, strip part = [] := by
  intro part hpart
  have inPart : ∀ c ∈ part, c = d ∨ isBlank c = true :=
    fun c hc => all c ((h.infix_of_mem hpart).subset hc)
  refine strip_eq_nil_iff.mpr fun c hc => (inPart c hc).resolve_left ?_
  rintro rfl
  obtain ⟨before, after, rfl, first⟩ := List.eq_append_cons_of_mem hc
  have blanks : ∀ b ∈ before, isBlank b = true := by
    intro b hb
    refine (inPart b (List.mem_append_left _ hb)).resolve_left ?_
    rintro rfl
    exact first hb
  refine h.not_standsAtTop rfl hpart ⟨before, after, rfl, ?_⟩
  rw [Scan.start_after_of_blanks blanks]
  rfl

theorem splitTop_eq_nil_iff {d : Char} (hd : isStructural d = false) {text : List Char} :
    splitTop [d] text = [] ↔ ∀ c ∈ text, c = d ∨ isBlank c = true := by
  have cuts := cuts_segments hd [] .start text
  rw [splitTop_eq, nonblankParts_eq_nil_iff]
  exact ⟨cuts.eq_or_isBlank, cuts.strip_eq_nil⟩

theorem bareBars_iff {text : List Char} :
    BareBars text ↔ splitTop ['|'] text = [] ∧ strip text ≠ [] := by
  rw [splitTop_eq_nil_iff (by decide), BareBars, Ne, strip_eq_nil_iff]
  refine and_congr_right fun all => ?_
  constructor
  · intro bar blank
    exact absurd (blank _ bar) (by decide)
  · intro some
    by_contra noBar
    refine some fun c hc => (all c hc).resolve_left ?_
    rintro rfl
    exact noBar hc

/-- The blanks around a text do not matter. -/
theorem bareBars_strip_iff {text : List Char} : BareBars (strip text) ↔ BareBars text := by
  obtain ⟨front, back, htext, hfront, hback⟩ := exists_padding text
  constructor
  · rintro ⟨all, bar⟩
    rw [htext, BareBars, List.forall_mem_append, List.forall_mem_append]
    refine ⟨⟨⟨fun c hc => .inr (hfront c hc), all⟩, fun c hc => .inr (hback c hc)⟩, ?_⟩
    exact List.mem_append_left _ (List.mem_append_right _ bar)
  · rintro ⟨all, bar⟩
    refine ⟨fun c hc => all c ((infix_strip text).subset hc), ?_⟩
    rw [htext, List.mem_append, List.mem_append] at bar
    rcases bar with (bar | bar) | bar
    · exact absurd (hfront _ bar) (by decide)
    · exact bar
    · exact absurd (hback _ bar) (by decide)

/-! ### Marks in schemas -/

namespace Schema

/-- The nodes with a mark for nullable are all the type of `null` alone, and there are such nodes
only if they are excused. -/
def MarkedOnly (excused : Prop) (s : Schema) : Prop :=
  ∀ t ∈ s.nodes, t.nullable.truthy = true → t = nullOnly ∧ excused

variable {excused : Prop}

theorem markedOnly_leaf {s : Schema} (nodes : s.nodes = [s])
    (unmarked : s.nullable.truthy = false) : s.MarkedOnly excused := by
  intro t ht mark
  rw [nodes, List.mem_singleton] at ht
  rw [ht, unmarked] at mark
  cases mark

theorem markedOnly_empty : MarkedOnly excused .empty := markedOnly_leaf rfl rfl

theorem markedOnly_object_iff {properties : List (String × Schema)} {required : List String}
    {additional : Option Schema} :
    MarkedOnly excused (.object properties required additional (.bool false)) ↔
      (∀ property ∈ properties, property.2.MarkedOnly excused) ∧
        ∀ t, additional = some t → t.MarkedOnly excused :=
  forall_nodes_object.trans (and_iff_right nofun)

theorem markedOnly_array_iff {items : Option Schema} {facets : ArrayFacets} :
    MarkedOnly excused (.array items facets) ↔ ∀ t, items = some t → t.MarkedOnly excused :=
  forall_nodes_array.trans (and_iff_right nofun)

theorem markedOnly_oneOf_iff {variants : List Schema} :
    MarkedOnly excused (.oneOf variants) ↔ ∀ t ∈ variants, t.MarkedOnly excused :=
  forall_nodes_oneOf.trans (and_iff_right nofun)

theorem markedOnly_allOf_iff {parts : List Schema} :
    MarkedOnly excused (.allOf parts) ↔ ∀ t ∈ parts, t.MarkedOnly excused :=
  forall_nodes_allOf.trans (and_iff_right nofun)

end Schema

/-! ### Marks of forms -/

namespace Form

open Schema

variable {excused : Prop}

/-- What holds of the schemas of its members holds of the schemas below an object literal. -/
theorem exists_objectOf {P : Schema → Prop} {members : List (Member × Schema)}
    (h : ∀ member ∈ members, P member.2) :
    ∃ properties required additional,
      objectOf members = .object properties required additional (.bool false) ∧
        (∀ property ∈ properties, P property.2) ∧ ∀ t, additional = some t → P t := by
  have fold : ∀ object : Fields Schema × List String × Option Schema,
      ((∀ property ∈ object.1, P property.2) ∧ ∀ t, object.2.2 = some t → P t) →
      (∀ property ∈ (members.foldl addMember object).1, P property.2) ∧
        ∀ t, (members.foldl addMember object).2.2 = some t → P t := by
    induction members with
    | nil => exact fun _ hobject => hobject
    | cons member rest ih =>
      rw [List.forall_mem_cons] at h
      obtain ⟨member, s⟩ := member
      rintro ⟨properties, required, additional⟩ ⟨below, further⟩
      refine ih h.2 _ ?_
      cases member with
      | index type =>
        refine ⟨below, fun t ht => ?_⟩
        cases ht
        exact h.1
      | property name optional type =>
        refine ⟨fun property hp => ?_, further⟩
        rcases Fields.eq_or_mem_of_mem_insert hp with rfl | hp
        · exact h.1
        · exact below property hp
  obtain ⟨below, further⟩ := fold ([], [], none) ⟨nofun, nofun⟩
  exact ⟨_, _, _, rfl, below, further⟩

/-- The form puts no mark into its schema that is not excused. -/
def MarksOnly (excused : Prop) : Form → Prop
  | .known s => s.MarkedOnly excused
  | .null => excused
  | .single _ nullable => nullable = false
  | _ => True

/-- The marks of a schema are those of its components and of its form. -/
theorem markedOnly_schema {form : Form} (own : form.MarksOnly excused) {inner : List Schema}
    (h : ∀ s ∈ inner, s.MarkedOnly excused) : (form.schema inner).MarkedOnly excused := by
  have first : (inner.headD .empty).MarkedOnly excused := headD_of_forall markedOnly_empty h
  have one : ∀ t, inner.head? = some t → t.MarkedOnly excused :=
    fun t ht => h t (List.mem_of_head? ht)
  cases form with
  | known s => exact own
  | inner | modified | selected => exact first
  | list => exact markedOnly_array_iff.mpr one
  | null => exact List.forall_mem_singleton.mpr fun _ => ⟨rfl, own⟩
  | single member nullable =>
    obtain rfl : nullable = false := own
    exact first
  | oneOf => exact markedOnly_oneOf_iff.mpr h
  | allOf => exact markedOnly_allOf_iff.mpr h
  | object members =>
    have below : ∀ member ∈ members.zip inner, member.2.MarkedOnly excused :=
      fun member hm => h _ (List.of_mem_zip hm).2
    obtain ⟨properties, required, additional, heq, parts⟩ := exists_objectOf below
    rw [schema, heq]
    exact markedOnly_object_iff.mpr parts
  | tuple =>
    refine markedOnly_array_iff.mpr fun t ht => ?_
    split at ht
    · cases ht
    · cases ht
      exact markedOnly_oneOf_iff.mpr h
  | dictionary => exact markedOnly_object_iff.mpr ⟨List.forall_mem_nil _, one⟩
  | _ => exact markedOnly_leaf rfl rfl

/-- Of the names that need no definition, only `null` stands for a marked node. -/
theorem markedOnly_of_mem_primitives {name : String} {s : Schema} (h : (name, s) ∈ primitives)
    (other : name ≠ "null") : s.MarkedOnly excused := by
  have leaves : ∀ primitive ∈ primitives, primitive.1 ≠ "null" →
      primitive.2.nodes = [primitive.2] ∧ primitive.2.nullable.truthy = false := by
    simp [primitives, dateTime, anyObject, Schema.nodes, nodesOfFields, nodesOfOption,
      Schema.nullable, Json.truthy]
  obtain ⟨nodes, unmarked⟩ := leaves _ h other
  exact markedOnly_leaf nodes unmarked

/-- A text in which neither `null` nor `undefined` occurs. -/
def NamesNoNull (text : List Char) : Prop :=
  ¬ "null".toList <:+: text ∧ ¬ "undefined".toList <:+: text

theorem NamesNoNull.mono {text part : List Char} (h : NamesNoNull text) (sub : part <:+: text) :
    NamesNoNull part :=
  ⟨fun null => h.1 (null.trans sub), fun undefined => h.2 (undefined.trans sub)⟩

theorem NamesNoNull.isNullName {text : List Char} (h : NamesNoNull text) :
    isNullName text = false := by
  rw [Form.isNullName, Bool.or_eq_false_iff, beq_eq_false_iff_ne, beq_eq_false_iff_ne]
  constructor
  · rintro rfl
    exact h.1 (List.infix_refl _)
  · rintro rfl
    exact h.2 (List.infix_refl _)

/-- A union without a member for `null` marks nothing, as long as it has members. -/
theorem marksOnly_ofUnion {members : List (List Char)} (named : ∀ m ∈ members, isNullName m = false)
    (bare : members = [] → excused) : (ofUnion members).MarksOnly excused := by
  have kept : members.filter (!isNullName ·) = members := by
    rw [List.filter_eq_self]
    intro m hm
    rw [named m hm]
    rfl
  rw [ofUnion]
  split
  · trivial
  · dsimp only
    rw [kept]
    rcases members with - | ⟨first, - | ⟨second, rest⟩⟩
    · exact bare rfl
    · rfl
    · trivial

theorem marksOnly_ofText {expr : List Char} (noNull : NamesNoNull expr) (nonblank : strip expr ≠ [])
    (bare : BareBars expr → excused) : (ofText expr).MarksOnly excused := by
  rw [ofText]
  split
  · trivial
  split
  · refine marksOnly_ofUnion (fun m hm => ?_) fun none => bare (bareBars_iff.mpr ⟨none, nonblank⟩)
    exact (noNull.mono (infix_of_mem_splitTop (by decide) hm)).isNullName
  split
  · trivial
  split
  · trivial
  split
  · trivial
  split
  · trivial
  split
  · rw [ofApplication.eq_def]
    split <;> trivial
  split
  · trivial
  split <;> trivial

theorem marksOnly_of {text : List Char} (noNull : NamesNoNull text)
    (bare : BareBars text → excused) : (Form.of [] (strip text)).MarksOnly excused := by
  have inner := noNull.mono (infix_strip text)
  rw [Form.of]
  split
  · trivial
  · next hne =>
    have nonblank : strip text ≠ [] := by simpa using hne
    split
    · next s hs =>
      refine markedOnly_of_mem_primitives (Fields.mem_of_lookup_eq_some hs) fun heq => ?_
      have whole : "null".toList = strip text := by
        rw [← heq, String.toList_ofList]
      exact inner.1 (whole ▸ List.infix_refl _)
    · refine marksOnly_ofText inner (by rwa [strip_strip]) fun bars => ?_
      exact bare (bareBars_strip_iff.mp bars)

/-- A text of bars and blanks is a union that has lost all its members. -/
theorem of_bareBars {text : List Char} (h : BareBars text) : Form.of [] (strip text) = .null := by
  have bars := bareBars_strip_iff.mpr h
  obtain ⟨none, nonblank⟩ := bareBars_iff.mp bars
  rw [strip_strip] at nonblank
  have unwrapped : isWrapped '(' ')' (strip text) = false := by
    cases hstrip : strip text with
    | nil => exact absurd hstrip nonblank
    | cons c rest =>
      refine (unwrapped_of_head ?_ rest).1
      rcases bars.1 c (hstrip ▸ List.mem_cons_self) with rfl | blank
      · rfl
      · exact (isStructural_eq_false_iff.mp (isStructural_of_isBlank blank)).1
  have cut : hasTop ['|'] (strip text) = true := by
    rw [hasTop, none]
    rfl
  rw [of_eq_ofText bars.2 (by decide), ofText, unwrapped, if_neg Bool.false_ne_true, cut,
    if_pos rfl, none]
  rfl

end Form

/-! ### Marks in readings -/

namespace Parser

open Schema

variable {p : Parser} {text : List Char}

/-- The induction is on the length of the expression, which reading goes down with; the excuse is
looked for in the whole text, so that it is one and the same on the way. -/
theorem markedOnly_read (fresh : p.overrides = []) (noNull : Form.NamesNoNull text)
    {expr : List Char} (within : ExpressionIn p.overrides text expr) (depth : Nat) :
    (p.read depth expr).schema.MarkedOnly
      (∃ x, ExpressionIn p.overrides text x ∧ BareBars x) := by
  induction hn : (strip expr).length using Nat.strongRecOn generalizing depth expr with
  | _ n ih =>
    subst hn
    rw [read_eq]
    split
    · exact markedOnly_leaf rfl rfl
    · have own : (Form.of p.overrides (strip expr)).MarksOnly
          (∃ x, ExpressionIn p.overrides text x ∧ BareBars x) := by
        have here := Form.marksOnly_of (noNull.mono within.isInfix) fun bare =>
          (⟨expr, within, bare⟩ : ∃ x, ExpressionIn p.overrides text x ∧ BareBars x)
        rwa [fresh] at here ⊢
      refine Form.markedOnly_schema own fun s hs => ?_
      obtain ⟨r, hr, rfl⟩ := List.mem_map.mp hs
      obtain ⟨component, hc, rfl⟩ := List.mem_map.mp hr
      exact ih _ (Form.length_lt_of_mem_components hc) (within.component hc) (depth + 1) rfl

theorem read_strip (p : Parser) (depth : Nat) (text : List Char) :
    p.read depth (strip text) = p.read depth text := by
  rw [read_eq, read_eq, strip_strip]

theorem answer_of_bareBars (fresh : p.overrides = []) {limit : Int}
    (limited : p.maxDepth.integer? = some limit) (deep : 0 ≤ limit) {text : String}
    (bars : BareBars text.toList) : p.answer text = .ok ⟨nullOnly, 10, []⟩ := by
  have shallow : p.tooDeep 0 = false := by
    rw [tooDeep_eq limited]
    exact decide_eq_false (by omega)
  have read : p.read 0 (strip text.toList) = ⟨nullOnly, [], false⟩ := by
    rw [read_strip, read_eq, shallow, if_neg Bool.false_ne_true, fresh, Form.of_bareBars bars]
    rfl
  have confidence : (p.read 0 (strip text.toList)).confidence = .ok 10 := by
    rw [read]
    rfl
  have answered := answer_of_confidence (number?_of_integer_limit limited) (by rw [read]) confidence
  rwa [read] at answered

/-- Without overrides, a text that has neither of the words `null` and `undefined` in it is answered
without marks for nullable, except for the type of `null` alone where nothing but bars and blanks
stands; and such a place is always answered in this way. -/
theorem nullable_in_answer (fresh : p.overrides = []) {limit : Int}
    (limited : p.maxDepth.integer? = some limit) {text : String}
    (noNull : ¬ "null".toList <:+: text.toList)
    (noUndefined : ¬ "undefined".toList <:+: text.toList) :
    ∃ answer, p.answer text = .ok answer ∧
      (∀ t ∈ answer.schema.nodes, t.nullable.truthy = true → t = nullOnly ∧
        ∃ x, ExpressionIn p.overrides text.toList x ∧ BareBars x) ∧
      (0 ≤ limit → BareBars text.toList → answer = ⟨nullOnly, 10, []⟩) := by
  have regular : p.Regular "" := by
    rw [Regular, fresh]
    exact nofun
  obtain ⟨answer, hanswer, hschema⟩ :=
    exists_answer regular (number?_of_integer_limit limited) text
  refine ⟨answer, hanswer, ?_, fun deep bars => ?_⟩
  · rw [hschema, read_strip]
    exact markedOnly_read fresh ⟨noNull, noUndefined⟩ .whole 0
  · rw [answer_of_bareBars fresh limited deep bars] at hanswer
    exact (Except.ok.inj hanswer).symm

/-- Either of the words has a letter `u`. -/
theorem namesNoNull_of_notMem {text : List Char} (h : 'u' ∉ text) : Form.NamesNoNull text :=
  ⟨fun null => h (null.subset (by decide)), fun undefined => h (undefined.subset (by decide))⟩

/-- A union in a list, where no place is without members; and bars alone. -/
theorem nullable_in_answer_list :
    (Form.NamesNoNull "Array<string | Date>".toList ∧
      ∃ answer, (⟨[], .int 10⟩ : Parser).answer "Array<string | Date>" = .ok answer ∧
        ∀ t ∈ answer.schema.nodes, t.nullable.truthy = true → t = nullOnly ∧
          ∃ x, ExpressionIn [] "Array<string | Date>".toList x ∧ BareBars x) ∧
    Form.NamesNoNull " | |".toList ∧ BareBars " | |".toList ∧
      (⟨[], .int 10⟩ : Parser).answer " | |" = .ok ⟨nullOnly, 10, []⟩ := by
  have limited : (⟨[], .int 10⟩ : Parser).maxDepth.integer? = some 10 := rfl
  constructor
  · have noNull := namesNoNull_of_notMem (by decide : 'u' ∉ "Array<string | Date>".toList)
    obtain ⟨answer, hanswer, marks, -⟩ := nullable_in_answer rfl limited noNull.1 noNull.2
    exact ⟨noNull, answer, hanswer, marks⟩
  · have noNull := namesNoNull_of_notMem (by decide : 'u' ∉ " | |".toList)
    have bare : BareBars " | |".toList := ⟨by simp [isBlank], by simp⟩
    obtain ⟨answer, hanswer, -, bars⟩ := nullable_in_answer rfl limited noNull.1 noNull.2
    rw [hanswer, bars (by decide) bare]
    exact ⟨noNull, bare, rfl⟩

/-- A bar alone, without a word for `null` in it, is answered with a mark for nullable. -/
theorem nullable_of_bar :
    Form.NamesNoNull "|".toList ∧
      (⟨[], .int 10⟩ : Parser).answer "|" =
        .ok ⟨.string { nullable := .bool true }, 10, []⟩ := by
  have limited : (⟨[], .int 10⟩ : Parser).maxDepth.integer? = some 10 := rfl
  refine ⟨namesNoNull_of_notMem (by decide), ?_⟩
  exact answer_of_bareBars rfl limited (by decide) ⟨by simp, by simp⟩

end Parser

end Schemata

import Schemata.Proofs.Expression.Answered
import Schemata.Proofs.Schema.Regular

/-!
# Parsed schemas are regular

A form puts its schema together from those of its components. When these are regular, so is the
schema, and no node of no kind is ever to be marked as nullable: no expression is refused.

## Main definitions

* `Form.Sound`: what a form owes to the way it was read.

## Main results

* `Form.sound_of`: the forms that are read are sound.
* `Form.regular_schema`: the schema of a sound form with regular components is regular.
* `Parser.holds_and_refused_read`: what forms carry over holds of all readings.
* `Parser.regular_and_refused_read`: readings are regular and not refused.
* `Parser.exists_answer`: every text is answered.
* `Parser.regular_run`: all answers of a session are regular.
-/

namespace Schemata

variable {refPrefix : String}

namespace Form

def Sound (refPrefix : String) : Form → Prop
  | .known s => s.Regular refPrefix
  | .literals values => values ≠ []
  | .generic base _ => base ≠ []
  | .reference name => name ≠ []
  | _ => True

/-! ### Reading forms -/

theorem sound_ofUnion (members : List (List Char)) : (ofUnion members).Sound refPrefix := by
  rw [ofUnion]
  split
  · next h =>
    rw [Bool.and_eq_true] at h
    intro hnil
    rw [List.map_eq_nil_iff] at hnil
    rw [hnil] at h
    exact absurd h.1 Bool.false_ne_true
  · dsimp only
    split <;> trivial

theorem ne_nil_of_isIdentifier {name : List Char} (h : isIdentifier name = true) : name ≠ [] := by
  rintro rfl
  cases h

theorem sound_ofApplication {base first : List Char} {others : List (List Char)} (hne : base ≠ []) :
    (ofApplication base first others).Sound refPrefix := by
  rw [ofApplication.eq_def]
  split <;> trivial

theorem isIdentifier_of_application {expr base first : List Char} {others : List (List Char)}
    (h : application? expr = some (base, first, others)) : isIdentifier base = true := by
  simp only [application?] at h
  split at h
  · next hw =>
    split at h
    · cases h
    · cases h
      exact (Bool.and_eq_true_iff.mp hw).1
  · cases h

theorem sound_ofText (expr : List Char) : (ofText expr).Sound refPrefix := by
  rw [ofText]
  split
  · trivial
  split
  · exact sound_ofUnion _
  split
  · trivial
  split
  · trivial
  split
  · trivial
  split
  · trivial
  split
  · next h => exact sound_ofApplication (ne_nil_of_isIdentifier (isIdentifier_of_application h))
  split
  · exact List.cons_ne_nil _ _
  split
  · next h => exact ne_nil_of_isIdentifier h
  · trivial

theorem ofText_ne_known (expr : List Char) (s : Schema) : ofText expr ≠ .known s := by
  intro h
  rw [ofText] at h
  split at h
  · cases h
  split at h
  · rw [ofUnion] at h
    split at h
    · cases h
    · dsimp only at h
      split at h <;> cases h
  split at h
  · cases h
  split at h
  · cases h
  split at h
  · cases h
  split at h
  · cases h
  split at h
  · rw [ofApplication.eq_def] at h
    split at h <;> cases h
  split at h
  · cases h
  split at h <;> cases h

/-- A form is known by a name, or is told from the text. -/
theorem of_cases (overrides : Fields Schema) (expr : List Char) :
    Form.of overrides expr = .blank ∨
      (∃ name s, Form.of overrides expr = .known s ∧
        ((name, s) ∈ overrides ∨ (name, s) ∈ primitives)) ∨
      Form.of overrides expr = ofText expr := by
  rw [Form.of]
  split
  · exact .inl rfl
  right
  split
  · next s h =>
    rw [Option.orElse_eq_orElse, Option.orElse_eq_or] at h
    rcases Option.or_eq_some_iff.mp h with h | ⟨-, h⟩
    · exact .inl ⟨_, s, rfl, .inl (Fields.mem_of_lookup_eq_some h)⟩
    · exact .inl ⟨_, s, rfl, .inr (Fields.mem_of_lookup_eq_some h)⟩
  · exact .inr rfl

/-- A known schema is that of an override or of a primitive name. -/
theorem exists_of_known {overrides : Fields Schema} {expr : List Char} {s : Schema}
    (h : Form.of overrides expr = .known s) :
    ∃ name, (name, s) ∈ overrides ∨ (name, s) ∈ primitives := by
  rcases of_cases overrides expr with hblank | ⟨name, t, hknown, hmem⟩ | htext
  · cases hblank.symm.trans h
  · cases hknown.symm.trans h
    exact ⟨name, hmem⟩
  · exact absurd (htext.symm.trans h) (ofText_ne_known expr s)

/-- The names that need no definition have regular schemas. -/
theorem regular_of_mem_primitives {primitive : String × Schema} (h : primitive ∈ primitives) :
    primitive.2.Regular refPrefix := by
  have all : ∀ primitive ∈ primitives, primitive.2.Regular refPrefix := by
    simp only [primitives, dateTime, nullOnly, List.forall_mem_cons]
    exact ⟨Schema.regular_text _, .number rfl .absent rfl, .boolean rfl, Schema.regular_text _,
      Schema.regular_text _, Schema.regular_text _, Schema.regular_text _, .empty, .empty, .empty,
      .empty, Schema.regular_anyObject _, .number rfl .absent rfl, nofun⟩
  exact all primitive h

theorem sound_of {overrides : Fields Schema}
    (regular : ∀ entry ∈ overrides, entry.2.Regular refPrefix) (expr : List Char) :
    (Form.of overrides expr).Sound refPrefix := by
  rcases of_cases overrides expr with hblank | ⟨name, s, hknown, hmem⟩ | htext
  · rw [hblank]
    trivial
  · rw [hknown]
    rcases hmem with h | h
    · exact regular _ h
    · exact regular_of_mem_primitives h
  · rw [htext]
    exact sound_ofText expr

/-! ### Schemas of forms -/

/-- What holds of all schemas, and of the one that says nothing, holds of the first of them. -/
theorem headD_of_forall {P : Schema → Prop} (empty : P .empty) {inner : List Schema}
    (h : ∀ s ∈ inner, P s) : P (inner.headD .empty) := by
  cases inner with
  | nil => exact empty
  | cons s rest => exact h s List.mem_cons_self

theorem regular_headD {inner : List Schema} (h : ∀ s ∈ inner, s.Regular refPrefix) :
    (inner.headD .empty).Regular refPrefix :=
  headD_of_forall .empty h

theorem regular_of_head? {inner : List Schema} (h : ∀ s ∈ inner, s.Regular refPrefix) :
    ∀ s, inner.head? = some s → s.Regular refPrefix :=
  fun s hs => h s (List.mem_of_head? hs)

theorem regular_withNullable {s : Schema} (h : s.Regular refPrefix) :
    (s.withNullable?.getD s).Regular refPrefix := by
  cases h with
  | string enum bounds _ => exact .string enum bounds rfl
  | number whole bounds _ => exact .number whole bounds rfl
  | boolean => exact .boolean rfl
  | object below known further => exact .object below known further
  | array below bounds marked => exact .array below bounds marked
  | oneOf below => exact .oneOf below
  | allOf below => exact .allOf below
  | ref nonempty => exact .ref nonempty
  | empty => exact .empty

/-- What holds of an object literal while its members are added. -/
structure SoundObject (refPrefix : String) (object : Fields Schema × List String × Option Schema) :
    Prop where
  below : ∀ property ∈ object.1, property.2.Regular refPrefix
  known : ∀ name ∈ object.2.1, name ∈ Fields.names object.1
  further : ∀ s, object.2.2 = some s → s.Regular refPrefix

theorem SoundObject.addMember {object : Fields Schema × List String × Option Schema}
    (h : SoundObject refPrefix object) (member : Member) {s : Schema} (hs : s.Regular refPrefix) :
    SoundObject refPrefix (addMember object (member, s)) := by
  obtain ⟨properties, required, additional⟩ := object
  cases member with
  | index type =>
    refine ⟨h.below, h.known, fun t ht => ?_⟩
    cases ht
    exact hs
  | property name optional type =>
    refine ⟨fun property hp => ?_, fun key hk => ?_, h.further⟩
    · rcases Fields.eq_or_mem_of_mem_insert hp with rfl | hp
      · exact hs
      · exact h.below property hp
    · refine Fields.mem_names_insert_iff.mpr ?_
      dsimp only [Form.addMember] at hk
      split at hk
      · exact .inr (h.known key hk)
      · rcases List.mem_append.mp hk with hk | hk
        · exact .inr (h.known key hk)
        · exact .inl (List.mem_singleton.mp hk)

theorem regular_objectOf {members : List (Member × Schema)}
    (h : ∀ member ∈ members, member.2.Regular refPrefix) :
    (objectOf members).Regular refPrefix := by
  have sound : ∀ object, SoundObject refPrefix object →
      SoundObject refPrefix (members.foldl addMember object) := by
    induction members with
    | nil => exact fun _ hobject => hobject
    | cons member rest ih =>
      rw [List.forall_mem_cons] at h
      exact fun object hobject => ih h.2 _ (hobject.addMember member.1 h.1)
  obtain ⟨below, known, further⟩ := sound ([], [], none)
    ⟨fun _ h => absurd h List.not_mem_nil, fun _ h => absurd h List.not_mem_nil, nofun⟩
  exact .object below known further

theorem regular_tupleOf {elements : List Schema} (h : ∀ s ∈ elements, s.Regular refPrefix) :
    (tupleOf elements).Regular refPrefix := by
  refine .array (fun s hs => ?_) ⟨.inr rfl, .inr rfl, ?_⟩ rfl
  · split at hs
    · cases hs
    · cases hs
      exact .oneOf h
  · rw [Json.exceeds?_of_numbers rfl rfl]
    simp

theorem regular_literalsOf {values : List (List Char)} (hne : values ≠ []) :
    (literalsOf values).Regular refPrefix := by
  refine .string (fun distinct hd => ?_) .absent rfl
  obtain rfl := Option.some.inj hd
  exact ⟨Json.distinct_ne_nil (mt List.map_eq_nil_iff.mp hne), Json.apart_distinct _⟩

theorem ref_ne_empty {name : List Char} (h : name ≠ []) :
    refPrefix ++ String.ofList name ≠ "" := by
  intro hempty
  refine h ?_
  rw [← String.toList_ofList (l := name), (String.append_eq_empty_iff.mp hempty).2]
  rfl

theorem regular_schema {form : Form} (sound : form.Sound refPrefix) {inner : List Schema}
    (h : ∀ s ∈ inner, s.Regular refPrefix) : (form.schema inner).Regular refPrefix := by
  cases form with
  | blank => exact .empty
  | unrecognized => exact .empty
  | known s => exact sound
  | inner text => exact regular_headD h
  | modified base argument => exact regular_headD h
  | selected base first arguments => exact regular_headD h
  | list element unique => exact .array (regular_of_head? h) .absent rfl
  | literals values => exact regular_literalsOf sound
  | null => exact Schema.regular_text refPrefix
  | single member nullable =>
    rw [schema]
    split
    · exact regular_withNullable (regular_headD h)
    · exact regular_headD h
  | oneOf members nullable => exact .oneOf h
  | allOf parts => exact .allOf h
  | object members =>
    refine regular_objectOf fun member hm => h _ ?_
    exact (List.of_mem_zip hm).2
  | tuple elements => exact regular_tupleOf h
  | dictionary value =>
    exact .object (fun _ h => absurd h List.not_mem_nil) (fun _ h => absurd h List.not_mem_nil)
      (regular_of_head? h)
  | generic base arguments => exact .ref (ref_ne_empty sound)
  | reference name => exact .ref (ref_ne_empty sound)

theorem kind_ne_abstract {s : Schema} (h : s.Regular refPrefix) : s.kind ≠ .abstract := by
  cases h with
  | number =>
    rw [Schema.kind]
    split <;> exact nofun
  | _ => exact nofun

theorem refuses_eq_false (form : Form) {inner : List Schema}
    (h : ∀ s ∈ inner, s.kind ≠ .abstract) : form.refuses inner = false := by
  cases form with
  | single member nullable =>
    have known : (inner.headD .empty).kind ≠ .abstract := headD_of_forall nofun h
    rw [refuses, decide_eq_false known, Bool.and_false]
  | _ => rfl

end Form

/-! ### Readings -/

namespace Parser

/-- The overrides of the parser are regular. -/
def Regular (refPrefix : String) (p : Parser) : Prop :=
  ∀ entry ∈ p.overrides, entry.2.Regular refPrefix

variable {p : Parser}

/-- What forms carry over from their components to their schema holds of all readings; when it
does not hold of a node of no kind, nothing is refused. The induction is on the length of the text,
which reading goes down with. -/
theorem holds_and_refused_read {P : Schema → Prop} (cut : P .anyObject)
    (known : ∀ s, P s → s.kind ≠ .abstract)
    (step : ∀ expr inner, (∀ s ∈ inner, P s) → P ((Form.of p.overrides expr).schema inner))
    (depth : Nat) (text : List Char) :
    P (p.read depth text).schema ∧ (p.read depth text).refused = false := by
  induction hn : (strip text).length using Nat.strongRecOn generalizing depth text with
  | _ n ih =>
    subst hn
    rw [read_eq]
    split
    · exact ⟨cut, rfl⟩
    · have below : ∀ component ∈ (Form.of p.overrides (strip text)).components,
          P (p.read (depth + 1) component).schema ∧
            (p.read (depth + 1) component).refused = false := fun component hc =>
        ih _ (Form.length_lt_of_mem_components hc) (depth + 1) component rfl
      have inner : ∀ s ∈ ((Form.of p.overrides (strip text)).components.map
          (p.read (depth + 1))).map Reading.schema, P s := by
        intro s hs
        obtain ⟨r, hr, rfl⟩ := List.mem_map.mp hs
        obtain ⟨component, hc, rfl⟩ := List.mem_map.mp hr
        exact (below component hc).1
      refine ⟨step _ _ inner, ?_⟩
      rw [assemble]
      dsimp only
      rw [Form.refuses_eq_false _ fun s hs => known s (inner s hs), Bool.or_false,
        List.any_eq_false]
      intro r hr
      obtain ⟨component, hc, rfl⟩ := List.mem_map.mp hr
      rw [(below component hc).2]
      exact Bool.false_ne_true

theorem regular_and_refused_read (hp : p.Regular refPrefix) (depth : Nat) (text : List Char) :
    (p.read depth text).schema.Regular refPrefix ∧ (p.read depth text).refused = false :=
  holds_and_refused_read (Schema.regular_anyObject refPrefix) (fun _ => Form.kind_ne_abstract)
    (fun expr _ => Form.regular_schema (Form.sound_of hp expr)) depth text

theorem regular_of_parse (hp : p.Regular refPrefix) {text : List Char} {r : Reading}
    (h : p.parse text = .ok r) : r.schema.Regular refPrefix := by
  rw [parse] at h
  split at h
  · cases h
  dsimp only at h
  split at h
  · cases h
  · cases h
    exact (regular_and_refused_read hp 0 text).1

/-- An expression that is not refused is parsed, when the limit of depth is a number. -/
theorem parse_of_accepted (limited : p.maxDepth.number?.isSome = true) {text : List Char}
    (accepted : (p.read 0 text).refused = false) : p.parse text = .ok (p.read 0 text) := by
  have number : p.maxDepth.number?.isNone = false := by
    rw [← Option.not_isSome, limited, Bool.not_true]
  rw [parse, number, if_neg Bool.false_ne_true]
  dsimp only
  rw [accepted, if_neg Bool.false_ne_true]

theorem exists_confidence {r : Reading} (known : r.schema.kind ≠ .abstract) :
    ∃ tenths, r.confidence = .ok tenths := by
  rw [Reading.confidence]
  split
  · next h => exact absurd h known
  all_goals exact ⟨_, rfl⟩

theorem ofReading_of_confidence {r : Reading} {tenths : Nat} (h : r.confidence = .ok tenths) :
    Answer.ofReading r = .ok ⟨r.schema, tenths, r.warnings⟩ := by
  rw [Answer.ofReading, h]
  rfl

theorem answer_of_confidence (limited : p.maxDepth.number?.isSome = true) {text : String}
    (accepted : (p.read 0 (strip text.toList)).refused = false) {tenths : Nat}
    (h : (p.read 0 (strip text.toList)).confidence = .ok tenths) :
    p.answer text = .ok ⟨(p.read 0 (strip text.toList)).schema, tenths,
      (p.read 0 (strip text.toList)).warnings⟩ := by
  rw [answer, parse_of_accepted limited accepted]
  exact ofReading_of_confidence h

/-- Every text is answered, when the limit of depth is a number. -/
theorem exists_answer (hp : p.Regular refPrefix) (limited : p.maxDepth.number?.isSome = true)
    (text : String) :
    ∃ answer, p.answer text = .ok answer ∧
      answer.schema = (p.read 0 (strip text.toList)).schema := by
  obtain ⟨regular, accepted⟩ := regular_and_refused_read hp 0 (strip text.toList)
  obtain ⟨tenths, hconfidence⟩ := exists_confidence (Form.kind_ne_abstract regular)
  exact ⟨_, answer_of_confidence limited accepted hconfidence, rfl⟩

/-! ### Sessions -/

theorem regular_of_yields (hp : p.Regular refPrefix) {s : Schema} (h : p.Yields s) :
    s.Regular refPrefix := by
  obtain ⟨text, r, hr, rfl⟩ := h
  exact regular_of_parse hp hr

theorem regular_closedSet {enumValues : Json} {s : Schema} (h : closedSet enumValues = .ok s) :
    s.Regular refPrefix := by
  rw [closedSet] at h
  split at h
  · cases h
  · obtain ⟨rfl, enum, -⟩ := StringFacets.node_eq_ok_iff.mp h
    exact .string (fun values hv => (enum values hv).imp_right Json.allDistinct_iff.mp) .absent rfl

theorem regular_definitionRules (hp : p.Regular refPrefix) :
    p.DefinitionRules fun _ s => s.Regular refPrefix where
  closed h := regular_closedSet h
  object _ below h := by
    refine Schema.regular_of_objectNode (fun property hprop => ?_) (fun t ht => ?_) h
    · obtain ⟨_, _, regular⟩ := below property hprop
      exact regular
    · cases ht
  list regular := by
    refine .array (fun u hu => ?_) .absent rfl
    cases hu
    exact regular
  expression h := regular_of_yields hp h

theorem regular_run (hp : p.Regular refPrefix) {requests : List Request} {response : Response}
    (hr : response ∈ p.run requests) {s : Schema} (hs : Answers response s) :
    s.Regular refPrefix := by
  obtain ⟨request, -, read | ⟨d, -, regular⟩⟩ := (regular_definitionRules hp).run hr hs
  · exact regular_of_yields hp read
  · exact regular

end Parser

end Schemata

import Schemata.Proofs.Merge.Defined
import Schemata.Proofs.Produced
import Schemata.Proofs.Schema.Checked
import Schemata.Proofs.Schema.Origin

/-!
# Required names are a set

What is required of an object names properties of it, whatever the object comes from. No property
is named twice either, as long as none is where schemas are loaded from: loading takes the names
over as they stand, repetitions included. A parsed object requires a name when it is first met, a
definition and a merge go through tables in which no name repeats, and enriching leaves the names
alone.

## Main definitions

* `Schema.RequiresTwice`: an object that names one of its properties twice among those it requires.
* `Schema.RequiresOnce`: no node of a schema requires a property twice, unless that is excused.
* `TypeDefinition.WellFormed`: no property is defined twice, at any depth.
* `ProducedFrom`: the schemas that are produced when loading is only from given values.

## Main results

* `Schema.ReadFrom.nodup_required`: a loaded node requires no property twice, unless the object from
  which it is read does.
* `Parser.requiresOnce_run`, `requiresOnce_of_merge`: neither sessions nor merges add a repetition.
* `required_of_producedFrom`: what is required of the objects in a schema that was produced.
-/

namespace Schemata

namespace Schema

def RequiresTwice (object : Fields Json) : Prop :=
  ∃ values below name, (entry "required" object).elements? = some values ∧
    ("properties", .obj below) ∈ object ∧ name ∈ Fields.names below ∧
      2 ≤ (texts values).count name

def RequiresOnce (excused : Prop) (s : Schema) : Prop :=
  ∀ t ∈ s.nodes, t.required.Nodup ∨ excused

variable {excused : Prop} {s : Schema}

/-! ### Loading -/

/-- A property that is required twice is named twice where the node is read from. -/
theorem ReadFrom.nodup_required {object : Fields Json} (h : s.ReadFrom object) :
    s.required.Nodup ∨ RequiresTwice object := by
  rcases h.required with hnone | ⟨values, hvalues, hfilter⟩
  · left
    rw [hnone]
    exact List.nodup_nil
  rcases h.names with hnone | ⟨below, hbelow, hnames⟩
  · left
    rw [hfilter, hnone]
    simp [Fields.names]
  · by_cases nodup : s.required.Nodup
    · exact .inl nodup
    · right
      rw [List.nodup_iff_count_le_one] at nodup
      push Not at nodup
      obtain ⟨name, twice⟩ := nodup
      have hmem : name ∈ s.required := List.count_pos_iff.mp (by omega)
      have hname : name ∈ Fields.names below := by
        rw [hfilter] at hmem
        rw [← hnames]
        simpa using (List.mem_filter.mp hmem).2
      have sub : s.required.Sublist (texts values) := hfilter ▸ List.filter_sublist
      have hcount := sub.count_le name
      exact ⟨values, below, name, hvalues, hbelow, hname, by omega⟩

theorem requiresOnce_of_load {refPrefix path : String} {v : Json}
    (h : load (.str refPrefix) path v = .ok s) :
    s.RequiresOnce (∃ object, ObjectWithin object v ∧ RequiresTwice object) := by
  intro t ht
  obtain ⟨object, within, source⟩ := readWithin_of_load h t ht
  exact source.nodup_required.imp_right fun twice => ⟨object, within, twice⟩

/-! ### Nodes -/

theorem RequiresOnce.imp {excused' : Prop} (h : s.RequiresOnce excused)
    (imp : excused → excused') : s.RequiresOnce excused' :=
  fun t ht => (h t ht).imp_right imp

/-- A node without children that is no object. -/
theorem requiresOnce_of_nodes_eq (nodes : s.nodes = [s]) (required : s.required = []) :
    s.RequiresOnce excused := by
  intro t ht
  rw [nodes, List.mem_singleton] at ht
  rw [ht, required]
  exact .inl List.nodup_nil

theorem requiresOnce_empty : RequiresOnce excused .empty := requiresOnce_of_nodes_eq rfl rfl

theorem requiresOnce_anyObject : RequiresOnce excused .anyObject :=
  requiresOnce_of_nodes_eq rfl rfl

theorem requiresOnce_object_iff {properties : List (String × Schema)} {required : List String}
    {additional : Option Schema} {nullable : Json} :
    RequiresOnce excused (.object properties required additional nullable) ↔
      (required.Nodup ∨ excused) ∧ (∀ property ∈ properties, property.2.RequiresOnce excused) ∧
        ∀ t, additional = some t → t.RequiresOnce excused :=
  forall_nodes_object

theorem requiresOnce_array_iff {items : Option Schema} {facets : ArrayFacets} :
    RequiresOnce excused (.array items facets) ↔
      ∀ t, items = some t → t.RequiresOnce excused :=
  forall_nodes_array.trans (and_iff_right (.inl List.nodup_nil))

theorem requiresOnce_oneOf_iff {variants : List Schema} :
    RequiresOnce excused (.oneOf variants) ↔ ∀ t ∈ variants, t.RequiresOnce excused :=
  forall_nodes_oneOf.trans (and_iff_right (.inl List.nodup_nil))

theorem requiresOnce_allOf_iff {parts : List Schema} :
    RequiresOnce excused (.allOf parts) ↔ ∀ t ∈ parts, t.RequiresOnce excused :=
  forall_nodes_allOf.trans (and_iff_right (.inl List.nodup_nil))

theorem RequiresOnce.enrich (h : s.RequiresOnce excused) : s.enrich.RequiresOnce excused := by
  induction s using nestedInduction with
  | string f =>
    obtain ⟨v, hv⟩ := enrich_string f
    rw [hv]
    exact requiresOnce_of_nodes_eq rfl rfl
  | number f =>
    obtain ⟨v, hv⟩ := enrich_number f
    rw [hv]
    exact requiresOnce_of_nodes_eq rfl rfl
  | boolean f =>
    obtain ⟨v, hv⟩ := enrich_boolean f
    rw [hv]
    exact requiresOnce_of_nodes_eq rfl rfl
  | object properties required additional nullable ihp _ =>
    rw [requiresOnce_object_iff] at h
    rw [Schema.enrich, requiresOnce_object_iff]
    refine ⟨h.1, fun property hp => ?_, h.2.2⟩
    rw [enrichFields_eq_map] at hp
    obtain ⟨field, hf, rfl⟩ := List.mem_map.mp hp
    exact ihp field hf (h.2.1 field hf)
  | array items facets ih =>
    rw [requiresOnce_array_iff] at h
    rw [Schema.enrich, requiresOnce_array_iff]
    intro t ht
    rw [enrichOption_eq_map] at ht
    obtain ⟨u, hu, rfl⟩ := Option.map_eq_some_iff.mp ht
    exact ih u hu (h u hu)
  | _ => exact h

end Schema

open Schema

variable {refPrefix : String} {excused : Prop} {s : Schema}

/-! ### Parsing -/

namespace Form

theorem requiresOnce_of_mem_primitives {primitive : String × Schema}
    (h : primitive ∈ primitives) : primitive.2.RequiresOnce excused := by
  have leaves : ∀ primitive ∈ primitives,
      primitive.2.nodes = [primitive.2] ∧ primitive.2.required = [] := by
    simp [primitives, dateTime, nullOnly, anyObject, Schema.nodes, nodesOfFields, nodesOfOption,
      required]
  exact requiresOnce_of_nodes_eq (leaves primitive h).1 (leaves primitive h).2

theorem requiresOnce_of_known {overrides : Fields Schema}
    (once : ∀ entry ∈ overrides, entry.2.RequiresOnce excused) {expr : List Char}
    (h : Form.of overrides expr = .known s) : s.RequiresOnce excused := by
  obtain ⟨name, h | h⟩ := exists_of_known h
  · exact once _ h
  · exact requiresOnce_of_mem_primitives h

theorem requiresOnce_withNullable (h : s.RequiresOnce excused) :
    (s.withNullable?.getD s).RequiresOnce excused := by
  cases s with
  | string f => exact requiresOnce_of_nodes_eq rfl rfl
  | number f => exact requiresOnce_of_nodes_eq rfl rfl
  | boolean f => exact requiresOnce_of_nodes_eq rfl rfl
  | object properties required additional nullable =>
    rw [requiresOnce_object_iff] at h
    exact requiresOnce_object_iff.mpr h
  | _ => exact h

/-- What holds of an object literal while its members are added. -/
structure OnceObject (excused : Prop) (object : Fields Schema × List String × Option Schema) :
    Prop where
  below : ∀ property ∈ object.1, property.2.RequiresOnce excused
  nodup : object.2.1.Nodup
  further : ∀ t, object.2.2 = some t → t.RequiresOnce excused

/-- A name is required by the first of the members that ask for it, and not again. -/
theorem OnceObject.addMember {object : Fields Schema × List String × Option Schema}
    (h : OnceObject excused object) (member : Member) {t : Schema} (ht : t.RequiresOnce excused) :
    OnceObject excused (addMember object (member, t)) := by
  obtain ⟨properties, required, additional⟩ := object
  cases member with
  | index type =>
    refine ⟨h.below, h.nodup, fun u hu => ?_⟩
    cases hu
    exact ht
  | property name optional type =>
    refine ⟨fun property hp => ?_, ?_, h.further⟩
    · rcases Fields.eq_or_mem_of_mem_insert hp with rfl | hp
      · exact ht
      · exact h.below property hp
    · dsimp only [Form.addMember]
      split
      · exact h.nodup
      · next new =>
        have hnew : name ∉ required := by
          intro hmem
          simp [hmem] at new
        rw [← List.concat_eq_append]
        exact h.nodup.concat hnew

theorem requiresOnce_objectOf {members : List (Member × Schema)}
    (h : ∀ member ∈ members, member.2.RequiresOnce excused) :
    (objectOf members).RequiresOnce excused := by
  have once : ∀ object, OnceObject excused object →
      OnceObject excused (members.foldl Form.addMember object) := by
    induction members with
    | nil => exact fun _ hobject => hobject
    | cons member rest ih =>
      rw [List.forall_mem_cons] at h
      exact fun object hobject => ih h.2 _ (hobject.addMember member.1 h.1)
  obtain ⟨below, nodup, further⟩ := once ([], [], none)
    ⟨fun _ h => absurd h List.not_mem_nil, List.nodup_nil, nofun⟩
  exact requiresOnce_object_iff.mpr ⟨.inl nodup, below, further⟩

/-- The schema of a form requires nothing twice that its components do not. -/
theorem requiresOnce_schema {form : Form}
    (known : ∀ s, form = .known s → s.RequiresOnce excused) {inner : List Schema}
    (h : ∀ t ∈ inner, t.RequiresOnce excused) : (form.schema inner).RequiresOnce excused := by
  have first : (inner.headD .empty).RequiresOnce excused := headD_of_forall requiresOnce_empty h
  have one : ∀ t, inner.head? = some t → t.RequiresOnce excused :=
    fun t ht => h t (List.mem_of_head? ht)
  cases form with
  | known s => exact known s rfl
  | inner | modified | selected => exact first
  | list => exact requiresOnce_array_iff.mpr one
  | single member nullable =>
    rw [schema]
    split
    · exact requiresOnce_withNullable first
    · exact first
  | oneOf => exact requiresOnce_oneOf_iff.mpr h
  | allOf => exact requiresOnce_allOf_iff.mpr h
  | object members =>
    refine requiresOnce_objectOf fun member hm => h _ ?_
    exact (List.of_mem_zip hm).2
  | tuple =>
    refine requiresOnce_array_iff.mpr fun t ht => ?_
    split at ht
    · cases ht
    · cases ht
      exact requiresOnce_oneOf_iff.mpr h
  | dictionary =>
    refine requiresOnce_object_iff.mpr ⟨.inl List.nodup_nil, ?_, one⟩
    exact fun _ h => absurd h List.not_mem_nil
  | _ => exact requiresOnce_of_nodes_eq rfl rfl

end Form

namespace TypeDefinition

/-- No property is defined twice, at any depth. -/
inductive WellFormed : TypeDefinition → Prop
  | mk {enumValues : Json} {properties : List (String × TypeDefinition)}
      {element : Option TypeDefinition} {type : Option String} {optional : Bool}
      (nodup : (Fields.names properties).Nodup)
      (below : ∀ property ∈ properties, WellFormed property.2)
      (further : ∀ d, element = some d → WellFormed d) :
      WellFormed (.mk enumValues properties element type optional)

theorem names_of_ofFields {fields : Fields Json} {definitions : List (String × TypeDefinition)}
    (h : ofFields fields = .ok definitions) : Fields.names definitions = Fields.names fields := by
  induction fields generalizing definitions with
  | nil =>
    cases h
    rfl
  | cons field rest ih =>
    obtain ⟨name, v⟩ := field
    rw [ofFields] at h
    obtain ⟨d, -, h⟩ := Fault.bind_eq_ok_iff.mp h
    obtain ⟨tail, htail, h⟩ := Fault.bind_eq_ok_iff.mp h
    obtain rfl := Fault.pure_eq_ok_iff.mp h
    exact congrArg (name :: ·) (ih htail)

mutual

/-- A definition that is read from a value in which no object repeats a name is well-formed. -/
theorem wellFormed_of_ofJson : (v : Json) → v.WellFormed → ∀ d, ofJson v = .ok d → d.WellFormed
  | .obj fields, wf, d, h => by
    rw [ofJson] at h
    obtain ⟨properties, hproperties, h⟩ := Fault.bind_eq_ok_iff.mp h
    obtain ⟨element, helement, h⟩ := Fault.bind_eq_ok_iff.mp h
    split at h
    · obtain rfl := Fault.pure_eq_ok_iff.mp h
      obtain ⟨nodup, below⟩ := wellFormed_of_propertiesEntry fields wf.2 properties hproperties
      exact .mk nodup below (wellFormed_of_elementEntry fields wf.2 element helement)
    · cases h
  | .null, _, _, h | .bool _, _, _, h | .int _, _, _, h | .double _, _, _, h | .str _, _, _, h
  | .arr _, _, _, h => by
    rw [ofJson] at h
    cases h

theorem wellFormed_of_propertiesEntry : (fields : List (String × Json)) →
    Json.FieldsWellFormed fields → ∀ definitions, propertiesEntry fields = .ok definitions →
      (Fields.names definitions).Nodup ∧ ∀ property ∈ definitions, property.2.WellFormed
  | [], _, definitions, h => by
    rw [propertiesEntry] at h
    cases h
    exact ⟨List.nodup_nil, fun _ h => absurd h List.not_mem_nil⟩
  | (name, v) :: rest, wf, definitions, h => by
    rw [propertiesEntry.eq_def] at h
    dsimp only at h
    split at h
    · cases v with
      | obj inner =>
        rw [names_of_ofFields h]
        exact ⟨wf.1.1, wellFormed_of_ofFields inner wf.1.2 definitions h⟩
      | null =>
        cases h
        exact ⟨List.nodup_nil, fun _ h => absurd h List.not_mem_nil⟩
      | _ => cases h
    · exact wellFormed_of_propertiesEntry rest wf.2 definitions h

theorem wellFormed_of_elementEntry : (fields : List (String × Json)) →
    Json.FieldsWellFormed fields → ∀ element, elementEntry fields = .ok element →
      ∀ d, element = some d → d.WellFormed
  | [], _, element, h => by
    rw [elementEntry] at h
    cases h
    exact nofun
  | (name, v) :: rest, wf, element, h => by
    rw [elementEntry] at h
    split at h
    · split at h
      · cases h
        exact nofun
      · obtain ⟨d, hd, h⟩ := Fault.bind_eq_ok_iff.mp h
        obtain rfl := Fault.pure_eq_ok_iff.mp h
        rintro _ ⟨⟩
        exact wellFormed_of_ofJson v wf.1 d hd
    · exact wellFormed_of_elementEntry rest wf.2 element h

theorem wellFormed_of_ofFields : (fields : List (String × Json)) →
    Json.FieldsWellFormed fields → ∀ definitions, ofFields fields = .ok definitions →
      ∀ property ∈ definitions, property.2.WellFormed
  | [], _, definitions, h => by
    rw [ofFields] at h
    cases h
    exact fun _ h => absurd h List.not_mem_nil
  | (name, v) :: rest, wf, definitions, h => by
    rw [ofFields] at h
    obtain ⟨d, hd, h⟩ := Fault.bind_eq_ok_iff.mp h
    obtain ⟨tail, htail, h⟩ := Fault.bind_eq_ok_iff.mp h
    obtain rfl := Fault.pure_eq_ok_iff.mp h
    exact List.forall_mem_cons.mpr
      ⟨wellFormed_of_ofJson v wf.1 d hd, wellFormed_of_ofFields rest wf.2 tail htail⟩

end

end TypeDefinition

namespace Parser

variable {p : Parser}

theorem requiresOnce_read (regular : p.Regular refPrefix)
    (once : ∀ entry ∈ p.overrides, entry.2.RequiresOnce excused) (depth : Nat) (text : List Char) :
    (p.read depth text).schema.RequiresOnce excused := by
  have both := holds_and_refused_read (p := p)
    (P := fun s => s.Regular refPrefix ∧ s.RequiresOnce excused)
    ⟨regular_anyObject refPrefix, requiresOnce_anyObject⟩
    (fun _ h => Form.kind_ne_abstract h.1)
    (fun expr inner h => ⟨Form.regular_schema (Form.sound_of regular expr) fun s hs => (h s hs).1,
      Form.requiresOnce_schema (fun _ => Form.requiresOnce_of_known once) fun s hs => (h s hs).2⟩)
    depth text
  exact both.1.2

theorem requiresOnce_of_yields (regular : p.Regular refPrefix)
    (once : ∀ entry ∈ p.overrides, entry.2.RequiresOnce excused) (h : p.Yields s) :
    s.RequiresOnce excused := by
  obtain ⟨text, r, hr, rfl⟩ := h
  rw [parse] at hr
  split at hr
  · cases hr
  dsimp only at hr
  split at hr
  · cases hr
  · cases hr
    exact requiresOnce_read regular once 0 text

theorem nodup_texts_requiredOf {properties : List (String × TypeDefinition)}
    (nodup : (Fields.names properties).Nodup) : (texts (requiredOf properties)).Nodup := by
  rw [requiredOf, texts_map_str]
  exact nodup.sublist (List.filter_sublist.map _)

theorem requiresOnce_definitionRules (regular : p.Regular refPrefix)
    (once : ∀ entry ∈ p.overrides, entry.2.RequiresOnce excused) :
    p.DefinitionRules fun d s => d.WellFormed → s.RequiresOnce excused where
  closed h _ := by
    rw [closedSet] at h
    split at h
    · cases h
    · obtain ⟨rfl, -⟩ := StringFacets.node_eq_ok_iff.mp h
      exact requiresOnce_of_nodes_eq rfl rfl
  object _ below h wf := by
    obtain ⟨rfl, -⟩ := objectNode_eq_ok_iff.mp h
    cases wf with
    | mk nodup wfBelow _ =>
      refine requiresOnce_object_iff.mpr
        ⟨.inl (nodup_texts_requiredOf nodup), fun field hf => ?_, fun t ht => ?_⟩
      · obtain ⟨d, hd, holds⟩ := below field hf
        exact holds (wfBelow _ hd)
      · cases ht
  list holds wf := by
    cases wf with
    | mk _ _ further =>
      refine requiresOnce_array_iff.mpr fun t ht => ?_
      cases ht
      exact holds (further _ rfl)
  expression h _ := requiresOnce_of_yields regular once h

/-- The answers of a session require nothing twice that the overrides do not. -/
theorem requiresOnce_run (regular : p.Regular refPrefix)
    (once : ∀ entry ∈ p.overrides, entry.2.RequiresOnce excused) {requests : List Request}
    (wf : ∀ d, .define d ∈ requests → d.WellFormed) {response : Response}
    (hr : response ∈ p.run requests) (hs : Answers response s) : s.RequiresOnce excused := by
  obtain ⟨request, hrequest, h | ⟨d, rfl, holds⟩⟩ :=
    (requiresOnce_definitionRules regular once).run hr hs
  · exact requiresOnce_of_yields regular once h
  · exact holds (wf d hrequest)

end Parser

/-! ### Merging -/

section Merging

variable {config : Config} {samples : List Schema}

/-- A merged node of plain values has no children. -/
theorem requiresOnce_of_mergePrimitives {kind : Kind} (primitive : kind.isPrimitive = true)
    (h : mergePrimitives config kind samples = .ok s) : s.RequiresOnce excused := by
  obtain ⟨format, -, h⟩ := mergePrimitives_cases primitive h
  rcases h with ⟨-, hm⟩ | ⟨-, rfl⟩ | ⟨-, rfl⟩
  · rcases mergeStrings_cases hm with ⟨-, rfl⟩ | ⟨-, rfl⟩
    · exact requiresOnce_of_nodes_eq rfl rfl
    · exact requiresOnce_of_nodes_eq rfl rfl
  · exact requiresOnce_of_nodes_eq rfl rfl
  · exact requiresOnce_of_nodes_eq rfl rfl

theorem requiresOnce_of_merges (h : Merges config samples s)
    (once : ∀ t ∈ samples, t.RequiresOnce excused) : s.RequiresOnce excused := by
  induction h with
  | nothing => exact requiresOnce_anyObject
  | alone finished =>
    exact holds_of_finish (P := RequiresOnce excused) (fun _ => RequiresOnce.enrich) finished
      (once _ List.mem_cons_self)
  | apart _ _ _ finished =>
    exact requiresOnce_oneOf_iff.mpr
      (holds_of_finishAll (P := RequiresOnce excused) (fun _ => RequiresOnce.enrich) finished once)
  | @objects samples properties additional _ _ names _ _ _ ihp iha =>
    refine requiresOnce_object_iff.mpr
      ⟨.inl (nodup_requiredNames samples), fun property hp => ?_, fun t ht => ?_⟩
    · have nodup : (Fields.names properties).Nodup := by
        rw [names]
        exact nodup_names_propertyGroups _
      exact ihp property.1 property.2 (Fields.lookup_eq_some_of_mem nodup hp)
        (forall_nodes_propertyGroup once _)
    · exact iha t ht (forall_nodes_additional once)
  | arrays _ _ _ _ ih =>
    exact requiresOnce_array_iff.mpr fun t ht => ih t ht (forall_nodes_items once)
  | values _ primitive _ merged => exact requiresOnce_of_mergePrimitives primitive merged

theorem requiresOnce_of_merge (h : merge config samples = .ok s)
    (once : ∀ t ∈ samples, t.RequiresOnce excused) : s.RequiresOnce excused :=
  requiresOnce_of_merges (merges_of_merge h) once

end Merging

/-! ### All that is produced -/

/-- The schemas that come out of loading values for which `Source` holds, and of sessions, merges
and enriching from what came out before. -/
inductive ProducedFrom (refPrefix : String) (Source : Json → Prop) : Schema → Prop
  | loaded {path : String} {v : Json} {s : Schema} (source : Source v)
      (h : load (.str refPrefix) path v = .ok s) : ProducedFrom refPrefix Source s
  | parsed {p : Parser} {requests : List Parser.Request} {response : Parser.Response} {s : Schema}
      (overrides : ∀ entry ∈ p.overrides, ProducedFrom refPrefix Source entry.2)
      (wf : ∀ d, .define d ∈ requests → d.WellFormed) (answered : response ∈ p.run requests)
      (h : Parser.Answers response s) : ProducedFrom refPrefix Source s
  | merged {config : Config} {samples : List Schema} {s : Schema}
      (before : ∀ t ∈ samples, ProducedFrom refPrefix Source t)
      (h : merge config samples = .ok s) : ProducedFrom refPrefix Source s
  | enriched {s : Schema} (h : ProducedFrom refPrefix Source s) :
      ProducedFrom refPrefix Source s.enrich
  | mergedSide {config : Config} {snapshots : List Snapshot} {merged : MergedSnapshot} {s : Schema}
      (before : ∀ snapshot ∈ snapshots, ∀ t ∈ snapshot.schemas, ProducedFrom refPrefix Source t)
      (h : mergeSnapshots config snapshots = .ok merged)
      (side : merged.request = some s ∨ merged.response = some s) : ProducedFrom refPrefix Source s

variable {Source : Json → Prop}

theorem ProducedFrom.produced (h : ProducedFrom refPrefix Source s) : Produced refPrefix s := by
  induction h with
  | loaded _ h => exact .loaded h
  | parsed _ _ answered h ih => exact .parsed ih answered h
  | merged _ h ih => exact .merged ih h
  | enriched _ ih => exact .enriched ih
  | mergedSide _ h side ih => exact .mergedSide ih h side

theorem ProducedFrom.requiresOnce (h : ProducedFrom refPrefix Source s) :
    s.RequiresOnce (∃ v object, Source v ∧ ObjectWithin object v ∧ RequiresTwice object) := by
  induction h with
  | @loaded path v s source h =>
    refine (requiresOnce_of_load h).imp ?_
    rintro ⟨object, within, twice⟩
    exact ⟨v, object, source, within, twice⟩
  | parsed overrides wf answered h ih =>
    exact Parser.requiresOnce_run (fun entry he => (overrides entry he).produced.regular) ih wf
      answered h
  | merged _ h ih => exact requiresOnce_of_merge h ih
  | enriched _ ih => exact ih.enrich
  | mergedSide _ h side ih =>
    exact holds_of_mergeSnapshots (fun _ _ => requiresOnce_of_merge) h ih side

/-- What is required of an object in a schema that was produced names properties of the object, and
each of them once, unless one of the values that were loaded holds an object that names one of its
own properties twice. -/
theorem required_of_producedFrom (h : ProducedFrom refPrefix Source s) {t : Schema}
    (ht : t ∈ s.nodes) :
    (∀ name ∈ t.required, name ∈ Fields.names t.properties) ∧
      (t.required.Nodup ∨
        ∃ v object, Source v ∧ ObjectWithin object v ∧ RequiresTwice object) := by
  refine ⟨fun name hname => ?_, h.requiresOnce t ht⟩
  have regular := h.produced.regular.of_mem_nodes t ht
  cases regular with
  | object _ known _ => exact known name hname
  | _ => exact absurd hname List.not_mem_nil

/-- An object with one property, which it requires. -/
def requiredName : Schema := .object [("name", .empty)] ["name"] none (.bool false)

theorem required_of_producedFrom_name :
    ProducedFrom "#/" (· = requiredName.document (.str "#/")) requiredName ∧
      (∀ name ∈ requiredName.required, name ∈ Fields.names requiredName.properties) ∧
        (requiredName.required.Nodup ∨
          ∃ v object, v = requiredName.document (.str "#/") ∧ ObjectWithin object v ∧
            RequiresTwice object) := by
  have produced : ProducedFrom "#/" (· = requiredName.document (.str "#/")) requiredName := by
    have loaded : load (.str "#/") "#" (requiredName.document (.str "#/")) = .ok requiredName := by
      rw [requiredName, document, load]
      rfl
    exact .loaded rfl loaded
  exact ⟨produced, required_of_producedFrom produced (self_mem_nodes _)⟩

/-- A name that stands twice among the required ones is loaded twice. -/
theorem load_requires_twice :
    load (.str "#/components/schemas/") "#"
        (.obj [("type", .str "object"), ("properties", .obj [("a", .obj [])]),
          ("required", .arr [.str "a", .str "a"])]) =
      .ok (.object [("a", .empty)] ["a", "a"] none (.bool false)) ∧
    ¬ (Schema.object [("a", .empty)] ["a", "a"] none (.bool false)).required.Nodup := by
  constructor
  · rw [load]
    rfl
  · decide

end Schemata

import Schemata.Schema.Document
import Schemata.Proofs.Schema.Load

/-!
# Loading what was written

A regular schema is loaded again from its JSON form.

## Main definitions

* `Slots`: the entries that a form can have, in their order.

## Main results

* `StringFacets.document_eq` and its like: the slots of each form.
* `Schema.load_document`: loading the form of a regular schema gives the schema.

## Implementation notes

In the slots of a form each name occurs once, whether its entry is there or not, so that look-up in
the form is look-up in the slots and can be computed.
-/

namespace Schemata

/-! ### Slots -/

/-- Entries that can be missing. -/
abbrev Slots := List (String × Option Json)

namespace Slots

/-- The entries that are there. -/
def filled (slots : Slots) : Fields Json := slots.filterMap fun slot => slot.2.map (slot.1, ·)

theorem filled_append (slots others : Slots) :
    filled (slots ++ others) = filled slots ++ filled others :=
  List.filterMap_append

theorem lookup_filled {slots : Slots} (nodup : (slots.map Prod.fst).Nodup) (key : String) :
    (filled slots).lookup key = (slots.lookup key).join := by
  induction slots with
  | nil => rfl
  | cons slot rest ih =>
    obtain ⟨name, v?⟩ := slot
    rw [List.map_cons, List.nodup_cons] at nodup
    obtain ⟨hname, nodup⟩ := nodup
    by_cases h : key = name
    · subst h
      have missing : (filled rest).lookup key = none := by
        rw [ih nodup, Fields.lookup_eq_none_iff.mpr hname]
        rfl
      rw [List.lookup_cons_self]
      cases v? with
      | none => exact missing
      | some v => exact List.lookup_cons_self
    · rw [Fields.lookup_cons_ne h]
      cases v? with
      | none => exact ih nodup
      | some v => exact (Fields.lookup_cons_ne h).trans (ih nodup)

/-- The slot of a mark. -/
def mark (v : Json) : Option Json := if v.truthy then some (.bool true) else none

end Slots

open Slots

variable {refPrefix : Json} {path : String}

theorem typeEntry_eq (type : String) : [typeEntry type] = filled [("type", some (.str type))] := rfl

theorem entryIfGiven_eq (name : String) (v : Json) :
    entryIfGiven name v = filled [(name, v.given?)] := by
  cases v <;> rfl

theorem entryIfMarked_eq (name : String) (v : Json) :
    entryIfMarked name v = filled [(name, mark v)] := by
  rw [entryIfMarked, mark]
  split <;> rfl

theorem entryUnless_eq (missing : Bool) (name : String) (v : Json) :
    (if missing then [] else [(name, v)]) = filled [(name, if missing then none else some v)] := by
  cases missing <;> rfl

theorem documentOption_eq (name : String) (below : Option Schema) :
    Schema.documentOption refPrefix name below =
      filled [(name, below.map (Schema.document refPrefix))] := by
  cases below <;> rfl

/-! ### Loading from slots -/

namespace Schema

variable {name : String} {fields : Fields Json}

theorem entry_of_given {v : Json} (h : fields.lookup name = v.given?) : entry name fields = v := by
  rw [entry, h]
  cases v <;> rfl

/-- A mark is read again by whether it holds. -/
theorem truthy_entry_of_mark {marked : Bool} (h : fields.lookup name = mark (.bool marked)) :
    (entry name fields).truthy = marked := by
  rw [entry, h]
  cases marked <;> rfl

/-- A bound is read again as it was written. -/
theorem boundEntry_of_given {v : Json} (h : fields.lookup name = v.given?)
    (bound : v = .null ∨ v.isNumber = true) : boundEntry name fields = v := by
  simp only [boundEntry, entry_of_given h]
  rcases bound with rfl | hv
  · rfl
  · rw [if_pos hv]

theorem boundEntries_of_given {lowName highName : String} {low high : Json}
    (hlow : fields.lookup lowName = low.given?) (hhigh : fields.lookup highName = high.given?)
    (bounds : SoundBounds low high) : boundEntries lowName highName fields = (low, high) := by
  simp only [boundEntries, boundEntry_of_given hlow bounds.lower,
    boundEntry_of_given hhigh bounds.upper, if_neg bounds.agree]

/-- A closed set is read again, as it has no value twice. -/
theorem enumEntry_of_given {values? : Option (List Json)}
    (h : fields.lookup "enum" = values?.map .arr)
    (enum : ∀ values, values? = some values → values ≠ [] ∧ Json.Apart values) :
    enumEntry fields = values? := by
  rw [enumEntry, entry, h]
  cases values? with
  | none => rfl
  | some values =>
    obtain ⟨hne, apart⟩ := enum values rfl
    cases values with
    | nil => exact absurd rfl hne
    | cons v rest => exact congrArg some (Json.distinct_eq_self_iff.mpr apart)

/-- An object with a type, and without the entries that come before the type. -/
structure IsTyped (fields : Fields Json) (type : String) : Prop where
  noReference : fields.lookup "$ref" = none
  noOneOf : fields.lookup "oneOf" = none
  noAnyOf : fields.lookup "anyOf" = none
  noAllOf : fields.lookup "allOf" = none
  type : fields.lookup "type" = some (.str type)

theorem load_of_isTyped (type : String) (h : IsTyped fields type) :
    load refPrefix path (.obj fields) =
      loadType
        { properties := fun path => loadProperties refPrefix s!"{path}/properties" fields
          additional := fun path => loadAdditional refPrefix s!"{path}/additionalProperties" fields
          items := fun path => loadItems refPrefix s!"{path}/items" fields }
        fields path (.str type) (entry "nullable" fields).truthy := by
  have absent : ∀ {name}, fields.lookup name = none → ¬ Fields.has fields name = true := by
    intro name hn
    rw [Fields.has, hn]
    exact Bool.false_ne_true
  have typed : Fields.has fields "type" = true := by
    rw [Fields.has, h.type]
    rfl
  rw [load, if_neg (absent h.noReference), if_neg (absent h.noOneOf), if_neg (absent h.noAnyOf),
    if_neg (absent h.noAllOf), loadNode, if_pos typed, entry, h.type]
  show loadForm _ _ _ (TypeForm.single (.str type) false) = _
  rw [loadForm, Bool.or_false]

end Schema

/-! ### Plain values -/

namespace StringFacets

def slots (f : StringFacets) : Slots :=
  [("type", some (.str "string")), ("format", f.format.given?), ("enum", f.enum.map .arr),
    ("example", f.exemplar.given?), ("minLength", f.minLength.given?),
    ("maxLength", f.maxLength.given?), ("nullable", mark f.nullable)]

theorem document_eq (f : StringFacets) : f.document = .obj (filled f.slots) := by
  obtain ⟨format, values?, exemplar, minLength, maxLength, nullable⟩ := f
  cases values? with
  | none =>
    simp only [document, typeEntry_eq, entryIfGiven_eq, entryIfMarked_eq, ← filled_append,
      List.append_nil]
    rfl
  | some values =>
    have enum : [("enum", Json.arr values)] = filled [("enum", some (.arr values))] := rfl
    simp only [document, typeEntry_eq, entryIfGiven_eq, entryIfMarked_eq, enum, ← filled_append]
    rfl

theorem load_document {f : StringFacets} {nullable : Bool}
    (enum : ∀ values, f.enum = some values → values ≠ [] ∧ Json.Apart values)
    (bounds : SoundBounds f.minLength f.maxLength) (marked : f.nullable = .bool nullable) :
    Schema.load refPrefix path f.document = .ok (.string f) := by
  have nodup : (f.slots.map Prod.fst).Nodup := by
    show ["type", "format", "enum", "example", "minLength", "maxLength", "nullable"].Nodup
    decide
  have found := lookup_filled nodup
  rw [document_eq, Schema.load_of_isTyped "string"
    ⟨found _, found _, found _, found _, found _⟩]
  show Schema.loadString _ _ = _
  rw [Schema.loadString, Schema.boundEntries_of_given (found _) (found _) bounds,
    Schema.enumEntry_of_given (found _) enum]
  have hnullable : (Schema.entry "nullable" (filled f.slots)).truthy = nullable :=
    Schema.truthy_entry_of_mark (marked ▸ found _)
  rw [Schema.entry_of_given (v := f.format) (found _),
    Schema.entry_of_given (v := f.exemplar) (found _), hnullable, ← marked]
  exact StringFacets.node_eq_ok_iff.mpr ⟨rfl, fun values hv =>
    (enum values hv).imp_right Json.allDistinct_iff.mpr, bounds.boundsAgree⟩

end StringFacets

namespace NumberFacets

def slots (f : NumberFacets) : Slots :=
  [("type", some (.str (if f.integer.truthy then "integer" else "number"))),
    ("format", f.format.given?), ("minimum", f.minimum.given?), ("maximum", f.maximum.given?),
    ("example", f.exemplar.given?), ("nullable", mark f.nullable)]

theorem document_eq (f : NumberFacets) : f.document = .obj (filled f.slots) := by
  simp only [document, typeEntry_eq, entryIfGiven_eq, entryIfMarked_eq, ← filled_append]
  rfl

theorem load_document {f : NumberFacets} {integer nullable : Bool}
    (whole : f.integer = .bool integer) (bounds : SoundBounds f.minimum f.maximum)
    (marked : f.nullable = .bool nullable) :
    Schema.load refPrefix path f.document = .ok (.number f) := by
  have nodup : (f.slots.map Prod.fst).Nodup := by
    show ["type", "format", "minimum", "maximum", "example", "nullable"].Nodup
    decide
  have found := lookup_filled nodup
  have hnullable : (Schema.entry "nullable" (filled f.slots)).truthy = nullable :=
    Schema.truthy_entry_of_mark (marked ▸ found _)
  have loaded : Schema.loadNumber (filled f.slots) integer nullable = .ok (.number f) := by
    rw [Schema.loadNumber, Schema.boundEntries_of_given (found _) (found _) bounds,
      Schema.entry_of_given (v := f.format) (found _),
      Schema.entry_of_given (v := f.exemplar) (found _), ← marked, ← whole]
    exact NumberFacets.node_eq_ok_iff.mpr ⟨rfl, bounds.boundsAgree⟩
  rw [document_eq, Schema.load_of_isTyped _ ⟨found _, found _, found _, found _, found _⟩,
    hnullable, whole]
  cases integer with
  | true => exact loaded
  | false => exact loaded

end NumberFacets

namespace BooleanFacets

def slots (f : BooleanFacets) : Slots :=
  [("type", some (.str "boolean")), ("example", f.exemplar.given?), ("nullable", mark f.nullable)]

theorem document_eq (f : BooleanFacets) : f.document = .obj (filled f.slots) := by
  simp only [document, typeEntry_eq, entryIfGiven_eq, entryIfMarked_eq, ← filled_append]
  rfl

theorem load_document {f : BooleanFacets} {nullable : Bool} (marked : f.nullable = .bool nullable) :
    Schema.load refPrefix path f.document = .ok (.boolean f) := by
  have nodup : (f.slots.map Prod.fst).Nodup := by
    show ["type", "example", "nullable"].Nodup
    decide
  have found := lookup_filled nodup
  have hnullable : (Schema.entry "nullable" (filled f.slots)).truthy = nullable :=
    Schema.truthy_entry_of_mark (marked ▸ found _)
  rw [document_eq, Schema.load_of_isTyped "boolean"
    ⟨found _, found _, found _, found _, found _⟩]
  show Except.ok (Schema.boolean { exemplar := Schema.entry "example" _, nullable := _ }) = _
  rw [Schema.entry_of_given (v := f.exemplar) (found _), hnullable, ← marked]

end BooleanFacets

/-! ### Nodes with schemas below -/

namespace Schema

theorem loadAll_documentAll {all : List Schema} {i : Nat}
    (h : ∀ s ∈ all, ∀ path, load refPrefix path (s.document refPrefix) = .ok s) :
    loadAll refPrefix path i (documentAll refPrefix all) = .ok all := by
  induction all generalizing i with
  | nil => rfl
  | cons s rest ih =>
    rw [List.forall_mem_cons] at h
    rw [documentAll, loadAll, h.1, ih h.2]
    rfl

theorem loadFields_documentFields {properties : Fields Schema}
    (h : ∀ property ∈ properties, ∀ path,
      load refPrefix path (property.2.document refPrefix) = .ok property.2) :
    loadFields refPrefix path (documentFields refPrefix properties) = .ok properties := by
  induction properties with
  | nil => rfl
  | cons property rest ih =>
    obtain ⟨name, s⟩ := property
    rw [List.forall_mem_cons] at h
    rw [documentFields, loadFields, h.1, ih h.2]
    rfl

theorem knownNames_map_str {properties : Fields Schema} {required : List String}
    (known : ∀ name ∈ required, name ∈ Fields.names properties) :
    knownNames properties (required.map .str) = .ok (required.map .str) := by
  induction required with
  | nil => rfl
  | cons name rest ih =>
    rw [List.forall_mem_cons] at known
    have first : namesProperty properties (.str name) = .ok true :=
      namesProperty_eq_ok_true_iff.mpr ⟨name, known.1, rfl⟩
    rw [List.map_cons, knownNames, first, ih known.2]
    rfl

theorem exists_document_eq_obj {p : String} {s : Schema} (h : s.Regular p) :
    ∃ fields, s.document refPrefix = .obj fields := by
  cases h <;> exact ⟨_, rfl⟩

theorem loadAdditional_of_lookup {additional : Option Schema} {fields : Fields Json}
    (further : ∀ s, additional = some s →
      (∃ below, s.document refPrefix = .obj below) ∧
        ∀ path, load refPrefix path (s.document refPrefix) = .ok s)
    (h : fields.lookup "additionalProperties" = additional.map (document refPrefix)) :
    loadAdditional refPrefix path fields = .ok additional := by
  rw [loadAdditional_eq, h]
  cases additional with
  | none => rfl
  | some s =>
    obtain ⟨⟨below, hbelow⟩, hload⟩ := further s rfl
    rw [Option.map_some, hbelow]
    show some <$> load refPrefix path (.obj below) = _
    rw [← hbelow, hload]
    rfl

theorem loadItems_of_lookup {items : Option Schema} {fields : Fields Json}
    (further : ∀ s, items = some s →
      (∃ below, s.document refPrefix = .obj below) ∧
        ∀ path, load refPrefix path (s.document refPrefix) = .ok s)
    (h : fields.lookup "items" = items.map (document refPrefix)) :
    loadItems refPrefix path fields = .ok items := by
  rw [loadItems_eq, h]
  cases items with
  | none => rfl
  | some s =>
    obtain ⟨⟨below, hbelow⟩, hload⟩ := further s rfl
    rw [Option.map_some, hbelow]
    show some <$> load refPrefix path (.obj below) = _
    rw [← hbelow, hload]
    rfl

def objectSlots (refPrefix : Json) (properties : Fields Schema) (required : List String)
    (additional : Option Schema) (nullable : Json) : Slots :=
  [("type", some (.str "object")),
    ("properties", if properties.isEmpty then none
      else some (.obj (documentFields refPrefix properties))),
    ("required", if required.isEmpty then none else some (.arr (required.map .str))),
    ("additionalProperties", additional.map (document refPrefix)), ("nullable", mark nullable)]

theorem document_object (properties : Fields Schema) (required : List String)
    (additional : Option Schema) (nullable : Json) :
    (object properties required additional nullable).document refPrefix =
      .obj (filled (objectSlots refPrefix properties required additional nullable)) := by
  simp only [document, typeEntry_eq, entryUnless_eq, documentOption_eq, entryIfMarked_eq,
    ← filled_append]
  rfl

theorem load_document_object {properties : Fields Schema} {required : List String}
    {additional : Option Schema} {nullable : Bool}
    (below : ∀ property ∈ properties, ∀ path,
      load refPrefix path (property.2.document refPrefix) = .ok property.2)
    (known : ∀ name ∈ required, name ∈ Fields.names properties)
    (further : ∀ s, additional = some s →
      (∃ fields, s.document refPrefix = .obj fields) ∧
        ∀ path, load refPrefix path (s.document refPrefix) = .ok s) :
    load refPrefix path
        ((object properties required additional (.bool nullable)).document refPrefix) =
      .ok (.object properties required additional (.bool nullable)) := by
  rw [document_object]
  generalize hslots : objectSlots refPrefix properties required additional (.bool nullable) = slots
  have nodup : (slots.map Prod.fst).Nodup := by
    rw [← hslots]
    show ["type", "properties", "required", "additionalProperties", "nullable"].Nodup
    decide
  have found : ∀ key, (filled slots).lookup key =
      ((objectSlots refPrefix properties required additional (.bool nullable)).lookup key).join :=
    fun key => by rw [lookup_filled nodup, hslots]
  have hproperties : ∀ path, loadProperties refPrefix path (filled slots) = .ok properties := by
    intro path
    rw [loadProperties_eq, found]
    cases properties with
    | nil => rfl
    | cons property rest => exact loadFields_documentFields below
  have hrequired : requiredEntry properties (filled slots) = .ok (required.map .str) := by
    rw [requiredEntry, entry, found]
    cases required with
    | nil => rfl
    | cons name rest => exact knownNames_map_str known
  have hadditional : ∀ path, loadAdditional refPrefix path (filled slots) = .ok additional :=
    fun path => loadAdditional_of_lookup further (found _)
  have hnullable : (entry "nullable" (filled slots)).truthy = nullable :=
    truthy_entry_of_mark (found _)
  rw [load_of_isTyped "object" ⟨found _, found _, found _, found _, found _⟩]
  show loadObject _ _ _ _ = _
  rw [loadObject]
  dsimp only
  rw [hproperties, hnullable]
  show (requiredEntry properties (filled slots) >>= fun required => _) = _
  rw [hrequired]
  show (loadAdditional _ _ _ >>= fun additional => _) = _
  rw [hadditional]
  refine objectNode_eq_ok_iff.mpr ⟨?_, fun v hv => ?_⟩
  · have texts := texts_map_str id required
    rw [List.map_id] at texts
    exact congrArg (object properties · additional _) texts.symm
  · obtain ⟨name, hname, rfl⟩ := List.mem_map.mp hv
    exact ⟨name, known name hname, rfl⟩

def arraySlots (refPrefix : Json) (items : Option Schema) (f : ArrayFacets) : Slots :=
  [("type", some (.str "array")), ("items", items.map (document refPrefix)),
    ("minItems", f.minItems.given?), ("maxItems", f.maxItems.given?),
    ("uniqueItems", mark f.unique)]

theorem document_array (items : Option Schema) (f : ArrayFacets) :
    (array items f).document refPrefix = .obj (filled (arraySlots refPrefix items f)) := by
  simp only [document, ArrayFacets.entries, typeEntry_eq, documentOption_eq, entryIfGiven_eq,
    entryIfMarked_eq, ← filled_append]
  rfl

theorem load_document_array {items : Option Schema} {f : ArrayFacets} {unique : Bool}
    (below : ∀ s, items = some s → (∃ fields, s.document refPrefix = .obj fields) ∧
      ∀ path, load refPrefix path (s.document refPrefix) = .ok s)
    (bounds : SoundBounds f.minItems f.maxItems) (marked : f.unique = .bool unique) :
    load refPrefix path ((array items f).document refPrefix) = .ok (.array items f) := by
  have nodup : ((arraySlots refPrefix items f).map Prod.fst).Nodup := by
    show ["type", "items", "minItems", "maxItems", "uniqueItems"].Nodup
    decide
  have found := lookup_filled nodup
  have hitems : ∀ path, loadItems refPrefix path (filled (arraySlots refPrefix items f)) =
      .ok items :=
    fun path => loadItems_of_lookup below (found _)
  have hunique : (entry "uniqueItems" (filled (arraySlots refPrefix items f))).truthy = unique :=
    truthy_entry_of_mark (marked ▸ found _)
  rw [document_array, load_of_isTyped "array"
    ⟨found _, found _, found _, found _, found _⟩]
  show loadArray _ _ _ = _
  rw [loadArray, boundEntries_of_given (found _) (found _) bounds]
  dsimp only
  rw [hitems, hunique, ← marked]
  exact ArrayFacets.node_eq_ok_iff.mpr ⟨rfl, bounds.boundsAgree⟩

theorem load_document_oneOf {variants : List Schema}
    (below : ∀ s ∈ variants, ∀ path, load refPrefix path (s.document refPrefix) = .ok s) :
    load refPrefix path ((oneOf variants).document refPrefix) = .ok (.oneOf variants) := by
  rw [document, load]
  show (do return oneOf (← loadMembers refPrefix s!"{path}/oneOf" "oneOf"
    [("oneOf", .arr (documentAll refPrefix variants))])) = _
  rw [loadMembers_eq, List.lookup_cons_self]
  dsimp only
  rw [loadAll_documentAll below]
  rfl

theorem load_document_allOf {parts : List Schema}
    (below : ∀ s ∈ parts, ∀ path, load refPrefix path (s.document refPrefix) = .ok s) :
    load refPrefix path ((allOf parts).document refPrefix) = .ok (.allOf parts) := by
  rw [document, load]
  show (do return allOf (← loadMembers refPrefix s!"{path}/allOf" "allOf"
    [("allOf", .arr (documentAll refPrefix parts))])) = _
  rw [loadMembers_eq, List.lookup_cons_self]
  dsimp only
  rw [loadAll_documentAll below]
  rfl

/-- The prefix is taken off a reference again. -/
theorem load_document_ref {p name : String} (nonempty : p ++ name ≠ "") :
    load (.str p) path ((ref (.str name)).document (.str p)) = .ok (.ref (.str name)) := by
  have hprefix : p.toList.isPrefixOf (p ++ name).toList = true := by
    rw [List.isPrefixOf_iff_prefix, String.toList_append]
    exact List.prefix_append _ _
  have hname : referenceName (.str p) (p ++ name) = .ok name := by
    simp only [referenceName, if_pos hprefix]
    rw [String.toList_append, List.drop_left, String.ofList_toList]
  rw [document, load]
  show loadReference (.str p) path (.str (p ++ name)) = _
  rw [loadReference, hname]
  · rfl
  · exact nonempty

/-- A regular schema is loaded again from its form. -/
theorem load_document {p : String} {s : Schema} (h : s.Regular p) (path : String) :
    load (.str p) path (s.document (.str p)) = .ok s := by
  induction h generalizing path with
  | string enum bounds marked => exact StringFacets.load_document enum bounds marked
  | number whole bounds marked => exact NumberFacets.load_document whole bounds marked
  | boolean marked => exact BooleanFacets.load_document marked
  | object _ known further ihp iha =>
    exact load_document_object ihp known fun s hs =>
      ⟨exists_document_eq_obj (further s hs), iha s hs⟩
  | array below bounds marked ih =>
    exact load_document_array (fun s hs => ⟨exists_document_eq_obj (below s hs), ih s hs⟩)
      bounds marked
  | oneOf _ ih => exact load_document_oneOf ih
  | allOf _ ih => exact load_document_allOf ih
  | ref nonempty => exact load_document_ref nonempty
  | empty => rfl

end Schema

end Schemata

import Schemata.Proofs.Schema.Untagged

/-!
# The places that are read

Which values inside a document are read as schemas is said by the document alone: the members of a
list of schemas, and what stands below an object that asks for a type with something below it. An
object with several types stands for one object with each of them. The places of these values are
the places of the nodes in the schema that is loaded.

## Main definitions

* `Schema.Descent`, `Schema.descend`: ways down from a node.
* `Schema.AsksFor`, `Schema.AsksForSeveral`: what type an object asks for.
* `Schema.ListsSchemas`: an object that stands for a list of schemas.
* `Schema.ReadsStep`, `Schema.ReadsAt`: the values that are read when a value is.

## Main results

* `Schema.exists_child_of_readsStep`, `Schema.exists_readsStep_of_child`: one step down.
* `Schema.exists_descend_of_readsAt`, `Schema.exists_readsAt_of_descend`: what is read stands in the
  schema, and nothing else does.

## Implementation notes

A value that could be a schema but stands where it is not asked for, as the items of a text, is not
read, and may be anything.
-/

namespace Schemata

theorem rel_getElem?_of_forall₂ {α β : Type} {R : α → β → Prop} {xs : List α} {ys : List β}
    (h : List.Forall₂ R xs ys) (i : Nat) : Option.Rel R xs[i]? ys[i]? := by
  induction h generalizing i with
  | nil => exact .none
  | cons first _ ih =>
    cases i with
    | zero => exact .some first
    | succ i => exact ih i

/-- Below both of two related options, or below neither. -/
theorem exists_of_rel {α β : Type} {R : α → β → Prop} {x : Option α} {y : Option β}
    (h : Option.Rel R x y) :
    (∀ a, x = some a → ∃ b, y = some b ∧ R a b) ∧ ∀ b, y = some b → ∃ a, x = some a ∧ R a b := by
  cases h with
  | none => exact ⟨nofun, nofun⟩
  | @some a b hab =>
    refine ⟨fun _ heq => ?_, fun _ heq => ?_⟩
    · cases heq
      exact ⟨b, rfl, hab⟩
    · cases heq
      exact ⟨a, rfl, hab⟩

namespace Schema

/-! ### Ways down from a node -/

inductive Descent where
  | property (name : String)
  | further
  | items
  /-- To an alternative or a part. -/
  | branch (i : Nat)

def child? (s : Schema) : Descent → Option Schema
  | .property name => s.properties.lookup name
  | .further => s.additional
  | .items => s.items
  | .branch i => match s with
    | .oneOf variants => variants[i]?
    | .allOf parts => parts[i]?
    | _ => none

def descend : List Descent → Schema → Option Schema
  | [], s => some s
  | step :: rest, s => (s.child? step).bind (descend rest)

theorem descend_cons_eq_some_iff {step : Descent} {rest : List Descent} {s t : Schema} :
    descend (step :: rest) s = some t ↔ ∃ u, s.child? step = some u ∧ descend rest u = some t := by
  rw [descend, Option.bind_eq_some_iff]

/-! ### What is read -/

/-- The types of a list that are not `null`. -/
def namedTypes (types : List Json) : List Json := types.filter (!TypeForm.isNullName ·)

/-- The object with `type` as what it asks for. -/
def withType (type : Json) (fields : Fields Json) : Fields Json := Fields.insert "type" type fields

/-- The one type that an object asks for. An object with properties that names no type is an
object. -/
inductive AsksFor (fields : Fields Json) : Json → Prop
  | plain {type : Json} (untagged : Untagged fields) (typed : fields.lookup "type" = some type)
      (single : ∀ types, type ≠ .arr types) : AsksFor fields type
  | listed {types : List Json} {type : Json} (untagged : Untagged fields)
      (typed : fields.lookup "type" = some (.arr types)) (only : namedTypes types = [type]) :
      AsksFor fields type
  | null {types : List Json} (untagged : Untagged fields)
      (typed : fields.lookup "type" = some (.arr types)) (none : namedTypes types = []) :
      AsksFor fields (.str "null")
  | implied (untagged : Untagged fields) (untyped : fields.lookup "type" = none)
      (properties : Fields.has fields "properties" = true) : AsksFor fields (.str "object")

/-- The types that an object asks for, where these are several. -/
structure AsksForSeveral (fields : Fields Json) (types : List Json) : Prop where
  untagged : Untagged fields
  typed : fields.lookup "type" = some (.arr types)
  several : 2 ≤ (namedTypes types).length

/-- The list of schemas that an object stands for. -/
inductive ListsSchemas (fields : Fields Json) (items : List Json) : Prop
  | oneOf (noReference : fields.lookup "$ref" = none)
      (entry : fields.lookup "oneOf" = some (.arr items))
  | anyOf (noReference : fields.lookup "$ref" = none) (noOneOf : fields.lookup "oneOf" = none)
      (entry : fields.lookup "anyOf" = some (.arr items))
  | allOf (noReference : fields.lookup "$ref" = none) (noOneOf : fields.lookup "oneOf" = none)
      (noAnyOf : fields.lookup "anyOf" = none) (entry : fields.lookup "allOf" = some (.arr items))

/-- The named values in the entry for properties. -/
def propertyEntries (fields : Fields Json) : Fields Json :=
  match fields.lookup "properties" with
  | some (.obj inner) => inner
  | _ => []

/-- The value for properties that are not named, when it is an object. -/
def furtherEntry (fields : Fields Json) : Option Json :=
  match fields.lookup "additionalProperties" with
  | some (.obj inner) => some (.obj inner)
  | _ => none

/-- The value for items, unless it is `null`. -/
def itemsEntry (fields : Fields Json) : Option Json := (fields.lookup "items").bind Json.given?

/-- The values that are read right below a value. -/
inductive ReadsStep : Json → Descent → Json → Prop
  | member {fields : Fields Json} {items : List Json} {i : Nat} {w : Json}
      (list : ListsSchemas fields items) (mem : items[i]? = some w) :
      ReadsStep (.obj fields) (.branch i) w
  | alternative {fields : Fields Json} {types : List Json} {i : Nat} {type : Json}
      (asks : AsksForSeveral fields types) (mem : (namedTypes types)[i]? = some type) :
      ReadsStep (.obj fields) (.branch i) (.obj (withType type fields))
  | property {fields : Fields Json} {name : String} {w : Json}
      (asks : AsksFor fields (.str "object"))
      (mem : (propertyEntries fields).lookup name = some w) :
      ReadsStep (.obj fields) (.property name) w
  | further {fields : Fields Json} {w : Json} (asks : AsksFor fields (.str "object"))
      (mem : furtherEntry fields = some w) : ReadsStep (.obj fields) .further w
  | items {fields : Fields Json} {w : Json} (asks : AsksFor fields (.str "array"))
      (mem : itemsEntry fields = some w) : ReadsStep (.obj fields) .items w

/-- The values that are read when `v` is, each at the place of its node. -/
inductive ReadsAt : Json → List Descent → Json → Prop
  | here {v : Json} : ReadsAt v [] v
  | step {v u w : Json} {first : Descent} {rest : List Descent} (read : ReadsStep v first u)
      (below : ReadsAt u rest w) : ReadsAt v (first :: rest) w

/-- The schema is loaded from the value, wherever that stands. -/
def LoadsTo (refPrefix : Json) (v : Json) (s : Schema) : Prop :=
  ∃ path, load refPrefix path v = .ok s

/-! ### Lists and tables of schemas -/

section Lists

variable {refPrefix : Json} {path : String}

theorem forall₂_of_loadAll {i : Nat} {items : List Json} {all : List Schema}
    (h : loadAll refPrefix path i items = .ok all) :
    List.Forall₂ (LoadsTo refPrefix) items all := by
  induction items generalizing i all with
  | nil =>
    cases h
    exact .nil
  | cons v rest ih =>
    rw [loadAll] at h
    obtain ⟨s, hs, h⟩ := Fault.bind_eq_ok_iff.mp h
    obtain ⟨tail, htail, h⟩ := Fault.bind_eq_ok_iff.mp h
    obtain rfl := Fault.pure_eq_ok_iff.mp h
    exact .cons ⟨_, hs⟩ (ih htail)

theorem rel_lookup_of_loadFields {fields : Fields Json} {properties : Fields Schema}
    (h : loadFields refPrefix path fields = .ok properties) (name : String) :
    Option.Rel (LoadsTo refPrefix) (fields.lookup name) (properties.lookup name) := by
  induction fields generalizing properties with
  | nil =>
    cases h
    exact .none
  | cons field rest ih =>
    obtain ⟨n, v⟩ := field
    rw [loadFields] at h
    obtain ⟨s, hs, h⟩ := Fault.bind_eq_ok_iff.mp h
    obtain ⟨tail, htail, h⟩ := Fault.bind_eq_ok_iff.mp h
    obtain rfl := Fault.pure_eq_ok_iff.mp h
    by_cases hn : name = n
    · subst hn
      rw [List.lookup_cons_self, List.lookup_cons_self]
      exact .some ⟨_, hs⟩
    · rw [Fields.lookup_cons_ne hn, Fields.lookup_cons_ne hn]
      exact ih htail

variable {fields : Fields Json}

theorem loadProperties_eq_loadFields {properties : Fields Schema}
    (h : loadProperties refPrefix path fields = .ok properties) :
    loadFields refPrefix path (propertyEntries fields) = .ok properties := by
  rw [loadProperties_eq] at h
  rw [propertyEntries]
  split at h
  · next hnone =>
    rw [hnone]
    exact h
  · next inner hinner =>
    rw [hinner]
    exact h
  · next v notObject hv =>
    split at h
    · cases h
    · rw [hv]
      cases v with
      | obj inner => exact absurd rfl (notObject inner)
      | _ => exact h

theorem rel_of_loadAdditional {additional : Option Schema}
    (h : loadAdditional refPrefix path fields = .ok additional) :
    Option.Rel (LoadsTo refPrefix) (furtherEntry fields) additional := by
  rw [loadAdditional_eq] at h
  split at h
  · next inner hinner =>
    obtain ⟨s, hs, rfl⟩ := Fault.map_eq_ok_iff.mp h
    have given : furtherEntry fields = some (.obj inner) := by
      rw [furtherEntry, hinner]
    rw [given]
    exact .some ⟨_, hs⟩
  · next other =>
    cases h
    have none : furtherEntry fields = none := by
      rw [furtherEntry]
      split
      · next inner hinner => exact absurd hinner (other inner)
      · rfl
    rw [none]
    exact .none

theorem rel_of_loadItems {items : Option Schema} (h : loadItems refPrefix path fields = .ok items) :
    Option.Rel (LoadsTo refPrefix) (itemsEntry fields) items := by
  rw [loadItems_eq] at h
  rw [itemsEntry]
  split at h
  · next v hv =>
    obtain ⟨s, hs, rfl⟩ := Fault.map_eq_ok_iff.mp h
    rw [hv]
    exact .some ⟨_, hs⟩
  · next hnone =>
    cases h
    rw [hnone]
    exact .none

end Lists

/-! ### The nodes of an object -/

section Nodes

variable {refPrefix : Json} {path : String} {fields : Fields Json} {s : Schema}

/-- Asking for one type is all that counts of how it is asked for, but for the mark. -/
theorem exists_loadType_of_asksFor {type : Json} (asks : AsksFor fields type) :
    ∃ nullable, ∀ refPrefix path, load refPrefix path (.obj fields) =
      loadType (belowOf refPrefix fields) fields path type nullable := by
  cases asks with
  | plain untagged typed single =>
    have form : TypeForm.ofJson type = .single type false := by
      cases type with
      | arr types => exact absurd rfl (single types)
      | _ => rfl
    refine ⟨(entry "nullable" fields).truthy || false, fun refPrefix path => ?_⟩
    rw [load_of_type untagged typed, form, loadForm]
  | @listed types type untagged typed only =>
    refine ⟨(entry "nullable" fields).truthy || types.any TypeForm.isNullName,
      fun refPrefix path => ?_⟩
    rw [load_of_type untagged typed, ofJson_of_one only, loadForm]
  | @null types untagged typed none =>
    have form : TypeForm.ofJson (.arr types) = .single (.str "null") true := by
      rw [namedTypes] at none
      rw [TypeForm.ofJson, none]
    refine ⟨(entry "nullable" fields).truthy || true, fun refPrefix path => ?_⟩
    rw [load_of_type untagged typed, form, loadForm]
  | implied untagged untyped properties =>
    exact ⟨_, fun refPrefix path => load_of_noType untagged untyped properties⟩

/-- The node of an object, and what stands below it. -/
theorem exists_object_of_load (asks : AsksFor fields (.str "object"))
    (h : load refPrefix path (.obj fields) = .ok s) :
    ∃ properties required additional nullable, s = .object properties required additional nullable ∧
      (∃ path, loadFields refPrefix path (propertyEntries fields) = .ok properties) ∧
      (∃ names, requiredEntry properties fields = .ok names ∧ required = texts names) ∧
      Option.Rel (LoadsTo refPrefix) (furtherEntry fields) additional := by
  obtain ⟨nullable, hload⟩ := exists_loadType_of_asksFor asks
  rw [hload] at h
  obtain ⟨properties, hproperties, h⟩ := Fault.bind_eq_ok_iff.mp h
  obtain ⟨required, hrequired, h⟩ := Fault.bind_eq_ok_iff.mp h
  obtain ⟨additional, hadditional, h⟩ := Fault.bind_eq_ok_iff.mp h
  obtain ⟨rfl, -⟩ := objectNode_eq_ok_iff.mp h
  exact ⟨properties, _, additional, _, rfl, ⟨_, loadProperties_eq_loadFields hproperties⟩,
    ⟨required, hrequired, rfl⟩, rel_of_loadAdditional hadditional⟩

theorem exists_array_of_load (asks : AsksFor fields (.str "array"))
    (h : load refPrefix path (.obj fields) = .ok s) :
    ∃ items unique, s = .array items
      { minItems := (boundEntries "minItems" "maxItems" fields).1
        maxItems := (boundEntries "minItems" "maxItems" fields).2
        unique := unique } ∧
      Option.Rel (LoadsTo refPrefix) (itemsEntry fields) items := by
  obtain ⟨nullable, hload⟩ := exists_loadType_of_asksFor asks
  rw [hload] at h
  obtain ⟨items, hitems, h⟩ := Fault.bind_eq_ok_iff.mp h
  obtain ⟨rfl, -⟩ := ArrayFacets.node_eq_ok_iff.mp h
  exact ⟨items, _, rfl, rel_of_loadItems hitems⟩

theorem forall₂_of_loadForms {types : List Json} {all : List Schema} (untagged : Untagged fields)
    (h : loadForms (belowOf refPrefix fields) fields path (TypeForm.ofItems types) = .ok all) :
    List.Forall₂ (LoadsTo refPrefix)
      ((namedTypes types).map fun type => .obj (withType type fields)) all := by
  induction types generalizing all with
  | nil =>
    cases h
    exact .nil
  | cons type rest ih =>
    rw [TypeForm.ofItems] at h
    rw [namedTypes]
    cases hnull : TypeForm.isNullName type with
    | true =>
      rw [hnull, if_pos rfl] at h
      rw [List.filter_cons, hnull]
      exact ih h
    | false =>
      rw [hnull, if_neg Bool.false_ne_true, loadForms] at h
      obtain ⟨s, hs, h⟩ := Fault.bind_eq_ok_iff.mp h
      obtain ⟨tail, htail, h⟩ := Fault.bind_eq_ok_iff.mp h
      obtain rfl := Fault.pure_eq_ok_iff.mp h
      have agree : AgreeOutside typeEntries (withType type fields) fields := .insert _ (by decide)
      have typed : (withType type fields).lookup "type" = some type := by
        rw [withType, Fields.lookup_insert, if_pos rfl]
      have mark : entry "nullable" (withType type fields) = entry "nullable" fields := by
        rw [entry, withType, Fields.lookup_insert, if_neg (by decide)]
        rfl
      rw [List.filter_cons, hnull]
      refine .cons ⟨s!"{path}/type/{type.display}", ?_⟩ (ih htail)
      rw [load_of_agree untagged agree typed, loadForm_congr agree (by rw [mark])]
      exact hs

theorem exists_oneOf_of_load {types : List Json} (asks : AsksForSeveral fields types)
    (h : load refPrefix path (.obj fields) = .ok s) :
    ∃ all, s = .oneOf all ∧ List.Forall₂ (LoadsTo refPrefix)
      ((namedTypes types).map fun type => .obj (withType type fields)) all := by
  rw [load_of_type asks.untagged asks.typed, ofJson_of_several asks.several, loadForm] at h
  obtain ⟨all, hall, h⟩ := Fault.bind_eq_ok_iff.mp h
  exact ⟨all, (Fault.pure_eq_ok_iff.mp h).symm, forall₂_of_loadForms asks.untagged hall⟩

/-- The node of an object that stands for a list of schemas. -/
theorem exists_all_of_load {items : List Json} (list : ListsSchemas fields items)
    (h : load refPrefix path (.obj fields) = .ok s) :
    ∃ all, (s = .oneOf all ∨ s = .allOf all) ∧ List.Forall₂ (LoadsTo refPrefix) items all := by
  have members : ∀ {path name all}, fields.lookup name = some (.arr items) →
      loadMembers refPrefix path name fields = .ok all →
        List.Forall₂ (LoadsTo refPrefix) items all := by
    intro path name all hentry hload
    rw [loadMembers_eq, hentry] at hload
    exact forall₂_of_loadAll hload
  rw [load] at h
  cases list with
  | oneOf noReference hentry =>
    rw [has_eq_false noReference, if_neg Bool.false_ne_true, if_pos (has_of_lookup hentry)] at h
    obtain ⟨all, hall, h⟩ := Fault.bind_eq_ok_iff.mp h
    exact ⟨all, .inl (Fault.pure_eq_ok_iff.mp h).symm, members hentry hall⟩
  | anyOf noReference noOneOf hentry =>
    rw [has_eq_false noReference, has_eq_false noOneOf, if_neg Bool.false_ne_true,
      if_neg Bool.false_ne_true, if_pos (has_of_lookup hentry)] at h
    obtain ⟨all, hall, h⟩ := Fault.bind_eq_ok_iff.mp h
    exact ⟨all, .inl (Fault.pure_eq_ok_iff.mp h).symm, members hentry hall⟩
  | allOf noReference noOneOf noAnyOf hentry =>
    rw [has_eq_false noReference, has_eq_false noOneOf, has_eq_false noAnyOf,
      if_neg Bool.false_ne_true, if_neg Bool.false_ne_true, if_neg Bool.false_ne_true,
      if_pos (has_of_lookup hentry)] at h
    obtain ⟨all, hall, h⟩ := Fault.bind_eq_ok_iff.mp h
    exact ⟨all, .inr (Fault.pure_eq_ok_iff.mp h).symm, members hentry hall⟩

end Nodes

/-! ### One step down -/

section Step

variable {refPrefix : Json} {path : String} {v : Json} {s : Schema}

theorem rel_branch {items : List Json} {all : List Schema} (node : s = .oneOf all ∨ s = .allOf all)
    (h : List.Forall₂ (LoadsTo refPrefix) items all) (i : Nat) :
    Option.Rel (LoadsTo refPrefix) items[i]? (s.child? (.branch i)) := by
  rcases node with rfl | rfl <;> exact rel_getElem?_of_forall₂ h i

/-- What is read right below a value stands right below its node. -/
theorem exists_child_of_readsStep (h : load refPrefix path v = .ok s) {step : Descent} {w : Json}
    (read : ReadsStep v step w) : ∃ t, s.child? step = some t ∧ LoadsTo refPrefix w t := by
  cases read with
  | member list mem =>
    obtain ⟨all, node, loaded⟩ := exists_all_of_load list h
    exact (exists_of_rel (rel_branch node loaded _)).1 w mem
  | @alternative fields types i type asks mem =>
    obtain ⟨all, rfl, loaded⟩ := exists_oneOf_of_load asks h
    refine (exists_of_rel (rel_branch (.inl rfl) loaded i)).1 _ ?_
    rw [List.getElem?_map, mem]
    rfl
  | property asks mem =>
    obtain ⟨properties, _, _, _, rfl, ⟨_, loaded⟩, -⟩ := exists_object_of_load asks h
    exact (exists_of_rel (rel_lookup_of_loadFields loaded _)).1 w mem
  | further asks mem =>
    obtain ⟨_, _, additional, _, rfl, -, -, loaded⟩ := exists_object_of_load asks h
    exact (exists_of_rel loaded).1 w mem
  | items asks mem =>
    obtain ⟨items, _, rfl, loaded⟩ := exists_array_of_load asks h
    exact (exists_of_rel loaded).1 w mem

/-- An object asks for one type, or for several, or for none. -/
theorem asksFor_cases {fields : Fields Json} (untagged : Untagged fields) :
    (∃ type, AsksFor fields type) ∨ (∃ types, AsksForSeveral fields types) ∨
      fields.lookup "type" = none ∧ Fields.has fields "properties" = false := by
  cases typed : fields.lookup "type" with
  | none =>
    cases properties : Fields.has fields "properties" with
    | true => exact .inl ⟨_, .implied untagged typed properties⟩
    | false => exact .inr (.inr ⟨rfl, rfl⟩)
  | some type =>
    by_cases single : ∀ types, type ≠ .arr types
    · exact .inl ⟨_, .plain untagged typed single⟩
    · simp only [not_forall, not_not] at single
      obtain ⟨types, rfl⟩ := single
      match hnamed : namedTypes types with
      | [] => exact .inl ⟨_, .null untagged typed hnamed⟩
      | [_] => exact .inl ⟨_, .listed untagged typed hnamed⟩
      | _ :: _ :: _ => exact .inr (.inl ⟨types, untagged, typed, by simp [hnamed]⟩)

/-- An object that is not read by its type is a reference, or stands for a list of schemas. -/
theorem ref_or_listsSchemas {fields : Fields Json} (tagged : ¬ Untagged fields)
    (h : load refPrefix path (.obj fields) = .ok s) :
    (∃ name, s = .ref name) ∨ ∃ items, ListsSchemas fields items := by
  have list : ∀ {path name all w}, fields.lookup name = some w →
      loadMembers refPrefix path name fields = .ok all → ∃ items, w = .arr items := by
    intro path name all w hentry hload
    rw [loadMembers_eq, hentry] at hload
    cases w with
    | arr items => exact ⟨items, rfl⟩
    | _ => cases hload
  rw [load] at h
  cases hreference : fields.lookup "$ref" with
  | some w =>
    rw [if_pos (has_of_lookup hreference), loadReference.eq_def] at h
    split at h
    · cases h
    · obtain ⟨name, -, h⟩ := Fault.bind_eq_ok_iff.mp h
      exact .inl ⟨_, (Fault.pure_eq_ok_iff.mp h).symm⟩
    · cases h
  | none =>
    rw [has_eq_false hreference, if_neg Bool.false_ne_true] at h
    cases honeOf : fields.lookup "oneOf" with
    | some w =>
      rw [if_pos (has_of_lookup honeOf)] at h
      obtain ⟨all, hall, -⟩ := Fault.bind_eq_ok_iff.mp h
      obtain ⟨items, rfl⟩ := list honeOf hall
      exact .inr ⟨items, .oneOf hreference honeOf⟩
    | none =>
      rw [has_eq_false honeOf, if_neg Bool.false_ne_true] at h
      cases hanyOf : fields.lookup "anyOf" with
      | some w =>
        rw [if_pos (has_of_lookup hanyOf)] at h
        obtain ⟨all, hall, -⟩ := Fault.bind_eq_ok_iff.mp h
        obtain ⟨items, rfl⟩ := list hanyOf hall
        exact .inr ⟨items, .anyOf hreference honeOf hanyOf⟩
      | none =>
        rw [has_eq_false hanyOf, if_neg Bool.false_ne_true] at h
        cases hallOf : fields.lookup "allOf" with
        | some w =>
          rw [if_pos (has_of_lookup hallOf)] at h
          obtain ⟨all, hall, -⟩ := Fault.bind_eq_ok_iff.mp h
          obtain ⟨items, rfl⟩ := list hallOf hall
          exact .inr ⟨items, .allOf hreference honeOf hanyOf hallOf⟩
        | none => exact absurd ⟨hreference, honeOf, hanyOf, hallOf⟩ tagged

/-- Nothing stands below the node of any other type. -/
theorem child?_of_loadType {below : Below} {fields : Fields Json} {type : Json} {nullable : Bool}
    (h : loadType below fields path type nullable = .ok s) (noObject : type ≠ .str "object")
    (noArray : type ≠ .str "array") (step : Descent) : s.child? step = none := by
  rw [loadType.eq_def] at h
  split at h
  · exact absurd rfl noObject
  · exact absurd rfl noArray
  · obtain ⟨rfl, -⟩ := StringFacets.node_eq_ok_iff.mp h
    cases step <;> rfl
  · obtain ⟨rfl, -⟩ := NumberFacets.node_eq_ok_iff.mp h
    cases step <;> rfl
  · obtain ⟨rfl, -⟩ := NumberFacets.node_eq_ok_iff.mp h
    cases step <;> rfl
  all_goals
    cases h
    cases step <;> rfl

theorem exists_readsStep_of_asksFor {fields : Fields Json} {type : Json}
    (asks : AsksFor fields type) (h : load refPrefix path (.obj fields) = .ok s) {step : Descent}
    {t : Schema} (child : s.child? step = some t) :
    ∃ w, ReadsStep (.obj fields) step w ∧ LoadsTo refPrefix w t := by
  by_cases hobject : type = .str "object"
  · subst hobject
    obtain ⟨properties, _, additional, _, rfl, ⟨_, named⟩, -, further⟩ :=
      exists_object_of_load asks h
    cases step with
    | property name =>
      obtain ⟨w, hw, loads⟩ := (exists_of_rel (rel_lookup_of_loadFields named name)).2 t child
      exact ⟨w, .property asks hw, loads⟩
    | further =>
      obtain ⟨w, hw, loads⟩ := (exists_of_rel further).2 t child
      exact ⟨w, .further asks hw, loads⟩
    | items | branch => cases child
  by_cases harray : type = .str "array"
  · subst harray
    obtain ⟨items, _, rfl, loaded⟩ := exists_array_of_load asks h
    cases step with
    | items =>
      obtain ⟨w, hw, loads⟩ := (exists_of_rel loaded).2 t child
      exact ⟨w, .items asks hw, loads⟩
    | property | further | branch => cases child
  · obtain ⟨nullable, hload⟩ := exists_loadType_of_asksFor asks
    rw [hload] at h
    rw [child?_of_loadType h hobject harray] at child
    cases child

/-- What stands right below a node is read right below its value. -/
theorem exists_readsStep_of_child (h : load refPrefix path v = .ok s) {step : Descent} {t : Schema}
    (child : s.child? step = some t) : ∃ w, ReadsStep v step w ∧ LoadsTo refPrefix w t := by
  cases v with
  | obj fields =>
    by_cases untagged : Untagged fields
    · rcases asksFor_cases untagged with ⟨type, asks⟩ | ⟨types, asks⟩ | ⟨untyped, noProperties⟩
      · exact exists_readsStep_of_asksFor asks h child
      · obtain ⟨all, rfl, loaded⟩ := exists_oneOf_of_load asks h
        cases step with
        | branch i =>
          obtain ⟨w, hw, loads⟩ := (exists_of_rel (rel_branch (.inl rfl) loaded i)).2 t child
          rw [List.getElem?_map, Option.map_eq_some_iff] at hw
          obtain ⟨type, htype, rfl⟩ := hw
          exact ⟨_, .alternative asks htype, loads⟩
        | property | further | items => cases child
      · rw [load_of_untagged untagged, loadNode, has_eq_false untyped, noProperties] at h
        cases h
        cases step <;> cases child
    · rcases ref_or_listsSchemas untagged h with ⟨name, rfl⟩ | ⟨items, list⟩
      · cases step <;> cases child
      · obtain ⟨all, node, loaded⟩ := exists_all_of_load list h
        cases step with
        | branch i =>
          obtain ⟨w, hw, loads⟩ := (exists_of_rel (rel_branch node loaded i)).2 t child
          exact ⟨w, .member list hw, loads⟩
        | property | further | items => rcases node with rfl | rfl <;> cases child
  | _ =>
    rw [load] at h
    · cases h
    · intro fields heq
      cases heq

end Step

/-! ### All the way down -/

section Places

variable {refPrefix : Json} {v : Json} {s : Schema} {place : List Descent}

/-- Each value that is read has its node at its place. -/
theorem exists_descend_of_readsAt {w : Json} (read : ReadsAt v place w)
    (loads : LoadsTo refPrefix v s) : ∃ t, s.descend place = some t ∧ LoadsTo refPrefix w t := by
  induction read generalizing s with
  | here => exact ⟨s, rfl, loads⟩
  | step first _ ih =>
    obtain ⟨path, h⟩ := loads
    obtain ⟨u, hu, loads⟩ := exists_child_of_readsStep h first
    obtain ⟨t, ht, loads⟩ := ih loads
    exact ⟨t, descend_cons_eq_some_iff.mpr ⟨u, hu, ht⟩, loads⟩

/-- Each node is that of a value that is read, at its place. -/
theorem exists_readsAt_of_descend {t : Schema} (loads : LoadsTo refPrefix v s)
    (h : s.descend place = some t) : ∃ w, ReadsAt v place w ∧ LoadsTo refPrefix w t := by
  induction place generalizing v s with
  | nil =>
    obtain rfl := Option.some.inj h
    exact ⟨v, .here, loads⟩
  | cons step rest ih =>
    obtain ⟨u, hu, h⟩ := descend_cons_eq_some_iff.mp h
    obtain ⟨path, loads⟩ := loads
    obtain ⟨x, first, loads⟩ := exists_readsStep_of_child loads hu
    obtain ⟨w, below, loads⟩ := ih loads h
    exact ⟨w, .step first below, loads⟩

end Places

end Schema

end Schemata

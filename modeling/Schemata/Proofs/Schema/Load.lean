import Schemata.Schema.Load
import Schemata.Proofs.Schema.Regular

/-!
# Loaded schemas

What a schema can be loaded from is said once, for nodes and for the values that hold them, and what
holds of all loaded schemas is shown by induction on it. The first such result is that they are
regular: constraints that contradict each other are dropped on loading, and marks are read by
whether they hold.

## Main definitions

* `Schema.NodeOf`: what the node of an object can be.
* `Schema.Below.LoadedFrom`, `Schema.MembersLoadedFrom`: from which entries the schemas below a node
  are loaded.

## Main results

* `Schema.loadMembers_eq` and its like: the schemas below a node are read from the entry that is
  looked up.
* `Schema.loadInduction`: induction along the places from which schemas are loaded.
* `Schema.loadedInduction`: induction along the loading of a schema.
* `Schema.regular_of_load`: loaded schemas are regular.
-/

namespace Schemata

theorem Json.eq_of_given? {v w : Json} (h : v.given? = some w) : v = w := by
  cases v with
  | null => cases h
  | _ => exact Option.some.inj h

namespace Schema

/-! ### Entries with schemas -/

theorem loadMembers_eq (refPrefix : Json) (path name : String) (fields : Fields Json) :
    loadMembers refPrefix path name fields =
      match fields.lookup name with
      | none => .ok []
      | some (.arr items) => loadAll refPrefix path 0 items
      | some _ => .error (.load .variantsNotAList path) := by
  induction fields with
  | nil => rfl
  | cons field rest ih =>
    obtain ⟨n, v⟩ := field
    rw [loadMembers.eq_def]
    dsimp only
    by_cases h : n = name
    · subst h
      rw [if_pos rfl, List.lookup_cons_self]
      cases v <;> rfl
    · rw [if_neg h, ih, Fields.lookup_cons_ne (Ne.symm h)]

theorem loadProperties_eq (refPrefix : Json) (path : String) (fields : Fields Json) :
    loadProperties refPrefix path fields =
      match fields.lookup "properties" with
      | none => .ok []
      | some (.obj below) => loadFields refPrefix path below
      | some v => if v.truthy then .error (.load .propertiesNotAnObject path) else .ok [] := by
  induction fields with
  | nil => rfl
  | cons field rest ih =>
    obtain ⟨n, v⟩ := field
    rw [loadProperties.eq_def]
    dsimp only
    by_cases h : n = "properties"
    · subst h
      rw [if_pos rfl, List.lookup_cons_self]
      cases v <;> rfl
    · rw [if_neg h, ih, Fields.lookup_cons_ne (Ne.symm h)]

theorem loadAdditional_eq (refPrefix : Json) (path : String) (fields : Fields Json) :
    loadAdditional refPrefix path fields =
      match fields.lookup "additionalProperties" with
      | some (.obj below) => some <$> load refPrefix path (.obj below)
      | _ => .ok none := by
  induction fields with
  | nil => rfl
  | cons field rest ih =>
    obtain ⟨n, v⟩ := field
    rw [loadAdditional.eq_def]
    dsimp only
    by_cases h : n = "additionalProperties"
    · subst h
      rw [if_pos rfl, List.lookup_cons_self]
      cases v <;> rfl
    · rw [if_neg h, ih, Fields.lookup_cons_ne (Ne.symm h)]

theorem loadItems_eq (refPrefix : Json) (path : String) (fields : Fields Json) :
    loadItems refPrefix path fields =
      match (fields.lookup "items").bind Json.given? with
      | some v => some <$> load refPrefix path v
      | none => .ok none := by
  induction fields with
  | nil => rfl
  | cons field rest ih =>
    obtain ⟨n, v⟩ := field
    rw [loadItems.eq_def]
    dsimp only
    by_cases h : n = "items"
    · subst h
      rw [if_pos rfl, List.lookup_cons_self]
      cases v <;> rfl
    · rw [if_neg h, ih, Fields.lookup_cons_ne (Ne.symm h)]

/-- Induction along the places of a value from which schemas are loaded: of an object these are its
entries, the items of the lists in them and the fields of the objects in them. -/
theorem loadInduction {P : Json → Prop} (other : ∀ v, (∀ fields, v ≠ .obj fields) → P v)
    (obj : ∀ fields : Fields Json, (∀ field ∈ fields, P field.2 ∧
      (∀ items, field.2 = .arr items → ∀ w ∈ items, P w) ∧
        ∀ below, field.2 = .obj below → ∀ inner ∈ below, P inner.2) → P (.obj fields))
    (v : Json) : P v := by
  suffices h : P v ∧ (∀ items, v = .arr items → ∀ w ∈ items, P w) ∧
      ∀ below, v = .obj below → ∀ inner ∈ below, P inner.2 from h.1
  induction v using Json.nestedInduction with
  | arr items ih =>
    refine ⟨other _ nofun, ?_, nofun⟩
    intro items heq w hw
    cases heq
    exact (ih w hw).1
  | obj fields ih =>
    refine ⟨obj fields ih, nofun, ?_⟩
    intro fields heq field hf
    cases heq
    exact (ih field hf).1
  | _ => exact ⟨other _ nofun, nofun, nofun⟩

/-! ### Lists -/

theorem exists_load_of_loadAll {refPrefix : Json} {path : String} {i : Nat} {items : List Json}
    {all : List Schema} (h : loadAll refPrefix path i items = .ok all) :
    ∀ s ∈ all, ∃ v ∈ items, ∃ place, load refPrefix place v = .ok s := by
  induction items generalizing i all with
  | nil =>
    cases h
    exact fun s hs => absurd hs List.not_mem_nil
  | cons v rest ih =>
    rw [loadAll] at h
    obtain ⟨s, hs, h⟩ := Fault.bind_eq_ok_iff.mp h
    obtain ⟨tail, ht, h⟩ := Fault.bind_eq_ok_iff.mp h
    obtain rfl := Fault.pure_eq_ok_iff.mp h
    intro t hmem
    rcases List.mem_cons.mp hmem with rfl | hmem
    · exact ⟨v, List.mem_cons_self, _, hs⟩
    · obtain ⟨w, hw, found⟩ := ih ht t hmem
      exact ⟨w, List.mem_cons_of_mem _ hw, found⟩

theorem exists_load_of_loadFields {refPrefix : Json} {path : String} {fields : Fields Json}
    {properties : Fields Schema} (h : loadFields refPrefix path fields = .ok properties) :
    ∀ property ∈ properties, ∃ v, (property.1, v) ∈ fields ∧
      ∃ place, load refPrefix place v = .ok property.2 := by
  induction fields generalizing properties with
  | nil =>
    cases h
    exact fun property hp => absurd hp List.not_mem_nil
  | cons field rest ih =>
    obtain ⟨name, v⟩ := field
    rw [loadFields] at h
    obtain ⟨s, hs, h⟩ := Fault.bind_eq_ok_iff.mp h
    obtain ⟨tail, ht, h⟩ := Fault.bind_eq_ok_iff.mp h
    obtain rfl := Fault.pure_eq_ok_iff.mp h
    intro property hmem
    rcases List.mem_cons.mp hmem with rfl | hmem
    · exact ⟨v, List.mem_cons_self, _, hs⟩
    · obtain ⟨w, hw, found⟩ := ih ht property hmem
      exact ⟨w, List.mem_cons_of_mem _ hw, found⟩

/-! ### What a schema is loaded from -/

/-- What the node of an object can be, given how the schemas below it are read. A list of types
gives several nodes of one object. -/
inductive NodeOf (below : Below) (fields : Fields Json) : Schema → Prop
  | object {path : String} {nullable : Bool} {s : Schema}
      (h : loadObject below fields path nullable = .ok s) : NodeOf below fields s
  | array {path : String} {s : Schema} (h : loadArray below fields path = .ok s) :
      NodeOf below fields s
  | string {nullable : Bool} {s : Schema} (h : loadString fields nullable = .ok s) :
      NodeOf below fields s
  | number {integer nullable : Bool} {s : Schema}
      (h : loadNumber fields integer nullable = .ok s) : NodeOf below fields s
  | boolean (nullable : Bool) : NodeOf below fields
      (.boolean { exemplar := entry "example" fields, nullable := .bool nullable })
  | null : NodeOf below fields (.string { nullable := .bool true })
  | unknown : NodeOf below fields .empty
  | types {variants : List Schema} (each : ∀ s ∈ variants, NodeOf below fields s) :
      NodeOf below fields (.oneOf variants)

section Nodes

variable {below : Below} {fields : Fields Json}

theorem nodeOf_of_loadType {path : String} {type : Json} {nullable : Bool} {s : Schema}
    (h : loadType below fields path type nullable = .ok s) : NodeOf below fields s := by
  rw [loadType.eq_def] at h
  split at h
  · exact .object h
  · exact .array h
  · exact .string h
  · exact .number h
  · exact .number h
  · cases h
    exact .boolean nullable
  · cases h
    exact .null
  · cases h
    exact .unknown

mutual

theorem nodeOf_of_loadForm {path : String} {s : Schema} :
    (form : TypeForm) → loadForm below fields path form = .ok s → NodeOf below fields s
  | .single _ _, h => by
    rw [loadForm] at h
    exact nodeOf_of_loadType h
  | .alternatives forms, h => by
    rw [loadForm] at h
    obtain ⟨variants, hv, h⟩ := Fault.bind_eq_ok_iff.mp h
    obtain rfl := Fault.pure_eq_ok_iff.mp h
    exact .types (nodeOf_of_loadForms forms hv)

theorem nodeOf_of_loadForms {path : String} {all : List Schema} :
    (forms : List (String × TypeForm)) → loadForms below fields path forms = .ok all →
      ∀ s ∈ all, NodeOf below fields s
  | [], h => by
    rw [loadForms] at h
    cases h
    exact fun s hs => absurd hs List.not_mem_nil
  | (place, form) :: rest, h => by
    rw [loadForms] at h
    obtain ⟨s, hs, h⟩ := Fault.bind_eq_ok_iff.mp h
    obtain ⟨tail, ht, h⟩ := Fault.bind_eq_ok_iff.mp h
    obtain rfl := Fault.pure_eq_ok_iff.mp h
    exact List.forall_mem_cons.mpr ⟨nodeOf_of_loadForm form hs, nodeOf_of_loadForms rest ht⟩

end

theorem nodeOf_of_loadNode {path : String} {s : Schema}
    (h : loadNode below fields path = .ok s) : NodeOf below fields s := by
  rw [loadNode] at h
  split at h
  · exact nodeOf_of_loadForm _ h
  split at h
  · exact .object h
  · cases h
    exact .unknown

end Nodes

/-- The schemas below the node of an object are loaded from its entries; `P` holds of each of them
and the value from which it is loaded. -/
structure Below.LoadedFrom (below : Below) (fields : Fields Json) (P : Json → Schema → Prop) :
    Prop where
  names : ∀ path properties, below.properties path = .ok properties → properties = [] ∨
    ∃ inner, ("properties", .obj inner) ∈ fields ∧ Fields.names properties = Fields.names inner
  properties : ∀ path properties, below.properties path = .ok properties →
    ∀ property ∈ properties, ∃ inner v, ("properties", .obj inner) ∈ fields ∧
      (property.1, v) ∈ inner ∧ P v property.2
  additional : ∀ path s, below.additional path = .ok (some s) →
    ∃ v, ("additionalProperties", v) ∈ fields ∧ P v s
  items : ∀ path s, below.items path = .ok (some s) → ∃ v, ("items", v) ∈ fields ∧ P v s

/-- The schemas of a list in an entry are loaded from the values in the list. -/
def MembersLoadedFrom (fields : Fields Json) (P : Json → Schema → Prop) (all : List Schema) :
    Prop :=
  ∀ s ∈ all, ∃ name items v, name ∈ ["oneOf", "anyOf", "allOf"] ∧ (name, .arr items) ∈ fields ∧
    v ∈ items ∧ P v s

section Entries

variable {refPrefix path : String} {fields : Fields Json} {P : Json → Schema → Prop}

theorem names_of_loadFields {below : Fields Json} {properties : Fields Schema}
    (h : loadFields (.str refPrefix) path below = .ok properties) :
    Fields.names properties = Fields.names below := by
  induction below generalizing properties with
  | nil =>
    cases h
    rfl
  | cons field rest ih =>
    obtain ⟨name, v⟩ := field
    rw [loadFields] at h
    obtain ⟨s, -, h⟩ := Fault.bind_eq_ok_iff.mp h
    obtain ⟨tail, ht, h⟩ := Fault.bind_eq_ok_iff.mp h
    obtain rfl := Fault.pure_eq_ok_iff.mp h
    exact congrArg (name :: ·) (ih ht)

/-- Properties are those of the object in the entry, and there are none without it. -/
theorem loadProperties_cases {properties : Fields Schema}
    (h : loadProperties (.str refPrefix) path fields = .ok properties) :
    properties = [] ∨ ∃ inner, ("properties", .obj inner) ∈ fields ∧
      loadFields (.str refPrefix) path inner = .ok properties := by
  rw [loadProperties_eq] at h
  split at h
  · cases h
    exact .inl rfl
  · next inner hlookup => exact .inr ⟨inner, Fields.mem_of_lookup_eq_some hlookup, h⟩
  · split at h
    · cases h
    · cases h
      exact .inl rfl

/-- For each entry of an object, `P` holds of what is loaded from it, and of what is loaded from the
items of the list or the fields of the object in it. -/
def EntriesLoaded (refPrefix : String) (fields : Fields Json) (P : Json → Schema → Prop) : Prop :=
  ∀ field ∈ fields,
    (∀ path s, load (.str refPrefix) path field.2 = .ok s → P field.2 s) ∧
    (∀ items, field.2 = .arr items → ∀ w ∈ items, ∀ path s,
      load (.str refPrefix) path w = .ok s → P w s) ∧
    ∀ below, field.2 = .obj below → ∀ inner ∈ below, ∀ path s,
      load (.str refPrefix) path inner.2 = .ok s → P inner.2 s

theorem membersLoadedFrom_of_loadMembers (entries : EntriesLoaded refPrefix fields P)
    {name : String} (key : name ∈ ["oneOf", "anyOf", "allOf"]) {all : List Schema}
    (h : loadMembers (.str refPrefix) path name fields = .ok all) :
    MembersLoadedFrom fields P all := by
  intro s hs
  rw [loadMembers_eq] at h
  split at h
  · cases h
    exact absurd hs List.not_mem_nil
  · next items hlookup =>
    obtain ⟨v, hv, place, hload⟩ := exists_load_of_loadAll h s hs
    have entry := Fields.mem_of_lookup_eq_some hlookup
    exact ⟨name, items, v, key, entry, hv, (entries _ entry).2.1 items rfl v hv place s hload⟩
  · cases h

theorem loadedFrom_of_entries (entries : EntriesLoaded refPrefix fields P) :
    Below.LoadedFrom
      { properties := fun path => loadProperties (.str refPrefix) s!"{path}/properties" fields
        additional := fun path =>
          loadAdditional (.str refPrefix) s!"{path}/additionalProperties" fields
        items := fun path => loadItems (.str refPrefix) s!"{path}/items" fields } fields P where
  names := by
    intro path properties h
    refine (loadProperties_cases h).imp_right ?_
    rintro ⟨inner, entry, h⟩
    exact ⟨inner, entry, names_of_loadFields h⟩
  properties := by
    intro path properties h property hp
    rcases loadProperties_cases h with rfl | ⟨inner, entry, h⟩
    · exact absurd hp List.not_mem_nil
    · obtain ⟨v, hv, place, hload⟩ := exists_load_of_loadFields h property hp
      exact ⟨inner, v, entry, hv, (entries _ entry).2.2 inner rfl _ hv place _ hload⟩
  additional := by
    intro path s h
    dsimp only at h
    rw [loadAdditional_eq] at h
    split at h
    · next inner hlookup =>
      obtain ⟨t, ht, heq⟩ := Fault.map_eq_ok_iff.mp h
      cases heq
      have entry := Fields.mem_of_lookup_eq_some hlookup
      exact ⟨_, entry, (entries _ entry).1 _ _ ht⟩
    · cases h
  items := by
    intro path s h
    dsimp only at h
    rw [loadItems_eq] at h
    split at h
    · next v hlookup =>
      obtain ⟨t, ht, heq⟩ := Fault.map_eq_ok_iff.mp h
      cases heq
      obtain ⟨w, hw, hgiven⟩ := Option.bind_eq_some_iff.mp hlookup
      obtain rfl := Json.eq_of_given? hgiven
      have entry := Fields.mem_of_lookup_eq_some hw
      exact ⟨w, entry, (entries _ entry).1 _ _ ht⟩
    · cases h

end Entries

/-- Induction along the loading of a schema: what holds of the schemas that are loaded from within a
value has to be carried over to the schema that is loaded from the value. -/
theorem loadedInduction {refPrefix : String} {P : Json → Schema → Prop}
    (reference : ∀ fields path v s, loadReference (.str refPrefix) path v = .ok s →
      P (.obj fields) s)
    (oneOf : ∀ fields variants, MembersLoadedFrom fields P variants →
      P (.obj fields) (.oneOf variants))
    (allOf : ∀ fields parts, MembersLoadedFrom fields P parts → P (.obj fields) (.allOf parts))
    (node : ∀ fields below s, below.LoadedFrom fields P → NodeOf below fields s →
      P (.obj fields) s)
    {path : String} {v : Json} {s : Schema} (h : load (.str refPrefix) path v = .ok s) : P v s := by
  induction v using loadInduction generalizing path s with
  | other v notObject =>
    rw [load] at h
    · cases h
    · exact notObject
  | obj fields ih =>
    have entries : EntriesLoaded refPrefix fields P := by
      intro field hf
      obtain ⟨here, list, object⟩ := ih field hf
      exact ⟨fun path s => here, fun items heq w hw path s => list items heq w hw,
        fun below heq inner hinner path s => object below heq inner hinner⟩
    rw [load] at h
    split at h
    · exact reference _ _ _ _ h
    split at h
    · obtain ⟨variants, hv, h⟩ := Fault.bind_eq_ok_iff.mp h
      obtain rfl := Fault.pure_eq_ok_iff.mp h
      exact oneOf _ _ (membersLoadedFrom_of_loadMembers entries (by simp) hv)
    split at h
    · obtain ⟨variants, hv, h⟩ := Fault.bind_eq_ok_iff.mp h
      obtain rfl := Fault.pure_eq_ok_iff.mp h
      exact oneOf _ _ (membersLoadedFrom_of_loadMembers entries (by simp) hv)
    split at h
    · obtain ⟨parts, hp, h⟩ := Fault.bind_eq_ok_iff.mp h
      obtain rfl := Fault.pure_eq_ok_iff.mp h
      exact allOf _ _ (membersLoadedFrom_of_loadMembers entries (by simp) hp)
    · exact node _ _ _ (loadedFrom_of_entries entries) (nodeOf_of_loadNode h)

/-! ### Loaded schemas are regular -/

variable {refPrefix : String}

theorem soundBounds_boundEntries (lowName highName : String) (fields : Fields Json) :
    SoundBounds (boundEntries lowName highName fields).1
      (boundEntries lowName highName fields).2 := by
  have bound : ∀ name, boundEntry name fields = .null ∨
      (boundEntry name fields).isNumber = true := by
    intro name
    simp only [boundEntry]
    split
    · next h => exact .inr h
    · exact .inl rfl
  simp only [boundEntries]
  split
  · exact .absent
  · next h => exact ⟨bound lowName, bound highName, h⟩

theorem regular_of_loadString {fields : Fields Json} {nullable : Bool} {s : Schema}
    (h : loadString fields nullable = .ok s) : s.Regular refPrefix := by
  obtain ⟨rfl, enum, -⟩ := StringFacets.node_eq_ok_iff.mp h
  exact .string (fun values hv => (enum values hv).imp_right Json.allDistinct_iff.mp)
    (soundBounds_boundEntries _ _ _) rfl

theorem regular_of_loadNumber {fields : Fields Json} {integer nullable : Bool} {s : Schema}
    (h : loadNumber fields integer nullable = .ok s) : s.Regular refPrefix := by
  obtain ⟨rfl, -⟩ := NumberFacets.node_eq_ok_iff.mp h
  exact .number rfl (soundBounds_boundEntries _ _ _) rfl

/-- A reference is not empty: its name can only be empty behind a prefix that is not. -/
theorem regular_of_loadReference {path : String} {v : Json} {s : Schema}
    (h : loadReference (.str refPrefix) path v = .ok s) : s.Regular refPrefix := by
  rw [loadReference.eq_def] at h
  split at h
  · cases h
  · next reference hne =>
    obtain ⟨name, hname, h⟩ := Fault.bind_eq_ok_iff.mp h
    obtain rfl := Fault.pure_eq_ok_iff.mp h
    refine .ref fun hempty => ?_
    obtain ⟨rfl, rfl⟩ := String.append_eq_empty_iff.mp hempty
    have hname : String.ofList reference.toList = "" := Except.ok.inj hname
    rw [String.ofList_toList] at hname
    exact hne hname
  · cases h

/-- The schemas below a node are regular, whichever of them is read. -/
structure Below.Regular (below : Below) (refPrefix : String) : Prop where
  properties : ∀ path fields, below.properties path = .ok fields →
    ∀ field ∈ fields, field.2.Regular refPrefix
  additional : ∀ path s, below.additional path = .ok (some s) → s.Regular refPrefix
  items : ∀ path s, below.items path = .ok (some s) → s.Regular refPrefix

theorem regular_of_loadObject {below : Below} (regular : below.Regular refPrefix)
    {fields : Fields Json} {path : String} {nullable : Bool} {s : Schema}
    (h : loadObject below fields path nullable = .ok s) : s.Regular refPrefix := by
  rw [loadObject] at h
  obtain ⟨properties, hp, h⟩ := Fault.bind_eq_ok_iff.mp h
  obtain ⟨required, -, h⟩ := Fault.bind_eq_ok_iff.mp h
  obtain ⟨additional, ha, h⟩ := Fault.bind_eq_ok_iff.mp h
  refine regular_of_objectNode (regular.properties path properties hp) ?_ h
  rintro t rfl
  exact regular.additional path t ha

theorem regular_of_loadArray {below : Below} (regular : below.Regular refPrefix)
    {fields : Fields Json} {path : String} {s : Schema}
    (h : loadArray below fields path = .ok s) : s.Regular refPrefix := by
  rw [loadArray] at h
  obtain ⟨items, hi, h⟩ := Fault.bind_eq_ok_iff.mp h
  obtain ⟨rfl, -⟩ := ArrayFacets.node_eq_ok_iff.mp h
  refine .array ?_ (soundBounds_boundEntries _ _ _) rfl
  rintro s rfl
  exact regular.items path s hi

theorem regular_of_nodeOf {below : Below} (regular : below.Regular refPrefix)
    {fields : Fields Json} {s : Schema} (h : NodeOf below fields s) : s.Regular refPrefix := by
  induction h with
  | object h => exact regular_of_loadObject regular h
  | array h => exact regular_of_loadArray regular h
  | string h => exact regular_of_loadString h
  | number h => exact regular_of_loadNumber h
  | boolean nullable => exact .boolean rfl
  | null => exact regular_text refPrefix
  | unknown => exact .empty
  | types _ ih => exact .oneOf ih

theorem regular_of_load {path : String} {v : Json} {s : Schema}
    (h : load (.str refPrefix) path v = .ok s) : s.Regular refPrefix := by
  have members : ∀ fields all, MembersLoadedFrom fields (fun _ s => s.Regular refPrefix) all →
      ∀ s ∈ all, s.Regular refPrefix := by
    intro fields all loaded s hs
    obtain ⟨_, _, _, -, -, -, regular⟩ := loaded s hs
    exact regular
  refine loadedInduction (P := fun _ s => s.Regular refPrefix) ?_ ?_ ?_ ?_ h
  · exact fun _ _ _ _ => regular_of_loadReference
  · exact fun fields variants loaded => .oneOf (members fields variants loaded)
  · exact fun fields parts loaded => .allOf (members fields parts loaded)
  · intro fields below s loaded hs
    refine regular_of_nodeOf ⟨fun path properties h property hp => ?_, fun path t h => ?_,
      fun path t h => ?_⟩ hs
    · obtain ⟨_, _, -, -, regular⟩ := loaded.properties path properties h property hp
      exact regular
    · obtain ⟨_, -, regular⟩ := loaded.additional path t h
      exact regular
    · obtain ⟨_, -, regular⟩ := loaded.items path t h
      exact regular

end Schema

end Schemata

import Schemata.Proofs.Json.Place
import Schemata.Proofs.Schema.Load

/-!
# How loading fails

Loading either gives a schema or refuses a value at a place behind the path. There is one exception:
what an object requires is gone through without a look at what it is. A number or `true` cannot be
gone through, and a list or an object among the names cannot be looked up; such an entry stops the
loading of everything around it.

A refusal spells the way to the value that is refused, one step down for each name, with one thing
added: where an object asks for several types, the path goes on behind the type that is tried, while
the value stays that object.

## Main definitions

* `Schema.Requirable`: a value that can be gone through as a list of names.
* `Schema.ObjectWithin`: the objects at the places of a value where schemas are expected.
* `Schema.PathStep`, `Schema.spell`: the steps of which a path tells.
* `Schema.placeOf`: the place that steps lead to.
* `Schema.Leads`: where the steps lead to.
* `Schema.Offends`: what is wrong with a value that is refused.
* `Schema.Explained`: the faults that loading can have.

## Main results

* `Schema.requiredEntry_eq_error_iff`: when the entry for required names cannot be read.
* `Schema.explained_loadNode`: a node has no other fault than this one and those of the schemas
  below it.
* `Schema.load_accounted`: what loading can come to.

## Implementation notes

Only what a fault can be is followed, not which of several faults comes first: that depends on the
order of the entries.
-/

namespace Schemata

namespace Schema

/-- A list or an object: it cannot be looked up among names. -/
def Nested (v : Json) : Prop := (∃ items, v = .arr items) ∨ ∃ fields, v = .obj fields

/-- A value that says nothing, or whose elements can all be looked up among names. -/
def Requirable (v : Json) : Prop :=
  v.truthy = true → ∃ values, v.elements? = some values ∧ ∀ w ∈ values, ¬ Nested w

/-- The objects that stand in a value where a schema is expected. -/
inductive ObjectWithin (object : Fields Json) : Json → Prop
  | here : ObjectWithin object (.obj object)
  | variant {fields : Fields Json} {name : String} {items : List Json} {v : Json}
      (key : name ∈ ["oneOf", "anyOf", "allOf"]) (entry : (name, .arr items) ∈ fields)
      (mem : v ∈ items) (within : ObjectWithin object v) : ObjectWithin object (.obj fields)
  | property {fields below : Fields Json} {name : String} {v : Json}
      (entry : ("properties", .obj below) ∈ fields) (mem : (name, v) ∈ below)
      (within : ObjectWithin object v) : ObjectWithin object (.obj fields)
  | further {fields : Fields Json} {v : Json} (entry : ("additionalProperties", v) ∈ fields)
      (within : ObjectWithin object v) : ObjectWithin object (.obj fields)
  | items {fields : Fields Json} {v : Json} (entry : ("items", v) ∈ fields)
      (within : ObjectWithin object v) : ObjectWithin object (.obj fields)

/-- An object in the value cannot have what it requires gone through. -/
def Unrequirable (v : Json) : Prop :=
  ∃ object, ObjectWithin object v ∧ ¬ Requirable (entry "required" object)

/-! ### Paths -/

/-- An object asks for several types when two are left of a list of them without `null`. -/
def HasSeveralTypes (object : Fields Json) : Prop :=
  ∃ types, entry "type" object = .arr types ∧ 2 ≤ (types.filter (!TypeForm.isNullName ·)).length

/-- A step of which a path tells. -/
inductive PathStep where
  /-- To what stands directly inside a value. -/
  | child (name : String)
  /-- To one of the types that an object asks for. -/
  | alternative (place : String)

namespace PathStep

def text : PathStep → String
  | .child name => "/" ++ name
  | .alternative place => "/type/" ++ place

/-- The name by which the step goes further down, if it does. -/
def name? : PathStep → Option String
  | .child name => some name
  | .alternative _ => none

end PathStep

def spell : List PathStep → String
  | [] => ""
  | step :: rest => step.text ++ spell rest

/-- The place that steps lead to. -/
def placeOf (steps : List PathStep) : List String := steps.filterMap PathStep.name?

/-- The steps lead from `v` to `u`. -/
inductive Leads : Json → List PathStep → Json → Prop
  | here {v : Json} : Leads v [] v
  | child {v w u : Json} {name : String} {steps : List PathStep} (mem : (name, w) ∈ v.children)
      (rest : Leads w steps u) : Leads v (.child name :: steps) u
  | alternative {object : Fields Json} {u : Json} {place : String} {steps : List PathStep}
      (several : HasSeveralTypes object) (rest : Leads (.obj object) steps u) :
      Leads (.obj object) (.alternative place :: steps) u

/-- The value at `place` is what `cause` says is wrong. -/
def Offends (place : List String) (u : Json) : LoadCause → Prop
  | .notASchema found => (∀ fields, u ≠ .obj fields) ∧ found = u.typeName
  | .variantsNotAList => ∀ items, u ≠ .arr items
  | .propertiesNotAnObject => (∀ fields, u ≠ .obj fields) ∧ ["properties"] <:+ place
  | .badReference => ∃ fields w, u = .obj fields ∧ fields.lookup "$ref" = some w ∧
      ∀ reference, w = .str reference → reference = ""
  | .notAList _ | .notASnapshot _ => False

/-- What is wrong with a value is so wherever it stands. -/
theorem Offends.cons {place : List String} {u : Json} {cause : LoadCause}
    (h : Offends place u cause) (name : String) : Offends (name :: place) u cause := by
  cases cause with
  | propertiesNotAnObject => exact ⟨h.1, h.2.trans (List.suffix_cons name place)⟩
  | _ => exact h

/-- A refusal, at the place behind `path` where a value in `v` offends, or, where `unsound` holds, a
value used for what its type does not allow. -/
inductive Explained (v : Json) (path : String) (unsound : Prop) : Fault → Prop
  | refused {cause : LoadCause} {steps : List PathStep} {u : Json} (leads : Leads v steps u)
      (offends : Offends (placeOf steps) u cause) :
      Explained v path unsound (.load cause (path ++ spell steps))
  | illTyped (h : unsound) : Explained v path unsound .illTyped

namespace Explained

variable {v w : Json} {path : String} {unsound unsound' : Prop} {fault : Fault}

theorem here {cause : LoadCause} (offends : Offends [] v cause) :
    Explained v path unsound (.load cause path) := by
  have refused : Explained v path unsound (.load cause (path ++ spell [])) := .refused .here offends
  rwa [spell, String.append_empty] at refused

/-- What is explained for a value further down is explained for the value. -/
theorem child {name : String} (mem : (name, w) ∈ v.children) (imp : unsound → unsound')
    (h : Explained w (path ++ ("/" ++ name)) unsound fault) : Explained v path unsound' fault := by
  cases h with
  | @refused cause steps u leads offends =>
    rw [String.append_assoc]
    exact .refused (.child mem leads) (offends.cons name)
  | illTyped h => exact .illTyped (imp h)

/-- What is explained for one of the types of an object is explained for the object. -/
theorem alternative {object : Fields Json} {place : String} (several : HasSeveralTypes object)
    (h : Explained (.obj object) (path ++ ("/type/" ++ place)) unsound fault) :
    Explained (.obj object) path unsound fault := by
  cases h with
  | @refused cause steps u leads offends =>
    rw [String.append_assoc]
    exact .refused (.alternative several leads) offends
  | illTyped h => exact .illTyped h

end Explained

/-! ### Nodes of plain values -/

theorem sound_enumEntry {fields : Fields Json} {values : List Json}
    (h : enumEntry fields = some values) : values ≠ [] ∧ Json.allDistinct values = true := by
  rw [enumEntry] at h
  split at h
  · cases h
  · next given hne _ =>
    obtain rfl := Option.some.inj h
    exact ⟨Json.distinct_ne_nil hne, Json.allDistinct_iff.mpr (Json.apart_distinct given)⟩
  · cases h

theorem exists_loadString (fields : Fields Json) (nullable : Bool) :
    ∃ s, loadString fields nullable = .ok s :=
  ⟨_, StringFacets.node_eq_ok_iff.mpr ⟨rfl, fun _ => sound_enumEntry,
    (soundBounds_boundEntries "minLength" "maxLength" fields).boundsAgree⟩⟩

theorem exists_loadNumber (fields : Fields Json) (integer nullable : Bool) :
    ∃ s, loadNumber fields integer nullable = .ok s :=
  ⟨_, NumberFacets.node_eq_ok_iff.mpr ⟨rfl,
    (soundBounds_boundEntries "minimum" "maximum" fields).boundsAgree⟩⟩

/-! ### Required names -/

section Required

variable {properties : Fields Schema} {fault : Fault}

theorem namesProperty_eq_error_iff {v : Json} :
    namesProperty properties v = .error fault ↔ fault = .illTyped ∧ Nested v := by
  rw [Nested, eq_comm (a := fault)]
  cases v <;> simp [namesProperty]

theorem knownNames_eq_error_iff {values : List Json} :
    knownNames properties values = .error fault ↔ fault = .illTyped ∧ ∃ v ∈ values, Nested v := by
  induction values with
  | nil => simp [knownNames]
  | cons v rest ih =>
    rw [knownNames, Fault.bind_eq_error_iff, namesProperty_eq_error_iff, List.exists_mem_cons_iff,
      and_or_left, ← ih]
    simp only [Fault.bind_eq_error_iff]
    constructor
    · rintro (h | ⟨known, -, h | ⟨names, -, h⟩⟩)
      · exact .inl h
      · exact .inr h
      · cases h
    · rintro (h | h)
      · exact .inl h
      · cases hv : namesProperty properties v with
        | ok known => exact .inr ⟨known, rfl, .inl h⟩
        | error fault' =>
          obtain ⟨rfl, nested⟩ := namesProperty_eq_error_iff.mp hv
          exact .inl ⟨(ih.mp h).1, nested⟩

/-- Whatever is left of the required names names a property. -/
theorem exists_name_of_knownNames {values names : List Json}
    (h : knownNames properties values = .ok names) :
    ∀ v ∈ names, ∃ name ∈ Fields.names properties, v = .str name := by
  induction values generalizing names with
  | nil =>
    cases h
    exact fun v hv => absurd hv List.not_mem_nil
  | cons v rest ih =>
    rw [knownNames] at h
    obtain ⟨known, hknown, h⟩ := Fault.bind_eq_ok_iff.mp h
    obtain ⟨tail, htail, h⟩ := Fault.bind_eq_ok_iff.mp h
    obtain rfl := Fault.pure_eq_ok_iff.mp h
    cases known with
    | true => exact List.forall_mem_cons.mpr ⟨namesProperty_eq_ok_true_iff.mp hknown, ih htail⟩
    | false => exact ih htail

/-- The entry for required names is the only one that is read without a check of its type. -/
theorem requiredEntry_eq_error_iff {fields : Fields Json} :
    requiredEntry properties fields = .error fault ↔
      fault = .illTyped ∧ ¬ Requirable (entry "required" fields) := by
  simp only [requiredEntry, Requirable]
  split
  · next hfalsy => simp_all
  · next htruthy =>
    have htruthy : (entry "required" fields).truthy = true := by simpa using htruthy
    split
    · next hnone => simp [hnone, htruthy, eq_comm (a := fault)]
    · next values hvalues => simp [knownNames_eq_error_iff, hvalues, htruthy]

theorem exists_name_of_requiredEntry {fields : Fields Json} {names : List Json}
    (h : requiredEntry properties fields = .ok names) :
    ∀ v ∈ names, ∃ name ∈ Fields.names properties, v = .str name := by
  simp only [requiredEntry] at h
  split at h
  · cases h
    exact fun v hv => absurd hv List.not_mem_nil
  split at h
  · cases h
  · exact exists_name_of_knownNames h

end Required

/-! ### Nodes -/

/-- Only a list of several types asks for alternatives. -/
theorem hasSeveralTypes_of_ofJson {fields : Fields Json} {forms : List (String × TypeForm)}
    (h : TypeForm.ofJson (entry "type" fields) = .alternatives forms) : HasSeveralTypes fields := by
  cases htype : entry "type" fields with
  | arr types =>
    refine ⟨types, htype, ?_⟩
    rw [htype, TypeForm.ofJson] at h
    split at h
    · cases h
    · cases h
    · next notNone notOne =>
      match hlist : types.filter (!TypeForm.isNullName ·) with
      | [] => exact absurd hlist notNone
      | [type] => exact absurd hlist (notOne type)
      | _ :: _ :: rest => simp
  | _ =>
    rw [htype] at h
    cases h

section Nodes

variable {fields : Fields Json} {path : String} {unsound : Prop} {fault : Fault}

/-- The faults of the schemas below the node of an object are explained, whichever of them is
read. -/
structure Below.Explained (below : Below) (fields : Fields Json) (unsound : Prop) : Prop where
  properties : ∀ path fault, below.properties path = .error fault →
    Schema.Explained (.obj fields) path unsound fault
  additional : ∀ path fault, below.additional path = .error fault →
    Schema.Explained (.obj fields) path unsound fault
  items : ∀ path fault, below.items path = .error fault →
    Schema.Explained (.obj fields) path unsound fault

theorem explained_loadReference {refPrefix : String} (has : Fields.has fields "$ref")
    (h : loadReference (.str refPrefix) path (entry "$ref" fields) = .error fault) :
    Explained (.obj fields) path unsound fault := by
  obtain ⟨w, hw⟩ := Fields.mem_names_iff.mp (Fields.has_iff.mp has)
  rw [entry, hw, Option.getD_some, loadReference.eq_def] at h
  split at h
  · cases h
    refine .here ⟨fields, _, rfl, hw, ?_⟩
    rintro reference ⟨⟩
    rfl
  · rcases Fault.bind_eq_error_iff.mp h with h | ⟨name, -, h⟩
    · rw [referenceName] at h
      split at h <;> cases h
    · cases h
  · next notText =>
    cases h
    exact .here ⟨fields, w, rfl, hw, fun reference heq => absurd heq (notText reference)⟩

theorem explained_loadObject {below : Below} (explained : below.Explained fields unsound)
    (requires : ¬ Requirable (entry "required" fields) → unsound) {nullable : Bool}
    (h : loadObject below fields path nullable = .error fault) :
    Explained (.obj fields) path unsound fault := by
  rw [loadObject] at h
  rcases Fault.bind_eq_error_iff.mp h with h | ⟨properties, -, h⟩
  · exact explained.properties _ _ h
  rcases Fault.bind_eq_error_iff.mp h with h | ⟨required, hrequired, h⟩
  · obtain ⟨rfl, unrequirable⟩ := requiredEntry_eq_error_iff.mp h
    exact .illTyped (requires unrequirable)
  rcases Fault.bind_eq_error_iff.mp h with h | ⟨additional, -, h⟩
  · exact explained.additional _ _ h
  · cases h.symm.trans (objectNode_eq_ok_iff.mpr ⟨rfl, exists_name_of_requiredEntry hrequired⟩)

theorem explained_loadArray {below : Below} (explained : below.Explained fields unsound)
    (h : loadArray below fields path = .error fault) :
    Explained (.obj fields) path unsound fault := by
  rw [loadArray] at h
  rcases Fault.bind_eq_error_iff.mp h with h | ⟨items, -, h⟩
  · exact explained.items _ _ h
  · have bounds := (soundBounds_boundEntries "minItems" "maxItems" fields).boundsAgree
    cases h.symm.trans (ArrayFacets.node_eq_ok_iff.mpr ⟨rfl, bounds⟩)

theorem explained_loadType {below : Below} (explained : below.Explained fields unsound)
    (requires : ¬ Requirable (entry "required" fields) → unsound) {type : Json} {nullable : Bool}
    (h : loadType below fields path type nullable = .error fault) :
    Explained (.obj fields) path unsound fault := by
  rw [loadType.eq_def] at h
  split at h
  · exact explained_loadObject explained requires h
  · exact explained_loadArray explained h
  · obtain ⟨s, hs⟩ := exists_loadString fields nullable
    cases h.symm.trans hs
  · obtain ⟨s, hs⟩ := exists_loadNumber fields false nullable
    cases h.symm.trans hs
  · obtain ⟨s, hs⟩ := exists_loadNumber fields true nullable
    cases h.symm.trans hs
  all_goals cases h

mutual

theorem explained_loadForm {below : Below} (explained : below.Explained fields unsound)
    (requires : ¬ Requirable (entry "required" fields) → unsound) (path : String) :
    (form : TypeForm) → (∀ forms, form = .alternatives forms → HasSeveralTypes fields) →
      loadForm below fields path form = .error fault → Explained (.obj fields) path unsound fault
  | .single _ _, _, h => by
    rw [loadForm] at h
    exact explained_loadType explained requires h
  | .alternatives forms, several, h => by
    rw [loadForm] at h
    rcases Fault.bind_eq_error_iff.mp h with h | ⟨variants, -, h⟩
    · exact explained_loadForms explained requires path forms (several forms rfl) h
    · cases h

theorem explained_loadForms {below : Below} (explained : below.Explained fields unsound)
    (requires : ¬ Requirable (entry "required" fields) → unsound) (path : String) :
    (forms : List (String × TypeForm)) → HasSeveralTypes fields →
      loadForms below fields path forms = .error fault → Explained (.obj fields) path unsound fault
  | [], _, h => by
    rw [loadForms] at h
    cases h
  | (place, form) :: forms, several, h => by
    rw [loadForms] at h
    rcases Fault.bind_eq_error_iff.mp h with h | ⟨s, -, h⟩
    · have tried := explained_loadForm explained requires _ form (fun _ _ => several) h
      exact .alternative several (String.append_assoc ▸ tried)
    rcases Fault.bind_eq_error_iff.mp h with h | ⟨all, -, h⟩
    · exact explained_loadForms explained requires path forms several h
    · cases h

end

theorem explained_loadNode {below : Below} (explained : below.Explained fields unsound)
    (requires : ¬ Requirable (entry "required" fields) → unsound)
    (h : loadNode below fields path = .error fault) :
    Explained (.obj fields) path unsound fault := by
  rw [loadNode] at h
  split at h
  · exact explained_loadForm explained requires path _ (fun _ => hasSeveralTypes_of_ofJson) h
  split at h
  · exact explained_loadObject explained requires h
  · cases h

end Nodes

/-! ### Values -/

/-- The faults that loading from a value can have are explained. -/
def LoadsExplained (refPrefix : String) (v : Json) : Prop :=
  ∀ path fault, load (.str refPrefix) path v = .error fault →
    Explained v path (Unrequirable v) fault

section Entries

variable {refPrefix path : String} {fault : Fault} {fields : Fields Json}

private theorem loadsExplained_of_notObject {v : Json} (h : ∀ fields, v ≠ .obj fields) :
    LoadsExplained refPrefix v := by
  intro path fault hload
  rw [load] at hload
  · cases hload
    exact .here ⟨h, rfl⟩
  · exact h

/-- What is refused in a list is refused in one of its items, at the index that it has. -/
theorem exists_of_loadAll_eq_error {items : List Json} {i : Nat}
    (h : loadAll (.str refPrefix) path i items = .error fault) :
    ∃ k v, items[k]? = some v ∧ load (.str refPrefix) s!"{path}/{i + k}" v = .error fault := by
  induction items generalizing i with
  | nil => cases h
  | cons v rest ih =>
    rw [loadAll] at h
    rcases Fault.bind_eq_error_iff.mp h with h | ⟨s, -, h⟩
    · exact ⟨0, v, rfl, h⟩
    rcases Fault.bind_eq_error_iff.mp h with h | ⟨all, -, h⟩
    · obtain ⟨k, w, hw, h⟩ := ih h
      rw [Nat.add_right_comm, Nat.add_assoc] at h
      exact ⟨k + 1, w, hw, h⟩
    · cases h

theorem exists_of_loadFields_eq_error {below : Fields Json}
    (h : loadFields (.str refPrefix) path below = .error fault) :
    ∃ name v, (name, v) ∈ below ∧ load (.str refPrefix) s!"{path}/{name}" v = .error fault := by
  induction below with
  | nil => cases h
  | cons field rest ih =>
    obtain ⟨name, v⟩ := field
    rw [loadFields] at h
    rcases Fault.bind_eq_error_iff.mp h with h | ⟨s, -, h⟩
    · exact ⟨name, v, List.mem_cons_self, h⟩
    rcases Fault.bind_eq_error_iff.mp h with h | ⟨all, -, h⟩
    · obtain ⟨n, w, hw, h⟩ := ih h
      exact ⟨n, w, List.mem_cons_of_mem _ hw, h⟩
    · cases h

variable (entries : ∀ field ∈ fields, LoadsExplained refPrefix field.2 ∧
  (∀ items, field.2 = .arr items → ∀ w ∈ items, LoadsExplained refPrefix w) ∧
    ∀ below, field.2 = .obj below → ∀ inner ∈ below, LoadsExplained refPrefix inner.2)

include entries

private theorem explained_loadMembers (name : String) (key : name ∈ ["oneOf", "anyOf", "allOf"])
    (h : loadMembers (.str refPrefix) (path ++ ("/" ++ name)) name fields = .error fault) :
    Explained (.obj fields) path (Unrequirable (.obj fields)) fault := by
  rw [loadMembers_eq] at h
  split at h
  · cases h
  · next items hlookup =>
    have hentry := Fields.mem_of_lookup_eq_some hlookup
    obtain ⟨i, v, hv, h⟩ := exists_of_loadAll_eq_error h
    rw [Nat.zero_add] at h
    have hmem : v ∈ items := List.mem_of_getElem? hv
    have item := (entries _ hentry).2.1 items rfl v hmem _ _ h
    refine .child hentry ?_ (.child (Json.mem_children_arr hv) id (String.append_assoc ▸ item))
    rintro ⟨object, within, unrequirable⟩
    exact ⟨object, .variant key hentry hmem within, unrequirable⟩
  · next v notAList hlookup =>
    cases h
    have offends : Offends [] v .variantsNotAList := notAList
    exact .child (Fields.mem_of_lookup_eq_some hlookup) id (.here offends)

private theorem explained_loadProperties
    (h : loadProperties (.str refPrefix) s!"{path}/properties" fields = .error fault) :
    Explained (.obj fields) path (Unrequirable (.obj fields)) fault := by
  rw [loadProperties_eq] at h
  split at h
  · cases h
  · next below hlookup =>
    have hentry := Fields.mem_of_lookup_eq_some hlookup
    obtain ⟨name, v, hv, h⟩ := exists_of_loadFields_eq_error h
    have property := (entries _ hentry).2.2 below rfl _ hv _ _ h
    have inner : Explained (.obj below) s!"{path}/properties" (Unrequirable v) fault :=
      .child hv id (String.append_assoc ▸ property)
    refine .child hentry ?_ inner
    rintro ⟨object, within, unrequirable⟩
    exact ⟨object, .property hentry hv within, unrequirable⟩
  · next v notAnObject hlookup =>
    split at h
    · cases h
      have leads : Leads (.obj fields) [.child "properties"] v :=
        .child (Fields.mem_of_lookup_eq_some hlookup) .here
      exact .refused leads ⟨notAnObject, List.suffix_refl _⟩
    · cases h

private theorem explained_loadAdditional
    (h : loadAdditional (.str refPrefix) s!"{path}/additionalProperties" fields = .error fault) :
    Explained (.obj fields) path (Unrequirable (.obj fields)) fault := by
  rw [loadAdditional_eq] at h
  split at h
  · next below hlookup =>
    have hentry := Fields.mem_of_lookup_eq_some hlookup
    refine .child hentry ?_ ((entries _ hentry).1 _ _ (Fault.map_eq_error_iff.mp h))
    rintro ⟨object, within, unrequirable⟩
    exact ⟨object, .further hentry within, unrequirable⟩
  · cases h

private theorem explained_loadItems
    (h : loadItems (.str refPrefix) s!"{path}/items" fields = .error fault) :
    Explained (.obj fields) path (Unrequirable (.obj fields)) fault := by
  rw [loadItems_eq] at h
  split at h
  · next v hlookup =>
    obtain ⟨w, hw, hgiven⟩ := Option.bind_eq_some_iff.mp hlookup
    obtain rfl := Json.eq_of_given? hgiven
    have hentry := Fields.mem_of_lookup_eq_some hw
    refine .child hentry ?_ ((entries _ hentry).1 _ _ (Fault.map_eq_error_iff.mp h))
    rintro ⟨object, within, unrequirable⟩
    exact ⟨object, .items hentry within, unrequirable⟩
  · cases h

private theorem loadsExplained_obj : LoadsExplained refPrefix (.obj fields) := by
  intro path fault h
  rw [load] at h
  split at h
  · next has => exact explained_loadReference has h
  split at h
  · rcases Fault.bind_eq_error_iff.mp h with h | ⟨variants, -, h⟩
    · exact explained_loadMembers entries "oneOf" (by simp) h
    · cases h
  split at h
  · rcases Fault.bind_eq_error_iff.mp h with h | ⟨variants, -, h⟩
    · exact explained_loadMembers entries "anyOf" (by simp) h
    · cases h
  split at h
  · rcases Fault.bind_eq_error_iff.mp h with h | ⟨parts, -, h⟩
    · exact explained_loadMembers entries "allOf" (by simp) h
    · cases h
  · exact explained_loadNode
      ⟨fun _ _ => explained_loadProperties entries, fun _ _ => explained_loadAdditional entries,
        fun _ _ => explained_loadItems entries⟩
      (fun unrequirable => ⟨fields, .here, unrequirable⟩) h

end Entries

theorem explained_load {refPrefix path : String} {v : Json} {fault : Fault}
    (h : load (.str refPrefix) path v = .error fault) :
    Explained v path (Unrequirable v) fault := by
  have loads : LoadsExplained refPrefix v :=
    loadInduction (fun _ => loadsExplained_of_notObject) (fun _ => loadsExplained_obj) v
  exact loads path fault h

/-- Loading gives a schema, or refuses something at a place in the value, or comes upon an object
that cannot have what it requires gone through. -/
theorem load_accounted (refPrefix path : String) (v : Json) :
    (∃ s, load (.str refPrefix) path v = .ok s) ∨
      (∃ cause rest, load (.str refPrefix) path v = .error (.load cause (path ++ rest))) ∨
      load (.str refPrefix) path v = .error .illTyped ∧
        ∃ object, ObjectWithin object v ∧ ¬ Requirable (entry "required" object) := by
  cases h : load (.str refPrefix) path v with
  | ok s => exact .inl ⟨s, rfl⟩
  | error fault =>
    cases explained_load h with
    | refused => exact .inr (.inl ⟨_, _, rfl⟩)
    | illTyped unsound => exact .inr (.inr ⟨rfl, unsound⟩)

/-- A number or a list of lists in the place of the required names is not refused, nor left out as
it would be in the place of a bound or of a closed set. -/
theorem load_illTyped_of_required :
    load (.str "#/components/schemas/") "#"
        (.obj [("type", .str "object"), ("required", .int 5)]) = .error .illTyped ∧
      load (.str "#/components/schemas/") "#"
        (.obj [("items", .obj [("type", .str "object"), ("required", .arr [.arr []])]),
          ("type", .str "array")]) = .error .illTyped := by
  constructor
  · rw [load]
    rfl
  · rw [load]
    rfl

end Schema

end Schemata

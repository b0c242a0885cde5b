import Schemata.Proofs.Schema.LoadFaults
import Schemata.Proofs.Schema.Nodes

/-!
# Where loaded nodes come from

Every node of a loaded schema is read from one object of the value, at a place where a schema is
expected, and what the node holds are entries of this object.

## Main definitions

* `Schema.ReadFrom`: what a node has from the object from which it is read.
* `Schema.ReadWithin`: the nodes of a schema are read from objects within a value.

## Main results

* `Schema.readWithin_of_load`: each node of a loaded schema is read from an object within the value.
* `Schema.ObjectWithin.wellFormed`: the objects within a well-formed value are well-formed.

## Implementation notes

A list of types gives several nodes that are all read from one object. `Schema.ReadFrom` therefore
does not say which object below it a node goes on with, only that there is no other source.
-/

namespace Schemata

namespace Schema

/-- What a node has from the object from which it is read. -/
structure ReadFrom (object : Fields Json) (s : Schema) : Prop where
  concrete : s.kind ≠ .abstract
  names : s.properties = [] ∨
    ∃ below, ("properties", .obj below) ∈ object ∧ Fields.names s.properties = Fields.names below
  exemplar : s.exemplar = .null ∨ s.exemplar = entry "example" object
  enum : s.enum = none ∨ s.enum = enumEntry object
  format : s.format = .null ∨ s.format = entry "format" object
  required : s.required = [] ∨ ∃ values, (entry "required" object).elements? = some values ∧
    s.required = (texts values).filter (· ∈ Fields.names s.properties)

/-- The nodes of a schema are all read from objects within a value. -/
def ReadWithin (v : Json) (s : Schema) : Prop :=
  ∀ t ∈ s.nodes, ∃ object, ObjectWithin object v ∧ t.ReadFrom object

/-! ### Required names -/

section Required

variable {properties : Fields Schema} {fields : Fields Json} {names : List Json}

theorem texts_of_knownNames {values : List Json} (h : knownNames properties values = .ok names) :
    texts names = (texts values).filter (· ∈ Fields.names properties) := by
  induction values generalizing names with
  | nil =>
    cases h
    rfl
  | cons v rest ih =>
    rw [knownNames] at h
    obtain ⟨known, hknown, h⟩ := Fault.bind_eq_ok_iff.mp h
    obtain ⟨tail, htail, h⟩ := Fault.bind_eq_ok_iff.mp h
    obtain rfl := Fault.pure_eq_ok_iff.mp h
    have hrest := ih htail
    cases v with
    | str name =>
      cases hknown
      have hcons : ∀ all, texts (.str name :: all) = name :: texts all := fun _ => rfl
      rw [hcons, List.filter_cons]
      by_cases hmem : name ∈ Fields.names properties
      · simp [hmem, Fields.has_iff.mpr hmem, hcons, hrest]
      · have hlacks : Fields.has properties name = false := by
          rw [← Bool.not_eq_true, Fields.has_iff]
          exact hmem
        simp [hmem, hlacks, hrest]
    | arr items => cases hknown
    | obj inner => cases hknown
    | _ =>
      cases hknown
      exact hrest

/-- What is required of a node are the texts of the entry that name its properties. -/
theorem texts_of_requiredEntry (h : requiredEntry properties fields = .ok names) :
    texts names = [] ∨ ∃ values, (entry "required" fields).elements? = some values ∧
      texts names = (texts values).filter (· ∈ Fields.names properties) := by
  simp only [requiredEntry] at h
  split at h
  · cases h
    exact .inl rfl
  split at h
  · cases h
  · next values hvalues => exact .inr ⟨values, hvalues, texts_of_knownNames h⟩

end Required

/-! ### Nodes -/

section Nodes

variable {fields : Fields Json} {s : Schema}

theorem exists_readFrom_of_bare {t : Schema} (concrete : t.kind ≠ .abstract)
    (properties : t.properties = []) (exemplar : t.exemplar = .null) (enum : t.enum = none)
    (format : t.format = .null) (required : t.required = []) :
    ∃ object, ObjectWithin object (.obj fields) ∧ t.ReadFrom object :=
  ⟨fields, .here, concrete, .inl properties, .inl exemplar, .inl enum, .inl format, .inl required⟩

/-- What is read within a member of a list in an entry is read within the object. -/
theorem MembersLoadedFrom.readWithin {all : List Schema}
    (h : MembersLoadedFrom fields ReadWithin all) :
    ∀ s ∈ all, ∀ t ∈ s.nodes, ∃ object, ObjectWithin object (.obj fields) ∧ t.ReadFrom object := by
  intro s hs t ht
  obtain ⟨name, items, v, key, entry, hv, read⟩ := h s hs
  obtain ⟨object, within, source⟩ := read t ht
  exact ⟨object, .variant key entry hv within, source⟩

theorem readWithin_of_loadObject {below : Below} (loaded : below.LoadedFrom fields ReadWithin)
    {path : String} {nullable : Bool} (h : loadObject below fields path nullable = .ok s) :
    ReadWithin (.obj fields) s := by
  rw [loadObject] at h
  obtain ⟨properties, hp, h⟩ := Fault.bind_eq_ok_iff.mp h
  obtain ⟨required, hr, h⟩ := Fault.bind_eq_ok_iff.mp h
  obtain ⟨additional, ha, h⟩ := Fault.bind_eq_ok_iff.mp h
  obtain ⟨rfl, -⟩ := objectNode_eq_ok_iff.mp h
  refine forall_nodes_object.mpr ⟨?_, fun property hproperty t ht => ?_, ?_⟩
  · exact ⟨fields, .here, Kind.noConfusion, loaded.names path properties hp, .inl rfl, .inl rfl,
      .inl rfl, texts_of_requiredEntry hr⟩
  · obtain ⟨inner, v, entry, hv, read⟩ := loaded.properties path properties hp property hproperty
    obtain ⟨object, within, source⟩ := read t ht
    exact ⟨object, .property entry hv within, source⟩
  · rintro u rfl t ht
    obtain ⟨v, entry, read⟩ := loaded.additional path u ha
    obtain ⟨object, within, source⟩ := read t ht
    exact ⟨object, .further entry within, source⟩

theorem readWithin_of_loadArray {below : Below} (loaded : below.LoadedFrom fields ReadWithin)
    {path : String} (h : loadArray below fields path = .ok s) : ReadWithin (.obj fields) s := by
  rw [loadArray] at h
  obtain ⟨items, hi, h⟩ := Fault.bind_eq_ok_iff.mp h
  obtain ⟨rfl, -⟩ := ArrayFacets.node_eq_ok_iff.mp h
  refine forall_nodes_array.mpr ⟨exists_readFrom_of_bare Kind.noConfusion rfl rfl rfl rfl rfl, ?_⟩
  rintro u rfl t ht
  obtain ⟨v, entry, read⟩ := loaded.items path u hi
  obtain ⟨object, within, source⟩ := read t ht
  exact ⟨object, .items entry within, source⟩

theorem readWithin_of_nodeOf {below : Below} (loaded : below.LoadedFrom fields ReadWithin)
    (h : NodeOf below fields s) : ReadWithin (.obj fields) s := by
  induction h with
  | object h => exact readWithin_of_loadObject loaded h
  | array h => exact readWithin_of_loadArray loaded h
  | string h =>
    obtain ⟨rfl, -⟩ := StringFacets.node_eq_ok_iff.mp h
    exact List.forall_mem_singleton.mpr
      ⟨fields, .here, Kind.noConfusion, .inl rfl, .inr rfl, .inr rfl, .inr rfl, .inl rfl⟩
  | number h =>
    obtain ⟨rfl, -⟩ := NumberFacets.node_eq_ok_iff.mp h
    refine List.forall_mem_singleton.mpr
      ⟨fields, .here, fun hkind => ?_, .inl rfl, .inr rfl, .inl rfl, .inr rfl, .inl rfl⟩
    have primitive := congrArg Kind.isPrimitive hkind
    rw [isPrimitive_number] at primitive
    cases primitive
  | boolean nullable =>
    exact List.forall_mem_singleton.mpr
      ⟨fields, .here, Kind.noConfusion, .inl rfl, .inr rfl, .inl rfl, .inl rfl, .inl rfl⟩
  | null | unknown =>
    exact List.forall_mem_singleton.mpr
      (exists_readFrom_of_bare Kind.noConfusion rfl rfl rfl rfl rfl)
  | types _ ih =>
    exact forall_nodes_oneOf.mpr ⟨exists_readFrom_of_bare Kind.noConfusion rfl rfl rfl rfl rfl, ih⟩

end Nodes

/-- Each node of a loaded schema is read from an object within the value. -/
theorem readWithin_of_load {refPrefix path : String} {v : Json} {s : Schema}
    (h : load (.str refPrefix) path v = .ok s) : ReadWithin v s := by
  refine loadedInduction (P := ReadWithin) ?_ ?_ ?_ ?_ h
  · intro fields path v s h
    rw [loadReference.eq_def] at h
    split at h
    · cases h
    · obtain ⟨name, -, h⟩ := Fault.bind_eq_ok_iff.mp h
      obtain rfl := Fault.pure_eq_ok_iff.mp h
      exact List.forall_mem_singleton.mpr
        (exists_readFrom_of_bare Kind.noConfusion rfl rfl rfl rfl rfl)
    · cases h
  · exact fun fields variants loaded => forall_nodes_oneOf.mpr
      ⟨exists_readFrom_of_bare Kind.noConfusion rfl rfl rfl rfl rfl, loaded.readWithin⟩
  · exact fun fields parts loaded => forall_nodes_allOf.mpr
      ⟨exists_readFrom_of_bare Kind.noConfusion rfl rfl rfl rfl rfl, loaded.readWithin⟩
  · exact fun fields below s loaded => readWithin_of_nodeOf loaded

/-- The objects within a well-formed value are well-formed. -/
theorem ObjectWithin.wellFormed {object : Fields Json} {v : Json} (h : ObjectWithin object v)
    (wf : v.WellFormed) : (Json.obj object).WellFormed := by
  induction h with
  | here => exact wf
  | variant key entry mem _ ih =>
    exact ih (Json.wellFormed_arr_iff.mp ((Json.wellFormed_obj_iff.mp wf).2 _ entry) _ mem)
  | property entry mem _ ih =>
    exact ih ((Json.wellFormed_obj_iff.mp ((Json.wellFormed_obj_iff.mp wf).2 _ entry)).2 _ mem)
  | further entry _ ih => exact ih ((Json.wellFormed_obj_iff.mp wf).2 _ entry)
  | items entry _ ih => exact ih ((Json.wellFormed_obj_iff.mp wf).2 _ entry)

end Schema

end Schemata

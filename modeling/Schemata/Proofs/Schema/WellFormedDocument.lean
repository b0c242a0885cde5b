import Schemata.Proofs.Merge.Faults
import Schemata.Proofs.Schema.RoundTrip

/-!
# The JSON form of a loaded schema is well-formed

No object in the JSON form of a schema names a field twice: the entries of a node have names of
their own, the properties of a node do not repeat, and the values that a node takes from elsewhere,
which are its format, its example and the members of its closed set, come from a well-formed value
when the schema was loaded from one.

## Main results

* `Slots.wellFormed_filled`: entries with names of their own make up a well-formed object.
* `Schema.wellFormed_document`: the form of a regular schema is well-formed if its nodes are.
* `Schema.wellFormed_document_of_load`: so is the form of what was loaded.
-/

namespace Schemata

open Slots

/-! ### Slots -/

theorem Slots.wellFormed_filled {slots : Slots} (nodup : (slots.map Prod.fst).Nodup)
    (values : ∀ slot ∈ slots, ∀ v, slot.2 = some v → v.WellFormed) :
    (Json.obj (filled slots)).WellFormed := by
  rw [Json.wellFormed_obj_iff]
  constructor
  · refine nodup.sublist ?_
    clear nodup values
    induction slots with
    | nil => exact .slnil
    | cons slot rest ih =>
      obtain ⟨name, v?⟩ := slot
      cases v? with
      | none => exact ih.cons name
      | some v => exact ih.cons_cons name
  · intro field hf
    obtain ⟨slot, hslot, heq⟩ := List.mem_filterMap.mp hf
    obtain ⟨v, hv, rfl⟩ := Option.map_eq_some_iff.mp heq
    exact values slot hslot v hv

/-- The value of a slot is well-formed, if there is one. -/
def Slots.Sound (v? : Option Json) : Prop := ∀ v, v? = some v → v.WellFormed

theorem Slots.sound_none : Sound none := by
  intro v h
  cases h

theorem Slots.sound_some {v : Json} (wf : v.WellFormed) : Sound (some v) := by
  rintro _ ⟨⟩
  exact wf

theorem Slots.sound_given {v : Json} (wf : v.WellFormed) : Sound v.given? := by
  intro w hw
  cases v with
  | null => cases hw
  | _ => exact Option.some.inj hw ▸ wf

theorem Slots.sound_mark (v : Json) : Sound (mark v) := by
  rw [mark]
  split
  · exact sound_some trivial
  · exact sound_none

theorem Slots.sound_map {α : Type} {below : Option α} {f : α → Json}
    (wf : ∀ x, below = some x → (f x).WellFormed) : Sound (below.map f) := by
  cases below with
  | none => exact sound_none
  | some x => exact sound_some (wf x rfl)

theorem Slots.sound_unless {missing : Bool} {v : Json} (wf : v.WellFormed) :
    Sound (if missing then none else some v) := by
  cases missing with
  | true => exact sound_none
  | false => exact sound_some wf

theorem SoundBounds.wellFormed {low high : Json} (h : SoundBounds low high) :
    low.WellFormed ∧ high.WellFormed := by
  have number : ∀ {v : Json}, v = .null ∨ v.isNumber = true → v.WellFormed := by
    intro v hv
    cases v with
    | arr items => exact absurd hv (by simp [Json.isNumber])
    | obj fields => exact absurd hv (by simp [Json.isNumber])
    | _ => trivial
  exact ⟨number h.lower, number h.upper⟩

namespace Schema

/-! ### Nodes -/

variable {p : String} {refPrefix : Json}

theorem documentFields_eq_map (properties : Fields Schema) :
    documentFields refPrefix properties =
      properties.map fun property => (property.1, property.2.document refPrefix) := by
  induction properties with
  | nil => rfl
  | cons property rest ih =>
    obtain ⟨name, s⟩ := property
    rw [documentFields, ih]
    rfl

theorem documentAll_eq_map (all : List Schema) :
    documentAll refPrefix all = all.map (document refPrefix) := by
  induction all with
  | nil => rfl
  | cons s rest ih =>
    rw [documentAll, ih]
    rfl

theorem wellFormed_documentAll {all : List Schema}
    (each : ∀ s ∈ all, (s.document refPrefix).WellFormed) :
    (Json.arr (documentAll refPrefix all)).WellFormed := by
  rw [documentAll_eq_map, Json.wellFormed_arr_iff]
  exact List.forall_mem_map.mpr each

theorem wellFormed_single {name : String} {v : Json} (wf : v.WellFormed) :
    (Json.obj [(name, v)]).WellFormed :=
  Json.wellFormed_obj_iff.mpr ⟨List.nodup_singleton name, List.forall_mem_singleton.mpr wf⟩

/-- The form of a regular schema is well-formed if no property is named twice and the values in its
nodes are well-formed. -/
theorem wellFormed_document {s : Schema} (h : s.Regular p)
    (sound : ∀ t ∈ s.nodes, t.SoundNode ∧ t.format.WellFormed) :
    (s.document refPrefix).WellFormed := by
  induction h with
  | @string f nullable enum bounds marked =>
    obtain ⟨node, format⟩ := sound _ (self_mem_nodes _)
    obtain ⟨low, high⟩ := bounds.wellFormed
    have closed : Sound (f.enum.map .arr) :=
      sound_map fun values h => Json.wellFormed_arr_iff.mpr (node.enum values h)
    show f.document.WellFormed
    rw [StringFacets.document_eq]
    refine wellFormed_filled ?_ ?_
    · show ["type", "format", "enum", "example", "minLength", "maxLength", "nullable"].Nodup
      decide
    · simp only [StringFacets.slots, List.forall_mem_cons]
      exact ⟨sound_some trivial, sound_given format, closed, sound_given node.exemplar,
        sound_given low, sound_given high, sound_mark _, fun _ h => absurd h List.not_mem_nil⟩
  | @number f integer nullable whole bounds marked =>
    obtain ⟨node, format⟩ := sound _ (self_mem_nodes _)
    obtain ⟨low, high⟩ := bounds.wellFormed
    show f.document.WellFormed
    rw [NumberFacets.document_eq]
    refine wellFormed_filled ?_ ?_
    · show ["type", "format", "minimum", "maximum", "example", "nullable"].Nodup
      decide
    · simp only [NumberFacets.slots, List.forall_mem_cons]
      exact ⟨sound_some trivial, sound_given format, sound_given low, sound_given high,
        sound_given node.exemplar, sound_mark _, fun _ h => absurd h List.not_mem_nil⟩
  | @boolean f nullable marked =>
    obtain ⟨node, -⟩ := sound _ (self_mem_nodes _)
    show f.document.WellFormed
    rw [BooleanFacets.document_eq]
    refine wellFormed_filled ?_ ?_
    · show ["type", "example", "nullable"].Nodup
      decide
    · simp only [BooleanFacets.slots, List.forall_mem_cons]
      exact ⟨sound_some trivial, sound_given node.exemplar, sound_mark _,
        fun _ h => absurd h List.not_mem_nil⟩
  | @object properties required additional nullable below known further ihp iha =>
    obtain ⟨node, inner, outer⟩ := forall_nodes_object.mp sound
    have named : (Json.obj (documentFields refPrefix properties)).WellFormed := by
      rw [documentFields_eq_map, Json.wellFormed_obj_iff, List.map_map]
      exact ⟨node.1.names, List.forall_mem_map.mpr fun property hp => ihp property hp (inner _ hp)⟩
    have texts : (Json.arr (required.map .str)).WellFormed :=
      Json.wellFormed_arr_iff.mpr (List.forall_mem_map.mpr fun _ _ => trivial)
    rw [document_object]
    refine wellFormed_filled ?_ ?_
    · show ["type", "properties", "required", "additionalProperties", "nullable"].Nodup
      decide
    · simp only [objectSlots, List.forall_mem_cons]
      exact ⟨sound_some trivial, sound_unless named, sound_unless texts,
        sound_map fun s hs => iha s hs (outer s hs), sound_mark _,
        fun _ h => absurd h List.not_mem_nil⟩
  | @array items f unique below bounds marked ih =>
    obtain ⟨-, inner⟩ := forall_nodes_array.mp sound
    obtain ⟨low, high⟩ := bounds.wellFormed
    rw [document_array]
    refine wellFormed_filled ?_ ?_
    · show ["type", "items", "minItems", "maxItems", "uniqueItems"].Nodup
      decide
    · simp only [arraySlots, List.forall_mem_cons]
      exact ⟨sound_some trivial, sound_map fun s hs => ih s hs (inner s hs), sound_given low,
        sound_given high, sound_mark _, fun _ h => absurd h List.not_mem_nil⟩
  | @oneOf variants below ih =>
    obtain ⟨-, inner⟩ := forall_nodes_oneOf.mp sound
    rw [document]
    exact wellFormed_single (wellFormed_documentAll fun s hs => ih s hs (inner s hs))
  | @allOf parts below ih =>
    obtain ⟨-, inner⟩ := forall_nodes_allOf.mp sound
    rw [document]
    exact wellFormed_single (wellFormed_documentAll fun s hs => ih s hs (inner s hs))
  | ref nonempty =>
    rw [document]
    exact wellFormed_single trivial
  | empty =>
    rw [document]
    exact Json.wellFormed_obj_iff.mpr ⟨List.nodup_nil, fun _ h => absurd h List.not_mem_nil⟩

/-- The form of what was loaded from a well-formed value is well-formed, whichever prefix its
references get. -/
theorem wellFormed_document_of_load {path : String} {v : Json} {s : Schema} (wf : v.WellFormed)
    (h : load (.str p) path v = .ok s) : (s.document refPrefix).WellFormed := by
  refine wellFormed_document (regular_of_load h) fun t ht => ?_
  obtain ⟨object, within, read⟩ := readWithin_of_load h t ht
  have source := within.wellFormed wf
  refine ⟨read.soundNode source, ?_⟩
  rcases read.format with none | entry
  · rw [none]
    trivial
  · rw [entry]
    exact wellFormed_entry source "format"

end Schema

end Schemata

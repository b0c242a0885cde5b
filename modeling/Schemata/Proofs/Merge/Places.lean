import Schemata.Proofs.Merge.Defined
import Schemata.Proofs.Schema.Enrich
import Mathlib.Data.Set.Lattice

/-!
# Merging neither loses nor invents places

A place is where something is known of a value: behind a property, among the items of a list, behind
any further property, and so on down. Alternatives and parts are gone into without a step, as they
are about the same value. The places of a merged schema are those of its samples.

## Main definitions

* `Branch`: a step down from a value.
* `Schema.Reaches`: the steps can be taken from the root of a schema.
* `Schema.places`: the places below the root.

## Main results

* `Schema.reaches_enrich_iff`: enriching neither loses nor invents places.
* `reaches_iff_of_merges`: nor does merging, by any of the rules.
* `places_merge`: the places of a merged schema, and the names of a merged object.

## Implementation notes

Without samples the merged schema is an object of which nothing is known. It has no place below its
root, but it has a root, which no sample has: the root is therefore not counted among the places.
-/

namespace Schemata

inductive Branch where
  | property (name : String)
  | items
  /-- Into the properties that are not named. -/
  | further

namespace Schema

inductive Reaches : List Branch → Schema → Prop
  | root {s : Schema} : Reaches [] s
  | property {properties : List (String × Schema)} {required : List String}
      {additional : Option Schema} {nullable : Json} {name : String} {t : Schema}
      {rest : List Branch} (mem : (name, t) ∈ properties) (below : Reaches rest t) :
      Reaches (.property name :: rest) (.object properties required additional nullable)
  | further {properties : List (String × Schema)} {required : List String} {nullable : Json}
      {t : Schema} {rest : List Branch} (below : Reaches rest t) :
      Reaches (.further :: rest) (.object properties required (some t) nullable)
  | items {facets : ArrayFacets} {t : Schema} {rest : List Branch} (below : Reaches rest t) :
      Reaches (.items :: rest) (.array (some t) facets)
  | variant {variants : List Schema} {t : Schema} {path : List Branch} (mem : t ∈ variants)
      (below : Reaches path t) : Reaches path (.oneOf variants)
  | part {parts : List Schema} {t : Schema} {path : List Branch} (mem : t ∈ parts)
      (below : Reaches path t) : Reaches path (.allOf parts)

/-- The places below the root. -/
def places (s : Schema) : Set (List Branch) := {path | path ≠ [] ∧ s.Reaches path}

theorem mem_places_iff {s : Schema} {path : List Branch} :
    path ∈ s.places ↔ path ≠ [] ∧ s.Reaches path :=
  Iff.rfl

theorem places_anyObject : anyObject.places = ∅ := by
  ext path
  rw [mem_places_iff, Set.mem_empty_iff_false, iff_false]
  rintro ⟨hne, _ | ⟨mem, -⟩⟩
  · exact hne rfl
  · exact List.not_mem_nil mem

/-! ### Places by the kind of the root -/

variable {s : Schema} {name : String} {path rest : List Branch}

theorem reaches_property_iff (h : s.kind = .object) :
    s.Reaches (.property name :: rest) ↔ ∃ t, (name, t) ∈ s.properties ∧ t.Reaches rest := by
  obtain ⟨properties, required, additional, nullable, rfl⟩ := eq_object_of_kind h
  constructor
  · rintro (_ | ⟨mem, below⟩)
    exact ⟨_, mem, below⟩
  · rintro ⟨t, mem, below⟩
    exact .property mem below

theorem reaches_further_iff (h : s.kind = .object) :
    s.Reaches (.further :: rest) ↔ ∃ t, s.additional = some t ∧ t.Reaches rest := by
  obtain ⟨properties, required, additional, nullable, rfl⟩ := eq_object_of_kind h
  constructor
  · rintro (_ | _ | below)
    exact ⟨_, rfl, below⟩
  · rintro ⟨t, rfl, below⟩
    exact .further below

theorem not_reaches_items_of_object (h : s.kind = .object) : ¬ s.Reaches (.items :: rest) := by
  obtain ⟨properties, required, additional, nullable, rfl⟩ := eq_object_of_kind h
  exact nofun

theorem reaches_items_iff (h : s.kind = .array) :
    s.Reaches (.items :: rest) ↔ ∃ t, s.items = some t ∧ t.Reaches rest := by
  obtain ⟨items, facets, rfl⟩ := eq_array_of_kind h
  constructor
  · rintro (_ | _ | _ | below)
    exact ⟨_, rfl, below⟩
  · rintro ⟨t, rfl, below⟩
    exact .items below

theorem not_reaches_of_array (h : s.kind = .array) {branch : Branch} (hne : branch ≠ .items) :
    ¬ s.Reaches (branch :: rest) := by
  obtain ⟨items, facets, rfl⟩ := eq_array_of_kind h
  rintro (_ | _ | _ | below)
  exact hne rfl

theorem reaches_iff_of_isPrimitive (h : s.kind.isPrimitive = true) : s.Reaches path ↔ path = [] := by
  constructor
  · rintro (_ | _ | _ | _ | _ | _)
    · rfl
    all_goals cases h
  · rintro rfl
    exact .root

theorem reaches_oneOf_iff {variants : List Schema} :
    (Schema.oneOf variants).Reaches path ↔ path = [] ∨ ∃ t ∈ variants, t.Reaches path := by
  constructor
  · rintro (_ | _ | _ | _ | ⟨mem, below⟩)
    · exact .inl rfl
    · exact .inr ⟨_, mem, below⟩
  · rintro (rfl | ⟨t, mem, below⟩)
    · exact .root
    · exact .variant mem below

/-! ### Enriching -/

theorem reaches_enrich_of_isPrimitive (h : s.kind.isPrimitive = true) :
    s.enrich.Reaches path ↔ s.Reaches path := by
  have enriched : s.enrich.kind.isPrimitive = true := by rwa [kind_enrich]
  rw [reaches_iff_of_isPrimitive h, reaches_iff_of_isPrimitive enriched]

theorem reaches_enrich_iff : s.enrich.Reaches path ↔ s.Reaches path := by
  induction s using nestedInduction generalizing path with
  | object properties required additional nullable ih _ =>
    rcases path with _ | ⟨name | _ | _, rest⟩
    · exact iff_of_true .root .root
    · rw [reaches_property_iff rfl, reaches_property_iff rfl]
      simp only [enrich, Schema.properties, enrichFields_eq_map, List.mem_map, Prod.mk.injEq]
      constructor
      · rintro ⟨_, ⟨property, hp, rfl, rfl⟩, below⟩
        exact ⟨property.2, hp, (ih property hp).mp below⟩
      · rintro ⟨t, ht, below⟩
        exact ⟨_, ⟨_, ht, rfl, rfl⟩, (ih _ ht).mpr below⟩
    · exact iff_of_false (not_reaches_items_of_object rfl) (not_reaches_items_of_object rfl)
    · rw [reaches_further_iff rfl, reaches_further_iff rfl]
      rfl
  | array items facets ih =>
    rcases path with _ | ⟨name | _ | _, rest⟩
    · exact iff_of_true .root .root
    · exact iff_of_false (not_reaches_of_array rfl (by simp)) (not_reaches_of_array rfl (by simp))
    · rw [reaches_items_iff rfl, reaches_items_iff rfl]
      simp only [enrich, Schema.items, enrichOption_eq_map, Option.map_eq_some_iff]
      constructor
      · rintro ⟨_, ⟨t, ht, rfl⟩, below⟩
        exact ⟨t, ht, (ih t ht).mp below⟩
      · rintro ⟨t, ht, below⟩
        exact ⟨_, ⟨t, ht, rfl⟩, (ih t ht).mpr below⟩
    · exact iff_of_false (not_reaches_of_array rfl (by simp)) (not_reaches_of_array rfl (by simp))
  | oneOf variants => exact Iff.rfl
  | allOf parts => exact Iff.rfl
  | ref name => exact Iff.rfl
  | empty => exact Iff.rfl
  | abstract => exact Iff.rfl
  | string facets => exact reaches_enrich_of_isPrimitive rfl
  | number facets => exact reaches_enrich_of_isPrimitive (isPrimitive_number facets)
  | boolean facets => exact reaches_enrich_of_isPrimitive rfl

end Schema

/-! ### Merging -/

variable {config : Config} {samples : List Schema} {m : Schema}

theorem reaches_iff_of_finish {s t : Schema} (h : finish config s = .ok t) {path : List Branch} :
    t.Reaches path ↔ s.Reaches path := by
  rcases eq_of_finish h with rfl | rfl
  · exact Iff.rfl
  · exact Schema.reaches_enrich_iff

theorem reaches_iff_of_finishAll {variants : List Schema}
    (h : finishAll config samples = .ok variants) {path : List Branch} :
    (∃ t ∈ variants, t.Reaches path) ↔ ∃ s ∈ samples, s.Reaches path := by
  have pairs := forall₂_of_finishAll h
  clear h
  induction pairs with
  | nil => exact Iff.rfl
  | cons finished _ ih =>
    rw [List.exists_mem_cons_iff, List.exists_mem_cons_iff]
    exact or_congr (reaches_iff_of_finish finished) ih

theorem isPrimitive_of_mergePrimitives {kind : Kind} (primitive : kind.isPrimitive = true)
    (h : mergePrimitives config kind samples = .ok m) : m.kind.isPrimitive = true := by
  obtain ⟨format, -, h⟩ := mergePrimitives_cases primitive h
  rcases h with ⟨-, hm⟩ | ⟨-, rfl⟩ | ⟨-, rfl⟩
  · rcases mergeStrings_cases hm with ⟨-, rfl⟩ | ⟨-, rfl⟩ <;> rfl
  · rfl
  · exact Schema.isPrimitive_number _

/-- A step into a property leads from the merged object to what was merged from the group of the
property. -/
theorem exists_property_iff {properties : Fields Schema} {name : String} {rest : List Branch}
    (names : Fields.names properties = Fields.names (propertyGroups samples))
    (group : ∀ t, properties.lookup name = some t →
      (t.Reaches rest ↔ ∃ u ∈ propertyGroup name samples, u.Reaches rest)) :
    (∃ t, (name, t) ∈ properties ∧ t.Reaches rest) ↔
      ∃ s ∈ samples, ∃ u, (name, u) ∈ s.properties ∧ u.Reaches rest := by
  have nodup : (Fields.names properties).Nodup := by
    rw [names]
    exact nodup_names_propertyGroups _
  constructor
  · rintro ⟨t, ht, below⟩
    obtain ⟨u, hu, below⟩ := (group t (Fields.lookup_eq_some_of_mem nodup ht)).mp below
    obtain ⟨s, hs, hmem⟩ := mem_propertyGroup_iff.mp hu
    exact ⟨s, hs, u, hmem, below⟩
  · rintro ⟨s, hs, u, hmem, below⟩
    have hname : name ∈ Fields.names properties := by
      rw [names]
      exact mem_names_propertyGroups_iff.mpr ⟨s, hs, List.mem_map_of_mem hmem⟩
    obtain ⟨t, ht⟩ := Fields.mem_names_iff.mp hname
    have hu : u ∈ propertyGroup name samples := mem_propertyGroup_iff.mpr ⟨s, hs, hmem⟩
    exact ⟨t, Fields.mem_of_lookup_eq_some ht, (group t ht).mpr ⟨u, hu, below⟩⟩

/-- A step into what only some samples have leads to what was merged from those samples. -/
theorem exists_below_iff {below : Schema → Option Schema} {merged : Option Schema}
    {rest : List Branch} (absent : merged = none ↔ samples.filterMap below = [])
    (group : ∀ t, merged = some t →
      (t.Reaches rest ↔ ∃ u ∈ samples.filterMap below, u.Reaches rest)) :
    (∃ t, merged = some t ∧ t.Reaches rest) ↔
      ∃ s ∈ samples, ∃ u, below s = some u ∧ u.Reaches rest := by
  constructor
  · rintro ⟨t, ht, h⟩
    obtain ⟨u, hu, h⟩ := (group t ht).mp h
    obtain ⟨s, hs, hbelow⟩ := List.mem_filterMap.mp hu
    exact ⟨s, hs, u, hbelow, h⟩
  · rintro ⟨s, hs, u, hbelow, h⟩
    have hu : u ∈ samples.filterMap below := List.mem_filterMap.mpr ⟨s, hs, hbelow⟩
    cases merged with
    | none => exact absurd (absent.mp rfl) (List.ne_nil_of_mem hu)
    | some t => exact ⟨t, rfl, (group t rfl).mpr ⟨u, hu, h⟩⟩

/-- A place of one of the samples is a place of the merged schema, and there is no other. The
induction is on the rules; the groups that a step leads to are never empty, so that the rule for no
samples is not among them. -/
theorem reaches_iff_of_merges (h : Merges config samples m) (hne : samples ≠ [])
    {path : List Branch} : m.Reaches path ↔ ∃ s ∈ samples, s.Reaches path := by
  have root : ∀ {all : List Schema}, all ≠ [] → ∃ s ∈ all, s.Reaches [] := fun hall =>
    (List.exists_mem_of_ne_nil _ hall).imp fun s hs => ⟨hs, .root⟩
  induction h generalizing path with
  | nothing => exact absurd rfl hne
  | alone finished =>
    rw [reaches_iff_of_finish finished]
    simp
  | apart _ _ _ finished =>
    rw [Schema.reaches_oneOf_iff, reaches_iff_of_finishAll finished, or_iff_right_of_imp]
    rintro rfl
    exact root hne
  | @objects samples properties additional _ kinds names _ absent _ ihp iha =>
    match path with
    | [] => exact iff_of_true .root (root hne)
    | .property name :: rest =>
      have group : ∀ t, properties.lookup name = some t →
          (t.Reaches rest ↔ ∃ u ∈ propertyGroup name samples, u.Reaches rest) := by
        intro t ht
        have hname := Fields.mem_names_iff.mpr ⟨t, ht⟩
        exact ihp name t ht (propertyGroup_ne_nil (names ▸ hname))
      rw [Schema.reaches_property_iff rfl]
      refine (exists_property_iff names group).trans (exists_congr fun s => ?_)
      exact and_congr_right fun hs => (Schema.reaches_property_iff (kinds s hs)).symm
    | .further :: rest =>
      have group : ∀ t, additional = some t →
          (t.Reaches rest ↔ ∃ u ∈ samples.filterMap Schema.additional, u.Reaches rest) := by
        rintro t rfl
        exact iha t rfl (mt absent.mpr (Option.some_ne_none t))
      rw [Schema.reaches_further_iff rfl]
      refine (exists_below_iff absent group).trans (exists_congr fun s => ?_)
      exact and_congr_right fun hs => (Schema.reaches_further_iff (kinds s hs)).symm
    | .items :: rest =>
      refine iff_of_false (Schema.not_reaches_items_of_object rfl) ?_
      rintro ⟨s, hs, h⟩
      exact Schema.not_reaches_items_of_object (kinds s hs) h
  | @arrays samples items _ kinds absent _ ih =>
    match path with
    | [] => exact iff_of_true .root (root hne)
    | .items :: rest =>
      have group : ∀ t, items = some t →
          (t.Reaches rest ↔ ∃ u ∈ samples.filterMap Schema.items, u.Reaches rest) := by
        rintro t rfl
        exact ih t rfl (mt absent.mpr (Option.some_ne_none t))
      rw [Schema.reaches_items_iff rfl]
      refine (exists_below_iff absent group).trans (exists_congr fun s => ?_)
      exact and_congr_right fun hs => (Schema.reaches_items_iff (kinds s hs)).symm
    | .property name :: rest | .further :: rest =>
      refine iff_of_false (Schema.not_reaches_of_array rfl (by simp)) ?_
      rintro ⟨s, hs, h⟩
      refine Schema.not_reaches_of_array (kinds s hs) ?_ h
      exact nofun
  | values _ primitive kinds merged =>
    rw [Schema.reaches_iff_of_isPrimitive (isPrimitive_of_mergePrimitives primitive merged)]
    constructor
    · rintro rfl
      exact root hne
    · rintro ⟨s, hs, h⟩
      exact (Schema.reaches_iff_of_isPrimitive (by rwa [kinds s hs])).mp h

/-- The properties of a merged object are those of the samples, in first-seen order. -/
theorem names_of_merges (h : Merges config samples m) (several : 2 ≤ samples.length)
    (objects : ∀ s ∈ samples, s.kind = .object) :
    Fields.names m.properties =
      Fields.firstSeen (samples.flatMap fun s => Fields.names s.properties) := by
  obtain ⟨properties, additional, rfl, names, -⟩ := h.of_objects several objects
  rw [Schema.properties, names, propertyGroups, Fields.names_gather, Fields.names,
    List.map_flatMap]
  rfl

/-- Merging neither loses nor invents places. With at least one sample, the roots of the samples and
of the merged schema may be counted among the places; the properties of a merged object have the
order in which the samples name them first. -/
theorem places_merge (h : merge config samples = .ok m) :
    m.places = ⋃ s ∈ samples, s.places ∧
      (samples ≠ [] → ∀ path, m.Reaches path ↔ ∃ s ∈ samples, s.Reaches path) ∧
      (2 ≤ samples.length → (∀ s ∈ samples, s.kind = .object) →
        Fields.names m.properties =
          Fields.firstSeen (samples.flatMap fun s => Fields.names s.properties)) := by
  have merges := merges_of_merge h
  refine ⟨?_, fun hne path => reaches_iff_of_merges merges hne, names_of_merges merges⟩
  by_cases hne : samples = []
  · subst hne
    cases (merge_nil config).symm.trans h
    rw [Schema.places_anyObject]
    simp
  · ext path
    simp only [Set.mem_iUnion, exists_prop, Schema.mem_places_iff]
    rw [reaches_iff_of_merges merges hne]
    constructor
    · rintro ⟨below, s, hs, reaches⟩
      exact ⟨s, hs, below, reaches⟩
    · rintro ⟨s, hs, below, reaches⟩
      exact ⟨below, s, hs, reaches⟩

theorem places_merge_people :
    ∃ m, merge {} people = .ok m ∧ [.property "age"] ∈ m.places ∧ [.items] ∉ m.places ∧
      Fields.names m.properties = ["name", "age"] := by
  have limits : Config.EnumLimits {} 2 10 := ⟨rfl, rfl, by decide⟩
  obtain ⟨m, hm⟩ := exists_merge limits wellFormed_people plainFormats_people
  obtain ⟨places, -, names⟩ := places_merge hm
  have objects : ∀ s ∈ people, s.kind = .object := by decide
  refine ⟨m, hm, ?_, ?_, names (by decide) objects⟩
  · have age : Schema.Reaches [.property "age"] (.object [("name", .string { exemplar := .str "bob" }),
        ("age", .number { exemplar := .int 3 })] ["name"] none (.bool false)) :=
      .property (List.mem_cons_of_mem _ List.mem_cons_self) .root
    rw [places, Set.mem_iUnion₂]
    exact ⟨_, List.mem_cons_of_mem _ List.mem_cons_self, List.cons_ne_nil _ _, age⟩
  · rw [places, Set.mem_iUnion₂]
    rintro ⟨s, hs, -, below⟩
    exact Schema.not_reaches_items_of_object (objects s hs) below

end Schemata

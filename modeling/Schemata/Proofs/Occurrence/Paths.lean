import Schemata.Samples.Occurrence
import Schemata.Proofs.Fields
import Schemata.Proofs.Schema.Nodes

/-!
# Paths of fields

A place in a schema is reached from the root by steps, into a property or into the items of a list.
Flattening writes the steps to a field as one text.

## Main definitions

* `Step`, `Schema.walk`: the steps, and the schema to which they lead.
* `Step.path`: the text of a list of steps.
* `Step.Legible`: the places that can be read off their paths.
* `PathName`, `Schema.PathNamed`: names that can be told from what stands around them in a path.
* `Schema.paths`: the paths of the fields of a schema.

## Main results

* `Schema.mem_sightings_iff`: flattening gives exactly the walks that end in a property.
* `Step.Legible.path_injective`: legible places are told apart by their paths.
* `Step.path_injective`: as long as the names can be told apart, so can the paths.
* `Schema.exists_walk_of_mem_paths`: a path among the paths of a schema is that of a walk.

## Implementation notes

Paths are read from their end. The last dot stands before the last name, and brackets at the end
are a step into items; what is before them is the path of a place again. Brackets inside of names
and empty names further down do no harm this way. `PathName` asks for more, and is a condition on
names alone.
-/

namespace Schemata

inductive Step where
  | property (name : String)
  | items

namespace Schema

/-- The schema one step below a schema. -/
def below? (s : Schema) : Step → Option Schema
  | .property name => s.properties.lookup name
  | .items => s.items

def walk : List Step → Schema → Option Schema
  | [], s => some s
  | step :: rest, s => (s.below? step).bind (walk rest)

theorem walk_cons_eq_some_iff {step : Step} {rest : List Step} {s t : Schema} :
    walk (step :: rest) s = some t ↔ ∃ u, s.below? step = some u ∧ walk rest u = some t := by
  rw [walk, Option.bind_eq_some_iff]

theorem exists_walk_cons_iff {step : Step} {rest : List Step} {s : Schema} :
    (∃ t, walk (step :: rest) s = some t) ↔
      ∃ u, s.below? step = some u ∧ ∃ t, walk rest u = some t := by
  simp only [walk_cons_eq_some_iff]
  constructor
  · rintro ⟨t, u, hu, ht⟩
    exact ⟨u, hu, t, ht⟩
  · rintro ⟨u, hu, t, ht⟩
    exact ⟨t, u, hu, ht⟩

end Schema

namespace Step

/-- The path of the place one step below `place`. -/
def extend (place : String) : Step → String
  | .property name => Schema.propertyPath place name
  | .items => s!"{place}[]"

def path (steps : List Step) : String := steps.foldl extend ""

end Step

/-! ### Flattening -/

namespace Schema

theorem mem_sightingsOfFields_iff {place : String} {fields : Fields Schema}
    {sighting : String × Json} :
    sighting ∈ sightingsOfFields place fields ↔
      ∃ name s, (name, s) ∈ fields ∧ (sighting = (propertyPath place name, s.exemplar) ∨
        sighting ∈ s.sightings (propertyPath place name)) := by
  induction fields with
  | nil => simp [sightingsOfFields]
  | cons field rest ih =>
    obtain ⟨n, t⟩ := field
    rw [sightingsOfFields, List.cons_append, List.mem_cons, List.mem_append, ih]
    constructor
    · rintro (h | h | ⟨name, s, hs, h⟩)
      · exact ⟨n, t, List.mem_cons_self, .inl h⟩
      · exact ⟨n, t, List.mem_cons_self, .inr h⟩
      · exact ⟨name, s, List.mem_cons_of_mem _ hs, h⟩
    · rintro ⟨name, s, hs, h⟩
      rcases List.mem_cons.mp hs with heq | hs
      · cases heq
        exact h.imp_right .inl
      · exact .inr (.inr ⟨name, s, hs, h⟩)

/-- No walk that ends in a property can be taken where no step can. -/
private theorem walk_ne_some {s t : Schema} (leaf : ∀ step, s.below? step = none)
    (steps : List Step) (name : String) : s.walk (steps ++ [.property name]) ≠ some t := by
  intro hwalk
  cases steps with
  | nil =>
    obtain ⟨u, hu, -⟩ := walk_cons_eq_some_iff.mp hwalk
    cases (leaf _).symm.trans hu
  | cons step rest =>
    obtain ⟨u, hu, -⟩ := walk_cons_eq_some_iff.mp hwalk
    cases (leaf step).symm.trans hu

/-- What is flattened is what the walks that end in a property lead to. -/
theorem mem_sightings_iff {s : Schema}
    (names : ∀ t ∈ s.nodes, (Fields.names t.properties).Nodup) {place : String}
    {sighting : String × Json} :
    sighting ∈ s.sightings place ↔
      ∃ steps name t, s.walk (steps ++ [.property name]) = some t ∧
        sighting = ((steps ++ [.property name]).foldl Step.extend place, t.exemplar) := by
  induction s using nestedInduction generalizing place with
  | object properties required additional nullable ih _ =>
    rw [forall_nodes_object] at names
    obtain ⟨nodup, below, -⟩ := names
    rw [sightings, mem_sightingsOfFields_iff]
    constructor
    · rintro ⟨name, t, ht, rfl | h⟩
      · refine ⟨[], name, t, ?_, rfl⟩
        exact walk_cons_eq_some_iff.mpr ⟨t, Fields.lookup_eq_some_of_mem nodup ht, rfl⟩
      · obtain ⟨steps, last, u, hu, rfl⟩ := (ih _ ht (below _ ht)).mp h
        refine ⟨.property name :: steps, last, u, ?_, rfl⟩
        exact walk_cons_eq_some_iff.mpr ⟨t, Fields.lookup_eq_some_of_mem nodup ht, hu⟩
    · rintro ⟨steps, last, u, hu, rfl⟩
      cases steps with
      | nil =>
        obtain ⟨t, ht, hend⟩ := walk_cons_eq_some_iff.mp hu
        cases hend
        exact ⟨last, u, Fields.mem_of_lookup_eq_some ht, .inl rfl⟩
      | cons step rest =>
        obtain ⟨t, ht, hrest⟩ := walk_cons_eq_some_iff.mp hu
        cases step with
        | property name =>
          have member := Fields.mem_of_lookup_eq_some ht
          refine ⟨name, t, member, .inr ?_⟩
          exact (ih _ member (below _ member)).mpr ⟨rest, last, u, hrest, rfl⟩
        | items => cases ht
  | array items facets ih =>
    rw [forall_nodes_array] at names
    rw [sightings]
    cases items with
    | none =>
      rw [sightingsOfOption]
      have leaf : ∀ step, (array none facets).below? step = none := by
        intro step
        cases step <;> rfl
      refine iff_of_false List.not_mem_nil ?_
      rintro ⟨steps, last, u, hu, -⟩
      exact walk_ne_some leaf steps last hu
    | some t =>
      rw [sightingsOfOption, ih t rfl (names.2 t rfl)]
      constructor
      · rintro ⟨steps, last, u, hu, rfl⟩
        exact ⟨.items :: steps, last, u, hu, rfl⟩
      · rintro ⟨steps, last, u, hu, rfl⟩
        cases steps with
        | nil => cases hu
        | cons step rest =>
          cases step with
          | property name => cases hu
          | items => exact ⟨rest, last, u, hu, rfl⟩
  | _ =>
    refine iff_of_false List.not_mem_nil ?_
    rintro ⟨steps, last, u, hu, -⟩
    refine walk_ne_some (fun step => ?_) steps last hu
    cases step <;> rfl

end Schema

/-! ### Telling paths apart -/

section Suffixes

variable {α : Type} {before before' after after' word : List α} {c : α}

theorem suffix_of_notMem (h : word <:+ before ++ c :: after) (hc : c ∉ word) : word <:+ after := by
  rcases List.suffix_or_suffix_of_suffix h (List.suffix_append before (c :: after)) with h | h
  · rcases List.suffix_cons_iff.mp h with rfl | h
    · exact absurd List.mem_cons_self hc
    · exact h
  · exact absurd (h.subset List.mem_cons_self) hc

/-- A list is cut in one way only at the last occurrence of an element. -/
theorem append_cons_inj_of_notMem_right (hc : c ∉ after) (hc' : c ∉ after')
    (h : before ++ c :: after = before' ++ c :: after') : before = before' ∧ after = after' := by
  have into : after' <:+ after :=
    suffix_of_notMem (h ▸ (List.suffix_cons c after').trans (List.suffix_append _ _)) hc'
  have back : after <:+ after' :=
    suffix_of_notMem (h ▸ (List.suffix_cons c after).trans (List.suffix_append _ _)) hc
  obtain rfl := back.eq_of_length_le into.length_le
  exact ⟨List.append_cancel_right h, rfl⟩

end Suffixes

namespace Step

/-- What a step adds to the path of a place that is not the root. -/
def tail : Step → List Char
  | .property name => '.' :: name.toList
  | .items => ['[', ']']

theorem toList_extend {place : String} (hp : place ≠ "") (step : Step) :
    (step.extend place).toList = place.toList ++ step.tail := by
  cases step with
  | property name => simp [extend, Schema.propertyPath, hp, tail, toString]
  | items => simp [extend, tail, toString]

/-- The names among the steps can be told from what stands around them: they have no dots and do not
end in brackets, and the first of them is not empty when no step is before it. -/
structure Legible (place : List Step) : Prop where
  names : ∀ name, .property name ∈ place → '.' ∉ name.toList ∧ ¬ ['[', ']'] <:+ name.toList
  first : ∀ name, place.head? = some (.property name) → name ≠ ""

variable {steps others : List Step}

theorem Legible.of_concat {step : Step} (h : Legible (steps ++ [step])) : Legible steps where
  names name hname := h.names name (List.mem_append_left _ hname)
  first name hname := h.first name (by rw [List.head?_append, hname]; rfl)

theorem path_concat (steps : List Step) (step : Step) :
    path (steps ++ [step]) = step.extend (path steps) := by
  rw [path, List.foldl_append]
  rfl

theorem toList_path_concat_items (steps : List Step) :
    (path (steps ++ [.items])).toList = (path steps).toList ++ ['[', ']'] := by
  rw [path_concat]
  simp [extend, toString]

theorem toList_path_concat_property {steps : List Step} (hne : path steps ≠ "") (name : String) :
    (path (steps ++ [.property name])).toList = (path steps).toList ++ '.' :: name.toList := by
  rw [path_concat, toList_extend hne]
  rfl

theorem path_singleton_property (name : String) : path [.property name] = name := by
  rw [path, List.foldl_cons, extend, Schema.propertyPath, if_pos rfl]
  rfl

theorem Legible.path_ne_empty (h : Legible steps) (hne : steps ≠ []) : path steps ≠ "" := by
  induction steps using List.reverseRecOn with
  | nil => exact absurd rfl hne
  | append_singleton steps step ih =>
    rw [Ne, ← String.toList_eq_nil_iff]
    cases step with
    | items =>
      rw [toList_path_concat_items]
      exact List.append_ne_nil_of_right_ne_nil _ (List.cons_ne_nil _ _)
    | property name =>
      by_cases hsome : steps = []
      · rw [hsome, List.nil_append, path_singleton_property, String.toList_eq_nil_iff]
        exact h.first name (by rw [hsome]; rfl)
      · rw [toList_path_concat_property (ih h.of_concat hsome)]
        exact List.append_ne_nil_of_right_ne_nil _ (List.cons_ne_nil _ _)

/-- The path of a property does not look like that of items. -/
theorem Legible.not_brackets {name : String} (h : Legible (steps ++ [.property name])) :
    ¬ ['[', ']'] <:+ (path (steps ++ [.property name])).toList := by
  have plain := (h.names name List.mem_concat_self).2
  by_cases hsome : steps = []
  · rwa [hsome, List.nil_append, path_singleton_property]
  · rw [toList_path_concat_property (h.of_concat.path_ne_empty hsome)]
    exact fun brackets => plain (suffix_of_notMem brackets (by decide))

/-- A path without a dot is that of a single property. -/
theorem Legible.eq_nil_of_path {name other : String} (h : Legible (steps ++ [.property name]))
    (hother : '.' ∉ other.toList) (heq : path (steps ++ [.property name]) = other) :
    steps = [] ∧ name = other := by
  by_cases hsome : steps = []
  · refine ⟨hsome, ?_⟩
    rwa [hsome, List.nil_append, path_singleton_property] at heq
  · refine absurd ?_ hother
    rw [← heq, toList_path_concat_property (h.of_concat.path_ne_empty hsome)]
    exact List.mem_append_right _ List.mem_cons_self

theorem Legible.concat_inj {name name' : String} (h : Legible (steps ++ [.property name]))
    (h' : Legible (others ++ [.property name']))
    (heq : path (steps ++ [.property name]) = path (others ++ [.property name'])) :
    name = name' ∧ path steps = path others := by
  have plain := (h.names name List.mem_concat_self).1
  have plain' := (h'.names name' List.mem_concat_self).1
  by_cases hsome : steps = []
  · rw [hsome, List.nil_append, path_singleton_property] at heq
    obtain ⟨rfl, rfl⟩ := h'.eq_nil_of_path plain heq.symm
    exact ⟨rfl, by rw [hsome]⟩
  by_cases hsome' : others = []
  · rw [hsome', List.nil_append, path_singleton_property] at heq
    obtain ⟨rfl, rfl⟩ := h.eq_nil_of_path plain' heq
    exact absurd rfl hsome
  rw [← String.toList_inj, toList_path_concat_property (h.of_concat.path_ne_empty hsome),
    toList_path_concat_property (h'.of_concat.path_ne_empty hsome')] at heq
  obtain ⟨hpath, hname⟩ := append_cons_inj_of_notMem_right plain plain' heq
  exact ⟨String.toList_inj.mp hname, String.toList_inj.mp hpath⟩

/-- Legible places are told apart by their paths. The induction takes the last step off both. -/
theorem Legible.path_injective (h : Legible steps) (h' : Legible others)
    (heq : path steps = path others) : steps = others := by
  induction steps using List.reverseRecOn generalizing others with
  | nil =>
    by_contra hne
    exact h'.path_ne_empty (Ne.symm hne) heq.symm
  | append_singleton steps step ih =>
    rcases List.eq_nil_or_concat others with rfl | ⟨others, step', rfl⟩
    · exact absurd heq (h.path_ne_empty (List.concat_ne_nil _ _))
    rw [List.concat_eq_append] at h' heq ⊢
    cases step with
    | items =>
      cases step' with
      | items =>
        rw [← String.toList_inj, toList_path_concat_items, toList_path_concat_items] at heq
        rw [ih h.of_concat h'.of_concat (String.toList_inj.mp (List.append_cancel_right heq))]
      | property name =>
        refine absurd ?_ h'.not_brackets
        rw [← heq, toList_path_concat_items]
        exact List.suffix_append _ _
    | property name =>
      cases step' with
      | items =>
        refine absurd ?_ h.not_brackets
        rw [heq, toList_path_concat_items]
        exact List.suffix_append _ _
      | property name' =>
        obtain ⟨rfl, hpath⟩ := h.concat_inj h' heq
        rw [ih h.of_concat h'.of_concat hpath]

end Step

/-- A name that is not empty and has neither a dot nor an opening bracket. -/
def PathName (name : String) : Prop := name ≠ "" ∧ ∀ c ∈ name.toList, c ≠ '.' ∧ c ≠ '['

instance : DecidablePred PathName := fun name =>
  @instDecidableAnd _ _ inferInstance (List.decidableBAll _ name.toList)

namespace Step

/-- The names among the steps can be told from what stands around them, wherever they stand. -/
def Plain (steps : List Step) : Prop := ∀ name, .property name ∈ steps → PathName name

theorem Plain.legible {steps : List Step} (h : Plain steps) : Legible steps where
  names name hname := by
    obtain ⟨-, chars⟩ := h name hname
    refine ⟨fun dot => (chars '.' dot).1 rfl, fun brackets => ?_⟩
    exact (chars '[' (brackets.subset List.mem_cons_self)).2 rfl
  first name hname := (h name (List.mem_of_mem_head? hname)).1

theorem path_injective {steps others : List Step} (hs : Plain steps) (ho : Plain others)
    (h : path steps = path others) : steps = others :=
  hs.legible.path_injective ho.legible h

/-- The path of a walk through properties alone has its names with dots between them. -/
theorem path_map_property {names : List String} (h : ∀ name ∈ names, PathName name) :
    path (names.map .property) = ".".intercalate names := by
  have dotted : ∀ (rest : List String) (place : String), place ≠ "" →
      (rest.map Step.property).foldl extend place = ".".intercalate (place :: rest) := by
    intro rest
    induction rest with
    | nil => exact fun place _ => String.intercalate_singleton.symm
    | cons name rest ih =>
      intro place hp
      have hne : place ++ "." ++ name ≠ "" := by simp
      rw [List.map_cons, List.foldl_cons, extend, Schema.propertyPath, if_neg hp,
        String.intercalate_cons_cons, ← String.intercalate_cons_append]
      exact ih _ hne
  cases names with
  | nil => exact String.intercalate_nil.symm
  | cons name rest =>
    rw [path, List.map_cons, List.foldl_cons, extend, Schema.propertyPath, if_pos rfl]
    exact dotted rest name (h name List.mem_cons_self).1

end Step

/-! ### The paths of a schema -/

namespace Schema

variable {s : Schema}

/-- The paths of the fields of a schema. -/
def paths (s : Schema) : List String := Fields.names (s.sightings "")

/-- The names of all properties can be told from what stands around them in a path. -/
def PathNamed (s : Schema) : Prop :=
  ∀ t ∈ s.nodes, ∀ name ∈ Fields.names t.properties, PathName name

theorem mem_paths_iff (names : ∀ t ∈ s.nodes, (Fields.names t.properties).Nodup) {path : String} :
    path ∈ s.paths ↔
      ∃ steps name t, s.walk (steps ++ [.property name]) = some t ∧
        path = Step.path (steps ++ [.property name]) := by
  rw [paths, Fields.names, List.mem_map]
  constructor
  · rintro ⟨sighting, h, rfl⟩
    obtain ⟨steps, name, t, ht, rfl⟩ := (mem_sightings_iff names).mp h
    exact ⟨steps, name, t, ht, rfl⟩
  · rintro ⟨steps, name, t, ht, rfl⟩
    exact ⟨_, (mem_sightings_iff names).mpr ⟨steps, name, t, ht, rfl⟩, rfl⟩

theorem forall_nodes_of_below {P : Schema → Prop} (h : ∀ t ∈ s.nodes, P t) {step : Step}
    {child : Schema} (hc : s.below? step = some child) : ∀ t ∈ child.nodes, P t := by
  cases step with
  | property name => exact forall_nodes_of_mem_properties h (Fields.mem_of_lookup_eq_some hc)
  | items => exact forall_nodes_of_items h hc

theorem PathNamed.plain_of_walk {steps : List Step} {t : Schema} (named : s.PathNamed)
    (h : s.walk steps = some t) : Step.Plain steps := by
  induction steps generalizing s with
  | nil => exact fun name hname => absurd hname List.not_mem_nil
  | cons step rest ih =>
    obtain ⟨u, hu, hrest⟩ := walk_cons_eq_some_iff.mp h
    intro name hname
    rcases List.mem_cons.mp hname with rfl | hname
    · exact named s (self_mem_nodes s) name (Fields.mem_names_iff.mpr ⟨u, hu⟩)
    · exact ih (forall_nodes_of_below named hu) hrest name hname

/-- A path is the path of one walk only. -/
theorem exists_walk_of_mem_paths (names : ∀ t ∈ s.nodes, (Fields.names t.properties).Nodup)
    (named : s.PathNamed) {steps : List Step} (plain : Step.Plain steps)
    (h : Step.path steps ∈ s.paths) : ∃ t, s.walk steps = some t := by
  obtain ⟨others, name, t, ht, hpath⟩ := (mem_paths_iff names).mp h
  rw [Step.path_injective plain (named.plain_of_walk ht) hpath]
  exact ⟨t, ht⟩

/-- Names with dots between them are a path just when the properties can be walked. -/
theorem intercalate_mem_paths_iff (unique : ∀ t ∈ s.nodes, (Fields.names t.properties).Nodup)
    (named : s.PathNamed) {names : List String} (hne : names ≠ [])
    (plain : ∀ name ∈ names, PathName name) :
    ".".intercalate names ∈ s.paths ↔ ∃ t, s.walk (names.map .property) = some t := by
  rw [← Step.path_map_property plain]
  constructor
  · refine exists_walk_of_mem_paths unique named fun name hname => ?_
    obtain ⟨n, hn, heq⟩ := List.mem_map.mp hname
    cases heq
    exact plain name hn
  · rintro ⟨t, ht⟩
    obtain ⟨before, last, rfl⟩ := (List.eq_nil_or_concat names).resolve_left hne
    rw [List.concat_eq_append, List.map_append] at ht ⊢
    exact (mem_paths_iff unique).mpr ⟨_, last, t, ht, rfl⟩

end Schema

end Schemata

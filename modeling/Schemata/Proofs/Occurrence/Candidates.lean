import Schemata.Proofs.Json.Equivalence
import Schemata.Proofs.Occurrence.Counts

/-!
# The values of a path

A sample that has a field contributes its example to the values of the path of that field, once and
in its turn, unless it has none. The values of a path are therefore the observed values of the
schemas at that place, and the paths with few of them are reported as candidates for closed sets.

## Main definitions

* `Step.IsField`: the last step is into a property.
* `examplesAt`: all examples that schemas have under a path.
* `schemasAt`: the schemas that samples have at a place.
* `valuesUnder`: the values that a report has for a path.

## Main results

* `lookup_seenIn`, `lookup_seenIn_of_field`: what one sample contributes to a path.
* `valuesUnder_path`: the values of a path are the observed values at its place.
* `mem_candidatesWithin_iff`: which paths are candidates, and with which values.
* `lookup_candidatesWithin_path`: whether the path of a field is one.

## Implementation notes

A sample lists a path several times only when several of its places have that path. Names that can
be told apart rule this out, so that all that is listed under a path is the example of one schema.
-/

namespace Schemata

/-- Values that are all the same are one value. -/
theorem Json.distinct_eq_singleton {v : Json} (hrefl : v.same v = true) {values : List Json}
    (hne : values ≠ []) (all : ∀ w ∈ values, w = v) : Json.distinct values = [v] := by
  have kept : ∀ rest : List Json, (∀ w ∈ rest, w = v) → rest.foldl Json.addNew [v] = [v] := by
    intro rest hrest
    induction rest with
    | nil => rfl
    | cons w rest ih =>
      rw [List.forall_mem_cons] at hrest
      have seen : w.isIn [v] = true :=
        Json.isIn_iff.mpr ⟨v, List.mem_singleton_self v, hrest.1 ▸ hrefl⟩
      rw [List.foldl_cons, Json.addNew_of_isIn seen]
      exact ih hrest.2
  obtain ⟨first, rest, rfl⟩ := List.exists_cons_of_ne_nil hne
  rw [List.forall_mem_cons] at all
  obtain ⟨rfl, hrest⟩ := all
  exact kept rest hrest

/-! ### One sample -/

/-- The last step is into a property. -/
def Step.IsField (place : List Step) : Prop := ∃ steps name, place = steps ++ [.property name]

namespace Schema

variable {s t : Schema} {place : List Step}

theorem forall_nodes_of_walk {P : Schema → Prop} (h : ∀ u ∈ s.nodes, P u) {steps : List Step}
    (ht : s.walk steps = some t) : ∀ u ∈ t.nodes, P u := by
  induction steps generalizing s with
  | nil => exact Option.some.inj ht ▸ h
  | cons step rest ih =>
    obtain ⟨u, hu, hrest⟩ := walk_cons_eq_some_iff.mp ht
    exact ih (forall_nodes_of_below h hu) hrest

theorem mem_sightings_of_walk (names : ∀ u ∈ s.nodes, (Fields.names u.properties).Nodup)
    (field : Step.IsField place) (ht : s.walk place = some t) :
    (Step.path place, t.exemplar) ∈ s.sightings "" := by
  obtain ⟨steps, name, rfl⟩ := field
  exact (mem_sightings_iff names).mpr ⟨steps, name, t, ht, rfl⟩

/-- What is listed under the path of a field is the example of that field. -/
theorem eq_of_mem_under_sightings (names : ∀ u ∈ s.nodes, (Fields.names u.properties).Nodup)
    (named : s.PathNamed) (ht : s.walk place = some t) {v : Json}
    (hv : v ∈ Fields.under (Step.path place) (s.sightings "")) : v = t.exemplar := by
  obtain ⟨others, last, u, hu, heq⟩ := (mem_sightings_iff names).mp (Fields.mem_under.mp hv)
  obtain ⟨hpath, rfl⟩ := Prod.mk.inj heq
  rw [← Step.path_injective (named.plain_of_walk ht) (named.plain_of_walk hu) hpath, ht] at hu
  exact congrArg exemplar (Option.some.inj hu).symm

end Schema

/-- The examples that schemas have under a path, as often as they have them. -/
def examplesAt (path : String) (schemas : List Schema) : List Json :=
  (Fields.under path (schemas.flatMap (Schema.sightings ""))).filter (!·.isNull)

theorem lookup_seenIn (schemas : List Schema) (path : String) :
    (seenIn schemas).lookup path =
      if path ∈ Fields.names (schemas.flatMap (Schema.sightings "")) then
        some (Json.distinct (examplesAt path schemas))
      else none := by
  have table : seenIn schemas =
      (Fields.firstSeen (Fields.names (schemas.flatMap (Schema.sightings "")))).map fun path =>
        (path, Json.distinct (examplesAt path schemas)) :=
    List.map_map
  rw [table, Fields.lookup_map_names fun path => Json.distinct _]
  simp only [Fields.mem_firstSeen]

/-- A sample contributes its example to the path of a field that it has, unless there is none. -/
theorem lookup_seenIn_of_field {s : Schema} (wf : s.WellFormed) (named : s.PathNamed)
    {place : List Step} (field : Step.IsField place) (plain : Step.Plain place) :
    (seenIn [s]).lookup (Step.path place) =
      (s.walk place).map fun t => [t.exemplar].filter (!·.isNull) := by
  have names : ∀ u ∈ s.nodes, (Fields.names u.properties).Nodup := fun u hu => (wf u hu).names
  rw [lookup_seenIn, examplesAt, List.flatMap_singleton]
  cases ht : s.walk place with
  | none =>
    refine if_neg fun listed => ?_
    obtain ⟨t, hsome⟩ := Schema.exists_walk_of_mem_paths names named plain listed
    cases ht.symm.trans hsome
  | some t =>
    have listed := Schema.mem_sightings_of_walk names field ht
    have all : ∀ v ∈ Fields.under (Step.path place) (s.sightings ""), v = t.exemplar :=
      fun v => Schema.eq_of_mem_under_sightings names named ht
    have mem : Step.path place ∈ Fields.names (s.sightings "") := List.mem_map_of_mem listed
    rw [if_pos mem, Option.map_some]
    congr 1
    cases given : t.exemplar.isNull with
    | true =>
      have nothing : (Fields.under (Step.path place) (s.sightings "")).filter (!·.isNull) = [] :=
        List.filter_eq_nil_iff.mpr fun v hv => by simp [all v hv, given]
      rw [nothing]
      simp [given, Json.distinct]
    | false =>
      have hrefl : t.exemplar.same t.exemplar = true :=
        Json.same_refl (Schema.forall_nodes_of_walk wf ht t t.self_mem_nodes).exemplar
      have kept : t.exemplar ∈ (Fields.under (Step.path place) (s.sightings "")).filter
          (!·.isNull) :=
        List.mem_filter.mpr ⟨Fields.mem_under.mpr listed, by simp [given]⟩
      rw [Json.distinct_eq_singleton hrefl (List.ne_nil_of_mem kept)
        fun v hv => all v (List.mem_filter.mp hv).1]
      simp [given]

/-! ### All samples -/

/-- The schemas that samples have at a place. -/
def schemasAt (place : List Step) (samples : List Schema) : List Schema :=
  samples.filterMap (Schema.walk place)

theorem mem_schemasAt_iff {place : List Step} {samples : List Schema} {t : Schema} :
    t ∈ schemasAt place samples ↔ ∃ s ∈ samples, s.walk place = some t :=
  List.mem_filterMap

/-- The values that a report on samples has for a path. -/
def valuesUnder (path : String) (samples : List (List Schema)) : List Json :=
  Json.distinct (Fields.under path (samples.flatMap seenIn)).flatten

/-- The values of a path are the observed values at its place. -/
theorem valuesUnder_path {samples : List Schema} (wf : ∀ s ∈ samples, s.WellFormed)
    (named : ∀ s ∈ samples, s.PathNamed) {place : List Step} (field : Step.IsField place)
    (plain : Step.Plain place) :
    valuesUnder (Step.path place) (samples.map fun s => [s]) =
      observedValues (schemasAt place samples) := by
  have contributed : Fields.under (Step.path place) ((samples.map fun s => [s]).flatMap seenIn) =
      (schemasAt place samples).map fun t => [t.exemplar].filter (!·.isNull) := by
    rw [Fields.under_flatMap fun schemas _ => nodup_names_seenIn schemas, List.filterMap_map,
      schemasAt, List.map_filterMap]
    refine List.filterMap_congr fun s hs => ?_
    exact lookup_seenIn_of_field (wf s hs) (named s hs) field plain
  rw [valuesUnder, contributed, observedValues]
  congr 1
  induction schemasAt place samples with
  | nil => rfl
  | cons t rest ih =>
    rw [List.map_cons, List.flatten_cons, ih, List.map_cons, List.filter_cons, List.filter_cons]
    split <;> rfl

/-! ### Candidates -/

theorem nodup_names_candidatesWithin (least greatest : Int) (samples : List (List Schema)) :
    (Fields.names (candidatesWithin least greatest (occurrences samples))).Nodup := by
  have rows : (Fields.names (candidatesWithin least greatest (occurrences samples))).Sublist
      (Fields.names (Fields.gather (samples.flatMap seenIn))) := by
    rw [candidatesWithin, occurrences, Fields.names, List.map_map, List.filter_map, List.map_map]
    exact List.filter_sublist.map _
  exact (Fields.nodup_names_gather _).sublist rows

theorem mem_candidatesWithin_iff {least greatest : Int} {samples : List (List Schema)}
    {path : String} {values : List Json} :
    (path, values) ∈ candidatesWithin least greatest (occurrences samples) ↔
      path ∈ Fields.names (samples.flatMap seenIn) ∧ values = valuesUnder path samples ∧
        least ≤ values.length ∧ (values.length : Int) ≤ greatest := by
  rw [candidatesWithin, List.mem_map]
  constructor
  · rintro ⟨row, hrow, heq⟩
    obtain ⟨hrow, within⟩ := List.mem_filter.mp hrow
    obtain ⟨hpath, -, -, hvalues⟩ := mem_occurrences_iff.mp hrow
    cases heq
    exact ⟨hpath, hvalues, of_decide_eq_true within⟩
  · rintro ⟨hpath, rfl, within⟩
    have row : (⟨path, (Fields.under path (samples.flatMap seenIn)).length, samples.length,
        valuesUnder path samples⟩ : Occurrence) ∈ occurrences samples :=
      mem_occurrences_iff.mpr ⟨hpath, rfl, rfl, rfl⟩
    exact ⟨_, List.mem_filter.mpr ⟨row, decide_eq_true within⟩, rfl⟩

/-- The values that are reported for a path are those under it, if they are as many as the limits
ask for. -/
theorem lookup_candidatesWithin (least greatest : Int) {samples : List (List Schema)}
    {path : String} (found : path ∈ Fields.names (samples.flatMap seenIn)) :
    (candidatesWithin least greatest (occurrences samples)).lookup path =
      if least ≤ (valuesUnder path samples).length ∧
          ((valuesUnder path samples).length : Int) ≤ greatest then
        some (valuesUnder path samples)
      else none := by
  split
  · next within =>
    exact Fields.lookup_eq_some_of_mem (nodup_names_candidatesWithin least greatest samples)
      (mem_candidatesWithin_iff.mpr ⟨found, rfl, within⟩)
  · next without =>
    refine Option.eq_none_iff_forall_ne_some.mpr fun values hvalues => without ?_
    obtain ⟨-, rfl, within⟩ := mem_candidatesWithin_iff.mp (Fields.mem_of_lookup_eq_some hvalues)
    exact within

/-- A field whose observed values are as many as the limits ask for is reported with them. -/
theorem lookup_candidatesWithin_path (least greatest : Int) {samples : List Schema}
    (wf : ∀ s ∈ samples, s.WellFormed) (named : ∀ s ∈ samples, s.PathNamed) {place : List Step}
    (field : Step.IsField place) (found : schemasAt place samples ≠ []) :
    (candidatesWithin least greatest (occurrences (samples.map fun s => [s]))).lookup
        (Step.path place) =
      if least ≤ (observedValues (schemasAt place samples)).length ∧
          ((observedValues (schemasAt place samples)).length : Int) ≤ greatest then
        some (observedValues (schemasAt place samples))
      else none := by
  obtain ⟨t, ht⟩ := List.exists_mem_of_ne_nil _ found
  obtain ⟨s, hs, hwalk⟩ := mem_schemasAt_iff.mp ht
  have plain : Step.Plain place := (named s hs).plain_of_walk hwalk
  have seen : Step.path place ∈ Fields.names (seenIn [s]) := by
    rw [Fields.mem_names_iff, lookup_seenIn_of_field (wf s hs) (named s hs) field plain, hwalk]
    exact ⟨_, rfl⟩
  have listed : Step.path place ∈ Fields.names ((samples.map fun s => [s]).flatMap seenIn) := by
    rw [Fields.names, List.map_flatMap, List.mem_flatMap]
    exact ⟨[s], List.mem_map_of_mem hs, seen⟩
  rw [lookup_candidatesWithin least greatest listed, valuesUnder_path wf named field plain]

end Schemata

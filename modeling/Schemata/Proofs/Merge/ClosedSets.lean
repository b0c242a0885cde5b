import Schemata.Proofs.Merge.RequiredFields
import Schemata.Proofs.Occurrence.Candidates
import Schemata.Proofs.Schema.Enriched

/-!
# Closed sets of strings

Merging decides on closed sets for groups of schemas, going down the samples step by step; counting
occurrences decides on them for paths, from a table of the values that were found under each. As
long as the samples do not disagree on the kind of a place, the group to which merging comes is that
of all schemas at the place, and both find the same closed sets.

## Main definitions

* `Alike`: wherever several samples have the same place, they have nodes of one kind there.

## Main results

* `merges_below`: what is one step below a merged schema comes of what is one step below its
  samples.
* `merges_schemasAt`: what is at a place of a merged schema comes of the schemas at that place.
* `enum_of_merges_strings`: when strings without closed sets are merged into one.
* `enumCandidates_agree`: merging and counting agree.

## Implementation notes

A field that one sample alone has is not merged but kept as it is, whatever the limits. It has one
value at most, so that a lower limit of two keeps it open as well.
-/

namespace Schemata

/-- Wherever several samples have the same place, they have nodes of one kind there. -/
def Alike (samples : List Schema) : Prop :=
  ∀ place, ∀ s ∈ schemasAt place samples, ∀ t ∈ schemasAt place samples, s.kind = t.kind

/-- The schemas one step below samples. -/
def schemasBelow (step : Step) (samples : List Schema) : List Schema :=
  samples.filterMap fun s => s.below? step

theorem mem_schemasBelow_iff {step : Step} {samples : List Schema} {t : Schema} :
    t ∈ schemasBelow step samples ↔ ∃ s ∈ samples, s.below? step = some t :=
  List.mem_filterMap

theorem schemasAt_nil (samples : List Schema) : schemasAt [] samples = samples :=
  List.filterMap_some

theorem schemasAt_cons (step : Step) (rest : List Step) (samples : List Schema) :
    schemasAt (step :: rest) samples = schemasAt rest (schemasBelow step samples) := by
  rw [schemasAt, schemasAt, schemasBelow, List.filterMap_filterMap]
  rfl

theorem Alike.below {samples : List Schema} (h : Alike samples) (step : Step) :
    Alike (schemasBelow step samples) := by
  intro rest
  rw [← schemasAt_cons]
  exact h (step :: rest)

/-- Samples are alike when their roots are and when what is below each step is. -/
theorem alike_iff {samples : List Schema} :
    Alike samples ↔ (∀ s ∈ samples, ∀ t ∈ samples, s.kind = t.kind) ∧
      ∀ step, Alike (schemasBelow step samples) := by
  constructor
  · intro h
    have root := h []
    rw [schemasAt_nil] at root
    exact ⟨root, h.below⟩
  · rintro ⟨root, below⟩ place
    cases place with
    | nil => rwa [schemasAt_nil]
    | cons step rest =>
      rw [schemasAt_cons]
      exact below step rest

/-- Samples of one kind of which one has something below a step all have the kind of the step. -/
theorem Alike.kind {samples : List Schema} (h : Alike samples) {step : Step}
    (found : schemasBelow step samples ≠ []) : ∀ s ∈ samples, s.kind = step.kind := by
  intro s hs
  obtain ⟨t, ht⟩ := List.exists_mem_of_ne_nil _ found
  obtain ⟨u, hu, hbelow⟩ := mem_schemasBelow_iff.mp ht
  rw [(alike_iff.mp h).1 s hs u hu, Schema.kind_eq_of_below? hbelow]

/-! ### Down a merged schema -/

variable {config : Config} {samples : List Schema} {m : Schema}

namespace Schema

theorem walkable_of_below {s t : Schema} (h : s.walkable = true) {step : Step}
    (ht : s.below? step = some t) : t.walkable = true := by
  cases step with
  | property name =>
    obtain ⟨properties, required, additional, nullable, rfl⟩ :=
      eq_object_of_kind (kind_eq_of_below? ht)
    exact walkableFields_iff.mp h _ (Fields.mem_of_lookup_eq_some ht)
  | items =>
    obtain ⟨items, facets, rfl⟩ := eq_array_of_kind (kind_eq_of_below? ht)
    cases ht
    exact h

end Schema

/-- What is below a finished sample is finished. -/
theorem finish_below {s t u : Schema} (h : finish config s = .ok t) {step : Step}
    (hu : s.below? step = some u) : ∃ v, t.below? step = some v ∧ finish config u = .ok v := by
  rw [finish] at h ⊢
  split at h
  · next plain =>
    cases h
    exact ⟨u, hu, if_pos plain⟩
  · next wanted =>
    split at h
    · next walkable =>
      cases h
      refine ⟨u.enrich, ?_, ?_⟩
      · rw [Schema.below?_enrich, hu, Option.map_some]
      · rw [if_neg wanted, if_pos (Schema.walkable_of_below walkable hu)]
    · cases h

/-- What is one step below a merged schema comes of what is one step below its samples. -/
theorem merges_below (h : Merges config samples m)
    (names : ∀ s ∈ samples, (Fields.names s.properties).Nodup) {step : Step}
    (kinds : ∀ s ∈ samples, s.kind = step.kind) (found : schemasBelow step samples ≠ []) :
    ∃ t, m.below? step = some t ∧ Merges config (schemasBelow step samples) t := by
  cases h with
  | nothing => exact absurd rfl found
  | @alone s _ finished =>
    obtain ⟨u, hu⟩ := List.exists_mem_of_ne_nil _ found
    obtain ⟨s', hs', hbelow⟩ := mem_schemasBelow_iff.mp hu
    obtain rfl := List.mem_singleton.mp hs'
    obtain ⟨t, ht, hfinish⟩ := finish_below finished hbelow
    have one : schemasBelow step [s'] = [u] := by simp [schemasBelow, hbelow]
    rw [one]
    exact ⟨t, ht, .alone hfinish⟩
  | apart _ _ unlike => exact absurd ⟨step.kind, step.isJoined_kind, kinds⟩ unlike
  | @objects _ properties _ several objects groups merged _ _ =>
    cases step with
    | items => cases kind_unique several objects kinds
    | property name =>
      obtain ⟨u, hu⟩ := List.exists_mem_of_ne_nil _ found
      obtain ⟨s, hs, hbelow⟩ := mem_schemasBelow_iff.mp hu
      have hname : name ∈ Fields.names properties := by
        rw [groups]
        exact mem_names_propertyGroups_iff.mpr ⟨s, hs, Fields.mem_names_iff.mpr ⟨u, hbelow⟩⟩
      obtain ⟨t, ht⟩ := Fields.mem_names_iff.mp hname
      have group := merged name t ht
      rw [propertyGroup_eq names] at group
      exact ⟨t, ht, group⟩
  | @arrays _ items several arrays absent merged =>
    cases step with
    | property name => cases kind_unique several arrays kinds
    | items =>
      cases items with
      | none => exact absurd (absent.mp rfl) found
      | some t => exact ⟨t, rfl, merged t rfl⟩
  | values several primitive values =>
    rw [kind_unique several values kinds] at primitive
    cases step <;> cases primitive

/-- What is at a place of a merged schema comes of the schemas at that place. -/
theorem merges_schemasAt (h : Merges config samples m)
    (names : ∀ s ∈ samples, ∀ t ∈ s.nodes, (Fields.names t.properties).Nodup)
    (alike : Alike samples) {place : List Step} (found : schemasAt place samples ≠ []) :
    ∃ t, m.walk place = some t ∧ Merges config (schemasAt place samples) t := by
  induction place generalizing samples m with
  | nil =>
    rw [schemasAt_nil]
    exact ⟨m, rfl, h⟩
  | cons step rest ih =>
    rw [schemasAt_cons] at found ⊢
    have below : schemasBelow step samples ≠ [] := fun none => found (by rw [none]; rfl)
    have roots : ∀ s ∈ samples, (Fields.names s.properties).Nodup := fun s hs =>
      names s hs s s.self_mem_nodes
    obtain ⟨u, hu, merged⟩ := merges_below h roots (alike.kind below) below
    have namesBelow : ∀ s ∈ schemasBelow step samples, ∀ t ∈ s.nodes,
        (Fields.names t.properties).Nodup := by
      intro s hs
      obtain ⟨sample, hsample, hbelow⟩ := mem_schemasBelow_iff.mp hs
      exact Schema.forall_nodes_of_below (names sample hsample) hbelow
    obtain ⟨t, ht, hmerges⟩ := ih merged namesBelow (alike.below step) found
    exact ⟨t, Schema.walk_cons_eq_some_iff.mpr ⟨u, hu, ht⟩, hmerges⟩

/-! ### Strings -/

/-- Without closed sets among the samples, the examples are the only candidates. -/
theorem candidateValues_of_open (opened : ∀ s ∈ samples, s.enum = none) :
    candidateValues samples = observedValues samples := by
  have nothing : (samples.flatMap fun s => s.enum.getD []) = [] :=
    List.flatMap_eq_nil_iff.mpr fun s hs => by rw [opened s hs, Option.getD_none]
  rw [candidateValues, nothing, List.foldl_nil]

theorem length_observedValues_le (samples : List Schema) :
    (observedValues samples).length ≤ samples.length := by
  calc (observedValues samples).length ≤ (samples.map Schema.exemplar).length :=
      ((Json.distinct_sublist _).trans List.filter_sublist).length_le
    _ = samples.length := List.length_map _

/-- Strings without closed sets are merged into a string, with a closed set when their observed
values are as many as the limits ask for. -/
theorem enum_of_merges_strings {least greatest : Int} (limits : config.EnumLimits least greatest)
    (two : 2 ≤ least) (h : Merges config samples m) (hne : samples ≠ [])
    (strings : ∀ s ∈ samples, s.kind = .string) (opened : ∀ s ∈ samples, s.enum = none) :
    m.kind = .string ∧ m.enum =
      if least ≤ (observedValues samples).length ∧
          ((observedValues samples).length : Int) ≤ greatest then
        some (sortBySpelling (observedValues samples))
      else none := by
  match samples, hne with
  | [s], _ =>
    have few := length_observedValues_le [s]
    rw [List.length_singleton] at few
    rw [if_neg (by omega)]
    obtain ⟨f, rfl⟩ := Schema.eq_string_of_kind (strings s List.mem_cons_self)
    have hopen := opened _ List.mem_cons_self
    obtain ⟨v, hv⟩ := Schema.enrich_string f
    rcases eq_of_finish h.of_alone with rfl | rfl
    · exact ⟨rfl, hopen⟩
    · rw [hv]
      exact ⟨rfl, hopen⟩
  | first :: second :: others, _ =>
    have several : 2 ≤ (first :: second :: others).length := by simp
    generalize first :: second :: others = samples at *
    obtain ⟨format, -, hm⟩ := mergeStrings_of_mergePrimitives (h.of_values several rfl strings)
    have admitted := admitsEnum_of_limits limits (candidateValues samples).length
    rw [← candidateValues_of_open opened]
    rcases mergeStrings_cases hm with ⟨hyes, rfl⟩ | ⟨hno, rfl⟩
    · rw [if_pos (of_decide_eq_true (Except.ok.inj (admitted.symm.trans hyes)))]
      exact ⟨rfl, rfl⟩
    · rw [if_neg (of_decide_eq_false (Except.ok.inj (admitted.symm.trans hno)))]
      exact ⟨rfl, rfl⟩

/-! ### Agreement -/

/-- Merging and counting agree on closed sets: of strings without closed sets at a field, the path
of the field is a candidate just when the merged schema has a closed set there, and the closed set
then has the values of the candidate, in the order of their spelling. -/
theorem enumCandidates_agree {config : Config} {least greatest : Int}
    (limits : config.EnumLimits least greatest) (two : 2 ≤ least) {samples : List Schema}
    (wf : ∀ s ∈ samples, s.WellFormed) (formats : ∀ s ∈ samples, s.PlainFormats)
    (named : ∀ s ∈ samples, s.PathNamed) (alike : Alike samples) :
    ∃ report m, analyze config (samples.map fun s => [s]) = .ok report ∧
      merge config samples = .ok m ∧
      ∀ place, Step.IsField place → (∃ s ∈ samples, ∃ t, s.walk place = some t) →
        (∀ s ∈ samples, ∀ t, s.walk place = some t → t.kind = .string ∧ t.enum = none) →
        ∃ t, m.walk place = some t ∧ t.kind = .string ∧
          (Step.path place ∈ Fields.names report.enumCandidates ↔ t.enum.isSome = true) ∧
          ∀ values, report.enumCandidates.lookup (Step.path place) = some values →
            t.enum = some (sortBySpelling values) := by
  obtain ⟨report, hreport, -, hcandidates⟩ := exists_analyze_of_wellFormed limits wf
  obtain ⟨m, hm⟩ := exists_merge limits wf formats
  refine ⟨report, m, hreport, hm, fun place field ⟨s, hs, u, hu⟩ strings => ?_⟩
  have names : ∀ s ∈ samples, ∀ t ∈ s.nodes, (Fields.names t.properties).Nodup :=
    fun s hs t ht => (wf s hs t ht).names
  have found : schemasAt place samples ≠ [] :=
    List.ne_nil_of_mem (mem_schemasAt_iff.mpr ⟨s, hs, hu⟩)
  have leaves : ∀ t ∈ schemasAt place samples, t.kind = .string ∧ t.enum = none := by
    intro t ht
    obtain ⟨s, hs, hwalk⟩ := mem_schemasAt_iff.mp ht
    exact strings s hs t hwalk
  obtain ⟨t, ht, merged⟩ := merges_schemasAt (merges_of_merge hm) names alike found
  obtain ⟨kind, closed⟩ := enum_of_merges_strings limits two merged found
    (fun t ht => (leaves t ht).1) fun t ht => (leaves t ht).2
  have candidate := lookup_candidatesWithin_path least greatest wf named field found
  refine ⟨t, ht, kind, ?_⟩
  rw [hcandidates, Fields.mem_names_iff, candidate, closed]
  split
  · refine ⟨iff_of_true ⟨_, rfl⟩ rfl, fun values hvalues => ?_⟩
    rw [Option.some.inj hvalues]
  · refine ⟨by simp, fun values hvalues => ?_⟩
    cases hvalues

theorem alike_nil : Alike [] := fun _ _ h => absurd h List.not_mem_nil

theorem alike_of_leaves (kind : Kind) (kinds : ∀ s ∈ samples, s.kind = kind)
    (leaves : ∀ step, schemasBelow step samples = []) : Alike samples := by
  refine alike_iff.mpr ⟨fun s hs t ht => (kinds s hs).trans (kinds t ht).symm, fun step => ?_⟩
  rw [leaves step]
  exact alike_nil

theorem alike_people : Alike people := by
  refine alike_iff.mpr ⟨by decide, fun step => ?_⟩
  cases step with
  | items => exact alike_nil
  | property name =>
    by_cases hname : name = "name"
    · subst hname
      exact alike_of_leaves .string (by decide) fun step => by cases step <;> rfl
    by_cases hage : name = "age"
    · subst hage
      exact alike_of_leaves .number (by decide) fun step => by cases step <;> rfl
    · have nothing : schemasBelow (.property name) people = [] := by
        simp [schemasBelow, people, Schema.below?, Schema.properties, List.lookup_cons,
          beq_false_of_ne hname, beq_false_of_ne hage]
      rw [nothing]
      exact alike_nil

theorem enumCandidates_agree_people :
    ∃ report m t, analyze {} (people.map fun s => [s]) = .ok report ∧ merge {} people = .ok m ∧
      m.walk [.property "name"] = some t ∧ "name" ∈ Fields.names report.enumCandidates ∧
      t.enum = some (sortBySpelling [.str "ann", .str "bob"]) := by
  have limits : Config.EnumLimits {} 2 10 := ⟨rfl, rfl, by decide⟩
  obtain ⟨report, m, hreport, hm, agree⟩ := enumCandidates_agree limits (by decide)
    wellFormed_people plainFormats_people pathNamed_people alike_people
  obtain ⟨t, ht, -, -, closed⟩ := agree [.property "name"] ⟨[], "name", rfl⟩
    ⟨_, List.mem_cons_self, _, rfl⟩ (by decide)
  have candidate : report.enumCandidates.lookup "name" = some [.str "ann", .str "bob"] := by
    cases hreport
    rfl
  exact ⟨report, m, t, hreport, hm, ht, Fields.mem_names_iff.mpr ⟨_, candidate⟩,
    closed _ candidate⟩

end Schemata

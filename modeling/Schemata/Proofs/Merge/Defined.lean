import Schemata.Proofs.Merge.Rules
import Schemata.Proofs.Merge.Values
import Schemata.Proofs.Schema.LoadFaults
import Schemata.Proofs.Schema.Nodes
import Mathlib.Logic.Relation

/-!
# When merging gives a result

Nodes are made so that no property is named twice and no JSON value in them names a field twice; a
node of no kind is not a sample. On such samples three things can still keep the merge from giving a
result: limits for closed sets that are no integers, a lower limit of zero, which would admit an
empty closed set, and a format that is a list or an object. Without them there always is a result,
and with integers for limits each fault can be traced to the group of samples in which it arises.

## Main definitions

* `Config.IntegerLimits`, `Config.EnumLimits`: the limits for closed sets are integers, and the
  lower at least 1.
* `Schema.WellFormed`: what the nodes of a sample have by the way they are made.
* `Schema.PlainFormats`: no format is a list or an object.
* `Descends`: the groups that are merged on the way to the merge of samples, one step down.
* `Jams`: samples of plain values that cannot be merged.

## Main results

* `descends_or_jams`: a fault comes from one step below the samples, or the samples jam.
* `exists_jams_of_merge`: a fault comes from a group on the way that jams.
* `exists_merge`: without such groups, merging gives a result.
-/

namespace Schemata

/-- The limits for closed sets are integers. -/
structure Config.IntegerLimits (config : Config) (least greatest : Int) : Prop where
  min : config.enumMinValues.integer? = some least
  max : config.enumMaxValues.integer? = some greatest

structure Config.EnumLimits (config : Config) (least greatest : Int) : Prop where
  min : config.enumMinValues.integer? = some least
  max : config.enumMaxValues.integer? = some greatest
  pos : 1 ≤ least

theorem Config.EnumLimits.integers {config : Config} {least greatest : Int}
    (limits : config.EnumLimits least greatest) : config.IntegerLimits least greatest :=
  ⟨limits.min, limits.max⟩

namespace Schema

structure SoundNode (s : Schema) : Prop where
  kind : s.kind ≠ .abstract
  names : (Fields.names s.properties).Nodup
  exemplar : s.exemplar.WellFormed
  enum : ∀ values, s.enum = some values → ∀ v ∈ values, v.WellFormed

def WellFormed (s : Schema) : Prop := ∀ t ∈ s.nodes, t.SoundNode

def PlainFormats (s : Schema) : Prop :=
  ∀ t ∈ s.nodes, (∀ items, t.format ≠ .arr items) ∧ ∀ fields, t.format ≠ .obj fields

theorem WellFormed.soundNode {s : Schema} (h : s.WellFormed) : s.SoundNode :=
  h s (self_mem_nodes s)

theorem PlainFormats.format {s : Schema} (h : s.PlainFormats) :
    (∀ items, s.format ≠ .arr items) ∧ ∀ fields, s.format ≠ .obj fields :=
  h s (self_mem_nodes s)

theorem PlainFormats.not_nested {s : Schema} (h : s.PlainFormats) : ¬ Nested s.format := by
  rintro (⟨items, heq⟩ | ⟨fields, heq⟩)
  · exact h.format.1 items heq
  · exact h.format.2 fields heq

/-! ### Enriching -/

theorem walkableFields_iff {fields : List (String × Schema)} :
    walkableFields fields = true ↔ ∀ field ∈ fields, field.2.walkable = true := by
  induction fields with
  | nil => simp [walkableFields]
  | cons field rest ih => rw [walkableFields, Bool.and_eq_true, ih, List.forall_mem_cons]

theorem walkable_of_nodes {s : Schema} (h : ∀ t ∈ s.nodes, t.kind ≠ .abstract) :
    s.walkable = true := by
  induction s using nestedInduction with
  | object properties required additional nullable ihp _ =>
    rw [forall_nodes_object] at h
    rw [walkable, walkableFields_iff]
    exact fun property hp => ihp property hp (h.2.1 property hp)
  | array items facets ih =>
    rw [forall_nodes_array] at h
    cases items with
    | none => rfl
    | some s => exact ih s rfl (h.2 s rfl)
  | abstract => exact absurd rfl (h _ (self_mem_nodes _))
  | _ => rfl

end Schema

theorem finish_of_wellFormed (config : Config) {s : Schema} (h : s.WellFormed) :
    finish config s = .ok (if config.includeExamples.truthy then s.enrich else s) := by
  have walkable := Schema.walkable_of_nodes fun t ht => (h t ht).kind
  rw [finish]
  cases config.includeExamples.truthy with
  | true => simp [walkable]
  | false => rfl

theorem exists_finishAll (config : Config) {samples : List Schema}
    (h : ∀ s ∈ samples, s.WellFormed) : ∃ variants, finishAll config samples = .ok variants := by
  induction samples with
  | nil => exact ⟨[], rfl⟩
  | cons s rest ih =>
    rw [List.forall_mem_cons] at h
    obtain ⟨variants, hv⟩ := ih h.2
    rw [finishAll, finish_of_wellFormed config h.1, hv]
    exact ⟨_, rfl⟩

/-! ### Plain values -/

theorem admitsEnum_of_integers {config : Config} {least greatest : Int}
    (limits : config.IntegerLimits least greatest) (count : Nat) :
    config.admitsEnum count = .ok (decide (least ≤ count ∧ (count : Int) ≤ greatest)) := by
  rw [Config.admitsEnum, Json.atMost?_of_integers limits.min rfl,
    Json.atMost?_of_integers rfl limits.max]
  by_cases h : least ≤ count
  · simp [h]
  · simp [h]

theorem admitsEnum_of_limits {config : Config} {least greatest : Int}
    (limits : config.EnumLimits least greatest) (count : Nat) :
    config.admitsEnum count = .ok (decide (least ≤ count ∧ (count : Int) ≤ greatest)) :=
  admitsEnum_of_integers limits.integers count

/-- A format that is a list or an object is the one thing that keeps samples from being compared by
their formats. -/
theorem commonFormat_eq_error_iff {samples : List Schema} {fault : Fault} :
    commonFormat samples = .error fault ↔
      fault = .illTyped ∧ ∃ s ∈ samples, Schema.Nested s.format := by
  rw [commonFormat]
  split
  · next hany =>
    refine ⟨fun e => ⟨(Except.error.inj e).symm, ?_⟩, fun ill => ill.1 ▸ rfl⟩
    obtain ⟨f, hf, nested⟩ := List.any_eq_true.mp hany
    obtain ⟨s, hs, rfl⟩ := List.mem_map.mp hf
    refine ⟨s, hs, ?_⟩
    split at nested
    · next items heq => exact .inl ⟨items, heq⟩
    · next fields heq => exact .inr ⟨fields, heq⟩
    · exact absurd nested Bool.false_ne_true
  · next hnone =>
    refine iff_of_false (fun e => ?_) ?_
    · split at e <;> cases e
    · rintro ⟨-, s, hs, nested⟩
      refine hnone (List.any_eq_true.mpr ⟨s.format, List.mem_map_of_mem hs, ?_⟩)
      rcases nested with ⟨items, heq⟩ | ⟨fields, heq⟩
      · rw [heq]
      · rw [heq]

theorem exists_commonFormat {samples : List Schema} (formats : ∀ s ∈ samples, s.PlainFormats) :
    ∃ format, commonFormat samples = .ok format := by
  cases h : commonFormat samples with
  | ok format => exact ⟨format, rfl⟩
  | error fault =>
    obtain ⟨-, s, hs, nested⟩ := commonFormat_eq_error_iff.mp h
    exact absurd nested (formats s hs).not_nested

theorem candidateValues_eq_nil_iff {samples : List Schema} :
    candidateValues samples = [] ↔
      ∀ s ∈ samples, s.exemplar.isNull = true ∧ s.enum.getD [] = [] := by
  rw [candidateValues_eq, Json.distinct_eq_nil_iff, stringValues, List.append_eq_nil_iff,
    List.filter_eq_nil_iff, List.forall_mem_map, List.flatMap_eq_nil_iff, forall₂_and]
  simp

theorem wellFormed_of_mem_stringValues {samples : List Schema} (h : ∀ s ∈ samples, s.SoundNode)
    {v : Json} (hv : v ∈ stringValues samples) : v.WellFormed := by
  obtain ⟨s, hs, ⟨rfl, -⟩ | ⟨values, enum, hv⟩⟩ := mem_stringValues_iff.mp hv
  · exact (h s hs).exemplar
  · exact (h s hs).enum values enum v hv

theorem wellFormed_of_mem_candidates {samples : List Schema} (h : ∀ s ∈ samples, s.SoundNode)
    {v : Json} (hv : v ∈ candidateValues samples) : v.WellFormed :=
  wellFormed_of_mem_stringValues h (mem_stringValues hv)

theorem exists_closedNode {samples : List Schema} (h : ∀ s ∈ samples, s.SoundNode)
    (hne : candidateValues samples ≠ []) (format : Json) (nullable : Bool) :
    ∃ s, StringFacets.node
      { format := format
        enum := some (sortBySpelling (candidateValues samples))
        nullable := .bool nullable } = .ok s := by
  have perm := sortBySpelling_perm (candidateValues samples)
  refine ⟨_, StringFacets.node_eq_ok_iff.mpr ⟨rfl, fun values hvalues => ?_, .inl rfl⟩⟩
  obtain rfl := Option.some.inj hvalues
  refine ⟨fun empty => hne ?_, Json.allDistinct_of_perm (fun v => wellFormed_of_mem_candidates h)
    perm (apart_candidates samples)⟩
  rw [empty] at perm
  exact perm.nil_eq.symm

/-- Candidates are never repeated, so that a closed set can only be refused for being empty. -/
theorem mergeStrings_eq_error_iff {config : Config} {least greatest : Int}
    (limits : config.IntegerLimits least greatest) {samples : List Schema}
    (h : ∀ s ∈ samples, s.SoundNode) {format : Json} {nullable : Bool} {fault : Fault} :
    mergeStrings config samples format nullable = .error fault ↔
      fault = .inconsistent .emptyEnum ∧ candidateValues samples = [] ∧
        least ≤ 0 ∧ 0 ≤ greatest := by
  simp only [mergeStrings, admitsEnum_of_integers limits]
  show (if decide (least ≤ (candidateValues samples).length ∧
    ((candidateValues samples).length : Int) ≤ greatest) = true then _ else _) =
      Except.error fault ↔ _
  by_cases nothing : candidateValues samples = []
  · have empty : sortBySpelling [] = [] := List.mergeSort_nil
    rw [nothing, empty]
    split
    · next within =>
      have zero := of_decide_eq_true within
      exact ⟨fun e => ⟨(Except.error.inj e).symm, rfl, zero⟩, fun e => e.1 ▸ rfl⟩
    · next without =>
      refine iff_of_false (fun e => ?_) fun e => without (decide_eq_true e.2.2)
      cases e
  · refine iff_of_false (fun e => ?_) fun e => nothing e.2.1
    split at e
    · obtain ⟨s, hs⟩ := exists_closedNode h nothing format nullable
      cases hs.symm.trans e
    · cases e

/-! ### Samples -/

/-- What holds of every node of every sample holds of every node below the samples. -/
theorem forall_nodes_propertyGroup {P : Schema → Prop} {samples : List Schema}
    (h : ∀ s ∈ samples, ∀ t ∈ s.nodes, P t) (name : String) :
    ∀ s ∈ propertyGroup name samples, ∀ t ∈ s.nodes, P t := by
  intro s hs
  obtain ⟨sample, hsample, hp⟩ := mem_propertyGroup_iff.mp hs
  exact Schema.forall_nodes_of_mem_properties (h sample hsample) hp

theorem forall_nodes_additional {P : Schema → Prop} {samples : List Schema}
    (h : ∀ s ∈ samples, ∀ t ∈ s.nodes, P t) :
    ∀ s ∈ samples.filterMap Schema.additional, ∀ t ∈ s.nodes, P t := by
  intro s hs
  obtain ⟨sample, hsample, ha⟩ := List.mem_filterMap.mp hs
  exact Schema.forall_nodes_of_additional (h sample hsample) ha

theorem forall_nodes_items {P : Schema → Prop} {samples : List Schema}
    (h : ∀ s ∈ samples, ∀ t ∈ s.nodes, P t) :
    ∀ s ∈ samples.filterMap Schema.items, ∀ t ∈ s.nodes, P t := by
  intro s hs
  obtain ⟨sample, hsample, hi⟩ := List.mem_filterMap.mp hs
  exact Schema.forall_nodes_of_items (h sample hsample) hi

/-- Merging samples merges a group of what lies directly below them. -/
inductive Descends : List Schema → List Schema → Prop
  | property {samples : List Schema} {name : String} (several : 2 ≤ samples.length)
      (objects : ∀ s ∈ samples, s.kind = .object)
      (found : name ∈ Fields.names (propertyGroups samples)) :
      Descends samples (propertyGroup name samples)
  | further {samples : List Schema} (several : 2 ≤ samples.length)
      (objects : ∀ s ∈ samples, s.kind = .object)
      (found : samples.filterMap Schema.additional ≠ []) :
      Descends samples (samples.filterMap Schema.additional)
  | items {samples : List Schema} (several : 2 ≤ samples.length)
      (arrays : ∀ s ∈ samples, s.kind = .array)
      (found : samples.filterMap Schema.items ≠ []) :
      Descends samples (samples.filterMap Schema.items)

theorem Descends.heightOfAll_lt {samples group : List Schema} (h : Descends samples group) :
    Schema.heightOfAll group < Schema.heightOfAll samples := by
  cases h with
  | property several _ found =>
    exact heightOfAll_propertyGroup_lt (List.ne_nil_of_length_pos (by omega)) found
  | further several => exact heightOfAll_additional_lt (List.ne_nil_of_length_pos (by omega))
  | items several => exact heightOfAll_items_lt (List.ne_nil_of_length_pos (by omega))

theorem Descends.forall_nodes {P : Schema → Prop} {samples group : List Schema}
    (h : Descends samples group) (holds : ∀ s ∈ samples, ∀ t ∈ s.nodes, P t) :
    ∀ s ∈ group, ∀ t ∈ s.nodes, P t := by
  cases h with
  | property => exact forall_nodes_propertyGroup holds _
  | further => exact forall_nodes_additional holds
  | items => exact forall_nodes_items holds

/-- What holds of every node of the samples holds of every node of the groups that are merged on the
way. -/
theorem forall_nodes_of_descends {P : Schema → Prop} {samples group : List Schema}
    (h : Relation.ReflTransGen Descends samples group)
    (holds : ∀ s ∈ samples, ∀ t ∈ s.nodes, P t) : ∀ s ∈ group, ∀ t ∈ s.nodes, P t := by
  induction h with
  | refl => exact holds
  | tail _ step ih => exact step.forall_nodes ih

/-- Samples of plain values that cannot be merged, and the fault that they have. -/
inductive Jams (least greatest : Int) (samples : List Schema) : Fault → Prop
  /-- Formats are compared by looking them up, which a list or an object does not allow. -/
  | format {kind : Kind} {s : Schema} (several : 2 ≤ samples.length)
      (primitive : kind.isPrimitive = true) (kinds : ∀ s ∈ samples, s.kind = kind)
      (mem : s ∈ samples) (nested : Schema.Nested s.format) : Jams least greatest samples .illTyped
  /-- Limits that admit no value at all make a closed set of nothing. -/
  | emptySet (several : 2 ≤ samples.length) (strings : ∀ s ∈ samples, s.kind = .string)
      (bare : ∀ s ∈ samples, s.exemplar.isNull = true ∧ s.enum.getD [] = [])
      (admitted : least ≤ 0 ∧ 0 ≤ greatest) :
      Jams least greatest samples (.inconsistent .emptyEnum)

/-! ### How merging fails -/

section Faults

variable {config : Config} {least greatest : Int} {samples : List Schema} {fault : Fault}

theorem jams_of_mergePrimitives (limits : config.IntegerLimits least greatest)
    (several : 2 ≤ samples.length) (sound : ∀ s ∈ samples, s.SoundNode) {kind : Kind}
    (primitive : kind.isPrimitive = true) (kinds : ∀ s ∈ samples, s.kind = kind)
    (h : mergePrimitives config kind samples = .error fault) :
    Jams least greatest samples fault := by
  rw [mergePrimitives] at h
  rcases Fault.bind_eq_error_iff.mp h with h | ⟨format, -, h⟩
  · obtain ⟨rfl, s, hs, nested⟩ := commonFormat_eq_error_iff.mp h
    exact .format several primitive kinds hs nested
  cases kind with
  | string =>
    obtain ⟨rfl, nothing, admitted⟩ := (mergeStrings_eq_error_iff limits sound).mp h
    exact .emptySet several kinds (candidateValues_eq_nil_iff.mp nothing) admitted
  | boolean => cases h
  | number | integer =>
    cases h.symm.trans (NumberFacets.node_eq_ok_iff.mpr ⟨rfl, boundsAgree_numericRange _⟩)
  | _ => cases primitive

private theorem exists_objectNode {samples : List Schema} {properties : Fields Schema}
    (names : Fields.names properties = Fields.names (propertyGroups samples))
    (additional : Option Schema) (nullable : Json) :
    ∃ s, Schema.objectNode properties (sharedNames samples.length (propertyGroups samples))
      additional nullable = .ok s := by
  refine ⟨_, Schema.objectNode_eq_ok_iff.mpr ⟨rfl, fun v hv => ?_⟩⟩
  obtain ⟨group, hg, rfl⟩ := List.mem_map.mp hv
  refine ⟨group.1, ?_, rfl⟩
  rw [names]
  exact List.mem_map_of_mem (List.mem_filter.mp hg).1

/-- A fault of merged objects is a fault of one of the groups below them. -/
theorem descends_of_objects (several : 2 ≤ samples.length)
    (objects : ∀ s ∈ samples, s.kind = .object)
    (h : (do
      let properties ← (propertyGroups samples).mapM fun (group : String × List Schema) => do
        return (group.1, ← merge config group.2)
      let additional ← if (samples.filterMap Schema.additional).isEmpty then pure none
        else some <$> merge config (samples.filterMap Schema.additional)
      Schema.objectNode properties (sharedNames samples.length (propertyGroups samples)) additional
        (.bool (samples.any fun s => s.nullable.truthy))) = .error fault) :
    ∃ group, Descends samples group ∧ merge config group = .error fault := by
  rcases Fault.bind_eq_error_iff.mp h with h | ⟨properties, hp, h⟩
  · obtain ⟨⟨name, group⟩, hgroup, h⟩ := Fault.exists_of_mapM_eq_error h
    obtain ⟨found, rfl⟩ := mem_propertyGroups_iff.mp hgroup
    rcases Fault.bind_eq_error_iff.mp h with h | ⟨t, -, h⟩
    · exact ⟨_, .property several objects found, h⟩
    · cases h
  have node : ∀ additional, Schema.objectNode properties
      (sharedNames samples.length (propertyGroups samples)) additional
        (.bool (samples.any fun s => s.nullable.truthy)) ≠ .error fault := by
    intro additional h
    obtain ⟨s, hs⟩ := exists_objectNode (groups_of_mapM hp).1 additional
      (.bool (samples.any fun s => s.nullable.truthy))
    cases hs.symm.trans h
  dsimp only at h
  split at h
  · exact absurd h (node none)
  · next found =>
    rcases Fault.bind_eq_error_iff.mp h with h | ⟨additional, -, h⟩
    · exact ⟨_, .further several objects (by simpa using found), Fault.map_eq_error_iff.mp h⟩
    · exact absurd h (node additional)

/-- A fault of merged arrays is a fault of their items. -/
theorem descends_of_arrays (several : 2 ≤ samples.length)
    (arrays : ∀ s ∈ samples, s.kind = .array)
    (h : (if (samples.filterMap Schema.items).isEmpty then return Schema.array none {}
      else return Schema.array (some (← merge config (samples.filterMap Schema.items))) {}) =
        Except.error fault) :
    ∃ group, Descends samples group ∧ merge config group = .error fault := by
  split at h
  · cases h
  · next found =>
    rcases Fault.bind_eq_error_iff.mp h with h | ⟨t, -, h⟩
    · exact ⟨_, .items several arrays (by simpa using found), h⟩
    · cases h

/-- Where merging has a fault, what lies below the samples has it, or the samples jam. -/
theorem descends_or_jams (limits : config.IntegerLimits least greatest)
    (wf : ∀ s ∈ samples, s.WellFormed) (h : merge config samples = .error fault) :
    (∃ group, Descends samples group ∧ merge config group = .error fault) ∨
      Jams least greatest samples fault := by
  match samples, wf, h with
  | [], _, h =>
    rw [merge_nil] at h
    cases h
  | [s], wf, h =>
    rw [merge_singleton, finish_of_wellFormed config (wf s List.mem_cons_self)] at h
    cases h
  | first :: second :: others, wf, h =>
    rw [merge_cons_cons] at h
    have several : 2 ≤ (first :: second :: others).length := by simp
    generalize first :: second :: others = samples at *
    have alternatives : (do return Schema.oneOf (← finishAll config samples)) ≠
        Except.error fault := by
      obtain ⟨variants, hv⟩ := exists_finishAll config wf
      rw [hv]
      intro h
      cases h
    dsimp only at h
    split at h
    · next habstract =>
      obtain ⟨s, hs, hk⟩ := List.any_eq_true.mp habstract
      exact absurd (of_decide_eq_true hk) (wf s hs).soundNode.kind
    split at h
    · exact absurd h alternatives
    next hsame =>
    have alike : ∀ s ∈ samples, s.kind = first.kind := by simpa using hsame
    split at h
    · next hkind => exact .inl (descends_of_objects several (fun s hs => hkind ▸ alike s hs) h)
    split at h
    · next hkind => exact .inl (descends_of_arrays several (fun s hs => hkind ▸ alike s hs) h)
    split at h
    · next hkind =>
      exact .inr (jams_of_mergePrimitives limits several (fun s hs => (wf s hs).soundNode) hkind
        alike h)
    · exact absurd h alternatives

/-- The fault of a merge is that of a group on the way that jams. The induction is on the height of
the samples, which grows less with each step down. -/
theorem exists_jams_of_merge (limits : config.IntegerLimits least greatest)
    (wf : ∀ s ∈ samples, s.WellFormed) (h : merge config samples = .error fault) :
    ∃ group, Relation.ReflTransGen Descends samples group ∧ Jams least greatest group fault := by
  induction hn : Schema.heightOfAll samples using Nat.strongRecOn generalizing samples with
  | _ n ih =>
    subst hn
    rcases descends_or_jams limits wf h with ⟨group, step, hgroup⟩ | jams
    · obtain ⟨below, reach, jams⟩ := ih _ step.heightOfAll_lt (step.forall_nodes wf) hgroup rfl
      exact ⟨below, .head step reach, jams⟩
    · exact ⟨samples, .refl, jams⟩

end Faults

/-- Merging gives a result. -/
theorem exists_merge {config : Config} {least greatest : Int}
    (limits : config.EnumLimits least greatest) {samples : List Schema}
    (wf : ∀ s ∈ samples, s.WellFormed) (formats : ∀ s ∈ samples, s.PlainFormats) :
    ∃ s, merge config samples = .ok s := by
  cases h : merge config samples with
  | ok s => exact ⟨s, rfl⟩
  | error fault =>
    obtain ⟨group, reach, jams⟩ := exists_jams_of_merge limits.integers wf h
    cases jams with
    | format _ _ _ hs nested =>
      have plain := forall_nodes_of_descends reach formats _ hs
      exact absurd nested (Schema.PlainFormats.not_nested plain)
    | emptySet _ _ _ admitted =>
      have pos := limits.pos
      omega

/-! ### Two samples -/

/-- Two people, of whom one has an age. -/
def people : List Schema :=
  [.object [("name", .string { exemplar := .str "ann" })] ["name"] none (.bool false),
    .object [("name", .string { exemplar := .str "bob" }), ("age", .number { exemplar := .int 3 })]
      ["name"] none (.bool false)]

theorem wellFormed_people : ∀ s ∈ people, s.WellFormed := by
  simp only [people, List.forall_mem_cons, Schema.WellFormed, Schema.nodes, Schema.nodesOfFields,
    Schema.nodesOfOption, List.nil_append, List.append_nil, List.cons_append]
  have sound : ∀ {s : Schema}, s.kind ≠ .abstract → (Fields.names s.properties).Nodup →
      s.exemplar.WellFormed → s.enum = none → s.SoundNode := by
    intro s kind names exemplar open_
    refine ⟨kind, names, exemplar, fun values closed => ?_⟩
    rw [open_] at closed
    cases closed
  have ann : (Schema.string { exemplar := .str "ann" }).SoundNode :=
    sound (by decide) (by decide) trivial rfl
  have bob : (Schema.string { exemplar := .str "bob" }).SoundNode :=
    sound (by decide) (by decide) trivial rfl
  have age : (Schema.number { exemplar := .int 3 }).SoundNode :=
    sound (by decide) (by decide) trivial rfl
  exact ⟨⟨sound (by decide) (by decide) trivial rfl, ann, List.forall_mem_nil _⟩,
    ⟨sound (by decide) (by decide) trivial rfl, bob, age, List.forall_mem_nil _⟩,
    List.forall_mem_nil _⟩

theorem plainFormats_people : ∀ s ∈ people, s.PlainFormats := by
  simp [people, Schema.PlainFormats, Schema.nodes, Schema.nodesOfFields, Schema.nodesOfOption,
    Schema.format]

end Schemata

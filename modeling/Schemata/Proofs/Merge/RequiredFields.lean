import Schemata.Proofs.Merge.Defined
import Schemata.Proofs.Occurrence.Counts

/-!
# Required fields

Merging finds what is required by grouping properties, and counting occurrences finds it by
flattening samples to paths. Of at least two samples both find the same fields, as long as no list
is on the way to them. A list whose items are known in some samples only is merged from those
samples, so that below a list merging can require more than what all samples have.

## Main definitions

* `Schema.RequiredAlong`: a walk can be taken, and all properties on the way are required.

## Main results

* `requiredAlong_of_walks`: what can be walked in all samples is required along the merged schema.
* `walks_of_requiredAlong`: the converse, for walks through properties.
* `requiredFields_agree`: merging and counting agree.

## Implementation notes

A sample that is alone is not merged but kept as it is, and what it requires is not what it has. The
groups of properties that all samples have are as long as the list of samples, so that no group on
the way is of one sample alone.
-/

namespace Schemata

namespace Step

/-- The kind of the nodes from which a step can be taken. -/
def kind : Step → Kind
  | .property _ => .object
  | .items => .array

theorem isJoined_kind (step : Step) : step.kind.IsJoined := by
  cases step with
  | property name => exact .inl rfl
  | items => exact .inr (.inl rfl)

end Step

namespace Schema

/-- The walk can be taken, and each property on it is required where it is gone into. -/
def RequiredAlong : List Step → Schema → Prop
  | [], _ => True
  | .property name :: rest, s =>
    name ∈ s.required ∧ ∃ t, s.properties.lookup name = some t ∧ t.RequiredAlong rest
  | .items :: rest, s => ∃ t, s.items = some t ∧ t.RequiredAlong rest

theorem kind_eq_of_below? {s t : Schema} {step : Step} (h : s.below? step = some t) :
    s.kind = step.kind := by
  cases step with
  | property name =>
    cases s with
    | object properties required additional nullable => rfl
    | _ => cases h
  | items =>
    cases s with
    | array items facets => rfl
    | _ => cases h

end Schema

variable {config : Config} {samples : List Schema} {m : Schema}

theorem required_eq_nil_of_mergePrimitives {kind : Kind} (primitive : kind.isPrimitive = true)
    (h : mergePrimitives config kind samples = .ok m) : m.required = [] := by
  obtain ⟨format, -, h⟩ := mergePrimitives_cases primitive h
  rcases h with ⟨-, hm⟩ | ⟨-, rfl⟩ | ⟨-, rfl⟩
  · rcases mergeStrings_cases hm with ⟨-, rfl⟩ | ⟨-, rfl⟩ <;> rfl
  · rfl
  · rfl

theorem length_propertyGroup_of_mem {name : String} (h : name ∈ requiredNames samples) :
    (propertyGroup name samples).length = samples.length :=
  (mem_requiredNames_iff.mp h).2

theorem kind_of_walks {step : Step} {rest : List Step} {kind : Kind} (hne : samples ≠ [])
    (kinds : ∀ s ∈ samples, s.kind = kind)
    (walks : ∀ s ∈ samples, ∃ t, s.walk (step :: rest) = some t) : step.kind = kind := by
  obtain ⟨s, hs⟩ := List.exists_mem_of_ne_nil samples hne
  obtain ⟨u, hu, -⟩ := Schema.exists_walk_cons_iff.mp (walks s hs)
  rw [← kinds s hs, Schema.kind_eq_of_below? hu]

/-- A property through which all samples can be walked is required of them. -/
theorem mem_requiredNames_of_walks {name : String} {rest : List Step} (hne : samples ≠ [])
    (nodup : ∀ s ∈ samples, (Fields.names s.properties).Nodup)
    (walks : ∀ s ∈ samples, ∃ t, s.walk (.property name :: rest) = some t) :
    name ∈ requiredNames samples := by
  refine (mem_requiredNames_iff_forall hne nodup).mpr fun s hs => ?_
  obtain ⟨u, hu, -⟩ := Schema.exists_walk_cons_iff.mp (walks s hs)
  exact Fields.mem_names_iff.mpr ⟨u, hu⟩

theorem walks_propertyGroup {name : String} {rest : List Step}
    (nodup : ∀ s ∈ samples, (Fields.names s.properties).Nodup)
    (walks : ∀ s ∈ samples, ∃ t, s.walk (.property name :: rest) = some t) :
    ∀ child ∈ propertyGroup name samples, ∃ t, child.walk rest = some t := by
  rw [propertyGroup_eq nodup]
  intro child hchild
  obtain ⟨s, hs, hlookup⟩ := List.mem_filterMap.mp hchild
  obtain ⟨u, hu, hwalk⟩ := Schema.exists_walk_cons_iff.mp (walks s hs)
  cases Option.some.inj (hlookup.symm.trans hu)
  exact hwalk

/-- Lists through which all samples can be walked have items in all of them. -/
theorem walks_items {rest : List Step}
    (walks : ∀ s ∈ samples, ∃ t, s.walk (.items :: rest) = some t) :
    (samples.filterMap Schema.items).length = samples.length ∧
      ∀ child ∈ samples.filterMap Schema.items, ∃ t, child.walk rest = some t := by
  simp only [Schema.exists_walk_cons_iff] at walks
  constructor
  · refine List.filterMap_length_eq_length.mpr fun s hs => ?_
    obtain ⟨u, hu, -⟩ := walks s hs
    exact Option.isSome_iff_exists.mpr ⟨u, hu⟩
  · intro child hchild
    obtain ⟨s, hs, hitems⟩ := List.mem_filterMap.mp hchild
    obtain ⟨u, hu, hwalk⟩ := walks s hs
    cases Option.some.inj (hitems.symm.trans hu)
    exact hwalk

/-- What can be walked in all samples is required along the merged schema. The induction is on the
rules; each step leads to a group that is as long as the list of samples. -/
theorem requiredAlong_of_walks (h : Merges config samples m) (several : 2 ≤ samples.length)
    (names : ∀ s ∈ samples, ∀ t ∈ s.nodes, (Fields.names t.properties).Nodup) {steps : List Step}
    (walks : ∀ s ∈ samples, ∃ t, s.walk steps = some t) : m.RequiredAlong steps := by
  induction h generalizing steps with
  | nothing => exact absurd several (by simp)
  | alone => exact absurd several (by simp)
  | @apart samples variants _ kinds unlike =>
    cases steps with
    | nil => trivial
    | cons step rest =>
      refine absurd ⟨step.kind, step.isJoined_kind, fun s hs => ?_⟩ unlike
      obtain ⟨u, hu, -⟩ := Schema.exists_walk_cons_iff.mp (walks s hs)
      exact Schema.kind_eq_of_below? hu
  | @objects samples properties additional _ kinds groups _ _ _ ih _ =>
    have hne : samples ≠ [] := List.ne_nil_of_length_pos (by omega)
    have nodup : ∀ s ∈ samples, (Fields.names s.properties).Nodup := fun s hs =>
      names s hs s (Schema.self_mem_nodes s)
    cases steps with
    | nil => trivial
    | cons step rest =>
      have hkind := kind_of_walks hne kinds walks
      cases step with
      | items => cases hkind
      | property name =>
        have hreq := mem_requiredNames_of_walks hne nodup walks
        have hmem : name ∈ Fields.names properties := by
          rw [groups]
          exact (mem_requiredNames_iff.mp hreq).1
        obtain ⟨t, ht⟩ := Fields.mem_names_iff.mp hmem
        have length : 2 ≤ (propertyGroup name samples).length := by
          rw [length_propertyGroup_of_mem hreq]
          exact several
        exact ⟨hreq, t, ht, ih name t ht length (forall_nodes_propertyGroup names name)
          (walks_propertyGroup nodup walks)⟩
  | @arrays samples items _ kinds absent _ ih =>
    have hne : samples ≠ [] := List.ne_nil_of_length_pos (by omega)
    cases steps with
    | nil => trivial
    | cons step rest =>
      have hkind := kind_of_walks hne kinds walks
      cases step with
      | property name => cases hkind
      | items =>
        obtain ⟨length, children⟩ := walks_items walks
        cases items with
        | none =>
          rw [absent.mp rfl] at length
          exact absurd length.symm (by simpa using hne)
        | some t =>
          exact ⟨t, rfl, ih t rfl (by omega) (forall_nodes_items names) children⟩
  | @values samples kind s _ primitive kinds =>
    cases steps with
    | nil => trivial
    | cons step rest =>
      rw [← kind_of_walks (List.ne_nil_of_length_pos (by omega)) kinds walks] at primitive
      cases step <;> cases primitive

/-- The converse fails below lists, see the head of this module. -/
theorem walks_of_requiredAlong (h : Merges config samples m) (several : 2 ≤ samples.length)
    (names : ∀ s ∈ samples, ∀ t ∈ s.nodes, (Fields.names t.properties).Nodup) {path : List String}
    (along : m.RequiredAlong (path.map .property)) {s : Schema} (hs : s ∈ samples) :
    ∃ t, s.walk (path.map .property) = some t := by
  induction h generalizing path s with
  | nothing => exact absurd several (by simp)
  | alone => exact absurd several (by simp)
  | apart =>
    cases path with
    | nil => exact ⟨s, rfl⟩
    | cons name rest => exact absurd along.1 List.not_mem_nil
  | @objects samples properties additional _ kinds _ _ _ _ ih _ =>
    cases path with
    | nil => exact ⟨s, rfl⟩
    | cons name rest =>
      obtain ⟨hreq, t, ht, hrest⟩ := along
      have hne : samples ≠ [] := List.ne_nil_of_mem hs
      have nodup : ∀ s ∈ samples, (Fields.names s.properties).Nodup := fun s hs =>
        names s hs s (Schema.self_mem_nodes s)
      obtain ⟨child, hchild⟩ := Fields.mem_names_iff.mp
        ((mem_requiredNames_iff_forall hne nodup).mp hreq s hs)
      have member : child ∈ propertyGroup name samples :=
        mem_propertyGroup_iff.mpr ⟨s, hs, Fields.mem_of_lookup_eq_some hchild⟩
      have length : 2 ≤ (propertyGroup name samples).length := by
        rw [length_propertyGroup_of_mem hreq]
        exact several
      obtain ⟨u, hu⟩ := ih name t ht length (forall_nodes_propertyGroup names name) hrest member
      exact ⟨u, Schema.walk_cons_eq_some_iff.mpr ⟨child, hchild, hu⟩⟩
  | arrays =>
    cases path with
    | nil => exact ⟨s, rfl⟩
    | cons name rest => exact absurd along.1 List.not_mem_nil
  | values _ primitive _ merged =>
    cases path with
    | nil => exact ⟨s, rfl⟩
    | cons name rest =>
      have hreq := along.1
      rw [required_eq_nil_of_mergePrimitives primitive merged] at hreq
      exact absurd hreq List.not_mem_nil

/-- Merging and counting agree on what is required: all samples have the field, its path is
reported as required, and the merged schema requires it at each step. Below lists what is reported
as required is required by the merged schema. -/
theorem requiredFields_agree {config : Config} {least greatest : Int}
    (limits : config.EnumLimits least greatest) {samples : List Schema}
    (several : 2 ≤ samples.length) (wf : ∀ s ∈ samples, s.WellFormed)
    (formats : ∀ s ∈ samples, s.PlainFormats) (named : ∀ s ∈ samples, s.PathNamed) :
    ∃ report m, analyze config (samples.map fun s => [s]) = .ok report ∧
      merge config samples = .ok m ∧
      (∀ names : List String, names ≠ [] → (∀ name ∈ names, PathName name) →
        ((∀ s ∈ samples, ∃ t, s.walk (names.map .property) = some t) ↔
          ".".intercalate names ∈ report.required) ∧
        (".".intercalate names ∈ report.required ↔ m.RequiredAlong (names.map .property))) ∧
      (∀ steps, Step.Plain steps → Step.path steps ∈ report.required → m.RequiredAlong steps) := by
  have nodup : ∀ s ∈ samples, ∀ t ∈ s.nodes, (Fields.names t.properties).Nodup :=
    fun s hs t ht => (wf s hs t ht).names
  have hne : samples ≠ [] := List.ne_nil_of_length_pos (by omega)
  obtain ⟨report, hreport, hrequired, -⟩ := exists_analyze_of_wellFormed limits wf
  obtain ⟨m, hm⟩ := exists_merge limits wf formats
  have reported : ∀ path, path ∈ report.required ↔ ∀ s ∈ samples, path ∈ s.paths := by
    intro path
    rw [hrequired, mem_requiredPaths_iff_forall (by simpa using hne)]
    simp
  have covered : ∀ steps, (∀ s ∈ samples, ∃ t, s.walk steps = some t) → m.RequiredAlong steps :=
    fun steps => requiredAlong_of_walks (merges_of_merge hm) several nodup
  refine ⟨report, m, hreport, hm, fun names hnames plain => ?_, fun steps plain hp =>
    covered steps fun s hs => ?_⟩
  · have walked : (∀ s ∈ samples, ∃ t, s.walk (names.map .property) = some t) ↔
        ".".intercalate names ∈ report.required := by
      rw [reported]
      refine forall₂_congr fun s hs => ?_
      exact (Schema.intercalate_mem_paths_iff (nodup s hs) (named s hs) hnames plain).symm
    refine ⟨walked, fun hp => covered _ (walked.mpr hp), fun along => walked.mp fun s hs => ?_⟩
    exact walks_of_requiredAlong (merges_of_merge hm) several nodup along hs
  · exact Schema.exists_walk_of_mem_paths (nodup s hs) (named s hs) plain ((reported _).mp hp s hs)

theorem pathNamed_people : ∀ s ∈ people, s.PathNamed := by
  simp only [people, List.forall_mem_cons, Schema.PathNamed, Schema.nodes, Schema.nodesOfFields,
    Schema.nodesOfOption, List.nil_append, List.append_nil, List.cons_append]
  decide

theorem requiredFields_agree_people :
    ∃ report m, analyze {} (people.map fun s => [s]) = .ok report ∧ merge {} people = .ok m ∧
      "name" ∈ report.required ∧ "age" ∉ report.required ∧ "name" ∈ m.required := by
  have limits : Config.EnumLimits {} 2 10 := ⟨rfl, rfl, by decide⟩
  obtain ⟨report, m, hreport, hm, agree, -⟩ := requiredFields_agree limits (by decide)
    wellFormed_people plainFormats_people pathNamed_people
  obtain ⟨hname, hmerged⟩ := agree ["name"] (by decide) (by decide)
  obtain ⟨hage, -⟩ := agree ["age"] (by decide) (by decide)
  rw [String.intercalate_singleton] at hname hmerged hage
  have reported : "name" ∈ report.required :=
    hname.mp (by simp [people, Schema.walk, Schema.below?, Schema.properties])
  refine ⟨report, m, hreport, hm, reported, fun h => ?_, (hmerged.mp reported).1⟩
  obtain ⟨t, ht⟩ := hage.mpr h _ List.mem_cons_self
  cases ht

end Schemata

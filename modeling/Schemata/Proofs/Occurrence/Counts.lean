import Schemata.Proofs.Merge.Defined
import Schemata.Proofs.Occurrence.Paths

/-!
# Counting occurrences

The count of a path is the number of samples that it was found in, and the paths that were found in
all samples are reported as required.

## Main definitions

* `requiredPaths`, `candidatesWithin`: what a report says of required paths and of candidates for
  closed sets.

## Main results

* `exists_analyze`: samples without nodes of no kind have a report, when the limits for closed sets
  are integers.
* `mem_requiredPaths_iff_forall`: a path is required when no sample lacks it.
-/

namespace Schemata

theorem names_seenIn (schemas : List Schema) :
    Fields.names (seenIn schemas) =
      Fields.firstSeen (Fields.names (schemas.flatMap (Schema.sightings ""))) := by
  rw [← Fields.names_gather]
  simp [Fields.names, seenIn, Function.comp_def]

theorem nodup_names_seenIn (schemas : List Schema) : (Fields.names (seenIn schemas)).Nodup := by
  rw [names_seenIn]
  exact Fields.nodup_firstSeen _

theorem mem_names_seenIn_iff {schemas : List Schema} {path : String} :
    path ∈ Fields.names (seenIn schemas) ↔ ∃ s ∈ schemas, path ∈ s.paths := by
  rw [names_seenIn, Fields.mem_firstSeen, Fields.names, List.map_flatMap, List.mem_flatMap]
  rfl

theorem mem_occurrences_iff {samples : List (List Schema)} {row : Occurrence} :
    row ∈ occurrences samples ↔
      row.path ∈ Fields.names (samples.flatMap seenIn) ∧
        row.count = (Fields.under row.path (samples.flatMap seenIn)).length ∧
        row.total = samples.length ∧
        row.values = Json.distinct (Fields.under row.path (samples.flatMap seenIn)).flatten := by
  rw [occurrences, List.mem_map]
  constructor
  · rintro ⟨⟨path, seen⟩, h, rfl⟩
    obtain ⟨hpath, rfl⟩ := Fields.mem_gather_iff.mp h
    exact ⟨hpath, rfl, rfl, rfl⟩
  · obtain ⟨path, count, total, values⟩ := row
    rintro ⟨hpath, hcount, htotal, hvalues⟩
    dsimp only at hpath hcount htotal hvalues
    cases hcount
    cases htotal
    cases hvalues
    exact ⟨(path, Fields.under path (samples.flatMap seenIn)),
      Fields.mem_gather_iff.mpr ⟨hpath, rfl⟩, rfl⟩

/-- What a report says of the paths that are required. -/
def requiredPaths (samples : List (List Schema)) : List String :=
  ((occurrences samples).filter fun row => row.count == row.total).map Occurrence.path

theorem mem_requiredPaths_iff_forall {samples : List (List Schema)} (hne : samples ≠ [])
    {path : String} :
    path ∈ requiredPaths samples ↔ ∀ schemas ∈ samples, ∃ s ∈ schemas, path ∈ s.paths := by
  have all : (Fields.under path (samples.flatMap seenIn)).length = samples.length ↔
      ∀ schemas ∈ samples, path ∈ Fields.names (seenIn schemas) :=
    Fields.length_under_flatMap_eq_iff (fun schemas _ => nodup_names_seenIn schemas) path
  simp only [mem_names_seenIn_iff] at all
  rw [← all, requiredPaths, List.mem_map]
  constructor
  · rintro ⟨row, hrow, rfl⟩
    obtain ⟨hrow, heq⟩ := List.mem_filter.mp hrow
    obtain ⟨-, hcount, htotal, -⟩ := mem_occurrences_iff.mp hrow
    rw [← hcount, ← htotal]
    exact eq_of_beq heq
  · intro h
    have found : Fields.under path (samples.flatMap seenIn) ≠ [] := by
      rw [← List.length_pos_iff, h]
      exact List.length_pos_iff.mpr hne
    obtain ⟨values, hv⟩ := List.exists_mem_of_ne_nil _ found
    have row : (⟨path, samples.length, samples.length,
        Json.distinct (Fields.under path (samples.flatMap seenIn)).flatten⟩ : Occurrence) ∈
          occurrences samples :=
      mem_occurrences_iff.mpr ⟨List.mem_map_of_mem (Fields.mem_under.mp hv), h.symm, rfl, rfl⟩
    exact ⟨_, List.mem_filter.mpr ⟨row, beq_self_eq_true _⟩, rfl⟩

/-! ### The report -/

/-- The number of values lies within the limits for a closed set. -/
def Occurrence.within (least greatest : Int) (row : Occurrence) : Bool :=
  decide (least ≤ row.values.length ∧ (row.values.length : Int) ≤ greatest)

/-- The paths whose number of values lies within the limits, with the values. -/
def candidatesWithin (least greatest : Int) (rows : List Occurrence) : Fields (List Json) :=
  (rows.filter (Occurrence.within least greatest)).map fun row => (row.path, row.values)

theorem enumCandidates_of_limits {config : Config} {least greatest : Int}
    (limits : config.EnumLimits least greatest) (rows : List Occurrence) :
    enumCandidates config rows = .ok (candidatesWithin least greatest rows) := by
  induction rows with
  | nil => rfl
  | cons row rest ih =>
    rw [enumCandidates, admitsEnum_of_limits limits, ih, ← Occurrence.within, candidatesWithin,
      candidatesWithin, List.filter_cons]
    cases row.within least greatest with
    | true => rfl
    | false => rfl

theorem exists_analyze_of_candidates {config : Config} {samples : List (List Schema)}
    (walkable : ∀ schemas ∈ samples, ∀ s ∈ schemas, s.walkable = true)
    {candidates : List (String × List Json)}
    (h : enumCandidates config (occurrences samples) = .ok candidates) :
    ∃ report, analyze config samples = .ok report ∧ report.total = samples.length ∧
      report.required = requiredPaths samples ∧ report.rows = occurrences samples ∧
      report.enumCandidates = candidates := by
  have all : (samples.all fun schemas => schemas.all Schema.walkable) = true :=
    List.all_eq_true.mpr fun schemas h => List.all_eq_true.mpr (walkable schemas h)
  rw [analyze, if_pos all]
  dsimp only
  rw [h]
  exact ⟨_, rfl, rfl, rfl, rfl, rfl⟩

theorem exists_analyze {config : Config} {least greatest : Int}
    (limits : config.EnumLimits least greatest) {samples : List (List Schema)}
    (walkable : ∀ schemas ∈ samples, ∀ s ∈ schemas, s.walkable = true) :
    ∃ report, analyze config samples = .ok report ∧ report.total = samples.length ∧
      report.required = requiredPaths samples ∧ report.rows = occurrences samples ∧
      report.enumCandidates = candidatesWithin least greatest (occurrences samples) :=
  exists_analyze_of_candidates walkable (enumCandidates_of_limits limits _)

/-- The same for samples that are given by one schema each. -/
theorem exists_analyze_of_wellFormed {config : Config} {least greatest : Int}
    (limits : config.EnumLimits least greatest) {samples : List Schema}
    (wf : ∀ s ∈ samples, s.WellFormed) :
    ∃ report, analyze config (samples.map fun s => [s]) = .ok report ∧
      report.required = requiredPaths (samples.map fun s => [s]) ∧
      report.enumCandidates =
        candidatesWithin least greatest (occurrences (samples.map fun s => [s])) := by
  have walkable : ∀ schemas ∈ samples.map (fun s => [s]), ∀ s ∈ schemas, s.walkable = true := by
    intro schemas hschemas s hs
    obtain ⟨t, ht, rfl⟩ := List.mem_map.mp hschemas
    obtain rfl := List.mem_singleton.mp hs
    exact Schema.walkable_of_nodes fun u hu => (wf s ht u hu).kind
  obtain ⟨report, hreport, -, hrequired, -, hcandidates⟩ := exists_analyze limits walkable
  exact ⟨report, hreport, hrequired, hcandidates⟩

end Schemata

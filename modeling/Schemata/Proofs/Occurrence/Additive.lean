import Schemata.Proofs.Occurrence.Candidates

/-!
# Reports add up

A report on samples can be put together from reports on parts of them: what the first part lists
comes first, the counts are added, and of the values of the later part those are added that are new.
Paths are told apart twice on the way, within a sample and across samples, and so are values; the
second time undoes nothing of the first.

It makes no difference what a sample is, one schema or the two sides of a snapshot, since both are
lists of schemas to the analysis.

## Main definitions

* `Schema.HasField`, `Schema.HasPath`: a field at a place, and a field with a path.
* `OccurrenceReport.Joins`: a report is that on the samples of two others.
* `OccurrenceReport.Tallies`: a report counts the samples in which its paths are found.
* `Additive`: what holds of the reports of an analysis.

## Main results

* `listedPaths_append`, `countUnder_append`, `valuesUnder_append`: the three columns of a report.
* `countUnder_eq_countP`: the count of a path is a number of samples.
* `exists_analyze_of_numeric`: samples have a report when the limits can be compared.
* `analyses_additive`: both analyses are additive.

## What is deliberately absent

Nothing is said of the candidates for closed sets: a path that is one in both parts may have too
many values in all, and a path that has too few in each may have enough.
-/

namespace Schemata

/-! ### Rows -/

/-- The paths of a report on samples, in their order. -/
def listedPaths (samples : List (List Schema)) : List String :=
  Fields.firstSeen (Fields.names (samples.flatMap seenIn))

/-- In how many samples a path is found. -/
def countUnder (path : String) (samples : List (List Schema)) : Nat :=
  (Fields.under path (samples.flatMap seenIn)).length

theorem occurrences_eq_map (samples : List (List Schema)) :
    occurrences samples = (listedPaths samples).map fun path =>
      { path := path
        count := countUnder path samples
        total := samples.length
        values := valuesUnder path samples } := by
  rw [occurrences, Fields.gather, List.map_map]
  rfl

theorem mem_listedPaths_iff {samples : List (List Schema)} {path : String} :
    path ∈ listedPaths samples ↔ ∃ schemas ∈ samples, ∃ s ∈ schemas, path ∈ s.paths := by
  rw [listedPaths, Fields.mem_firstSeen, Fields.names, List.map_flatMap, List.mem_flatMap]
  exact exists_congr fun schemas => and_congr_right fun _ => mem_names_seenIn_iff

theorem under_eq_nil {samples : List (List Schema)} {path : String}
    (h : path ∉ listedPaths samples) : Fields.under path (samples.flatMap seenIn) = [] := by
  refine List.eq_nil_iff_forall_not_mem.mpr fun values hv => h ?_
  exact Fields.mem_firstSeen.mpr (List.mem_map_of_mem (Fields.mem_under.mp hv))

theorem listedPaths_append (samples others : List (List Schema)) :
    listedPaths (samples ++ others) =
      listedPaths samples ++ (listedPaths others).filter (· ∉ listedPaths samples) := by
  rw [listedPaths, List.flatMap_append, Fields.names, List.map_append]
  exact Fields.firstSeen_append _ _

theorem countUnder_append (path : String) (samples others : List (List Schema)) :
    countUnder path (samples ++ others) = countUnder path samples + countUnder path others := by
  rw [countUnder, List.flatMap_append, Fields.under_append, List.length_append]
  rfl

theorem valuesUnder_append (path : String) (samples others : List (List Schema)) :
    valuesUnder path (samples ++ others) = valuesUnder path samples ++
      (valuesUnder path others).filter fun v => !v.isIn (valuesUnder path samples) := by
  rw [valuesUnder, List.flatMap_append, Fields.under_append, List.flatten_append]
  exact Json.distinct_append _ _

/-! ### Fields with a path -/

namespace Schema

/-- The place is that of a field, and the schema has it. -/
def HasField (s : Schema) (place : List Step) : Prop :=
  Step.IsField place ∧ ∃ t, s.walk place = some t

/-- A field of the schema is flattened to the path. -/
def HasPath (s : Schema) (path : String) : Prop :=
  ∃ place, s.HasField place ∧ Step.path place = path

theorem mem_paths_iff_hasPath {s : Schema}
    (names : ∀ t ∈ s.nodes, (Fields.names t.properties).Nodup) {path : String} :
    path ∈ s.paths ↔ s.HasPath path := by
  rw [mem_paths_iff names]
  constructor
  · rintro ⟨steps, name, t, ht, rfl⟩
    exact ⟨_, ⟨⟨steps, name, rfl⟩, t, ht⟩, rfl⟩
  · rintro ⟨-, ⟨⟨steps, name, rfl⟩, t, ht⟩, rfl⟩
    exact ⟨steps, name, t, ht, rfl⟩

end Schema

section Counts

variable {samples : List (List Schema)}
  (names : ∀ schemas ∈ samples, ∀ s ∈ schemas, ∀ t ∈ s.nodes, (Fields.names t.properties).Nodup)

include names

theorem mem_listedPaths_iff_hasPath {path : String} :
    path ∈ listedPaths samples ↔ ∃ schemas ∈ samples, ∃ s ∈ schemas, s.HasPath path := by
  rw [mem_listedPaths_iff]
  refine exists_congr fun schemas => and_congr_right fun hschemas => ?_
  refine exists_congr fun s => and_congr_right fun hs => ?_
  exact Schema.mem_paths_iff_hasPath (names schemas hschemas s hs)

open scoped Classical in
theorem countUnder_eq_countP (path : String) :
    countUnder path samples = samples.countP fun schemas => ∃ s ∈ schemas, s.HasPath path := by
  rw [countUnder, Fields.under_flatMap fun schemas _ => nodup_names_seenIn schemas,
    List.length_filterMap_eq_countP]
  refine List.countP_congr fun schemas hschemas => ?_
  rw [Option.isSome_iff_exists, ← Fields.mem_names_iff, mem_names_seenIn_iff, decide_eq_true_iff]
  refine exists_congr fun s => and_congr_right fun hs => ?_
  exact Schema.mem_paths_iff_hasPath (names schemas hschemas s hs)

end Counts

/-! ### Reports -/

namespace OccurrenceReport

def paths (r : OccurrenceReport) : List String := r.rows.map Occurrence.path

/-- The count of a path, and `0` for a path that is not listed. -/
def countOf (r : OccurrenceReport) (path : String) : Nat :=
  ((r.rows.map fun row => (row.path, row.count)).lookup path).getD 0

/-- The values of a path; a path that is not listed has none. -/
def valuesOf (r : OccurrenceReport) (path : String) : List Json :=
  ((r.rows.map fun row => (row.path, row.values)).lookup path).getD []

/-- A report on the samples of two reports, one after the other. -/
structure Joins (r these those : OccurrenceReport) : Prop where
  paths : r.paths = these.paths ++ those.paths.filter (· ∉ these.paths)
  count : ∀ path, r.countOf path = these.countOf path + those.countOf path
  values : ∀ path, r.valuesOf path =
    these.valuesOf path ++ (those.valuesOf path).filter fun v => !v.isIn (these.valuesOf path)
  total : r.total = these.total + those.total

open scoped Classical in
/-- A report counts in how many samples a path is found, in one of their schemas at least. -/
structure Tallies (r : OccurrenceReport) (samples : List (List Schema)) : Prop where
  total : r.total = samples.length
  listed : ∀ path, path ∈ r.paths ↔ ∃ schemas ∈ samples, ∃ s ∈ schemas, s.HasPath path
  once : r.paths.Nodup
  count : ∀ row ∈ r.rows,
    row.count = samples.countP fun schemas => ∃ s ∈ schemas, s.HasPath row.path
  bounds : ∀ row ∈ r.rows, row.total = r.total ∧ 1 ≤ row.count ∧ row.count ≤ r.total
  required : r.required = (r.rows.filter fun row => row.count = r.total).map Occurrence.path
  optional : r.optional = (r.rows.filter fun row => row.count ≠ r.total).map Occurrence.path

variable {r these those : OccurrenceReport} {samples others : List (List Schema)}

theorem paths_eq (rows : r.rows = occurrences samples) : r.paths = listedPaths samples := by
  rw [OccurrenceReport.paths, rows, occurrences_eq_map, List.map_map]
  exact List.map_id' _

theorem countOf_eq (rows : r.rows = occurrences samples) (path : String) :
    r.countOf path = countUnder path samples := by
  rw [countOf, rows, occurrences_eq_map, List.map_map]
  refine (congrArg (·.getD 0) (Fields.lookup_map_names (countUnder · samples) _ path)).trans ?_
  split
  · rfl
  · next absent =>
    rw [countUnder, under_eq_nil absent]
    rfl

theorem valuesOf_eq (rows : r.rows = occurrences samples) (path : String) :
    r.valuesOf path = valuesUnder path samples := by
  rw [valuesOf, rows, occurrences_eq_map, List.map_map]
  refine (congrArg (·.getD []) (Fields.lookup_map_names (valuesUnder · samples) _ path)).trans ?_
  split
  · rfl
  · next absent =>
    rw [valuesUnder, under_eq_nil absent]
    rfl

theorem joins_of_rows (total : r.total = (samples ++ others).length)
    (rows : r.rows = occurrences (samples ++ others)) (firstTotal : these.total = samples.length)
    (first : these.rows = occurrences samples) (secondTotal : those.total = others.length)
    (second : those.rows = occurrences others) : r.Joins these those where
  paths := by
    rw [paths_eq rows, paths_eq first, paths_eq second]
    exact listedPaths_append samples others
  count path := by
    rw [countOf_eq rows, countOf_eq first, countOf_eq second]
    exact countUnder_append path samples others
  values path := by
    rw [valuesOf_eq rows, valuesOf_eq first, valuesOf_eq second]
    exact valuesUnder_append path samples others
  total := by rw [total, firstTotal, secondTotal, List.length_append]

theorem tallies_of_rows
    (names : ∀ schemas ∈ samples, ∀ s ∈ schemas, ∀ t ∈ s.nodes, (Fields.names t.properties).Nodup)
    (total : r.total = samples.length) (rows : r.rows = occurrences samples)
    (required : r.required = (r.rows.filter fun row => row.count == row.total).map Occurrence.path)
    (optional : r.optional =
      (r.rows.filter fun row => row.count != row.total).map Occurrence.path) :
    r.Tallies samples := by
  have counted : ∀ row ∈ r.rows, row.count = countUnder row.path samples ∧ row.total = r.total ∧
      1 ≤ row.count := by
    intro row hrow
    rw [rows] at hrow
    obtain ⟨hpath, hcount, htotal, -⟩ := mem_occurrences_iff.mp hrow
    obtain ⟨⟨path, values⟩, hmem, rfl⟩ := List.mem_map.mp hpath
    refine ⟨hcount, htotal.trans total.symm, ?_⟩
    rw [hcount]
    exact List.length_pos_of_mem (Fields.mem_under.mpr hmem)
  refine ⟨total, fun path => ?_, ?_, fun row hrow => ?_, fun row hrow => ?_, ?_, ?_⟩
  · rw [paths_eq rows, mem_listedPaths_iff_hasPath names]
  · rw [paths_eq rows]
    exact Fields.nodup_firstSeen _
  · rw [(counted row hrow).1, countUnder_eq_countP names]
  · obtain ⟨hcount, htotal, positive⟩ := counted row hrow
    refine ⟨htotal, positive, ?_⟩
    rw [hcount, total, countUnder_eq_countP names]
    exact List.countP_le_length
  · rw [required]
    refine congrArg (List.map Occurrence.path) (List.filter_congr fun row hrow => ?_)
    rw [(counted row hrow).2.1]
    rfl
  · rw [optional]
    refine congrArg (List.map Occurrence.path) (List.filter_congr fun row hrow => ?_)
    rw [(counted row hrow).2.1, decide_not]
    rfl

end OccurrenceReport

/-! ### Analyses -/

theorem report_of_analyze {config : Config} {samples : List (List Schema)} {r : OccurrenceReport}
    (h : analyze config samples = .ok r) :
    r.total = samples.length ∧ r.rows = occurrences samples ∧
      r.required = (r.rows.filter fun row => row.count == row.total).map Occurrence.path ∧
      r.optional = (r.rows.filter fun row => row.count != row.total).map Occurrence.path := by
  rw [analyze] at h
  split at h
  · obtain ⟨candidates, -, h⟩ := Fault.bind_eq_ok_iff.mp h
    cases Fault.pure_eq_ok_iff.mp h
    exact ⟨rfl, rfl, rfl, rfl⟩
  · cases h

/-- The limits for closed sets are numbers. -/
structure Config.NumericLimits (config : Config) : Prop where
  min : ∃ x, config.enumMinValues.number? = some x
  max : ∃ x, config.enumMaxValues.number? = some x

theorem exists_admitsEnum {config : Config} (limits : config.NumericLimits) (count : Nat) :
    ∃ admitted, config.admitsEnum count = .ok admitted := by
  obtain ⟨least, hleast⟩ := limits.min
  obtain ⟨greatest, hgreatest⟩ := limits.max
  rw [Config.admitsEnum, Json.atMost?_of_numbers hleast rfl, Json.atMost?_of_numbers rfl hgreatest]
  cases decide (least ≤ Dyadic.ofInt count) with
  | true => exact ⟨_, rfl⟩
  | false => exact ⟨_, rfl⟩

theorem exists_enumCandidates {config : Config} (limits : config.NumericLimits)
    (rows : List Occurrence) : ∃ candidates, enumCandidates config rows = .ok candidates := by
  induction rows with
  | nil => exact ⟨[], rfl⟩
  | cons row rest ih =>
    obtain ⟨admitted, hadmitted⟩ := exists_admitsEnum limits row.values.length
    obtain ⟨candidates, hcandidates⟩ := ih
    rw [enumCandidates, hadmitted, hcandidates]
    exact ⟨_, rfl⟩

theorem exists_analyze_of_numeric {config : Config} (limits : config.NumericLimits)
    {samples : List (List Schema)}
    (walkable : ∀ schemas ∈ samples, ∀ s ∈ schemas, s.walkable = true) :
    ∃ r, analyze config samples = .ok r := by
  obtain ⟨candidates, hcandidates⟩ := exists_enumCandidates limits (occurrences samples)
  exact (exists_analyze_of_candidates walkable hcandidates).imp fun _ h => h.1

theorem loadSamplesFrom_nodes (refPrefix : Json) (i : Nat) (nodes : List Schema) :
    loadSamplesFrom refPrefix i (nodes.map .node) = .ok (some nodes) := by
  induction nodes generalizing i with
  | nil => rfl
  | cons s rest ih =>
    rw [List.map_cons, loadSamplesFrom, Sample.load, ih]
    rfl

theorem analyzeSamples_nodes (config : Config) (nodes : List Schema) :
    analyzeSamples config (nodes.map .node) = analyze config (nodes.map fun s => [s]) := by
  rw [analyzeSamples, loadSamples, loadSamplesFrom_nodes]
  rfl

/-- The reports of an analysis add up. A sample is given by its schemas, and the names of the
properties of an object are distinct. -/
structure Additive {α : Type} (config : Config) (schemas : α → List Schema)
    (analysis : List α → Except Fault OccurrenceReport) : Prop where
  returns : config.NumericLimits → ∀ samples : List α,
    (∀ sample ∈ samples, ∀ s ∈ schemas sample, s.walkable = true) → ∃ r, analysis samples = .ok r
  tallies : ∀ (samples : List α) (r : OccurrenceReport), analysis samples = .ok r →
    (∀ sample ∈ samples, ∀ s ∈ schemas sample, ∀ t ∈ s.nodes, (Fields.names t.properties).Nodup) →
      r.Tallies (samples.map schemas)
  joins : ∀ (samples others : List α) (r these those : OccurrenceReport),
    analysis (samples ++ others) = .ok r → analysis samples = .ok these →
      analysis others = .ok those → r.Joins these those

theorem additive_of_eq {α : Type} {config : Config} {schemas : α → List Schema}
    {analysis : List α → Except Fault OccurrenceReport}
    (eq : ∀ samples, analysis samples = analyze config (samples.map schemas)) :
    Additive config schemas analysis where
  returns limits samples walkable := by
    rw [eq]
    exact exists_analyze_of_numeric limits (List.forall_mem_map.mpr walkable)
  tallies samples r h names := by
    rw [eq] at h
    obtain ⟨total, rows, required, optional⟩ := report_of_analyze h
    exact OccurrenceReport.tallies_of_rows (List.forall_mem_map.mpr names) total rows required
      optional
  joins samples others r these those h first second := by
    rw [eq] at h first second
    rw [List.map_append] at h
    obtain ⟨total, rows, -⟩ := report_of_analyze h
    obtain ⟨firstTotal, first, -⟩ := report_of_analyze first
    obtain ⟨secondTotal, second, -⟩ := report_of_analyze second
    exact OccurrenceReport.joins_of_rows total rows firstTotal first secondTotal second

/-- Reports on samples add up, whether a sample is one schema or a snapshot. -/
theorem analyses_additive (config : Config) :
    Additive config (fun s => [s]) (fun nodes => analyzeSamples config (nodes.map .node)) ∧
      Additive config Snapshot.schemas (analyzeSnapshots config) :=
  ⟨additive_of_eq (analyzeSamples_nodes config), additive_of_eq fun _ => rfl⟩

/-- A call whose request and response have a field of one name. -/
def call : Snapshot where
  request := some (.object [("id", .number { exemplar := .int 1 })] [] none (.bool false))
  response := some (.object [("id", .string { exemplar := .str "a" }),
    ("tags", .array (some (.object [("name", .string {})] [] none (.bool false))) {})] [] none
    (.bool false))

/-- A call without a response, whose request has that field too, with a value that equals `1`. -/
def laterCall : Snapshot where
  request := some (.object [("flag", .boolean {}), ("id", .boolean { exemplar := .bool true })] []
    none (.bool false))

theorem analyses_additive_calls :
    ∃ r these those, analyzeSnapshots {} ([call] ++ [laterCall]) = .ok r ∧
      analyzeSnapshots {} [call] = .ok these ∧ analyzeSnapshots {} [laterCall] = .ok those ∧
      r.Joins these those ∧ r.Tallies ([call, laterCall].map Snapshot.schemas) := by
  have additive := (analyses_additive {}).2
  have limits : Config.NumericLimits {} := ⟨⟨_, rfl⟩, ⟨_, rfl⟩⟩
  obtain ⟨r, hr⟩ := additive.returns limits ([call] ++ [laterCall]) (by decide)
  obtain ⟨these, hthese⟩ := additive.returns limits [call] (by decide)
  obtain ⟨those, hthose⟩ := additive.returns limits [laterCall] (by decide)
  exact ⟨r, these, those, hr, hthese, hthose, additive.joins _ _ r these those hr hthese hthose,
    additive.tallies _ r hr (by decide)⟩

end Schemata

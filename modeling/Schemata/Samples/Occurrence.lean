import Schemata.Samples.Snapshot

/-!
# Field occurrence

Samples are flattened to the paths of their fields, `user.name` or `items[].id`; of each path it is
counted in how many samples it occurs, and its distinct examples are collected.

## Main definitions

* `Schema.sightings`: the paths of a schema, with the example at each.
* `Occurrence`, `OccurrenceReport`.
* `analyze`: the report on a list of samples, each given by one or more schemas.
* `analyzeSamples`, `analyzeSnapshots`.
* `share?`, `shareOf`: the share of a count in a total.

## Implementation notes

A sample counts once for a path, in however many of its schemas the path occurs. Paths are listed in
the order in which they are first seen, an object before its properties.
-/

namespace Schemata

namespace Schema

/-- The path of the property `name` at `place`. -/
def propertyPath (place name : String) : String :=
  if place = "" then name else s!"{place}.{name}"

mutual

def sightings (place : String) : Schema → List (String × Json)
  | .object properties _ _ _ => sightingsOfFields place properties
  | .array items _ => sightingsOfOption s!"{place}[]" items
  | .string _ | .number _ | .boolean _ | .oneOf _ | .allOf _ | .ref _ | .empty | .abstract => []

def sightingsOfFields (place : String) : List (String × Schema) → List (String × Json)
  | [] => []
  | (name, s) :: rest =>
    (propertyPath place name, s.exemplar) :: s.sightings (propertyPath place name)
      ++ sightingsOfFields place rest

def sightingsOfOption (place : String) : Option Schema → List (String × Json)
  | none => []
  | some s => s.sightings place

end

end Schema

structure Occurrence where
  path : String
  /-- In how many samples the path occurs, of how many. -/
  count : Nat
  total : Nat
  /-- The distinct examples, in the order of first sight. -/
  values : List Json

structure OccurrenceReport where
  total : Nat
  required : List String
  optional : List String
  enumCandidates : List (String × List Json)
  rows : List Occurrence

namespace OccurrenceReport

/-- The report on no samples. -/
def ofNothing : OccurrenceReport := ⟨0, [], [], [], []⟩

end OccurrenceReport

/-- The paths of one sample, each with its distinct examples. -/
def seenIn (schemas : List Schema) : Fields (List Json) :=
  (Fields.gather (schemas.flatMap (Schema.sightings ""))).map fun (path, values) =>
    (path, Json.distinct (values.filter (!·.isNull)))

def occurrences (samples : List (List Schema)) : List Occurrence :=
  (Fields.gather (samples.flatMap seenIn)).map fun (path, seen) =>
    { path := path
      count := seen.length
      total := samples.length
      values := Json.distinct seen.flatten }

/-- The paths with a number of distinct examples that makes a closed set. -/
def enumCandidates (config : Config) :
    List Occurrence → Except Fault (List (String × List Json))
  | [] => .ok []
  | row :: rest => do
    let admitted ← config.admitsEnum row.values.length
    let candidates ← enumCandidates config rest
    return if admitted then (row.path, row.values) :: candidates else candidates

def analyze (config : Config) (samples : List (List Schema)) : Except Fault OccurrenceReport := do
  if samples.all fun schemas => schemas.all Schema.walkable then
    let rows := occurrences samples
    return {
      total := samples.length
      required := (rows.filter fun row => row.count == row.total).map Occurrence.path
      optional := (rows.filter fun row => row.count != row.total).map Occurrence.path
      enumCandidates := ← enumCandidates config rows
      rows := rows }
  else throw .noKind

/-- Samples that cannot be loaded give the report on no samples. -/
def analyzeSamples (config : Config) (samples : List Sample) : Except Fault OccurrenceReport := do
  match ← loadSamples config.refPrefix samples with
  | none => return .ofNothing
  | some schemas => analyze config (schemas.map fun s => [s])

def analyzeSnapshots (config : Config) (snapshots : List Snapshot) :
    Except Fault OccurrenceReport :=
  analyze config (snapshots.map Snapshot.schemas)

/-! ### Shares -/

/-- The share of a count in a total, as a double; no share of nothing. -/
def share? (count total : Int) : Option Double :=
  if total = 0 then some (Double.zero false) else Double.ofQuotient? count total

def orTooLarge : Option Double → Except Fault Double
  | some d => .ok d
  | none => .error .tooLarge

/-- The share of one number in another. Integers, which booleans count as, are divided as they are;
beside a double they are rounded to doubles first. -/
def shareOf (count total : Json) : Except Fault Double :=
  if !total.truthy then .ok (Double.zero false)
  else match count.integer?, total.integer? with
    | some count, some total => orTooLarge (share? count total)
    | _, _ =>
      if count.number?.isSome && total.number?.isSome then do
        let count ← orTooLarge count.toDouble?
        let total ← orTooLarge total.toDouble?
        orTooLarge (count.over? total)
      else .error .illTyped

namespace Occurrence

def share (row : Occurrence) : Double :=
  (share? row.count row.total).getD (Double.zero false)

/-- The share as a whole percentage, through the double nearest to a hundred times the share. -/
def percentage (row : Occurrence) : String :=
  let (num, den) := row.share.quotient
  ((Double.nearest? row.share.negative (num * 100) den).getD (Double.zero false)).toWholeText

end Occurrence

end Schemata

import Schemata.Samples.Enrich
import Schemata.Samples.Sample
import Schemata.Config
import Schemata.Fields

/-!
# Merging samples

Schemas that were observed for the same value are merged into one schema that covers them all.

* A property that every object has is required; properties of one name are merged.
* Strings with few distinct values become a closed set; numbers get a range from their examples.
* Schemas of different kinds become alternatives, as they are.

## Main definitions

* `merge`: the schema of a list of schemas.
* `mergeSamples`: the same for samples; samples that cannot be loaded give an object about which
  nothing is known.
* `foldSamples`: merging one sample after the other into what there is.

## Main results

* `heightOfAll_group_lt`, `heightOfAll_additional_lt`, `heightOfAll_items_lt`: merging goes down the
  trees, and so ends.
* `merge_nil`, `merge_singleton`, `merge_cons_cons`: the equations of merging.
-/

namespace Schemata

/-! ### Plain values -/

/-- Whether a number of distinct values lies within the limits for a closed set. The upper limit is
not looked at when the lower one is not reached. -/
def Config.admitsEnum (config : Config) (count : Nat) : Except Fault Bool :=
  match Json.atMost? config.enumMinValues (.int count) with
  | none => .error .illTyped
  | some false => .ok false
  | some true =>
    match Json.atMost? (.int count) config.enumMaxValues with
    | none => .error .illTyped
    | some within => .ok within

/-- The examples of samples, each once. -/
def observedValues (samples : List Schema) : List Json :=
  Json.distinct ((samples.map Schema.exemplar).filter (!·.isNull))

/-- The examples, and then the members of closed sets. -/
def candidateValues (samples : List Schema) : List Json :=
  (samples.flatMap fun s => s.enum.getD []).foldl Json.addNew (observedValues samples)

/-- The format that all samples have, if there is one; a list or an object is no format. -/
def commonFormat (samples : List Schema) : Except Fault Json :=
  let formats := samples.map Schema.format
  if formats.any fun f => match f with
    | .arr _ | .obj _ => true
    | _ => false
  then .error .illTyped
  else match formats with
    | [] => .ok .null
    | first :: rest => .ok (if rest.all first.same then first else .null)

/-- Values in the order of their spelling; values spelt alike keep their order. -/
def sortBySpelling (values : List Json) : List Json :=
  values.mergeSort fun a b => !(b.display < a.display)

def leastOf (v : Json) (rest : List Json) : Json :=
  rest.foldl (fun least w => if least.exceeds? w = some true then w else least) v

def greatestOf (v : Json) (rest : List Json) : Json :=
  rest.foldl (fun greatest w => if w.exceeds? greatest = some true then w else greatest) v

/-- The least and the greatest number of a list of values, `null` when it has no number. -/
def numericRange (values : List Json) : Json × Json :=
  match values.filter Json.isNumber with
  | [] => (.null, .null)
  | v :: rest => (leastOf v rest, greatestOf v rest)

def mergeStrings (config : Config) (samples : List Schema) (format : Json) (nullable : Bool) :
    Except Fault Schema := do
  let candidates := candidateValues samples
  if ← config.admitsEnum candidates.length then
    StringFacets.node
      { format := format
        enum := some (sortBySpelling candidates)
        nullable := .bool nullable }
  else
    StringFacets.node
      { format := format
        exemplar := (observedValues samples).headD .null
        nullable := .bool nullable }

/-- Merges nodes that are all of one kind of plain values. -/
def mergePrimitives (config : Config) (kind : Kind) (samples : List Schema) :
    Except Fault Schema := do
  let values := observedValues samples
  let nullable := samples.any fun s => s.nullable.truthy
  let format ← commonFormat samples
  match kind with
  | .string => mergeStrings config samples format nullable
  | .boolean => return .boolean { exemplar := values.headD .null, nullable := .bool nullable }
  | _ =>
    let (minimum, maximum) := numericRange values
    NumberFacets.node
      { integer := .bool (kind = .integer)
        format := format
        minimum := minimum
        maximum := maximum
        exemplar := values.headD .null
        nullable := .bool nullable }

/-! ### Single samples -/

/-- A schema that is not merged with others: with examples, if the settings ask for them. -/
def finish (config : Config) (s : Schema) : Except Fault Schema :=
  if !config.includeExamples.truthy then .ok s
  else if s.walkable then .ok s.enrich
  else .error .noKind

def finishAll (config : Config) : List Schema → Except Fault (List Schema)
  | [] => .ok []
  | s :: rest => do
    let s ← finish config s
    return s :: (← finishAll config rest)

/-! ### What lies below the samples -/

/-- The properties of samples under each name. -/
def propertyGroups (samples : List Schema) : Fields (List Schema) :=
  Fields.gather (samples.flatMap Schema.properties)

/-- The names that all of `total` samples have. -/
def sharedNames (total : Nat) (groups : Fields (List Schema)) : List Json :=
  (groups.filter fun group => group.2.length == total).map fun group => .str group.1

private theorem heightOfAll_lt_of_below {samples below : List Schema}
    (h : ∀ t ∈ below, ∃ s ∈ samples, t.height < s.height) (hne : samples ≠ []) :
    Schema.heightOfAll below < Schema.heightOfAll samples := by
  apply Schema.heightOfAll_lt_of_forall
  · obtain ⟨s, rest, rfl⟩ := List.exists_cons_of_ne_nil hne
    have : 0 < s.height := by cases s <;> simp [Schema.height]
    have : s ∈ s :: rest := List.mem_cons_self
    have := Schema.height_le_heightOfAll this
    omega
  · intro t ht
    obtain ⟨s, hs, hlt⟩ := h t ht
    exact Nat.lt_of_lt_of_le hlt (Schema.height_le_heightOfAll hs)

theorem heightOfAll_group_lt {samples : List Schema} {group : String × List Schema}
    (hne : samples ≠ []) (h : group ∈ propertyGroups samples) :
    Schema.heightOfAll group.2 < Schema.heightOfAll samples := by
  refine heightOfAll_lt_of_below (fun t ht => ?_) hne
  obtain ⟨s, hs, hp⟩ := List.mem_flatMap.1 (Fields.mem_of_mem_gather h ht)
  exact ⟨s, hs, Schema.height_lt_of_mem_properties hp⟩

theorem heightOfAll_additional_lt {samples : List Schema} (hne : samples ≠ []) :
    Schema.heightOfAll (samples.filterMap Schema.additional) < Schema.heightOfAll samples := by
  refine heightOfAll_lt_of_below (fun t ht => ?_) hne
  obtain ⟨s, hs, ha⟩ := List.mem_filterMap.1 ht
  exact ⟨s, hs, Schema.height_lt_of_additional ha⟩

theorem heightOfAll_items_lt {samples : List Schema} (hne : samples ≠ []) :
    Schema.heightOfAll (samples.filterMap Schema.items) < Schema.heightOfAll samples := by
  refine heightOfAll_lt_of_below (fun t ht => ?_) hne
  obtain ⟨s, hs, ha⟩ := List.mem_filterMap.1 ht
  exact ⟨s, hs, Schema.height_lt_of_items ha⟩

/-! ### Merging -/

private theorem mapM_attach {α β : Type} (xs : List α) (f : α → Except Fault β) :
    (xs.attach.mapM fun x => f x.val) = xs.mapM f := by
  simp

def merge (config : Config) : List Schema → Except Fault Schema
  | [] => .ok .anyObject
  | [s] => finish config s
  | first :: second :: others => do
    let samples := first :: second :: others
    if samples.any (·.kind = .abstract) then throw .noKind
    else if samples.any (·.kind ≠ first.kind) then return .oneOf (← finishAll config samples)
    else if first.kind = .object then
      let groups := propertyGroups samples
      let properties ← groups.attach.mapM fun group => do
        return (group.val.1, ← merge config group.val.2)
      let further := samples.filterMap Schema.additional
      let additional ← if further.isEmpty then pure none else some <$> merge config further
      Schema.objectNode properties (sharedNames samples.length groups) additional
        (.bool (samples.any fun s => s.nullable.truthy))
    else if first.kind = .array then
      let items := samples.filterMap Schema.items
      if items.isEmpty then return .array none {}
      else return .array (some (← merge config items)) {}
    else if first.kind.isPrimitive then mergePrimitives config first.kind samples
    else return .oneOf (← finishAll config samples)
termination_by samples => Schema.heightOfAll samples
decreasing_by
  · exact heightOfAll_group_lt (List.cons_ne_nil _ _) group.property
  · exact heightOfAll_additional_lt (List.cons_ne_nil _ _)
  · exact heightOfAll_items_lt (List.cons_ne_nil _ _)

theorem merge_nil (config : Config) : merge config [] = .ok .anyObject := by rw [merge]

theorem merge_singleton (config : Config) (s : Schema) : merge config [s] = finish config s := by
  rw [merge]

theorem merge_cons_cons (config : Config) (first second : Schema) (others : List Schema) :
    merge config (first :: second :: others) = (do
      let samples := first :: second :: others
      if samples.any (·.kind = .abstract) then throw .noKind
      else if samples.any (·.kind ≠ first.kind) then return .oneOf (← finishAll config samples)
      else if first.kind = .object then
        let groups := propertyGroups samples
        let properties ← groups.mapM fun group => do return (group.1, ← merge config group.2)
        let further := samples.filterMap Schema.additional
        let additional ← if further.isEmpty then pure none else some <$> merge config further
        Schema.objectNode properties (sharedNames samples.length groups) additional
          (.bool (samples.any fun s => s.nullable.truthy))
      else if first.kind = .array then
        let items := samples.filterMap Schema.items
        if items.isEmpty then return .array none {}
        else return .array (some (← merge config items)) {}
      else if first.kind.isPrimitive then mergePrimitives config first.kind samples
      else return .oneOf (← finishAll config samples)) := by
  rw [merge]
  simp only [mapM_attach _ fun group : String × List Schema => do
    return (group.1, ← merge config group.2)]

def mergeSamples (config : Config) (samples : List Sample) : Except Fault Schema := do
  match ← loadSamples config.refPrefix samples with
  | none => return .anyObject
  | some schemas => merge config schemas

/-- The results of merging samples one after the other; a sample that is not to be had, or cannot be
merged, leaves what was merged before as it is. -/
def foldSamplesFrom (config : Config) (before : Option Schema) :
    List (Except Fault Sample) → List (Except Fault Schema)
  | [] => []
  | sample :: rest =>
    let result := sample >>= fun sample =>
      mergeSamples config ((before.map Sample.node).toList ++ [sample])
    let after := match result with
      | .ok s => some s
      | .error _ => before
    result :: foldSamplesFrom config after rest

def foldSamples (config : Config) (samples : List (Except Fault Sample)) :
    List (Except Fault Schema) :=
  foldSamplesFrom config none samples

end Schemata

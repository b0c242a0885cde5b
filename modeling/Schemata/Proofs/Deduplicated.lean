import Schemata.Proofs.Number.Value
import Schemata.Proofs.Merge.StringValues
import Schemata.Proofs.Occurrence.Candidates
import Schemata.Proofs.Schema.LoadFaults
import Schemata.Expression.Session

/-!
# Values that are kept once

In several places a list of values is gone through and of equal values the first is kept: where a
closed set is loaded, where it is defined or written as alternatives, where values are merged, and
under each path of a report. A constructor then asks that no value occurs twice. It asks in terms of
the equality that the list was gone through with, so all rests on that equality: on values in which
no object repeats a name it is an equivalence, and it compares what the values stand for, numbers of
whatever kind by the rational number they are.

## Main definitions

* `Json.value?`: the rational number that a value stands for.
* `Json.Deduplicates`: what a list is to keep of another.
* `KeptFrom`: the places, each with the values that reach it and those that it keeps.

## Main results

* `Json.equivalence_same`: equality is an equivalence.
* `Json.same_iff_value?`, `Json.same_obj_iff`: what equal numbers and equal objects are.
* `Json.deduplicates_distinct`: keeping first occurrences does what it is to do.
* `values_of_mem_occurrences`: keeping first occurrences sample by sample, and then over all
  samples, is keeping them once.
* `deduplicated_everywhere`: the equality, and with it each of the places.

## What is deliberately absent

No type is asked of the values: the closed set of a string may hold any, and so may its examples. An
empty list is no closed set; that a constructor refuses one has nothing to do with repeated values.
-/

namespace Schemata

namespace Json

/-! ### What equality compares -/

/-- The rational number that a value stands for; `false` and `true` stand for 0 and 1. -/
def value? : Json → Option ℚ
  | .bool b => some (if b then 1 else 0)
  | .int n => some n
  | .double d => some d.value
  | _ => none

theorem value?_eq_number? (v : Json) : v.value? = v.number?.map Dyadic.toRat := by
  cases v with
  | bool b => cases b <;> rfl
  | int n => exact congrArg some (Dyadic.toRat_intCast n).symm
  | double d => exact congrArg some d.toRat_toDyadic.symm
  | _ => rfl

/-- A number is equal to what stands for the same number, and to nothing else. -/
theorem same_iff_value? {v w : Json} {x : ℚ} (h : v.value? = some x) :
    v.same w = true ↔ w.value? = some x := by
  rw [value?_eq_number?, Option.map_eq_some_iff] at h
  obtain ⟨y, hy, rfl⟩ := h
  rw [same_of_number hy, beq_iff_eq, value?_eq_number?]
  constructor
  · intro hw
    rw [hw, Option.map_some]
  · intro hw
    obtain ⟨z, hz, heq⟩ := Option.map_eq_some_iff.mp hw
    rw [hz, Dyadic.toRat_inj.mp heq]

theorem same_arr_iff {items others : List Json} :
    (arr items).same (arr others) = true ↔
      List.Forall₂ (fun v w => v.same w = true) items others := by
  rw [same, sameItems_iff]

/-- Objects are equal when the fields of one can be brought into the order of the other's, so that
fields in one place have one name and equal values. -/
theorem same_obj_iff {fields others : List (String × Json)} (wf : (obj fields).WellFormed)
    (wf' : (obj others).WellFormed) :
    (obj fields).same (obj others) = true ↔
      ∃ ordered : List (String × Json), ordered.Perm others ∧
        List.Forall₂ (fun field other => field.1 = other.1 ∧ field.2.same other.2 = true)
          fields ordered := by
  have nodup := (wellFormed_obj_iff.mp wf).1
  have nodup' := (wellFormed_obj_iff.mp wf').1
  rw [same, Bool.and_eq_true, beq_iff_eq, sameFields_iff]
  constructor
  · rintro ⟨length, found⟩
    -- the fields of the other object, looked up in the order of the first
    let ordered := fields.map fun field => (field.1, (others.lookup field.1).getD .null)
    have names : ordered.map Prod.fst = fields.map Prod.fst := by
      rw [List.map_map]
      rfl
    have distinct : ordered.Nodup := .of_map Prod.fst (names ▸ nodup)
    have subset : ordered ⊆ others := by
      refine fun other hother => ?_
      obtain ⟨field, hf, rfl⟩ := List.mem_map.mp hother
      obtain ⟨w, hw, -⟩ := found field hf
      rw [hw]
      exact Fields.mem_of_lookup_eq_some hw
    have enough : others.length ≤ ordered.length := by rw [List.length_map, length]
    refine ⟨ordered, (List.subperm_of_subset distinct subset).perm_of_length_le enough, ?_⟩
    rw [List.forall₂_map_right_iff, List.forall₂_same]
    intro field hf
    obtain ⟨w, hw, same⟩ := found field hf
    rw [hw]
    exact ⟨rfl, same⟩
  · rintro ⟨ordered, perm, pairs⟩
    refine ⟨pairs.length_eq.trans perm.length_eq, fun field hf => ?_⟩
    obtain ⟨other, hother, name, same⟩ := exists_mem_of_forall₂ pairs hf
    refine ⟨other.2, ?_, same⟩
    rw [name]
    exact Fields.lookup_eq_some_of_mem nodup' (perm.mem_iff.mp hother)

/-- On well-formed values, equality is an equivalence. -/
theorem equivalence_same :
    Equivalence fun v w : {v : Json // v.WellFormed} => v.val.same w.val = true where
  refl v := same_refl v.property
  symm {v w} := same_symm v.property w.property
  trans := same_trans

/-! ### Keeping first occurrences -/

/-- What is kept of a list of values when none is to be kept twice: it passes the check of the
constructors, each value has an equal among those kept, which are in their order and of equal values
the first, and nothing is left to be done a second time. -/
structure Deduplicates (kept values : List Json) : Prop where
  checked : allDistinct kept = true
  represented : ∀ v ∈ values, ∃ w ∈ kept, v.same w = true
  sublist : kept.Sublist values
  first : ∀ v : Json, kept.find? v.same = values.find? v.same
  settled : distinct kept = kept

theorem deduplicates_distinct {values : List Json} (wf : ∀ v ∈ values, v.WellFormed) :
    Deduplicates (distinct values) values where
  checked := allDistinct_iff.mpr (apart_distinct values)
  represented v hv := isIn_iff.mp (isIn_distinct (same_refl (wf v hv)) hv)
  sublist := distinct_sublist values
  first v := find?_distinct v values
  settled := distinct_eq_self_iff.mpr (apart_distinct values)

/-! ### In several rounds -/

theorem foldl_addNew_distinct (seen values : List Json) :
    (distinct values).foldl addNew seen = values.foldl addNew seen := by
  rw [foldl_addNew_eq, foldl_addNew_eq seen values,
    distinct_eq_self_iff.mpr (apart_distinct values)]

/-- First occurrences can be kept list by list before they are kept of all. -/
theorem distinct_flatMap_distinct {α : Type} (f : α → List Json) (groups : List α) :
    distinct (groups.flatMap fun group => distinct (f group)) = distinct (groups.flatMap f) := by
  have from_seen : ∀ seen : List Json,
      (groups.flatMap fun group => distinct (f group)).foldl addNew seen =
        (groups.flatMap f).foldl addNew seen := by
    induction groups with
    | nil => exact fun _ => rfl
    | cons group rest ih =>
      intro seen
      rw [List.flatMap_cons, List.flatMap_cons, List.foldl_append, List.foldl_append,
        foldl_addNew_distinct, ih]
  exact from_seen []

end Json

/-! ### Closed sets -/

theorem enumEntry_of_values {fields : Fields Json} {values : List Json} (hne : values ≠ [])
    (h : Schema.entry "enum" fields = .arr values) :
    Schema.enumEntry fields = some (Json.distinct values) := by
  rw [Schema.enumEntry, h]
  cases values with
  | nil => exact absurd rfl hne
  | cons v rest => rfl

theorem node_of_distinct {values : List Json} (hne : values ≠ []) :
    StringFacets.node { enum := some (Json.distinct values) } =
      .ok (.string { enum := some (Json.distinct values) }) := by
  refine StringFacets.node_eq_ok_iff.mpr ⟨rfl, fun kept hkept => ?_, .inl rfl⟩
  obtain rfl := Option.some.inj hkept
  exact ⟨Json.distinct_ne_nil hne, Json.allDistinct_iff.mpr (Json.apart_distinct values)⟩

theorem closedSet_of_elements {v : Json} {values : List Json} (hne : values ≠ [])
    (h : v.elements? = some values) :
    Parser.closedSet v = .ok (.string { enum := some (Json.distinct values) }) := by
  rw [Parser.closedSet, h]
  exact node_of_distinct hne

/-! ### Reports -/

theorem eq_of_mem_seenIn {schemas : List Schema} {path : String} {kept : List Json}
    (h : (path, kept) ∈ seenIn schemas) : kept = Json.distinct (examplesAt path schemas) := by
  have found := Fields.lookup_eq_some_of_mem (nodup_names_seenIn schemas) h
  rw [lookup_seenIn] at found
  split at found
  · exact (Option.some.inj found).symm
  · cases found

/-- Under a path that a sample does not have, it has no examples either. -/
theorem flatten_under_seenIn (path : String) (schemas : List Schema) :
    (Fields.under path (seenIn schemas)).flatten = Json.distinct (examplesAt path schemas) := by
  rw [Fields.under_eq_toList_lookup (nodup_names_seenIn schemas), lookup_seenIn]
  split
  · exact List.flatten_singleton
  · next unlisted =>
    have nothing : Fields.under path (schemas.flatMap (Schema.sightings "")) = [] := by
      refine List.eq_nil_iff_forall_not_mem.mpr fun v hv => unlisted ?_
      exact List.mem_map_of_mem (Fields.mem_under.mp hv)
    rw [examplesAt, nothing]
    rfl

/-- The values of a row are the first occurrences among all examples of its path, although each
sample has kept its own before. -/
theorem values_of_mem_occurrences {samples : List (List Schema)} {row : Occurrence}
    (h : row ∈ occurrences samples) :
    row.values = Json.distinct (samples.flatMap (examplesAt row.path)) := by
  obtain ⟨-, -, -, hvalues⟩ := mem_occurrences_iff.mp h
  have rounds : ∀ samples : List (List Schema),
      (Fields.under row.path (samples.flatMap seenIn)).flatten =
        samples.flatMap fun schemas => Json.distinct (examplesAt row.path schemas) := by
    intro samples
    induction samples with
    | nil => rfl
    | cons schemas rest ih =>
      rw [List.flatMap_cons, Fields.under_append, List.flatten_append, ih, flatten_under_seenIn,
        List.flatMap_cons]
  rw [hvalues, rounds, Json.distinct_flatMap_distinct]

/-! ### Everywhere -/

/-- Of the values that reach one of the places where first occurrences are kept, that place keeps
`kept`. -/
inductive KeptFrom : List Json → List Json → Prop
  | loaded {fields : Fields Json} {values kept : List Json}
    (listed : Schema.entry "enum" fields = .arr values)
    (closes : Schema.enumEntry fields = some kept) : KeptFrom values kept
  | defined {v : Json} {values kept : List Json} {f : StringFacets}
    (listed : v.elements? = some values) (defines : Parser.closedSet v = .ok (.string f))
    (closes : f.enum = some kept) : KeptFrom values kept
  | literals {texts : List (List Char)} {f : StringFacets} {kept : List Json}
    (reads : Form.literalsOf texts = .string f) (closes : f.enum = some kept) :
    KeptFrom (texts.map fun text => .str (String.ofList text)) kept
  | observed (samples : List Schema) :
    KeptFrom ((samples.map Schema.exemplar).filter (!·.isNull)) (observedValues samples)
  | candidates (samples : List Schema) :
    KeptFrom (stringValues samples) (candidateValues samples)
  | seen {schemas : List Schema} {path : String} {kept : List Json}
    (sees : (path, kept) ∈ seenIn schemas) : KeptFrom (examplesAt path schemas) kept
  | reported {samples : List (List Schema)} {row : Occurrence}
    (reports : row ∈ occurrences samples) :
    KeptFrom (samples.flatMap (examplesAt row.path)) row.values

theorem KeptFrom.eq_distinct {values kept : List Json} (h : KeptFrom values kept) :
    kept = Json.distinct values := by
  cases h with
  | loaded listed closes =>
    rw [Schema.enumEntry, listed] at closes
    split at closes
    · cases closes
    · next given =>
      cases given
      exact (Option.some.inj closes).symm
    · cases closes
  | defined listed defines closes =>
    rw [Parser.closedSet, listed] at defines
    obtain ⟨heq, -⟩ := StringFacets.node_eq_ok_iff.mp defines
    obtain rfl := Schema.string.inj heq
    exact (Option.some.inj closes).symm
  | literals reads closes =>
    obtain rfl := Schema.string.inj reads
    exact (Option.some.inj closes).symm
  | observed samples => rfl
  | candidates samples => exact candidateValues_eq samples
  | seen sees => exact eq_of_mem_seenIn sees
  | reported reports => exact values_of_mem_occurrences reports

/-- On well-formed values equality is an equivalence. It compares numbers by what they stand for,
lists item by item, and objects without regard to the order of their fields. Hence what is kept at
any of the places deduplicates the well-formed values that reach it; sorting what is kept of the
values of strings leaves it accepted. A list that is not empty is never refused for its repeated
values where a closed set is loaded or defined. -/
theorem deduplicated_everywhere :
    (Equivalence fun v w : {v : Json // v.WellFormed} => v.val.same w.val = true) ∧
      (∀ (v w : Json) (x : ℚ), v.value? = some x → (v.same w = true ↔ w.value? = some x)) ∧
      (∀ items others : List Json, (Json.arr items).same (.arr others) = true ↔
        List.Forall₂ (fun v w => v.same w = true) items others) ∧
      (∀ fields others : List (String × Json), (Json.obj fields).WellFormed →
        (Json.obj others).WellFormed →
        ((Json.obj fields).same (.obj others) = true ↔
          ∃ ordered : List (String × Json), ordered.Perm others ∧
            List.Forall₂ (fun field other => field.1 = other.1 ∧ field.2.same other.2 = true)
              fields ordered)) ∧
      (∀ values kept : List Json, KeptFrom values kept → (∀ v ∈ values, v.WellFormed) →
        Json.Deduplicates kept values ∧ Json.allDistinct (sortBySpelling kept) = true) ∧
      (∀ (fields : Fields Json) (values : List Json), Schema.entry "enum" fields = .arr values →
        values ≠ [] → ∃ kept, Schema.enumEntry fields = some kept) ∧
      (∀ (v : Json) (values : List Json), v.elements? = some values → values ≠ [] →
        ∃ f kept, Parser.closedSet v = .ok (.string f) ∧ f.enum = some kept) := by
  refine ⟨Json.equivalence_same, fun v w x => Json.same_iff_value?,
    fun items others => Json.same_arr_iff, fun fields others => Json.same_obj_iff,
    fun values kept h wf => ?_, fun fields values listed hne => ?_, fun v values listed hne => ?_⟩
  · obtain rfl := h.eq_distinct
    have sorted : Json.allDistinct (sortBySpelling (Json.distinct values)) = true :=
      Json.allDistinct_of_perm (fun v hv => wf v (Json.mem_of_mem_distinct hv))
        (sortBySpelling_perm _) (Json.apart_distinct values)
    exact ⟨Json.deduplicates_distinct wf, sorted⟩
  · exact ⟨_, enumEntry_of_values hne listed⟩
  · exact ⟨_, _, closedSet_of_elements hne listed, rfl⟩

/-- One number as an integer, a boolean and a double, and one object in two orders. -/
def respelt : List Json :=
  [.int 1, .bool true, .double ⟨false, 4503599627370496, -52, by decide⟩,
    .obj [("x", .int 1), ("y", .null)], .obj [("y", .null), ("x", .bool true)]]

theorem deduplicated_everywhere_respelt :
    (Json.int 1).same (.double ⟨false, 4503599627370496, -52, by decide⟩) = true ∧
      (Json.obj [("x", .int 1), ("y", .null)]).same (.obj [("y", .null), ("x", .bool true)])
        = true ∧
      Json.Deduplicates [.int 1, .obj [("x", .int 1), ("y", .null)]] respelt ∧
      (∃ kept, Schema.enumEntry [("enum", .arr respelt)] = some kept) ∧
      (∃ f kept, Parser.closedSet (.arr respelt) = .ok (.string f) ∧ f.enum = some kept) := by
  obtain ⟨-, numbers, -, objects, places, loads, defines⟩ := deduplicated_everywhere
  have wf : ∀ v ∈ respelt, v.WellFormed := by
    simp [respelt, Json.WellFormed, Json.FieldsWellFormed]
  have one : (Json.double ⟨false, 4503599627370496, -52, by decide⟩).value? = some 1 := by
    norm_num [Json.value?, Double.value, Double.magnitude]
  refine ⟨(numbers _ _ 1 rfl).mpr one, ?_, ?_, loads _ _ rfl (List.cons_ne_nil _ _),
    defines _ _ rfl (List.cons_ne_nil _ _)⟩
  · refine (objects _ _ (wf _ (by simp [respelt])) (wf _ (by simp [respelt]))).mpr ?_
    exact ⟨_, List.Perm.swap _ _ _, .cons ⟨rfl, rfl⟩ (.cons ⟨rfl, rfl⟩ .nil)⟩
  · have closes : Schema.enumEntry [("enum", .arr respelt)] =
        some [.int 1, .obj [("x", .int 1), ("y", .null)]] := by
      rfl
    exact (places respelt _ (.loaded rfl closes) wf).1

end Schemata

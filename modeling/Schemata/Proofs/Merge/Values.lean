import Schemata.Proofs.Json.Equivalence
import Schemata.Proofs.Json.Order
import Schemata.Proofs.Schema.Check

/-!
# Merging plain values

Nodes of plain values are merged by their examples: strings into a closed set or into one example,
numbers into the range of their examples.

## Main definitions

* `stringValues`: the values of which strings are merged.

## Main results

* `candidateValues_eq`, `isIn_candidateValues`: the candidates for a closed set are the distinct
  values of strings, so that none of these is lost.
* `numericRange_spec`: the range of a list of values bounds the numbers of the list, and is
  attained.
* `same_numericRange_of_counterparts`, `same_commonFormat_of_counterparts`: lists of which each has
  the numbers, or the formats, of the other have one range, or one format.
* `mergeStrings_cases`, `mergePrimitives_cases`: what comes of merging plain values.
-/

namespace Schemata

/-! ### Observed values -/

theorem mem_observedValues_given {samples : List Schema} {v : Json}
    (h : v ∈ observedValues samples) :
    ∃ s ∈ samples, s.exemplar = v ∧ v.isNull = false := by
  obtain ⟨hv, given⟩ := List.mem_filter.mp (Json.mem_of_mem_distinct h)
  obtain ⟨s, hs, he⟩ := List.mem_map.mp hv
  exact ⟨s, hs, he, by simpa using given⟩

theorem mem_observedValues {samples : List Schema} {v : Json} (h : v ∈ observedValues samples) :
    ∃ s ∈ samples, s.exemplar = v := by
  obtain ⟨s, hs, he, -⟩ := mem_observedValues_given h
  exact ⟨s, hs, he⟩

theorem isIn_observedValues {samples : List Schema} {s : Schema} (hs : s ∈ samples)
    (given : s.exemplar.isNull = false) (hrefl : s.exemplar.same s.exemplar = true) :
    s.exemplar.isIn (observedValues samples) = true := by
  refine Json.isIn_distinct hrefl (List.mem_filter.mpr ⟨List.mem_map_of_mem hs, ?_⟩)
  simp [given]

/-- The values of which strings are merged: the examples that are given, and then the members of
closed sets. -/
def stringValues (samples : List Schema) : List Json :=
  (samples.map Schema.exemplar).filter (!·.isNull) ++ samples.flatMap fun s => s.enum.getD []

theorem candidateValues_eq (samples : List Schema) :
    candidateValues samples = Json.distinct (stringValues samples) := by
  rw [candidateValues, observedValues, stringValues, Json.distinct, Json.distinct,
    List.foldl_append]

theorem mem_stringValues_iff {samples : List Schema} {v : Json} :
    v ∈ stringValues samples ↔ ∃ s ∈ samples,
      (s.exemplar = v ∧ v.isNull = false) ∨ ∃ values, s.enum = some values ∧ v ∈ values := by
  rw [stringValues, List.mem_append, List.mem_filter, List.mem_map, List.mem_flatMap,
    Bool.not_eq_true']
  constructor
  · rintro (⟨⟨s, hs, exemplar⟩, given⟩ | ⟨s, hs, hv⟩)
    · exact ⟨s, hs, .inl ⟨exemplar, given⟩⟩
    · cases enum : s.enum with
      | none => simp [enum] at hv
      | some values =>
        rw [enum] at hv
        exact ⟨s, hs, .inr ⟨values, enum, hv⟩⟩
  · rintro ⟨s, hs, ⟨exemplar, given⟩ | ⟨values, enum, hv⟩⟩
    · exact .inl ⟨⟨s, hs, exemplar⟩, given⟩
    · refine .inr ⟨s, hs, ?_⟩
      rw [enum]
      exact hv

theorem isIn_candidateValues {samples : List Schema} {v : Json} (hv : v ∈ stringValues samples)
    (hrefl : v.same v = true) : v.isIn (candidateValues samples) = true := by
  rw [candidateValues_eq]
  exact Json.isIn_distinct hrefl hv

theorem mem_stringValues {samples : List Schema} {v : Json} (h : v ∈ candidateValues samples) :
    v ∈ stringValues samples := by
  rw [candidateValues_eq] at h
  exact Json.mem_of_mem_distinct h

theorem apart_candidates (samples : List Schema) : Json.Apart (candidateValues samples) := by
  rw [candidateValues_eq]
  exact Json.apart_distinct _

theorem sortBySpelling_perm (values : List Json) : (sortBySpelling values).Perm values :=
  List.mergeSort_perm _ _

/-! ### Ranges -/

/-- The range bounds the numbers of the list, and each of its ends is one of them. -/
theorem numericRange_spec (values : List Json) :
    (values.filter Json.isNumber = [] ∧ numericRange values = (.null, .null)) ∨
      ∃ low high, numericRange values = (low, high) ∧
        low ∈ values.filter Json.isNumber ∧ high ∈ values.filter Json.isNumber ∧
          ∀ v ∈ values.filter Json.isNumber,
            low.exceeds? v = some false ∧ v.exceeds? high = some false := by
  rw [numericRange]
  have numbers : ∀ v ∈ values.filter Json.isNumber, ∃ x, v.number? = some x := fun v hv =>
    Json.number?_of_isNumber (List.mem_filter.mp hv).2
  revert numbers
  generalize values.filter Json.isNumber = found
  intro numbers
  cases found with
  | nil => exact .inl ⟨rfl, rfl⟩
  | cons v rest =>
    obtain ⟨hlow, hle⟩ := leastOf_spec numbers
    obtain ⟨hhigh, hge⟩ := greatestOf_spec numbers
    exact .inr ⟨_, _, rfl, hlow, hhigh, fun w hw => ⟨hle w hw, hge w hw⟩⟩

theorem boundsAgree_numericRange (values : List Json) :
    BoundsAgree (numericRange values).1 (numericRange values).2 := by
  rcases numericRange_spec values with ⟨-, h⟩ | ⟨low, high, h, -, hhigh, hle⟩
  · rw [h]
    exact .inl rfl
  · rw [h]
    exact .inr (.inr (hle high hhigh).1)

/-- Two lists of values have one range when each number of the one has an equal number in the other:
the ends of the one range are no greater than those of the other, taken both ways. -/
theorem same_numericRange_of_counterparts {values others : List Json}
    (counterpart : ∀ v ∈ values.filter Json.isNumber, ∃ w ∈ others.filter Json.isNumber, ∃ x,
      v.number? = some x ∧ w.number? = some x)
    (counterpart' : ∀ w ∈ others.filter Json.isNumber, ∃ v ∈ values.filter Json.isNumber, ∃ x,
      w.number? = some x ∧ v.number? = some x) :
    (numericRange values).1.same (numericRange others).1 = true ∧
      (numericRange values).2.same (numericRange others).2 = true := by
  rcases numericRange_spec values with ⟨none, range⟩ | ⟨low, high, range, hlow, hhigh, bounds⟩
  · have none' : others.filter Json.isNumber = [] :=
      List.eq_nil_iff_forall_not_mem.mpr fun v hv => by
        obtain ⟨w, hw, -⟩ := counterpart' v hv
        rw [none] at hw
        exact List.not_mem_nil hw
    rw [range, numericRange, none']
    exact ⟨rfl, rfl⟩
  rcases numericRange_spec others with
    ⟨none', -⟩ | ⟨low', high', range', hlow', hhigh', bounds'⟩
  · obtain ⟨w, hw, -⟩ := counterpart low hlow
    rw [none'] at hw
    exact absurd hw List.not_mem_nil
  obtain ⟨a, ha, l, hl, hal⟩ := counterpart low hlow
  obtain ⟨b, hb, h, hh, hbh⟩ := counterpart high hhigh
  obtain ⟨a', ha', l', hl', hal'⟩ := counterpart' low' hlow'
  obtain ⟨b', hb', h', hh', hbh'⟩ := counterpart' high' hhigh'
  have least : l = l' := Dyadic.le_antisymm
    ((Json.exceeds?_eq_false_iff hl hal').mp (bounds a' ha').1)
    ((Json.exceeds?_eq_false_iff hl' hal).mp (bounds' a ha).1)
  have greatest : h = h' := Dyadic.le_antisymm
    ((Json.exceeds?_eq_false_iff hbh hh').mp (bounds' b hb).2)
    ((Json.exceeds?_eq_false_iff hbh' hh).mp (bounds b' hb').2)
  rw [range, range']
  exact ⟨Json.same_of_numbers hl (least ▸ hl'), Json.same_of_numbers hh (greatest ▸ hh')⟩

/-! ### Formats -/

/-- Formats that can be compared are plain values. -/
theorem wellFormed_of_commonFormat {samples : List Schema} {format : Json}
    (h : commonFormat samples = .ok format) : ∀ s ∈ samples, s.format.WellFormed := by
  intro s hs
  rw [commonFormat] at h
  split at h
  · cases h
  · next plain =>
    rw [Bool.not_eq_true, List.any_eq_false] at plain
    have hplain := plain _ (List.mem_map_of_mem hs)
    cases hformat : s.format with
    | arr items => simp [hformat] at hplain
    | obj fields => simp [hformat] at hplain
    | _ => trivial

theorem commonFormat_cases {samples : List Schema} {format : Json} (hne : samples ≠ [])
    (h : commonFormat samples = .ok format) :
    (∃ s ∈ samples, format = s.format ∧ ∀ t ∈ samples, s.format.same t.format = true) ∨
      (format = .null ∧ ∃ s ∈ samples, ∃ t ∈ samples, s.format.same t.format = false) := by
  have wf := wellFormed_of_commonFormat h
  obtain ⟨s, rest, rfl⟩ := List.exists_cons_of_ne_nil hne
  rw [commonFormat] at h
  split at h
  · cases h
  simp only [List.map_cons, List.all_map, Except.ok.injEq] at h
  subst h
  split
  · next alike =>
    refine .inl ⟨s, List.mem_cons_self, rfl, List.forall_mem_cons.mpr ⟨?_, ?_⟩⟩
    · exact Json.same_refl (wf s List.mem_cons_self)
    · exact List.all_eq_true.mp alike
  · next unlike =>
    rw [List.all_eq_true] at unlike
    push Not at unlike
    obtain ⟨t, ht, hne⟩ := unlike
    refine .inr ⟨rfl, s, List.mem_cons_self, t, List.mem_cons_of_mem _ ht, ?_⟩
    exact Bool.eq_false_iff.mpr hne

section Counterparts

variable {samples others : List Schema} {s : Schema}
  (wf : ∀ s ∈ samples, s.format.WellFormed) (wf' : ∀ t ∈ others, t.format.WellFormed)
  (alike : ∀ t ∈ samples, s.format.same t.format = true)
  (counterpart : ∀ t ∈ others, ∃ s ∈ samples, t.format.same s.format = true)

include wf wf' alike counterpart

/-- A format that is common to samples is common to their counterparts. -/
private theorem same_of_counterparts : ∀ t ∈ others, s.format.same t.format = true := by
  intro t ht
  obtain ⟨u, hu, hsame⟩ := counterpart t ht
  exact Json.same_trans (alike u hu) (Json.same_symm (wf' t ht) (wf u hu) hsame)

private theorem same_pair_of_counterparts (hs : s ∈ samples) {t u : Schema} (ht : t ∈ others)
    (hu : u ∈ others) : t.format.same u.format = true := by
  have hst := same_of_counterparts wf wf' alike counterpart t ht
  have hsu := same_of_counterparts wf wf' alike counterpart u hu
  exact Json.same_trans (Json.same_symm (wf s hs) (wf' t ht) hst) hsu

end Counterparts

theorem same_commonFormat_of_counterparts {samples others : List Schema} {format format' : Json}
    (hne : samples ≠ []) (hne' : others ≠ []) (h : commonFormat samples = .ok format)
    (h' : commonFormat others = .ok format')
    (counterpart : ∀ s ∈ samples, ∃ t ∈ others, s.format.same t.format = true)
    (counterpart' : ∀ t ∈ others, ∃ s ∈ samples, t.format.same s.format = true) :
    format.same format' = true := by
  have wf := wellFormed_of_commonFormat h
  have wf' := wellFormed_of_commonFormat h'
  rcases commonFormat_cases hne h with ⟨s, hs, rfl, alike⟩ | ⟨rfl, s, hs, t, ht, unlike⟩
  · rcases commonFormat_cases hne' h' with ⟨u, hu, rfl, -⟩ | ⟨rfl, t, ht, u, hu, unlike⟩
    · exact same_of_counterparts wf wf' alike counterpart' u hu
    · rw [same_pair_of_counterparts wf wf' alike counterpart' hs ht hu] at unlike
      cases unlike
  · rcases commonFormat_cases hne' h' with ⟨u, hu, rfl, alike⟩ | ⟨rfl, -⟩
    · rw [same_pair_of_counterparts wf' wf alike counterpart hu hs ht] at unlike
      cases unlike
    · rfl

/-! ### Merged values -/

variable {config : Config} {samples : List Schema} {s : Schema}

/-- Strings become a closed set when the limits admit it, and else keep their first example. -/
theorem mergeStrings_cases {format : Json} {nullable : Bool}
    (h : mergeStrings config samples format nullable = .ok s) :
    (config.admitsEnum (candidateValues samples).length = .ok true ∧
      s = .string { format := format, enum := some (sortBySpelling (candidateValues samples)),
                    nullable := .bool nullable }) ∨
    (config.admitsEnum (candidateValues samples).length = .ok false ∧
      s = .string { format := format, exemplar := (observedValues samples).headD .null,
                    nullable := .bool nullable }) := by
  rw [mergeStrings] at h
  obtain ⟨admitted, ha, h⟩ := Fault.bind_eq_ok_iff.mp h
  cases admitted with
  | true => exact .inl ⟨ha, (StringFacets.node_eq_ok_iff.mp h).1⟩
  | false => exact .inr ⟨ha, (StringFacets.node_eq_ok_iff.mp h).1⟩

theorem mergePrimitives_cases {kind : Kind} (primitive : kind.isPrimitive = true)
    (h : mergePrimitives config kind samples = .ok s) :
    ∃ format, commonFormat samples = .ok format ∧
      ((kind = .string ∧
        mergeStrings config samples format (samples.any fun s => s.nullable.truthy) = .ok s) ∨
      (kind = .boolean ∧
        s = .boolean { exemplar := (observedValues samples).headD .null
                       nullable := .bool (samples.any fun s => s.nullable.truthy) }) ∨
      ((kind = .number ∨ kind = .integer) ∧
        s = .number { integer := .bool (kind = .integer)
                      format := format
                      minimum := (numericRange (observedValues samples)).1
                      maximum := (numericRange (observedValues samples)).2
                      exemplar := (observedValues samples).headD .null
                      nullable := .bool (samples.any fun s => s.nullable.truthy) })) := by
  rw [mergePrimitives] at h
  obtain ⟨format, hf, h⟩ := Fault.bind_eq_ok_iff.mp h
  refine ⟨format, hf, ?_⟩
  cases kind with
  | string => exact .inl ⟨rfl, h⟩
  | boolean => exact .inr (.inl ⟨rfl, (Fault.pure_eq_ok_iff.mp h).symm⟩)
  | number => exact .inr (.inr ⟨.inl rfl, (NumberFacets.node_eq_ok_iff.mp h).1⟩)
  | integer => exact .inr (.inr ⟨.inr rfl, (NumberFacets.node_eq_ok_iff.mp h).1⟩)
  | _ => exact absurd primitive Bool.false_ne_true

theorem mergeStrings_of_mergePrimitives (h : mergePrimitives config .string samples = .ok s) :
    ∃ format, commonFormat samples = .ok format ∧
      mergeStrings config samples format (samples.any fun s => s.nullable.truthy) = .ok s := by
  rw [mergePrimitives] at h
  exact Fault.bind_eq_ok_iff.mp h

end Schemata

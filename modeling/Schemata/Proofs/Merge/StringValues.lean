import Schemata.Proofs.Merge.Defined

/-!
# The closed sets of merged strings

Strings are merged by their values: examples and members of closed sets alike, whatever JSON values
these are. How many of them are distinct decides on the result, which is a closed set of all when
the limits admit that many, and otherwise a string with an example.

## Main definitions

* `firstExample`: the first example that a sample has.
* `StringsMergedTo`: what strings with given distinct values are merged into.

## Main results

* `represents_sortBySpelling`: sorted candidates are still one of each distinct value.
* `pairwise_sortBySpelling`: sorting puts values in the order of their spelling.
* `headD_observedValues`: the example that is kept is the first one.
* `commonFormat_iff`, `commonFormat_shared`: when a format is kept, and which.
* `merge_strings_exact`: merging strings gives what `StringsMergedTo` says.

## What is deliberately absent

Which of several equal values represents them is left open, and so is the order of values that are
spelt alike. The distinct values are a parameter for the same reason: any choice of one from each
class of equal values has the same number of them.
-/

namespace Schemata

/-- The first example that a sample has, `null` if none has one. -/
def firstExample (samples : List Schema) : Json :=
  ((samples.map Schema.exemplar).find? (!·.isNull)).getD .null

/-- What strings are merged into whose distinct values are those of `chosen`. -/
structure StringsMergedTo (least greatest : Int) (samples : List Schema) (chosen : List Json)
    (f : StringFacets) : Prop where
  closed : least ≤ chosen.length ∧ (chosen.length : Int) ≤ greatest →
    f.exemplar = .null ∧ ∃ values, f.enum = some values ∧
      Json.Represents values (stringValues samples) ∧
      values.Pairwise fun v w => v.display ≤ w.display
  opened : ¬ (least ≤ chosen.length ∧ (chosen.length : Int) ≤ greatest) →
    f.enum = none ∧ f.exemplar = firstExample samples
  nullable : f.nullable.truthy = true ↔ ∃ s ∈ samples, s.nullable.truthy = true
  format : ∀ text, f.format = .str text ↔ ∀ s ∈ samples, s.format = .str text
  /-- No format is made up: what is kept is on all samples. -/
  shared : f.format = .null ∨ ∀ s ∈ samples, f.format.same s.format = true

/-! ### Values -/

variable {samples : List Schema}

theorem represents_sortBySpelling (sound : ∀ s ∈ samples, s.SoundNode) :
    Json.Represents (sortBySpelling (candidateValues samples)) (stringValues samples) := by
  have wf : ∀ v ∈ stringValues samples, v.WellFormed := by
    intro v hv
    exact wellFormed_of_mem_stringValues sound hv
  rw [candidateValues_eq]
  exact (Json.represents_distinct wf).perm wf (sortBySpelling_perm _)

theorem pairwise_sortBySpelling (values : List Json) :
    (sortBySpelling values).Pairwise fun v w => v.display ≤ w.display := by
  have atMost : ∀ v w : Json, (!decide (w.display < v.display)) = true ↔ v.display ≤ w.display := by
    intro v w
    rw [Bool.not_eq_true', decide_eq_false_iff_not, String.not_lt]
  refine (List.pairwise_mergeSort (fun v w u hvw hwu => ?_) (fun v w => ?_) values).imp ?_
  · rw [atMost] at hvw hwu ⊢
    exact String.le_trans hvw hwu
  · rw [Bool.or_eq_true, atMost, atMost]
    exact String.le_total _ _
  · intro v w h
    exact (atMost v w).mp h

theorem headD_observedValues (samples : List Schema) :
    (observedValues samples).headD .null = firstExample samples := by
  rw [List.headD_eq_head?_getD, observedValues, Json.head?_distinct, List.head?_filter,
    firstExample]

/-! ### Formats -/

section Formats

variable {format : Json} (hne : samples ≠ []) (h : commonFormat samples = .ok format)

include hne h

/-- A text is kept as format when all samples have it. -/
theorem commonFormat_iff (text : String) :
    format = .str text ↔ ∀ s ∈ samples, s.format = .str text := by
  rcases commonFormat_cases hne h with ⟨s, hs, rfl, alike⟩ | ⟨rfl, s, hs, t, ht, unlike⟩
  · constructor
    · intro hformat t ht
      have same := alike t ht
      rw [hformat] at same
      exact Json.same_str_iff.mp same
    · exact fun all => all s hs
  · refine iff_of_false Json.noConfusion fun all => ?_
    rw [all s hs, all t ht, Json.same_str_iff.mpr rfl] at unlike
    cases unlike

theorem commonFormat_shared :
    format = .null ∨ ∀ s ∈ samples, format.same s.format = true := by
  rcases commonFormat_cases hne h with ⟨s, -, rfl, alike⟩ | ⟨rfl, -⟩
  · exact .inr alike
  · exact .inl rfl

end Formats

/-! ### Merged strings -/

/-- Merging strings closes them when the limits admit as many values as are distinct. -/
theorem merge_strings_exact {config : Config} {least greatest : Int}
    (limits : config.EnumLimits least greatest) (several : 2 ≤ samples.length)
    (strings : ∀ s ∈ samples, s.kind = .string) (wf : ∀ s ∈ samples, s.WellFormed)
    (formats : ∀ s ∈ samples, s.PlainFormats) {chosen : List Json}
    (distinct : Json.Represents chosen (stringValues samples)) :
    ∃ f : StringFacets, merge config samples = .ok (.string f) ∧
      StringsMergedTo least greatest samples chosen f := by
  have hne : samples ≠ [] := List.ne_nil_of_length_pos (by omega)
  have sound : ∀ s ∈ samples, s.SoundNode := fun s hs => (wf s hs).soundNode
  have count : chosen.length = (candidateValues samples).length := by
    have sorted := represents_sortBySpelling sound
    rw [distinct.length_eq (fun v => wellFormed_of_mem_stringValues sound) sorted]
    exact (sortBySpelling_perm _).length_eq
  have nullable : (Json.bool (samples.any fun s => s.nullable.truthy)).truthy = true ↔
      ∃ s ∈ samples, s.nullable.truthy = true := List.any_eq_true
  obtain ⟨m, merged⟩ := exists_merge limits wf formats
  obtain ⟨format, common, h⟩ :=
    mergeStrings_of_mergePrimitives ((merges_of_merge merged).of_values several rfl strings)
  have admitted := admitsEnum_of_limits limits (candidateValues samples).length
  rw [← count] at admitted
  have kept := commonFormat_iff hne common
  have shared := commonFormat_shared hne common
  rcases mergeStrings_cases h with ⟨within, rfl⟩ | ⟨without, rfl⟩
  · rw [← count, admitted] at within
    have inside := of_decide_eq_true (Except.ok.inj within)
    refine ⟨_, merged, fun _ => ⟨rfl, _, rfl, represents_sortBySpelling sound, ?_⟩,
      fun outside => absurd inside outside, nullable, kept, shared⟩
    exact pairwise_sortBySpelling _
  · rw [← count, admitted] at without
    have outside := of_decide_eq_false (Except.ok.inj without)
    exact ⟨_, merged, fun inside => absurd inside outside,
      fun _ => ⟨rfl, headD_observedValues samples⟩, nullable, kept, shared⟩

/-- Two strings, one with an example and one with a closed set that has it, too. -/
def colours : List Schema :=
  [.string { exemplar := .str "red", format := .str "name", nullable := .bool true },
    .string { enum := some [.str "blue", .str "red"], format := .str "name" }]

theorem merge_strings_exact_colours :
    ∃ f : StringFacets, merge {} colours = .ok (.string f) ∧
      StringsMergedTo 2 10 colours [.str "red", .str "blue"] f := by
  have limits : Config.EnumLimits {} 2 10 := ⟨rfl, rfl, by decide⟩
  have wf : ∀ s ∈ colours, s.WellFormed := by
    intro s hs t ht
    rcases List.mem_cons.mp hs with rfl | hs
    · obtain rfl := List.mem_singleton.mp ht
      refine ⟨by decide, by decide, trivial, fun values closed => ?_⟩
      cases closed
    · obtain rfl := List.mem_singleton.mp hs
      obtain rfl := List.mem_singleton.mp ht
      refine ⟨by decide, by decide, trivial, fun values closed => ?_⟩
      obtain rfl := Option.some.inj closed
      simp [Json.WellFormed]
  have formats : ∀ s ∈ colours, s.PlainFormats := by
    simp [colours, Schema.PlainFormats, Schema.nodes, Schema.format]
  have distinct : Json.Represents [.str "red", .str "blue"] (stringValues colours) := by
    have all : stringValues colours = [.str "red", .str "blue", .str "red"] := rfl
    rw [all]
    refine ⟨fun v hv => ?_, Json.allDistinct_iff.mp rfl, by decide⟩
    exact List.mem_append_left [.str "red"] hv
  exact merge_strings_exact limits (by decide) (by decide) wf formats distinct

end Schemata

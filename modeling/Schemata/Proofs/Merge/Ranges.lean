import Schemata.Proofs.Merge.Defined

/-!
# The range of merged numbers

Numbers are merged into a node with the range of their examples. Repeated examples are left out
before the numbers among them are looked for, and a boolean is no number although it equals one. So
the range spans the numbers among the examples, but for those that come after an equal boolean.

## Main definitions

* `numericExamples`: the numbers among the examples of samples.
* `Hidden`: the first example that equals a value is a boolean.
* `Spans`: a least and a greatest value, or none of either where there are no values.

## Main results

* `spans_numericRange`: the range of a list spans the numbers of the list.
* `find?_observedValues`: of equal examples the first is kept.
* `not_hidden_of_kept`, `exists_kept_of_not_hidden`: the numbers that are kept stand for those that
  no boolean hides.
* `merge_spans_examples`: merging numbers gives the span of the examples that are not hidden.
* `merge_misses_example`: an example that is hidden can be out of range.

## What is deliberately absent

Nothing is said about which of several equal numbers an end of the range is: `1` and `1.0` have one
value, and `Spans` compares by value alone.
-/

namespace Schemata

/-- Both are numbers, of which the first is not the greater. -/
def Json.AtMost (v w : Json) : Prop :=
  ∃ x y, v.number? = some x ∧ w.number? = some y ∧ x ≤ y

/-- The numbers among the examples of samples; booleans are none. -/
def numericExamples (samples : List Schema) : List Json :=
  (samples.map Schema.exemplar).filter Json.isNumber

/-- The first example that equals the value is a boolean. -/
def Hidden (samples : List Schema) (v : Json) : Prop :=
  ∃ b, (samples.map Schema.exemplar).find? v.same = some (.bool b)

/-- The ends of a range are the least and the greatest of some values, and are not there if no value
is. -/
inductive Spans (values : Json → Prop) : Json → Json → Prop
  | nothing (none : ∀ v, ¬ values v) : Spans values .null .null
  | range {low high : Json} (least : values low) (greatest : values high)
      (within : ∀ v, values v → low.AtMost v ∧ v.AtMost high) : Spans values low high

/-! ### Spans -/

/-- Values span the same range when more of them are added, each with the value of one before. -/
theorem Spans.extend {values others : Json → Prop} {low high : Json} (h : Spans values low high)
    (mem : ∀ v, values v → others v)
    (counterpart : ∀ v, others v → ∃ w, values w ∧ ∃ x, v.number? = some x ∧ w.number? = some x) :
    Spans others low high := by
  cases h with
  | nothing none =>
    refine .nothing fun v hv => ?_
    obtain ⟨w, hw, -⟩ := counterpart v hv
    exact none w hw
  | range least greatest within =>
    refine .range (mem low least) (mem high greatest) fun v hv => ?_
    obtain ⟨w, hw, x, hvx, hwx⟩ := counterpart v hv
    have same : v.number? = w.number? := hvx.trans hwx.symm
    obtain ⟨above, below⟩ := within w hw
    rw [Json.AtMost, Json.AtMost, same]
    exact ⟨above, below⟩

theorem Spans.congr {values others : Json → Prop} {low high : Json} (h : Spans values low high)
    (iff : ∀ v, values v ↔ others v) : Spans others low high := by
  have eq : values = others := funext fun v => propext (iff v)
  rwa [← eq]

theorem spans_numericRange (values : List Json) :
    Spans (· ∈ values.filter Json.isNumber) (numericRange values).1 (numericRange values).2 := by
  have number : ∀ v ∈ values.filter Json.isNumber, ∃ x, v.number? = some x := by
    intro v hv
    exact Json.number?_of_isNumber (List.mem_filter.mp hv).2
  rcases numericRange_spec values with ⟨none, range⟩ | ⟨low, high, range, hlow, hhigh, bounds⟩
  · rw [range, none]
    exact .nothing fun v => List.not_mem_nil
  · rw [range]
    refine .range hlow hhigh fun v hv => ?_
    obtain ⟨x, hx⟩ := number v hv
    obtain ⟨l, hl⟩ := number low hlow
    obtain ⟨h, hh⟩ := number high hhigh
    exact ⟨⟨l, x, hl, hx, (Json.exceeds?_eq_false_iff hl hx).mp (bounds v hv).1⟩,
      ⟨x, h, hx, hh, (Json.exceeds?_eq_false_iff hx hh).mp (bounds v hv).2⟩⟩

/-! ### The numbers that are kept -/

variable {samples : List Schema} {v : Json}

/-- Leaving out repeated examples keeps the first of those that equal a value. -/
theorem find?_observedValues (given : v.isNull = false) :
    (observedValues samples).find? v.same = (samples.map Schema.exemplar).find? v.same := by
  rw [observedValues, Json.find?_distinct, List.find?_filter]
  congr 1
  funext w
  by_cases same : v.same w = true
  · simp [same, ← Json.isNull_eq_of_same same, given]
  · simp [same]

theorem not_hidden_of_plain (plain : ∀ s ∈ samples, ∀ b, s.exemplar ≠ .bool b) :
    ¬ Hidden samples v := by
  rintro ⟨b, hidden⟩
  obtain ⟨s, hs, hexemplar⟩ := List.mem_map.mp (List.mem_of_find?_eq_some hidden)
  exact plain s hs b hexemplar

/-- A number that is kept is its own first equal, so that no boolean hides it. -/
theorem not_hidden_of_kept (h : v ∈ (observedValues samples).filter Json.isNumber) :
    v ∈ numericExamples samples ∧ ¬ Hidden samples v := by
  obtain ⟨hv, number⟩ := List.mem_filter.mp h
  obtain ⟨x, hx⟩ := Json.number?_of_isNumber number
  obtain ⟨s, hs, rfl⟩ := mem_observedValues hv
  refine ⟨List.mem_filter.mpr ⟨List.mem_map_of_mem hs, number⟩, ?_⟩
  rintro ⟨b, hidden⟩
  have own : (observedValues samples).find? s.exemplar.same = some s.exemplar :=
    Json.find?_of_apart (Json.apart_distinct _) hv (Json.same_of_numbers hx hx)
  rw [← find?_observedValues (Json.isNull_of_number hx), own] at hidden
  rw [Option.some.inj hidden] at number
  exact Bool.false_ne_true number

/-- The first equal of a number that is not hidden is kept, and is a number. -/
theorem exists_kept_of_not_hidden (h : v ∈ numericExamples samples) (shown : ¬ Hidden samples v) :
    ∃ w ∈ (observedValues samples).filter Json.isNumber,
      ∃ x, v.number? = some x ∧ w.number? = some x := by
  obtain ⟨hv, number⟩ := List.mem_filter.mp h
  obtain ⟨x, hx⟩ := Json.number?_of_isNumber number
  have found : ((samples.map Schema.exemplar).find? v.same).isSome = true :=
    List.find?_isSome.mpr ⟨v, hv, Json.same_of_numbers hx hx⟩
  obtain ⟨w, first⟩ := Option.isSome_iff_exists.mp found
  have hwx : w.number? = some x := Json.number?_eq_of_same hx (List.find?_some first)
  have isNumber : w.isNumber = true := by
    refine Json.isNumber_of_number hwx ?_
    rintro b rfl
    exact shown ⟨b, first⟩
  rw [← find?_observedValues (Json.isNull_of_number hx)] at first
  exact ⟨w, List.mem_filter.mpr ⟨List.mem_of_find?_eq_some first, isNumber⟩, x, hx, hwx⟩

theorem spans_observedValues (samples : List Schema) :
    Spans (fun v => v ∈ numericExamples samples ∧ ¬ Hidden samples v)
      (numericRange (observedValues samples)).1 (numericRange (observedValues samples)).2 := by
  refine (spans_numericRange (observedValues samples)).extend (fun v => not_hidden_of_kept) ?_
  intro v ⟨mem, shown⟩
  exact exists_kept_of_not_hidden mem shown

/-! ### Merged numbers -/

/-- Samples of numbers are merged into one node, whatever their examples are. -/
theorem exists_merge_numbers (config : Config) {kind : Kind} (several : 2 ≤ samples.length)
    (number : kind = .number ∨ kind = .integer) (kinds : ∀ s ∈ samples, s.kind = kind)
    (formats : ∀ s ∈ samples, s.PlainFormats) :
    ∃ f : NumberFacets, merge config samples = .ok (.number f) ∧
      f.minimum = (numericRange (observedValues samples)).1 ∧
      f.maximum = (numericRange (observedValues samples)).2 := by
  have primitive : kind.isPrimitive = true := by
    rcases number with rfl | rfl
    · rfl
    · rfl
  obtain ⟨format, hformat⟩ := exists_commonFormat formats
  have node : ∀ f : NumberFacets, f.minimum = (numericRange (observedValues samples)).1 →
      f.maximum = (numericRange (observedValues samples)).2 → f.node = .ok (.number f) := by
    intro f minimum maximum
    refine NumberFacets.node_eq_ok_iff.mpr ⟨rfl, ?_⟩
    rw [minimum, maximum]
    exact boundsAgree_numericRange _
  rw [merge_of_values several primitive kinds, mergePrimitives, hformat]
  rcases number with rfl | rfl
  · exact ⟨_, node _ rfl rfl, rfl, rfl⟩
  · exact ⟨_, node _ rfl rfl, rfl, rfl⟩

/-- The range of merged numbers goes from the least to the greatest of the numeric examples that no
boolean hides, and so of all of them unless some are hidden. -/
theorem merge_spans_examples (config : Config) {kind : Kind} (several : 2 ≤ samples.length)
    (number : kind = .number ∨ kind = .integer) (kinds : ∀ s ∈ samples, s.kind = kind)
    (formats : ∀ s ∈ samples, s.PlainFormats) :
    ∃ f : NumberFacets, merge config samples = .ok (.number f) ∧
      Spans (fun v => v ∈ numericExamples samples ∧ ¬ Hidden samples v) f.minimum f.maximum ∧
      ((∀ v ∈ numericExamples samples, ¬ Hidden samples v) →
        Spans (· ∈ numericExamples samples) f.minimum f.maximum) := by
  obtain ⟨f, merged, minimum, maximum⟩ :=
    exists_merge_numbers config several number kinds formats
  have spans := spans_observedValues samples
  rw [← minimum, ← maximum] at spans
  refine ⟨f, merged, spans, fun shown => spans.congr fun v => ?_⟩
  exact ⟨And.left, fun mem => ⟨mem, shown v mem⟩⟩

/-- Four numbers, of which one has no example and one has a boolean. -/
def readings : List Schema :=
  [.number { exemplar := .int 5 }, .number { exemplar := .bool false },
    .number { exemplar := .int 3 }, .number {}]

theorem merge_spans_examples_readings :
    ∃ f : NumberFacets, merge {} readings = .ok (.number f) ∧
      Spans (· ∈ [.int 5, .int 3]) f.minimum f.maximum := by
  have formats : ∀ s ∈ readings, s.PlainFormats := by
    simp [readings, Schema.PlainFormats, Schema.nodes, Schema.format]
  obtain ⟨f, merged, -, spans⟩ :=
    merge_spans_examples {} (by decide) (.inl rfl) (by decide) formats
  refine ⟨f, merged, spans ?_⟩
  intro v hv
  rintro ⟨b, hidden⟩
  -- neither `5` nor `3` equals an example before it
  rcases List.mem_cons.mp hv with rfl | hv
  · cases hidden
  · obtain rfl := List.mem_singleton.mp hv
    cases hidden

/-- An example `1` after an equal `true` is a number, and yet there is no range. -/
theorem merge_misses_example :
    merge {} [.number { integer := .bool true, exemplar := .bool true },
        .number { integer := .bool true, exemplar := .int 1 }] =
      .ok (.number { integer := .bool true, exemplar := .bool true }) ∧
    ¬ Spans (· ∈ numericExamples [.number { integer := .bool true, exemplar := .bool true },
        .number { integer := .bool true, exemplar := .int 1 }]) .null .null := by
  constructor
  · rw [merge_cons_cons]
    rfl
  · intro spans
    have mem : Json.int 1 ∈ numericExamples [
        .number { integer := .bool true, exemplar := .bool true },
        .number { integer := .bool true, exemplar := .int 1 }] := List.mem_cons_self
    cases spans with
    | nothing none => exact none _ mem
    | range least => exact List.not_mem_nil (List.mem_of_ne_of_mem Json.noConfusion least)

end Schemata

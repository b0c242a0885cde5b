import Schemata.Proofs.Schema.Enrich

/-!
# Values of a schema

Two relations between JSON values and schemas. A value conforms to a schema when the schema allows
it. A value is observed in a schema when the schema bears witness to it: the value is put together
from the examples and closed sets of the leaves.

## Main definitions

* `Conforms`: a schema allows a value. Formats and examples are not looked at.
* `Observed`: a schema bears witness to a value.

## Main results

* `conforms_enrich`: enriching forbids nothing.

## Implementation notes

A value is no number of a schema by being a boolean; for the rest numbers are compared by their
exact value. A bound is held against a value only if the two have an order.
-/

namespace Schemata

/-- Neither bound is crossed. -/
def Within (low high v : Json) : Prop := low.exceeds? v ≠ some true ∧ v.exceeds? high ≠ some true

/-- The exact value of a number is an integer. -/
def Json.IsWhole (v : Json) : Prop := ∃ n, v.number? = some (Dyadic.ofInt n)

inductive Conforms : Json → Schema → Prop
  | null {s : Schema} (nullable : s.nullable.truthy = true) : Conforms .null s
  | string {f : StringFacets} {text : String}
      (member : ∀ values, f.enum = some values → (Json.str text).isIn values = true)
      (length : Within f.minLength f.maxLength (.int text.length)) :
      Conforms (.str text) (.string f)
  | number {f : NumberFacets} {v : Json} (number : v.isNumber = true)
      (whole : f.integer.truthy = true → v.IsWhole) (range : Within f.minimum f.maximum v) :
      Conforms v (.number f)
  | boolean {f : BooleanFacets} {b : Bool} : Conforms (.bool b) (.boolean f)
  | object {properties : List (String × Schema)} {required : List String}
      {additional : Option Schema} {nullable : Json} {fields : List (String × Json)}
      (present : ∀ name ∈ required, name ∈ Fields.names fields)
      (known : ∀ name v s, fields.lookup name = some v → properties.lookup name = some s →
        Conforms v s)
      (further : ∀ name v s, fields.lookup name = some v → properties.lookup name = none →
        additional = some s → Conforms v s) :
      Conforms (.obj fields) (.object properties required additional nullable)
  | array {items : Option Schema} {f : ArrayFacets} {values : List Json}
      (count : Within f.minItems f.maxItems (.int values.length))
      (unique : f.unique.truthy = true → Json.allDistinct values = true)
      (each : ∀ s, items = some s → ∀ v ∈ values, Conforms v s) :
      Conforms (.arr values) (.array items f)
  | oneOf {variants : List Schema} {s : Schema} {v : Json} (mem : s ∈ variants)
      (conforms : Conforms v s) : Conforms v (.oneOf variants)
  | allOf {parts : List Schema} {v : Json} : Conforms v (.allOf parts)
  | ref {name v : Json} : Conforms v (.ref name)
  | empty {v : Json} : Conforms v .empty

inductive Observed : Json → Schema → Prop
  | null {s : Schema} (nullable : s.nullable.truthy = true) : Observed .null s
  | exemplar {f : StringFacets} {text : String} (equal : (Json.str text).same f.exemplar = true) :
      Observed (.str text) (.string f)
  | member {f : StringFacets} {text : String} {values : List Json} (enum : f.enum = some values)
      (mem : (Json.str text).isIn values = true) : Observed (.str text) (.string f)
  | number {f : NumberFacets} {v : Json} (number : v.isNumber = true)
      (equal : v.same f.exemplar = true) : Observed v (.number f)
  | boolean {f : BooleanFacets} {b : Bool} (equal : (Json.bool b).same f.exemplar = true) :
      Observed (.bool b) (.boolean f)
  /-- The fields of the value are the properties of the schema. -/
  | object {properties : List (String × Schema)} {required : List String}
      {additional : Option Schema} {nullable : Json} {fields : List (String × Json)}
      (names : ∀ name, name ∈ Fields.names fields ↔ name ∈ Fields.names properties)
      (values : ∀ name v s, fields.lookup name = some v → properties.lookup name = some s →
        Observed v s) :
      Observed (.obj fields) (.object properties required additional nullable)
  /-- Nothing is known of the items, so that only the list without items is observed. -/
  | bare {f : ArrayFacets} : Observed (.arr []) (.array none f)
  | array {s : Schema} {f : ArrayFacets} {values : List Json} (each : ∀ v ∈ values, Observed v s) :
      Observed (.arr values) (.array (some s) f)
  | oneOf {variants : List Schema} {s : Schema} {v : Json} (mem : s ∈ variants)
      (observed : Observed v s) : Observed v (.oneOf variants)
  | allOf {parts : List Schema} {v : Json} : Observed v (.allOf parts)
  | ref {name v : Json} : Observed v (.ref name)
  | empty {v : Json} : Observed v .empty

theorem conforms_enrich {v : Json} {s : Schema} (h : Conforms v s) : Conforms v s.enrich := by
  induction h with
  | null nullable => exact .null (by rwa [Schema.nullable_enrich])
  | @string f text member length =>
    obtain ⟨w, hw⟩ := Schema.enrich_string f
    rw [hw]
    exact .string member length
  | @number f v number whole range =>
    obtain ⟨w, hw⟩ := Schema.enrich_number f
    rw [hw]
    exact .number number whole range
  | @boolean f b =>
    obtain ⟨w, hw⟩ := Schema.enrich_boolean f
    rw [hw]
    exact .boolean
  | object present _ further known =>
    rw [Schema.enrich]
    refine .object present (fun name v s hv hs => ?_) (fun name v s hv hs ha => ?_)
    · rw [Schema.lookup_enrichFields] at hs
      obtain ⟨t, ht, rfl⟩ := Option.map_eq_some_iff.mp hs
      exact known name v t hv ht
    · rw [Schema.lookup_enrichFields, Option.map_eq_none_iff] at hs
      exact further name v s hv hs ha
  | @array items f values count unique _ each =>
    rw [Schema.enrich]
    refine .array count unique fun s hs v hv => ?_
    rw [Schema.enrichOption_eq_map] at hs
    obtain ⟨t, rfl, rfl⟩ := Option.map_eq_some_iff.mp hs
    exact each t rfl v hv
  | oneOf mem conforms _ => exact .oneOf mem conforms
  | allOf => exact .allOf
  | ref => exact .ref
  | empty => exact .empty

end Schemata

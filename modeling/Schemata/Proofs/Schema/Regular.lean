import Schemata.Proofs.Json.Same
import Schemata.Proofs.Json.Order
import Schemata.Proofs.Schema.Check
import Schemata.Proofs.Schema.Enrich

/-!
# Regular schemas

The nodes that are held in memory can hold more than their JSON form tells: a mark that is `1` is
written as `true`, and a bound that is no number is not read again. A schema is regular when nothing
of it is lost in this way. All schemas that are loaded, parsed or merged are regular.

## Main definitions

* `SoundBounds`: bounds that are numbers or not there, in the right order.
* `Schema.Regular`: the regular schemas, for a prefix of references.

## Main results

* `Schema.Regular.enrich`: enriching keeps a schema regular.
* `Schema.Regular.concrete`: a regular schema has a JSON form.
-/

namespace Schemata

structure SoundBounds (low high : Json) : Prop where
  lower : low = .null ∨ low.isNumber = true
  upper : high = .null ∨ high.isNumber = true
  agree : low.exceeds? high ≠ some true

theorem SoundBounds.absent : SoundBounds .null .null :=
  ⟨.inl rfl, .inl rfl, by decide⟩

theorem SoundBounds.boundsAgree {low high : Json} (h : SoundBounds low high) :
    BoundsAgree low high := by
  obtain ⟨rfl | hlow, hhigh, agree⟩ := h
  · exact .inl rfl
  obtain rfl | hhigh := hhigh
  · exact .inr (.inl rfl)
  obtain ⟨x, hx⟩ := Json.number?_of_isNumber hlow
  obtain ⟨y, hy⟩ := Json.number?_of_isNumber hhigh
  rw [Json.exceeds?_of_numbers hx hy] at agree
  refine .inr (.inr ?_)
  rw [Json.exceeds?_of_numbers hx hy]
  cases h : decide (y < x) with
  | true => exact absurd (congrArg some h) agree
  | false => rfl

namespace Schema

/-- The name of a reference must not make the reference empty. -/
inductive Regular (refPrefix : String) : Schema → Prop
  | string {f : StringFacets} {nullable : Bool}
      (enum : ∀ values, f.enum = some values → values ≠ [] ∧ Json.Apart values)
      (bounds : SoundBounds f.minLength f.maxLength) (marked : f.nullable = .bool nullable) :
      Regular refPrefix (.string f)
  | number {f : NumberFacets} {integer nullable : Bool} (whole : f.integer = .bool integer)
      (bounds : SoundBounds f.minimum f.maximum) (marked : f.nullable = .bool nullable) :
      Regular refPrefix (.number f)
  | boolean {f : BooleanFacets} {nullable : Bool} (marked : f.nullable = .bool nullable) :
      Regular refPrefix (.boolean f)
  | object {properties : List (String × Schema)} {required : List String}
      {additional : Option Schema} {nullable : Bool}
      (below : ∀ property ∈ properties, Regular refPrefix property.2)
      (known : ∀ name ∈ required, name ∈ Fields.names properties)
      (further : ∀ s, additional = some s → Regular refPrefix s) :
      Regular refPrefix (.object properties required additional (.bool nullable))
  | array {items : Option Schema} {f : ArrayFacets} {unique : Bool}
      (below : ∀ s, items = some s → Regular refPrefix s)
      (bounds : SoundBounds f.minItems f.maxItems) (marked : f.unique = .bool unique) :
      Regular refPrefix (.array items f)
  | oneOf {variants : List Schema} (below : ∀ s ∈ variants, Regular refPrefix s) :
      Regular refPrefix (.oneOf variants)
  | allOf {parts : List Schema} (below : ∀ s ∈ parts, Regular refPrefix s) :
      Regular refPrefix (.allOf parts)
  | ref {name : String} (nonempty : refPrefix ++ name ≠ "") : Regular refPrefix (.ref (.str name))
  | empty : Regular refPrefix .empty

variable {refPrefix : String} {s : Schema}

theorem regular_anyObject (refPrefix : String) : Regular refPrefix .anyObject :=
  .object (fun _ h => absurd h List.not_mem_nil) (fun _ h => absurd h List.not_mem_nil) nofun

/-- A node of plain texts that has no bounds and no closed set. -/
theorem regular_text (refPrefix : String) {format exemplar : Json} {nullable : Bool} :
    Regular refPrefix
      (.string { format := format, exemplar := exemplar, nullable := .bool nullable }) :=
  .string nofun .absent rfl

theorem regular_of_objectNode {properties : Fields Schema} {required : List Json}
    {additional : Option Schema} {nullable : Bool}
    (below : ∀ property ∈ properties, Regular refPrefix property.2)
    (further : ∀ t, additional = some t → Regular refPrefix t)
    (h : objectNode properties required additional (.bool nullable) = .ok s) :
    Regular refPrefix s := by
  obtain ⟨rfl, known⟩ := objectNode_eq_ok_iff.mp h
  refine .object below (fun name hname => ?_) further
  obtain ⟨n, hn, heq⟩ := known _ (mem_texts_iff.mp hname)
  cases heq
  exact hn

theorem Regular.enrich (h : Regular refPrefix s) : Regular refPrefix s.enrich := by
  induction h with
  | @string f nullable enum bounds marked =>
    obtain ⟨v, hv⟩ := enrich_string f
    rw [hv]
    exact .string enum bounds marked
  | @number f integer nullable whole bounds marked =>
    obtain ⟨v, hv⟩ := enrich_number f
    rw [hv]
    exact .number whole bounds marked
  | @boolean f nullable marked =>
    obtain ⟨v, hv⟩ := enrich_boolean f
    rw [hv]
    exact .boolean marked
  | object _ known further ih _ =>
    rw [Schema.enrich]
    refine .object (fun property hp => ?_) (by rwa [names_enrichFields]) further
    rw [enrichFields_eq_map] at hp
    obtain ⟨field, hf, rfl⟩ := List.mem_map.mp hp
    exact ih field hf
  | array _ bounds marked ih =>
    rw [Schema.enrich]
    refine .array (fun t ht => ?_) bounds marked
    rw [enrichOption_eq_map] at ht
    obtain ⟨u, hu, rfl⟩ := Option.map_eq_some_iff.mp ht
    exact ih u hu
  | oneOf below _ => exact .oneOf below
  | allOf below _ => exact .allOf below
  | ref nonempty => exact .ref nonempty
  | empty => exact .empty

/-! ### What stands below a regular schema -/

theorem Regular.of_mem_properties (h : Regular refPrefix s) {name : String} {t : Schema}
    (ht : (name, t) ∈ s.properties) : Regular refPrefix t := by
  cases h with
  | object below known further => exact below _ ht
  | _ => exact absurd ht List.not_mem_nil

theorem Regular.of_additional (h : Regular refPrefix s) {t : Schema}
    (ht : s.additional = some t) : Regular refPrefix t := by
  cases h with
  | object below known further => exact further t ht
  | _ => cases ht

theorem Regular.of_items (h : Regular refPrefix s) {t : Schema} (ht : s.items = some t) :
    Regular refPrefix t := by
  cases h with
  | array below bounds marked => exact below t ht
  | _ => cases ht

/-! ### Regular schemas are concrete -/

private theorem concreteFields_iff {fields : List (String × Schema)} :
    concreteFields fields = true ↔ ∀ field ∈ fields, field.2.concrete = true := by
  induction fields with
  | nil => simp [concreteFields]
  | cons field rest ih => rw [concreteFields, Bool.and_eq_true, ih, List.forall_mem_cons]

private theorem concreteAll_iff {all : List Schema} :
    concreteAll all = true ↔ ∀ s ∈ all, s.concrete = true := by
  induction all with
  | nil => simp [concreteAll]
  | cons s rest ih => rw [concreteAll, Bool.and_eq_true, ih, List.forall_mem_cons]

private theorem concreteOption_iff {below : Option Schema} :
    concreteOption below = true ↔ ∀ s, below = some s → s.concrete = true := by
  cases below with
  | none => simp [concreteOption]
  | some s => simp [concreteOption]

theorem Regular.concrete (h : Regular refPrefix s) : s.concrete = true := by
  induction h with
  | object _ _ _ ihp iha =>
    rw [Schema.concrete, Bool.and_eq_true, concreteFields_iff, concreteOption_iff]
    exact ⟨ihp, iha⟩
  | array _ _ _ ih =>
    rw [Schema.concrete, concreteOption_iff]
    exact ih
  | oneOf _ ih =>
    rw [Schema.concrete, concreteAll_iff]
    exact ih
  | allOf _ ih =>
    rw [Schema.concrete, concreteAll_iff]
    exact ih
  | _ => rfl

end Schema

end Schemata

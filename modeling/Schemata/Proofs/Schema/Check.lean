import Schemata.Schema.Check
import Schemata.Proofs.Fault
import Schemata.Proofs.Fields

/-!
# What the checks of a node let through

A checked node comes out as it was put in, or not at all.

## Main definitions

* `BoundsAgree`: a pair of bounds that the checks let through.

## Main results

* `StringFacets.node_eq_ok_iff`, `NumberFacets.node_eq_ok_iff`, `ArrayFacets.node_eq_ok_iff`,
  `Schema.objectNode_eq_ok_iff`: when a node comes out, and which.
-/

namespace Schemata

/-- One of the bounds is not there, or the two have an order and it is the right one. -/
def BoundsAgree (low high : Json) : Prop :=
  low.isNull = true ∨ high.isNull = true ∨ low.exceeds? high = some false

theorem checkBounds_eq_ok_iff (lowName highName : String) {low high : Json} :
    checkBounds lowName highName low high = .ok () ↔ BoundsAgree low high := by
  rw [checkBounds, BoundsAgree, ← or_assoc, ← Bool.or_eq_true]
  split
  · next h => simp [h]
  · next h =>
    split
    · next heq => simp [h, heq]
    · next heq => simp [h, heq]
    · next heq => simp [h, heq]

theorem checkEnum_eq_ok_iff {enum : Option (List Json)} :
    checkEnum enum = .ok () ↔ ∀ values, enum = some values →
      values ≠ [] ∧ Json.allDistinct values = true := by
  cases enum with
  | none => simp [checkEnum]
  | some values =>
    rw [checkEnum]
    split
    · next h => simp [List.isEmpty_iff.mp h]
    · next h =>
      rw [List.isEmpty_iff] at h
      split
      · next hd => simp [h, hd]
      · next hd => simp [hd]

theorem StringFacets.node_eq_ok_iff {f : StringFacets} {s : Schema} :
    f.node = .ok s ↔ s = .string f ∧
      (∀ values, f.enum = some values → values ≠ [] ∧ Json.allDistinct values = true) ∧
        BoundsAgree f.minLength f.maxLength := by
  rw [StringFacets.node, Fault.bind_eq_ok_iff, ← checkEnum_eq_ok_iff,
    ← checkBounds_eq_ok_iff "minLength" "maxLength"]
  simp only [Fault.bind_eq_ok_iff, Fault.pure_eq_ok_iff]
  constructor
  · rintro ⟨_, he, _, hb, rfl⟩
    exact ⟨rfl, he, hb⟩
  · rintro ⟨rfl, he, hb⟩
    exact ⟨_, he, _, hb, rfl⟩

theorem NumberFacets.node_eq_ok_iff {f : NumberFacets} {s : Schema} :
    f.node = .ok s ↔ s = .number f ∧ BoundsAgree f.minimum f.maximum := by
  rw [NumberFacets.node, Fault.bind_eq_ok_iff,
    ← checkBounds_eq_ok_iff "minimum" "maximum"]
  simp only [Fault.pure_eq_ok_iff]
  constructor
  · rintro ⟨_, hb, rfl⟩
    exact ⟨rfl, hb⟩
  · rintro ⟨rfl, hb⟩
    exact ⟨_, hb, rfl⟩

theorem ArrayFacets.node_eq_ok_iff {items : Option Schema} {f : ArrayFacets} {s : Schema} :
    f.node items = .ok s ↔ s = .array items f ∧ BoundsAgree f.minItems f.maxItems := by
  rw [ArrayFacets.node, Fault.bind_eq_ok_iff,
    ← checkBounds_eq_ok_iff "minItems" "maxItems"]
  simp only [Fault.pure_eq_ok_iff]
  constructor
  · rintro ⟨_, hb, rfl⟩
    exact ⟨rfl, hb⟩
  · rintro ⟨rfl, hb⟩
    exact ⟨_, hb, rfl⟩

namespace Schema

theorem namesProperty_eq_ok_true_iff {properties : Fields Schema} {v : Json} :
    namesProperty properties v = .ok true ↔ ∃ name ∈ Fields.names properties, v = .str name := by
  cases v <;> simp [namesProperty, Fields.has_iff]

theorem unknownNames_eq_ok_nil_iff {properties : Fields Schema} {required : List Json} :
    unknownNames properties required = .ok [] ↔
      ∀ v ∈ required, ∃ name ∈ Fields.names properties, v = .str name := by
  induction required with
  | nil => simp [unknownNames]
  | cons v rest ih =>
    rw [unknownNames, List.forall_mem_cons, ← ih, ← namesProperty_eq_ok_true_iff]
    simp only [Fault.bind_eq_ok_iff, Fault.pure_eq_ok_iff]
    constructor
    · rintro ⟨known, hk, unknown, hu, h⟩
      cases known with
      | true =>
        have hnil : unknown = [] := by simpa using h
        exact ⟨hk, hnil ▸ hu⟩
      | false => simp at h
    · rintro ⟨hk, hu⟩
      exact ⟨true, hk, [], hu, rfl⟩

theorem texts_map_str {α : Type} (f : α → String) (all : List α) :
    texts (all.map fun a => .str (f a)) = all.map f := by
  induction all with
  | nil => rfl
  | cons a rest ih =>
    rw [List.map_cons, List.map_cons, ← ih]
    rfl

theorem mem_texts_iff {values : List Json} {text : String} :
    text ∈ texts values ↔ .str text ∈ values := by
  rw [texts, List.mem_filterMap]
  constructor
  · rintro ⟨v, hv, h⟩
    split at h
    · cases h
      exact hv
    · cases h
  · exact fun h => ⟨_, h, rfl⟩

theorem objectNode_eq_ok_iff {properties : Fields Schema} {required : List Json}
    {additional : Option Schema} {nullable : Json} {s : Schema} :
    objectNode properties required additional nullable = .ok s ↔
      s = .object properties (texts required) additional nullable ∧
        ∀ v ∈ required, ∃ name ∈ Fields.names properties, v = .str name := by
  rw [objectNode, Fault.bind_eq_ok_iff, ← unknownNames_eq_ok_nil_iff]
  constructor
  · rintro ⟨unknown, hu, h⟩
    split at h
    · next hnil =>
      rw [List.isEmpty_iff.mp hnil] at hu
      exact ⟨(Fault.pure_eq_ok_iff.mp h).symm, hu⟩
    · cases h
  · rintro ⟨rfl, hu⟩
    exact ⟨[], hu, rfl⟩

end Schema

end Schemata

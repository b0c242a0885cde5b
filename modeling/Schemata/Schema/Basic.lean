import Schemata.Json.Basic

/-!
# Schemas

A schema is a tree of nodes, each of one kind. A property that is not required is optional, never
forbidden; a tuple is an array with equal bounds; a reference names a type and is not expanded.

## Main definitions

* `Schema`: the trees.
* `Kind`, `Schema.kind`: what a node describes.
* `Schema.concrete`: no node of the tree is the abstract one.

## Implementation notes

What a node is annotated with (formats, bounds, examples, the marks for nullable and unique, the
name of a reference) is kept as the JSON value it was given as; `null` stands for an annotation that
is not there. A mark holds when its value is truthy.
-/

namespace Schemata

structure StringFacets where
  format : Json := .null
  /-- The closed set of values, when there is one. -/
  enum : Option (List Json) := none
  exemplar : Json := .null
  minLength : Json := .null
  maxLength : Json := .null
  nullable : Json := .bool false

structure NumberFacets where
  integer : Json := .bool false
  format : Json := .null
  minimum : Json := .null
  maximum : Json := .null
  exemplar : Json := .null
  nullable : Json := .bool false

structure BooleanFacets where
  exemplar : Json := .null
  nullable : Json := .bool false

structure ArrayFacets where
  minItems : Json := .null
  maxItems : Json := .null
  unique : Json := .bool false

inductive Schema where
  | string (facets : StringFacets)
  | number (facets : NumberFacets)
  | boolean (facets : BooleanFacets)
  | object (properties : List (String × Schema)) (required : List String)
      (additional : Option Schema) (nullable : Json)
  | array (items : Option Schema) (facets : ArrayFacets)
  /-- Alternatives without a discriminant. -/
  | oneOf (variants : List Schema)
  /-- All parts at once. -/
  | allOf (parts : List Schema)
  | ref (name : Json)
  /-- Nothing is known. -/
  | empty
  /-- A node of no kind: it can be held, but neither told apart nor written. -/
  | abstract

inductive Kind where
  | string | number | integer | boolean | object | array | oneOf | allOf | reference | empty
  | abstract
  deriving DecidableEq, Repr

namespace Kind

def name : Kind → String
  | .string => "string"
  | .number => "number"
  | .integer => "integer"
  | .boolean => "boolean"
  | .object => "object"
  | .array => "array"
  | .oneOf => "oneOf"
  | .allOf => "allOf"
  | .reference => "$ref"
  | .empty => "empty"
  | .abstract => ""

/-- The kinds of plain values. -/
def isPrimitive : Kind → Bool
  | .string | .number | .integer | .boolean => true
  | _ => false

end Kind

namespace Schema

instance : Inhabited Schema := ⟨.empty⟩

def kind : Schema → Kind
  | .string _ => .string
  | .number facets => if facets.integer.truthy then .integer else .number
  | .boolean _ => .boolean
  | .object .. => .object
  | .array .. => .array
  | .oneOf _ => .oneOf
  | .allOf _ => .allOf
  | .ref _ => .reference
  | .empty => .empty
  | .abstract => .abstract

/-- An object about which nothing else is known. -/
def anyObject : Schema := .object [] [] none (.bool false)

/-- The example that a node of plain values carries; `null` for every other node. -/
def exemplar : Schema → Json
  | .string facets => facets.exemplar
  | .number facets => facets.exemplar
  | .boolean facets => facets.exemplar
  | _ => .null

def format : Schema → Json
  | .string facets => facets.format
  | .number facets => facets.format
  | _ => .null

def nullable : Schema → Json
  | .string facets => facets.nullable
  | .number facets => facets.nullable
  | .boolean facets => facets.nullable
  | .object _ _ _ nullable => nullable
  | _ => .bool false

def enum : Schema → Option (List Json)
  | .string facets => facets.enum
  | _ => none

def properties : Schema → List (String × Schema)
  | .object properties _ _ _ => properties
  | _ => []

def required : Schema → List String
  | .object _ required _ _ => required
  | _ => []

def additional : Schema → Option Schema
  | .object _ _ additional _ => additional
  | _ => none

def items : Schema → Option Schema
  | .array items _ => items
  | _ => none

/-- The node with the mark for nullable, if nodes of its kind have one. -/
def withNullable? : Schema → Option Schema
  | .string facets => some (.string { facets with nullable := .bool true })
  | .number facets => some (.number { facets with nullable := .bool true })
  | .boolean facets => some (.boolean { facets with nullable := .bool true })
  | .object properties required additional _ =>
    some (.object properties required additional (.bool true))
  | _ => none

/-! ### Size and depth -/

mutual

/-- How many nodes stand on a longest way down through the tree. -/
def height : Schema → Nat
  | .object properties _ additional _ =>
    max (heightOfFields properties) (heightOfOption additional) + 1
  | .array items _ => heightOfOption items + 1
  | .oneOf variants => heightOfAll variants + 1
  | .allOf parts => heightOfAll parts + 1
  | .string _ | .number _ | .boolean _ | .ref _ | .empty | .abstract => 1

def heightOfFields : List (String × Schema) → Nat
  | [] => 0
  | (_, s) :: rest => max s.height (heightOfFields rest)

def heightOfOption : Option Schema → Nat
  | none => 0
  | some s => s.height

def heightOfAll : List Schema → Nat
  | [] => 0
  | s :: rest => max s.height (heightOfAll rest)

end

theorem height_le_heightOfAll {s : Schema} {all : List Schema} (h : s ∈ all) :
    s.height ≤ heightOfAll all := by
  induction all with
  | nil => simp at h
  | cons a rest ih =>
    rcases List.mem_cons.1 h with rfl | h
    · simp only [heightOfAll]; omega
    · have := ih h
      simp only [heightOfAll]; omega

theorem height_le_heightOfFields {entry : String × Schema} {fields : List (String × Schema)}
    (h : entry ∈ fields) : entry.2.height ≤ heightOfFields fields := by
  induction fields with
  | nil => simp at h
  | cons a rest ih =>
    obtain ⟨n, s⟩ := a
    rcases List.mem_cons.1 h with rfl | h
    · simp only [heightOfFields]; omega
    · have := ih h
      simp only [heightOfFields]; omega

theorem heightOfAll_lt_of_forall {all : List Schema} {bound : Nat} (hb : 0 < bound)
    (h : ∀ s ∈ all, s.height < bound) : heightOfAll all < bound := by
  induction all with
  | nil => simpa [heightOfAll] using hb
  | cons a rest ih =>
    have ha := h a List.mem_cons_self
    have hr := ih fun s hs => h s (List.mem_cons_of_mem _ hs)
    simp only [heightOfAll]
    omega

theorem height_lt_of_mem_properties {entry : String × Schema} {s : Schema}
    (h : entry ∈ s.properties) : entry.2.height < s.height := by
  cases s <;> simp only [properties, List.not_mem_nil] at h
  have := height_le_heightOfFields h
  simp only [height]
  omega

theorem height_lt_of_additional {s t : Schema} (h : s.additional = some t) :
    t.height < s.height := by
  cases s <;> simp only [additional, reduceCtorEq] at h
  subst h
  simp only [height, heightOfOption]
  omega

theorem height_lt_of_items {s t : Schema} (h : s.items = some t) : t.height < s.height := by
  cases s <;> simp only [items, reduceCtorEq] at h
  subst h
  simp only [height, heightOfOption]
  omega

/-! ### Concrete trees -/

mutual

/-- No node of the tree is the abstract one. -/
def concrete : Schema → Bool
  | .object properties _ additional _ => concreteFields properties && concreteOption additional
  | .array items _ => concreteOption items
  | .oneOf variants => concreteAll variants
  | .allOf parts => concreteAll parts
  | .abstract => false
  | .string _ | .number _ | .boolean _ | .ref _ | .empty => true

def concreteFields : List (String × Schema) → Bool
  | [] => true
  | (_, s) :: rest => s.concrete && concreteFields rest

def concreteOption : Option Schema → Bool
  | none => true
  | some s => s.concrete

def concreteAll : List Schema → Bool
  | [] => true
  | s :: rest => s.concrete && concreteAll rest

end

end Schema

end Schemata

import Schemata.Schema.Basic

/-!
# Examples for what has none

A node of plain values that has neither an example nor a closed set of values gets the example of
its kind. Properties of objects and items of arrays are gone into; alternatives, parts and further
properties are left as they are.

## Main definitions

* `Schema.enrich`.
* `Schema.walkable`: no node of no kind stands where `enrich` goes.
-/

namespace Schemata

namespace Kind

def defaultExemplar : Kind → Json
  | .string => .str "example"
  | .number => .int 42
  | .integer => .int 1
  | .boolean => .bool true
  | _ => .null

end Kind

namespace Schema

/-- The node with an example; nodes of other than plain values have none. -/
def withExemplar (v : Json) : Schema → Schema
  | .string facets => .string { facets with exemplar := v }
  | .number facets => .number { facets with exemplar := v }
  | .boolean facets => .boolean { facets with exemplar := v }
  | s => s

def enrichLeaf (s : Schema) : Schema :=
  if s.exemplar.isNull && s.enum.isNone then s.withExemplar s.kind.defaultExemplar else s

mutual

def enrich : Schema → Schema
  | .object properties required additional nullable =>
    .object (enrichFields properties) required additional nullable
  | .array items facets => .array (enrichOption items) facets
  | .string facets => enrichLeaf (.string facets)
  | .number facets => enrichLeaf (.number facets)
  | .boolean facets => enrichLeaf (.boolean facets)
  | .oneOf variants => .oneOf variants
  | .allOf parts => .allOf parts
  | .ref name => .ref name
  | .empty => .empty
  | .abstract => .abstract

def enrichFields : List (String × Schema) → List (String × Schema)
  | [] => []
  | (name, s) :: rest => (name, s.enrich) :: enrichFields rest

def enrichOption : Option Schema → Option Schema
  | none => none
  | some s => some s.enrich

end

mutual

/-- No node of no kind is reached through properties and items. -/
def walkable : Schema → Bool
  | .object properties _ _ _ => walkableFields properties
  | .array items _ => walkableOption items
  | .abstract => false
  | .string _ | .number _ | .boolean _ | .oneOf _ | .allOf _ | .ref _ | .empty => true

def walkableFields : List (String × Schema) → Bool
  | [] => true
  | (_, s) :: rest => s.walkable && walkableFields rest

def walkableOption : Option Schema → Bool
  | none => true
  | some s => s.walkable

end

end Schema

end Schemata

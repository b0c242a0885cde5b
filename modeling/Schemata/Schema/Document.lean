import Schemata.Schema.Basic
import Schemata.Json.Display
import Schemata.Fault

/-!
# The document of a schema

The JSON form of a schema, in the dialect of OpenAPI. The entries of a node have a fixed order; an
annotation that is not there is left out, and a mark is written as `true` when it holds. A reference
is written behind the prefix of the collection of named schemas.

## Main definitions

* `Schema.document`: the form; the abstract node has none, and stands as `null`.
* `Schema.document?`: the form of a tree that has one.
* `Schema.documentOrNull?`: the same, where there may be no schema at all.
-/

namespace Schemata

/-- An entry for an annotation, unless it is `null`. -/
def entryIfGiven (name : String) (v : Json) : List (String × Json) :=
  if v.isNull then [] else [(name, v)]

/-- An entry for a mark, if it holds. -/
def entryIfMarked (name : String) (v : Json) : List (String × Json) :=
  if v.truthy then [(name, .bool true)] else []

def typeEntry (name : String) : String × Json := ("type", .str name)

def StringFacets.document (f : StringFacets) : Json :=
  .obj ([typeEntry "string"] ++ entryIfGiven "format" f.format
    ++ (match f.enum with
      | some values => [("enum", .arr values)]
      | none => [])
    ++ entryIfGiven "example" f.exemplar ++ entryIfGiven "minLength" f.minLength
    ++ entryIfGiven "maxLength" f.maxLength ++ entryIfMarked "nullable" f.nullable)

def NumberFacets.document (f : NumberFacets) : Json :=
  .obj ([typeEntry (if f.integer.truthy then "integer" else "number")]
    ++ entryIfGiven "format" f.format ++ entryIfGiven "minimum" f.minimum
    ++ entryIfGiven "maximum" f.maximum ++ entryIfGiven "example" f.exemplar
    ++ entryIfMarked "nullable" f.nullable)

def BooleanFacets.document (f : BooleanFacets) : Json :=
  .obj ([typeEntry "boolean"] ++ entryIfGiven "example" f.exemplar
    ++ entryIfMarked "nullable" f.nullable)

def ArrayFacets.entries (f : ArrayFacets) : List (String × Json) :=
  entryIfGiven "minItems" f.minItems ++ entryIfGiven "maxItems" f.maxItems
    ++ entryIfMarked "uniqueItems" f.unique

namespace Schema

mutual

def document (refPrefix : Json) : Schema → Json
  | .string facets => facets.document
  | .number facets => facets.document
  | .boolean facets => facets.document
  | .object properties required additional nullable =>
    .obj ([typeEntry "object"]
      ++ (if properties.isEmpty then []
        else [("properties", .obj (documentFields refPrefix properties))])
      ++ (if required.isEmpty then [] else [("required", .arr (required.map .str))])
      ++ documentOption refPrefix "additionalProperties" additional
      ++ entryIfMarked "nullable" nullable)
  | .array items facets =>
    .obj ([typeEntry "array"] ++ documentOption refPrefix "items" items ++ facets.entries)
  | .oneOf variants => .obj [("oneOf", .arr (documentAll refPrefix variants))]
  | .allOf parts => .obj [("allOf", .arr (documentAll refPrefix parts))]
  | .ref name => .obj [("$ref", .str (refPrefix.display ++ name.display))]
  | .empty => .obj []
  | .abstract => .null

def documentFields (refPrefix : Json) : List (String × Schema) → List (String × Json)
  | [] => []
  | (name, s) :: rest => (name, s.document refPrefix) :: documentFields refPrefix rest

def documentOption (refPrefix : Json) (entry : String) : Option Schema → List (String × Json)
  | none => []
  | some s => [(entry, s.document refPrefix)]

def documentAll (refPrefix : Json) : List Schema → List Json
  | [] => []
  | s :: rest => s.document refPrefix :: documentAll refPrefix rest

end

def document? (refPrefix : Json) (s : Schema) : Except Fault Json :=
  if s.concrete then .ok (s.document refPrefix) else .error .noKind

def documentOrNull? (refPrefix : Json) : Option Schema → Except Fault Json
  | none => .ok .null
  | some s => s.document? refPrefix

end Schema

end Schemata

import Schemata.Schema.Basic
import Schemata.Json.Equality

/-!
# Equality of schemas

Two nodes are equal when they are of one class and their parts are: properties without regard to
their order, everything else in order, annotations as JSON values.

## Main definitions

* `Schema.same`: the equality.
-/

namespace Schemata

def StringFacets.same (a b : StringFacets) : Bool :=
  a.format.same b.format
    && (match a.enum, b.enum with
      | none, none => true
      | some xs, some ys => Json.sameItems xs ys
      | _, _ => false)
    && a.exemplar.same b.exemplar && a.minLength.same b.minLength && a.maxLength.same b.maxLength
    && a.nullable.same b.nullable

def NumberFacets.same (a b : NumberFacets) : Bool :=
  a.integer.same b.integer && a.format.same b.format && a.minimum.same b.minimum
    && a.maximum.same b.maximum && a.exemplar.same b.exemplar && a.nullable.same b.nullable

def BooleanFacets.same (a b : BooleanFacets) : Bool :=
  a.exemplar.same b.exemplar && a.nullable.same b.nullable

def ArrayFacets.same (a b : ArrayFacets) : Bool :=
  a.minItems.same b.minItems && a.maxItems.same b.maxItems && a.unique.same b.unique

namespace Schema

mutual

def same : Schema → Schema → Bool
  | .string a, .string b => a.same b
  | .number a, .number b => a.same b
  | .boolean a, .boolean b => a.same b
  | .object ps required additional nullable, .object qs required' additional' nullable' =>
    ps.length == qs.length && sameFields ps qs && required == required'
      && sameOption additional additional' && nullable.same nullable'
  | .array items facets, .array items' facets' => sameOption items items' && facets.same facets'
  | .oneOf xs, .oneOf ys => sameAll xs ys
  | .allOf xs, .allOf ys => sameAll xs ys
  | .ref a, .ref b => a.same b
  | .empty, .empty => true
  | .abstract, .abstract => true
  | _, _ => false

def sameFields : List (String × Schema) → List (String × Schema) → Bool
  | [], _ => true
  | (name, s) :: rest, qs => (match qs.lookup name with
    | some t => same s t
    | none => false) && sameFields rest qs

def sameOption : Option Schema → Option Schema → Bool
  | none, none => true
  | some s, some t => same s t
  | _, _ => false

def sameAll : List Schema → List Schema → Bool
  | [], [] => true
  | s :: ss, t :: ts => same s t && sameAll ss ts
  | _, _ => false

end

end Schema

end Schemata

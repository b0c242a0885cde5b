import Schemata.Json.Display

/-!
# What can go wrong

## Main definitions

* `LoadCause`: why a JSON value is no schema.
* `Inconsistency`: why the parts of a schema do not go together.
* `Fault`: one of these, or a value used for what its type does not allow.
* `Fault.message?`: the wording, for the faults that have one.
-/

namespace Schemata

inductive LoadCause where
  | notASchema (found : String)
  | notAList (found : String)
  | variantsNotAList
  | badReference
  | propertiesNotAnObject
  | notASnapshot (found : String)
  deriving DecidableEq, Repr

def LoadCause.text : LoadCause → String
  | .notASchema found => "Expected a schema object, got " ++ found
  | .notAList found => "Expected a list of schemas, got " ++ found
  | .variantsNotAList => "Expected a list of schemas"
  | .badReference => "$ref must be a non-empty string"
  | .propertiesNotAnObject => "properties must be an object"
  | .notASnapshot found => "Expected a snapshot object, got " ++ found

inductive Inconsistency where
  | emptyEnum
  | repeatedEnum (values : List Json)
  | invertedBounds (lowName highName : String) (low high : Json)
  | unknownRequired (names : List Json)

def Inconsistency.text : Inconsistency → String
  | .emptyEnum => "enum must not be empty"
  | .repeatedEnum values => "enum values must be distinct: " ++ (Json.arr values).literal
  | .invertedBounds lowName highName low high =>
    s!"{lowName} ({low.display}) is greater than {highName} ({high.display})"
  | .unknownRequired names => "required names unknown properties: " ++ (Json.arr names).literal

inductive Fault where
  /-- A JSON value at `path` is not what is expected there. -/
  | load (cause : LoadCause) (path : String)
  /-- The parts of a schema contradict each other. -/
  | inconsistent (cause : Inconsistency)
  /-- A value has a type that does not allow what is done with it. -/
  | illTyped
  /-- Something that is not an object stands where entries are looked up. -/
  | notAnObject
  /-- A type expression is not a text. -/
  | notText
  /-- A setting that cannot be given. -/
  | fixedSetting (name : String)
  /-- Settings that leave out the overrides were asked for them. -/
  | noOverrides
  /-- A node of no kind was asked for its kind or its form. -/
  | noKind
  /-- A quotient beyond the range of doubles. -/
  | tooLarge

def Fault.message? : Fault → Option String
  | .load cause path => some (if path = "" then cause.text else s!"{cause.text} at {path}")
  | .inconsistent cause => some cause.text
  | _ => none

end Schemata

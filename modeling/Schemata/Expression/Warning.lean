import Schemata.Json.Display

/-!
# Warnings

What an expression says and a schema cannot is dropped, and the loss is reported.

## Main definitions

* `Warning`, `Warning.message`.
-/

namespace Schemata

inductive Warning where
  | depthExceeded (limit : Json)
  | blank
  | unrecognized (expr : List Char)
  /-- The member of a union cannot be marked as nullable. -/
  | nullabilityDropped (member : List Char)
  /-- `null` was dropped from a union of several other members. -/
  | nullMembersDropped (union : List Char)
  | modifierDropped (base argument : List Char)
  | selectionDropped (base : List Char) (arguments : List (List Char))
  | argumentsDropped (base : List Char) (arguments : List (List Char))

namespace Warning

/-- A generic with its arguments. -/
def applied (base : List Char) (arguments : List (List Char)) : String :=
  String.ofList base ++ "<" ++ String.intercalate ", " (arguments.map String.ofList) ++ ">"

def message : Warning → String
  | .depthExceeded limit => "Maximum type depth (" ++ limit.display ++ ") exceeded"
  | .blank => "Empty type expression"
  | .unrecognized expr => "Unrecognized type expression " ++ quoted (String.ofList expr)
  | .nullabilityDropped member => "Nullability of " ++ String.ofList member ++ " dropped"
  | .nullMembersDropped union => "Null members dropped from union " ++ String.ofList union
  | .modifierDropped base argument =>
    "Utility type " ++ applied base [argument] ++ " simplified to base type"
  | .selectionDropped base arguments =>
    "Utility type " ++ applied base arguments
      ++ " simplified to base type, field selection dropped"
  | .argumentsDropped base arguments =>
    "Generic type " ++ applied base arguments ++ " simplified, type arguments discarded"

end Warning

end Schemata

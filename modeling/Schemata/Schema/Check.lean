import Schemata.Schema.Basic
import Schemata.Json.Order
import Schemata.Fault

/-!
# Consistent nodes

What has to hold of a node by itself: a closed set of values is neither empty nor repeats a value, a
lower bound does not exceed its upper one, and what is required is among the properties. The
functions of this module give the node, or say which of its parts do not go together.

## Main definitions

* `StringFacets.node`, `NumberFacets.node`, `ArrayFacets.node`, `Schema.objectNode`: the checked
  nodes.
-/

namespace Schemata

/-- Refuses a lower bound greater than the upper one; bounds without an order are ill-typed. -/
def checkBounds (lowName highName : String) (low high : Json) : Except Fault Unit :=
  if low.isNull || high.isNull then .ok ()
  else match low.exceeds? high with
    | none => .error .illTyped
    | some true => .error (.inconsistent (.invertedBounds lowName highName low high))
    | some false => .ok ()

def checkEnum : Option (List Json) → Except Fault Unit
  | none => .ok ()
  | some values =>
    if values.isEmpty then .error (.inconsistent .emptyEnum)
    else if Json.allDistinct values then .ok ()
    else .error (.inconsistent (.repeatedEnum values))

def StringFacets.node (f : StringFacets) : Except Fault Schema := do
  checkEnum f.enum
  checkBounds "minLength" "maxLength" f.minLength f.maxLength
  return .string f

def NumberFacets.node (f : NumberFacets) : Except Fault Schema := do
  checkBounds "minimum" "maximum" f.minimum f.maximum
  return .number f

def ArrayFacets.node (items : Option Schema) (f : ArrayFacets) : Except Fault Schema := do
  checkBounds "minItems" "maxItems" f.minItems f.maxItems
  return .array items f

namespace Schema

/-- Whether a value is the name of a property; a list or an object cannot be looked up. -/
def namesProperty (properties : Fields Schema) : Json → Except Fault Bool
  | .str name => .ok (Fields.has properties name)
  | .arr _ | .obj _ => .error .illTyped
  | _ => .ok false

/-- The values that name no property. -/
def unknownNames (properties : Fields Schema) : List Json → Except Fault (List Json)
  | [] => .ok []
  | v :: rest => do
    let known ← namesProperty properties v
    let unknown ← unknownNames properties rest
    return if known then unknown else v :: unknown

/-- The texts of a list of values. -/
def texts (values : List Json) : List String :=
  values.filterMap fun
    | .str s => some s
    | _ => none

def objectNode (properties : Fields Schema) (required : List Json) (additional : Option Schema)
    (nullable : Json) : Except Fault Schema := do
  let unknown ← unknownNames properties required
  if unknown.isEmpty then return .object properties (texts required) additional nullable
  else throw (.inconsistent (.unknownRequired unknown))

end Schema

end Schemata

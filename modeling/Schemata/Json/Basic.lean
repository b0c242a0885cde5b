import Schemata.Fields
import Schemata.Number.Double

/-!
# JSON values

Integers have no bound and stay apart from doubles; the fields of an object keep their order.

## Main definitions

* `Json`: the values.
* `Json.truthy`: whether a value counts as given: everything but `null`, `false`, the zeros and
  what is empty.
* `Json.number?`: the exact value of a number, a boolean counting as 0 or 1.
* `Json.WellFormed`: no object repeats a name, at any depth.
-/

namespace Schemata

inductive Json where
  | null
  | bool (value : Bool)
  | int (value : Int)
  | double (value : Double)
  | str (value : String)
  | arr (items : List Json)
  | obj (fields : List (String × Json))

namespace Json

instance : Inhabited Json := ⟨.null⟩

def isNull : Json → Bool
  | .null => true
  | _ => false

/-- The value, unless it is `null`. -/
def given? : Json → Option Json
  | .null => none
  | v => some v

def truthy : Json → Bool
  | .null => false
  | .bool b => b
  | .int n => n != 0
  | .double d => !d.isZero
  | .str s => s != ""
  | .arr items => !items.isEmpty
  | .obj fields => !fields.isEmpty

def typeName : Json → String
  | .null => "NoneType"
  | .bool _ => "bool"
  | .int _ => "int"
  | .double _ => "float"
  | .str _ => "str"
  | .arr _ => "list"
  | .obj _ => "dict"

/-- The exact value of a number; `false` and `true` count as 0 and 1. -/
def number? : Json → Option Dyadic
  | .bool b => some (Dyadic.ofInt (if b then 1 else 0))
  | .int n => some (Dyadic.ofInt n)
  | .double d => some d.toDyadic
  | _ => none

/-- An integer; `false` and `true` count as 0 and 1. -/
def integer? : Json → Option Int
  | .bool b => some (if b then 1 else 0)
  | .int n => some n
  | _ => none

/-- The double nearest to a number. -/
def toDouble? : Json → Option Double
  | .double d => some d
  | v => v.integer?.bind fun n => Double.ofQuotient? n 1

/-- A number that is not a boolean. -/
def isNumber : Json → Bool
  | .int _ | .double _ => true
  | _ => false

/-- The elements of what can be gone through: of a list its items, of a text its characters, of an
object its names. -/
def elements? : Json → Option (List Json)
  | .str s => some (s.toList.map fun c => .str (String.singleton c))
  | .arr items => some items
  | .obj fields => some (fields.map fun field => .str field.1)
  | _ => none

/-- The field `key` of an object. -/
def field? (key : String) : Json → Option Json
  | .obj fields => fields.lookup key
  | _ => none

/-! ### Well-formed values -/

mutual

def WellFormed : Json → Prop
  | .arr items => AllWellFormed items
  | .obj fields => (fields.map Prod.fst).Nodup ∧ FieldsWellFormed fields
  | _ => True

def AllWellFormed : List Json → Prop
  | [] => True
  | v :: rest => v.WellFormed ∧ AllWellFormed rest

def FieldsWellFormed : List (String × Json) → Prop
  | [] => True
  | (_, v) :: rest => v.WellFormed ∧ FieldsWellFormed rest

end

end Json

end Schemata

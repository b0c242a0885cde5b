import Schemata.Json.Basic

/-!
# Equality of JSON values

Numbers are equal when their exact values are, whatever they are written as, so that `1`, `1.0` and
`true` are one value; lists are compared item by item, and objects without regard to the order of
their fields.

## Main definitions

* `Json.same`: the equality.
* `Json.isIn`: membership in a list of values.
* `Json.distinct`: the first occurrence of every value of a list.
* `Json.allDistinct`: no value of a list occurs twice.
-/

namespace Schemata.Json

mutual

def same : Json → Json → Bool
  | .null, b => b.isNull
  | .str s, b => match b with
    | .str t => s == t
    | _ => false
  | .arr xs, b => match b with
    | .arr ys => sameItems xs ys
    | _ => false
  | .obj fs, b => match b with
    | .obj gs => fs.length == gs.length && sameFields fs gs
    | _ => false
  | .bool x, b => b.number? == (Json.bool x).number?
  | .int n, b => b.number? == (Json.int n).number?
  | .double d, b => b.number? == (Json.double d).number?

def sameItems : List Json → List Json → Bool
  | [], [] => true
  | x :: xs, y :: ys => same x y && sameItems xs ys
  | _, _ => false

/-- Each field of the first object is in the second, with an equal value. -/
def sameFields : List (String × Json) → List (String × Json) → Bool
  | [], _ => true
  | (k, v) :: fs, gs => (match gs.lookup k with
    | some w => same v w
    | none => false) && sameFields fs gs

end

instance : BEq Json := ⟨same⟩

def isIn (v : Json) (values : List Json) : Bool := values.any v.same

/-- A list with a value added at its end, unless it holds an equal one. -/
def addNew (values : List Json) (v : Json) : List Json :=
  if v.isIn values then values else values ++ [v]

def distinct (values : List Json) : List Json := values.foldl addNew []

def allDistinct (values : List Json) : Bool := (distinct values).length == values.length

def sameOption : Option Json → Option Json → Bool
  | none, none => true
  | some v, some w => same v w
  | _, _ => false

end Schemata.Json

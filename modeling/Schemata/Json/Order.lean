import Schemata.Json.Equality

/-!
# Order of JSON values

Only some values can be put in order: numbers by exact value, booleans among them; texts by code
point; and lists by the first place at which they differ, a shorter list coming first.

## Main definitions

* `Json.exceeds?`: whether one value is greater than another; nothing when they have no order.
* `Json.atMost?`: whether one value is less than or equal to another.
-/

namespace Schemata.Json

/-- The order of two values that are no lists. -/
def exceedsPlain? (a b : Json) : Option Bool :=
  match a, b with
  | .str s, .str t => some (t < s)
  | _, _ => match a.number?, b.number? with
    | some x, some y => some (y < x)
    | _, _ => none

mutual

def exceeds? : Json → Json → Option Bool
  | .arr xs, b => match b with
    | .arr ys => exceedsItems? xs ys
    | _ => none
  | .null, _ => none
  | .obj _, _ => none
  | .bool x, b => exceedsPlain? (.bool x) b
  | .int n, b => exceedsPlain? (.int n) b
  | .double d, b => exceedsPlain? (.double d) b
  | .str s, b => exceedsPlain? (.str s) b

def exceedsItems? : List Json → List Json → Option Bool
  | [], _ => some false
  | _ :: _, [] => some true
  | x :: xs, y :: ys => if same x y then exceedsItems? xs ys else exceeds? x y

end

def atMost? (a b : Json) : Option Bool := (exceeds? a b).map not

end Schemata.Json

/-!
# Classes of characters

A class is a list of ranges of code points, in ascending order.
-/

namespace Schemata

def inRanges (ranges : List (Nat × Nat)) (c : Char) : Bool :=
  ranges.any fun (first, last) => first ≤ c.toNat && c.toNat ≤ last

end Schemata

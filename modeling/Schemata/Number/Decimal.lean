/-!
# Decimals

A decimal is a natural number of units of a power of ten. `lowestTerms` gives the one form without
trailing zeros, so that `1.50`, `1.5` and `15e-1` are read alike.
-/

namespace Schemata

/-- The decimal `digits · 10 ^ exponent`. -/
structure Decimal where
  digits : Nat
  exponent : Int
  deriving DecidableEq, Repr

namespace Decimal

/-- How many decimal digits a number is written with. -/
def digitCount (n : Nat) : Nat := (Nat.toDigits 10 n).length

/-- The same decimal with its trailing zeros moved into the exponent. -/
def lowestTerms (c : Decimal) : Decimal :=
  if _h : c.digits ≠ 0 ∧ c.digits % 10 = 0 then lowestTerms ⟨c.digits / 10, c.exponent + 1⟩ else c
termination_by c.digits

end Decimal

end Schemata

import Schemata.Number.Decimal

/-!
# Double-precision numbers, exactly

A finite double is kept as its sign, a mantissa and a binary exponent, in the one canonical way:
the mantissa has 53 binary digits unless the exponent is already the least. Everything below is
computed on natural numbers, so that rounding and comparison can be reasoned about.

## Main definitions

* `Double`: a finite double; the two zeros differ by sign alone.
* `Double.toDyadic`: its value.
* `Double.nearest?`: the double nearest to a quotient, a tie going to the even mantissa; nothing
  when the quotient is too large.
* `Double.ofDecimal?`: the double nearest to a decimal.

## Implementation notes

Values are compared through `Dyadic`, where a number has one representation; that is what makes the
comparison of a double with an integer exact. Powers are written as `Nat.pow`, so that they mean the
same whatever else is imported.
-/

namespace Schemata

/-- The 52nd power of two, the least mantissa of 53 binary digits. -/
def Double.leastFull : Nat := 4503599627370496

/-- The 53rd power of two, above every mantissa. -/
def Double.aboveFull : Nat := 9007199254740992

/-- The mantissa fills 53 binary digits, or the exponent is the least there is. -/
def Double.Canonical (mantissa : Nat) (exponent : Int) : Prop :=
  mantissa < aboveFull ∧ -1074 ≤ exponent ∧ exponent ≤ 971
    ∧ (leastFull ≤ mantissa ∨ exponent = -1074)

instance (mantissa : Nat) (exponent : Int) : Decidable (Double.Canonical mantissa exponent) :=
  inferInstanceAs (Decidable (_ ∧ _ ∧ _ ∧ _))

/-- A finite double: `± mantissa · 2 ^ exponent`. -/
structure Double where
  negative : Bool
  mantissa : Nat
  exponent : Int
  canonical : Double.Canonical mantissa exponent
  deriving DecidableEq

namespace Double

def zero (negative : Bool) : Double := ⟨negative, 0, -1074, by decide⟩

/-- The double of the greatest magnitude. -/
def greatest (negative : Bool) : Double := ⟨negative, 9007199254740991, 971, by decide⟩

def isZero (d : Double) : Bool := d.mantissa == 0

def ofParts? (negative : Bool) (mantissa : Nat) (exponent : Int) : Option Double :=
  if h : Canonical mantissa exponent then some ⟨negative, mantissa, exponent, h⟩ else none

def toDyadic (d : Double) : Dyadic :=
  Dyadic.ofIntWithPrec (if d.negative then -(d.mantissa : Int) else d.mantissa) (-d.exponent)

/-- The magnitude as a quotient of two natural numbers. -/
def quotient (d : Double) : Nat × Nat :=
  if 0 ≤ d.exponent then (d.mantissa * Nat.pow 2 d.exponent.toNat, 1)
  else (d.mantissa, Nat.pow 2 (-d.exponent).toNat)

/-! ### Rounding -/

/-- The natural number nearest to `num / den`; a half goes to the even neighbour. -/
def roundHalfEven (num den : Nat) : Nat :=
  let q := num / den
  let twice := 2 * (num % den)
  if den < twice ∨ (twice = den ∧ q % 2 = 1) then q + 1 else q

/-- The quotient `num / den` divided by `base ^ exponent`, again as a quotient. -/
def rescale (base num den : Nat) (exponent : Int) : Nat × Nat :=
  if 0 ≤ exponent then (num, den * Nat.pow base exponent.toNat)
  else (num * Nat.pow base (-exponent).toNat, den)

/-- The exponent at which `num / den` has a mantissa of 53 digits, or the least one. -/
def exponentFor (num den : Nat) : Int :=
  let guess : Int := max (-1074) ((num.log2 : Int) - den.log2 - 53)
  let (n, d) := rescale 2 num den guess
  if n / d < aboveFull then guess else guess + 1

/-- The double nearest to `num / den`, for a positive `den`. -/
def nearest? (negative : Bool) (num den : Nat) : Option Double :=
  if num = 0 then some (zero negative)
  else
    let exponent := exponentFor num den
    let (n, d) := rescale 2 num den exponent
    let mantissa := roundHalfEven n d
    if mantissa = aboveFull then ofParts? negative leastFull (exponent + 1)
    else ofParts? negative mantissa exponent

/-- The double nearest to a decimal. Magnitudes far outside the range are settled without raising
ten to a power. -/
def ofDecimal? (negative : Bool) (c : Decimal) : Option Double :=
  let c := c.lowestTerms
  let magnitude := c.exponent + Decimal.digitCount c.digits
  if c.digits = 0 ∨ magnitude < -400 then some (zero negative)
  else if 400 < magnitude then none
  else
    let (num, den) := rescale 10 c.digits 1 (-c.exponent)
    nearest? negative num den

/-- The double nearest to the quotient of two integers; the sign of a zero is the sign the
quotient would have. -/
def ofQuotient? (num den : Int) : Option Double :=
  nearest? (xor (num < 0) (den < 0)) num.natAbs den.natAbs

/-- The double nearest to the quotient of two doubles, the second of which is not zero. -/
def over? (a b : Double) : Option Double :=
  nearest? (xor a.negative b.negative) (a.quotient.1 * b.quotient.2) (a.quotient.2 * b.quotient.1)

end Double

end Schemata

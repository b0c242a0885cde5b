import Schemata.Number.Double

/-!
# The shortest decimal of a double

A double is written with the fewest decimal digits that read back as the same double; among
decimals of that length it is the one nearest to the value. From 1e-4 up to, but not including,
1e16 the notation is positional and keeps a fraction (`1.0`); elsewhere it has an exponent with a
sign and at least two digits (`1e+16`, `1.5e-07`).

## Main definitions

* `Double.shortest`: the digits and the place of the decimal point.
* `Double.toText`: the written form.
* `Double.toWholeText`: the nearest whole number, a half going to the even one.

## Main results

* `Double.numeral_of_toText`: of which characters the written form consists.
-/

namespace Schemata

namespace Double

/-- The `k` with `10 ^ (k - 1) ≤ num / den < 10 ^ k`, for a positive quotient. -/
def decimalMagnitude (num den : Nat) : Int :=
  if den ≤ num then Decimal.digitCount (num / den)
  else 1 - (Decimal.digitCount ((den - 1) / num) : Int)

def readsBack (d : Double) (c : Decimal) : Bool :=
  ofDecimal? d.negative c = some d

/-- The decimal with `count` digits that reads back as `d`, when there is one: of the two
neighbours of the value on that grid the nearer one that does. -/
def withDigits? (d : Double) (count : Nat) : Option Decimal :=
  let (num, den) := d.quotient
  let exponent := decimalMagnitude num den - count
  let (n, m) := rescale 10 num den exponent
  let nearer := roundHalfEven n m
  let farther := if nearer = n / m then n / m + 1 else n / m
  if readsBack d ⟨nearer, exponent⟩ then some ⟨nearer, exponent⟩
  else if readsBack d ⟨farther, exponent⟩ then some ⟨farther, exponent⟩
  else none

/-- All decimal digits of the value. -/
def exactDecimal (d : Double) : Decimal :=
  if 0 ≤ d.exponent then ⟨d.mantissa * Nat.pow 2 d.exponent.toNat, 0⟩
  else ⟨d.mantissa * Nat.pow 5 (-d.exponent).toNat, d.exponent⟩

/-- The first grid of 1 to 17 digits with a decimal that reads back; seventeen are enough, and
the exact value stands behind them. -/
def shortest (d : Double) : Decimal :=
  if d.isZero then ⟨0, 0⟩
  else ((List.range 17).findSome? fun i => d.withDigits? (i + 1)).getD d.exactDecimal

def zeros (n : Nat) : List Char := List.replicate n '0'

/-- The digits with trailing zeros removed, but for the first. -/
def significant (digits : List Char) : List Char :=
  match (digits.reverse.dropWhile (· = '0')).reverse with
  | [] => ['0']
  | ds => ds

/-- The text of a magnitude whose digits are `digits` and whose point stands after the first
`point` of them. -/
def layout (digits : List Char) (point : Int) : List Char :=
  let count : Int := digits.length
  if point ≤ -4 ∨ 16 < point then
    let exponent := point - 1
    let fraction := digits.drop 1
    let shown := Nat.toDigits 10 exponent.natAbs
    digits.take 1 ++ (if fraction.isEmpty then [] else '.' :: fraction)
      ++ ['e', if exponent < 0 then '-' else '+'] ++ zeros (2 - shown.length) ++ shown
  else if point ≤ 0 then ['0', '.'] ++ zeros (-point).toNat ++ digits
  else if count ≤ point then digits ++ zeros (point - count).toNat ++ ['.', '0']
  else digits.take point.toNat ++ ['.'] ++ digits.drop point.toNat

def toText (d : Double) : String :=
  let shortest := d.shortest
  let digits := Nat.toDigits 10 shortest.digits
  let point := if d.isZero then 1 else shortest.exponent + digits.length
  String.ofList ((if d.negative then ['-'] else []) ++ layout (significant digits) point)

/-- A character that the text of a double can have. -/
def isNumeral (c : Char) : Bool := c.isDigit || c == '.' || c == 'e' || c == '+' || c == '-'

private theorem numeral_of_toDigits (n : Nat) : ∀ c ∈ Nat.toDigits 10 n, isNumeral c = true := by
  intro c hc
  have digit := Nat.isDigit_of_mem_toDigits (by decide) (by decide) hc
  simp [isNumeral, digit]

private theorem numeral_of_zeros (n : Nat) : ∀ c ∈ zeros n, isNumeral c = true := by
  intro c hc
  rw [zeros, List.mem_replicate] at hc
  rw [hc.2]
  decide

private theorem numeral_of_significant {digits : List Char}
    (h : ∀ c ∈ digits, isNumeral c = true) : ∀ c ∈ significant digits, isNumeral c = true := by
  intro c hc
  rw [significant] at hc
  split at hc
  · rw [List.mem_singleton.mp hc]
    decide
  · have kept := (List.dropWhile_sublist (· = '0')).subset (List.mem_reverse.mp hc)
    exact h c (List.mem_reverse.mp kept)

private theorem numeral_of_layout {digits : List Char} (h : ∀ c ∈ digits, isNumeral c = true)
    (point : Int) : ∀ c ∈ layout digits point, isNumeral c = true := by
  have taken : ∀ n, ∀ c ∈ digits.take n, isNumeral c = true := fun n c hc =>
    h c (List.mem_of_mem_take hc)
  have dropped : ∀ n, ∀ c ∈ digits.drop n, isNumeral c = true := fun n c hc =>
    h c (List.mem_of_mem_drop hc)
  rw [layout]
  dsimp only
  split
  · simp only [List.forall_mem_append]
    refine ⟨⟨⟨⟨taken 1, ?_⟩, ?_⟩, numeral_of_zeros _⟩, numeral_of_toDigits _⟩
    · split
      · exact fun c hc => absurd hc List.not_mem_nil
      · exact List.forall_mem_cons.mpr ⟨by decide, dropped 1⟩
    · split
      · exact List.all_eq_true.mp (by decide)
      · exact List.all_eq_true.mp (by decide)
  split
  · simp only [List.forall_mem_append]
    exact ⟨⟨List.all_eq_true.mp (by decide), numeral_of_zeros _⟩, h⟩
  split
  · simp only [List.forall_mem_append]
    exact ⟨⟨h, numeral_of_zeros _⟩, List.all_eq_true.mp (by decide)⟩
  · simp only [List.forall_mem_append]
    exact ⟨⟨taken _, List.all_eq_true.mp (by decide)⟩, dropped _⟩

/-- The text of a double is made of digits, a point, and what spells an exponent or a sign. -/
theorem numeral_of_toText (d : Double) : ∀ c ∈ d.toText.toList, isNumeral c = true := by
  rw [toText, String.toList_ofList, List.forall_mem_append]
  constructor
  · split
    · exact List.all_eq_true.mp (by decide)
    · exact fun c hc => absurd hc List.not_mem_nil
  · exact numeral_of_layout (numeral_of_significant (numeral_of_toDigits _)) _

def toWholeText (d : Double) : String :=
  let (num, den) := d.quotient
  (if d.negative then "-" else "") ++ toString (roundHalfEven num den)

end Double

end Schemata

import Schemata.Number.Double
import Mathlib.Algebra.Field.Rat
import Mathlib.Algebra.Order.Field.Basic
import Mathlib.Algebra.Order.Field.Power
import Mathlib.Tactic.FieldSimp
import Mathlib.Tactic.Linarith
import Mathlib.Tactic.Ring

/-!
# The exact values of numbers

A double is a multiple of a power of two, and a decimal one of a power of ten. What either stands
for is one rational number. How a decimal is spelt, with more or with fewer zeros at its end, is no
part of it, and nothing that is read from decimals depends on the spelling.

## Main definitions

* `Double.magnitude`, `Double.value`: the value of a double, without and with its sign.
* `Decimal.value`: the value of a decimal.

## Main results

* `Double.toRat_toDyadic`: doubles are compared by their values.
* `Decimal.lowestTerms_eq_of_value_eq`: decimals of one value have one form without zeros at the
  end.
* `Double.ofDecimal?_eq_of_value_eq`: they are read as one double.
-/

namespace Schemata

namespace Double

def magnitude (d : Double) : ℚ := d.mantissa * 2 ^ d.exponent

def value (d : Double) : ℚ := if d.negative then -d.magnitude else d.magnitude

theorem toRat_toDyadic (d : Double) : d.toDyadic.toRat = d.value := by
  rw [toDyadic, Dyadic.toRat_ofIntWithPrec_eq_mul_two_pow, neg_neg, value, magnitude]
  cases d.negative with
  | false => simp
  | true => simp

end Double

/-! ### Decimals -/

namespace Decimal

def value (c : Decimal) : ℚ := c.digits * 10 ^ c.exponent

theorem value_lowestTerms (c : Decimal) : c.lowestTerms.value = c.value := by
  fun_induction lowestTerms c with
  | case1 c h ih =>
    have whole : c.digits / 10 * 10 = c.digits := Nat.div_mul_cancel (Nat.dvd_of_mod_eq_zero h.2)
    rw [ih, value, value, zpow_add_one₀ (by norm_num), ← whole]
    push_cast
    rw [Nat.mul_div_cancel _ (by decide)]
    ring
  | case2 c h => rfl

theorem lowestTerms_digits (c : Decimal) :
    c.lowestTerms.digits = 0 ∨ c.lowestTerms.digits % 10 ≠ 0 := by
  fun_induction lowestTerms c with
  | case1 c h ih => exact ih
  | case2 c h => exact not_and_or.mp h |>.imp_left not_not.mp

theorem value_eq_zero_iff {c : Decimal} : c.value = 0 ↔ c.digits = 0 := by
  rw [value, mul_eq_zero_iff_right (zpow_ne_zero _ (by norm_num)), Nat.cast_eq_zero]

/-- Of two decimals of one value, the one with the lower exponent has the other's digits and zeros
behind them. -/
theorem digits_eq_of_value_eq {c c' : Decimal} {zeros : Nat} (h : c.value = c'.value)
    (behind : c'.exponent = c.exponent + zeros) : c.digits = c'.digits * 10 ^ zeros := by
  have unit : (10 : ℚ) ^ c.exponent ≠ 0 := zpow_ne_zero _ (by norm_num)
  rw [value, value, behind, zpow_add₀ (by norm_num), zpow_natCast, ← mul_assoc,
    mul_right_comm] at h
  exact_mod_cast mul_right_cancel₀ unit h

private theorem exponent_le_of_value_eq {c c' : Decimal} (h : c.value = c'.value)
    (last : c.digits % 10 ≠ 0) : c'.exponent ≤ c.exponent := by
  by_contra hlt
  have behind : c'.exponent = c.exponent + ((c'.exponent - c.exponent).toNat : Nat) := by omega
  have digits := digits_eq_of_value_eq h behind
  obtain ⟨zeros, hzeros⟩ : ∃ zeros, (c'.exponent - c.exponent).toNat = zeros + 1 :=
    Nat.exists_eq_succ_of_ne_zero (by omega)
  rw [hzeros, pow_succ, ← mul_assoc] at digits
  exact last (by rw [digits, Nat.mul_mod_left])

theorem lowestTerms_eq_of_value_eq {c c' : Decimal} (h : c.value = c'.value)
    (nonzero : c.digits ≠ 0) : c.lowestTerms = c'.lowestTerms := by
  have values : c.lowestTerms.value = c'.lowestTerms.value := by
    rw [value_lowestTerms, value_lowestTerms, h]
  have nonzero' : c'.digits ≠ 0 := by rwa [Ne, ← value_eq_zero_iff, ← h, value_eq_zero_iff]
  have last : ∀ {c : Decimal}, c.digits ≠ 0 → c.lowestTerms.digits % 10 ≠ 0 := by
    intro c hc
    refine c.lowestTerms_digits.resolve_left fun zero => hc ?_
    rwa [← value_eq_zero_iff, ← value_lowestTerms, value_eq_zero_iff]
  have exponents : c.lowestTerms.exponent = c'.lowestTerms.exponent :=
    le_antisymm (exponent_le_of_value_eq values.symm (last nonzero'))
      (exponent_le_of_value_eq values (last nonzero))
  have digits : c.lowestTerms.digits = c'.lowestTerms.digits * 10 ^ 0 :=
    digits_eq_of_value_eq values (by rw [exponents, Nat.cast_zero, add_zero])
  rw [pow_zero, mul_one] at digits
  cases hc : c.lowestTerms
  cases hc' : c'.lowestTerms
  rw [hc, hc'] at exponents digits
  rw [mk.injEq]
  exact ⟨digits, exponents⟩

end Decimal

namespace Double

theorem ofDecimal?_of_zero (negative : Bool) {c : Decimal} (h : c.digits = 0) :
    ofDecimal? negative c = some (zero negative) := by
  have lowest : c.lowestTerms.digits = 0 := by
    rwa [← Decimal.value_eq_zero_iff, Decimal.value_lowestTerms, Decimal.value_eq_zero_iff]
  exact if_pos (.inl lowest)

theorem ofDecimal?_eq_of_value_eq (negative : Bool) {c c' : Decimal} (h : c.value = c'.value) :
    ofDecimal? negative c = ofDecimal? negative c' := by
  by_cases zero : c.digits = 0
  · have zero' : c'.digits = 0 := by
      rwa [← Decimal.value_eq_zero_iff, ← h, Decimal.value_eq_zero_iff]
    rw [ofDecimal?_of_zero negative zero, ofDecimal?_of_zero negative zero']
  · rw [ofDecimal?, ofDecimal?, Decimal.lowestTerms_eq_of_value_eq h zero]

end Double

end Schemata

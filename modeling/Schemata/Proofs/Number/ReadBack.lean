import Schemata.Number.Shortest
import Schemata.Proofs.Number.Value
import Mathlib.Tactic.NormNum

/-!
# Doubles are read back

A double is written as a decimal that is nearest to it, so reading that decimal has to find the
double again. Of the candidates with few digits this is checked before they are used; what has to be
shown is that the exact decimal, which stands behind them, is read back as well. Rounding changes no
value that is a double, provided that it looks for the value at the exponent at which the double has
it. That there is only one such exponent is what all rests on.

## Main definitions

* `Double.StandsAt`: the exponent at which a magnitude has its mantissa.

## Main results

* `Double.StandsAt.unique`, `Double.standsAt_exponentFor`: there is one exponent, and it is found.
* `Double.nearest?_of_magnitude`: the double nearest to the magnitude of a double is that double.
* `Double.ofDecimal?_shortest`: the decimal with which a double is written is read as this double.

## What is deliberately absent

It is not shown that seventeen digits are always enough; the search for few digits may fail.
-/

namespace Schemata

namespace Double

/-! ### The exponent of a magnitude -/

/-- At this exponent the magnitude has a mantissa of 53 binary digits, or fewer if there is no lower
exponent. -/
structure StandsAt (x : ℚ) (exponent : Int) : Prop where
  least : -1074 ≤ exponent
  below : x < aboveFull * 2 ^ exponent
  full : leastFull * 2 ^ exponent ≤ x ∨ exponent = -1074

theorem aboveFull_mul (exponent : Int) :
    (aboveFull : ℚ) * 2 ^ exponent = leastFull * 2 ^ (exponent + 1) := by
  rw [zpow_add_one₀ (by norm_num)]
  norm_num [aboveFull, leastFull]
  ring

theorem StandsAt.le {x : ℚ} {e e' : Int} (h : StandsAt x e) (h' : StandsAt x e') : e' ≤ e := by
  by_contra hlt
  rw [not_le] at hlt
  have full : leastFull * 2 ^ e' ≤ x := h'.full.resolve_right (by have := h.least; omega)
  have below : x < leastFull * 2 ^ (e + 1) := by
    rw [← aboveFull_mul]
    exact h.below
  have power : (2 : ℚ) ^ (e + 1) ≤ 2 ^ e' := zpow_le_zpow_right₀ (by norm_num) hlt
  have scaled : (leastFull : ℚ) * 2 ^ (e + 1) ≤ leastFull * 2 ^ e' :=
    mul_le_mul_of_nonneg_left power (Nat.cast_nonneg _)
  linarith

theorem StandsAt.unique {x : ℚ} {e e' : Int} (h : StandsAt x e) (h' : StandsAt x e') : e = e' :=
  le_antisymm (h'.le h) (h.le h')

theorem standsAt_magnitude (d : Double) : StandsAt d.magnitude d.exponent := by
  obtain ⟨below, least, -, full⟩ := d.canonical
  have power : (0 : ℚ) < 2 ^ d.exponent := zpow_pos (by norm_num) _
  refine ⟨least, ?_, full.imp_left fun full => ?_⟩
  · exact mul_lt_mul_of_pos_right (Nat.cast_lt.mpr below) power
  · exact mul_le_mul_of_nonneg_right (Nat.cast_le.mpr full) power.le

/-! ### Finding the exponent -/

section Quotient

variable {num den : Nat}

theorem rescale_den_pos {base : Nat} (hbase : 0 < base) (hden : 0 < den) (exponent : Int) :
    0 < (rescale base num den exponent).2 := by
  rw [rescale]
  split
  · exact Nat.mul_pos hden (Nat.pow_pos hbase)
  · exact hden

theorem rescale_eq (base num den : Nat) (exponent : Int) :
    ((rescale base num den exponent).1 : ℚ) / (rescale base num den exponent).2 =
      num / den / base ^ exponent := by
  rw [rescale]
  split
  · next nonneg =>
    obtain ⟨n, rfl⟩ := Int.eq_ofNat_of_zero_le nonneg
    show (num : ℚ) / (den * base ^ n : Nat) = _
    push_cast
    rw [zpow_natCast, div_div]
  · next negative =>
    obtain ⟨n, hn⟩ := Int.eq_ofNat_of_zero_le (show 0 ≤ -exponent by omega)
    have hexponent : exponent = -n := by omega
    subst hexponent
    rw [neg_neg, Int.toNat_natCast, zpow_neg, zpow_natCast, div_inv_eq_mul]
    show ((num * base ^ n : Nat) : ℚ) / den = _
    push_cast
    rw [mul_div_right_comm]

/-- A quotient lies between the powers of two that the lengths of its parts tell. -/
theorem quotient_between (hnum : num ≠ 0) (hden : den ≠ 0) :
    (2 : ℚ) ^ ((num.log2 : Int) - den.log2 - 1) ≤ num / den ∧
      (num : ℚ) / den < 2 ^ ((num.log2 : Int) - den.log2 + 1) := by
  have two : (2 : ℚ) ≠ 0 := by norm_num
  have atLeast : ∀ {n : Nat}, n ≠ 0 → (2 : ℚ) ^ (n.log2 : Int) ≤ n := by
    intro n hn
    rw [zpow_natCast]
    exact_mod_cast Nat.log2_self_le hn
  have lessThan : ∀ n : Nat, (n : ℚ) < 2 ^ ((n.log2 : Int) + 1) := by
    intro n
    rw [← Nat.cast_succ, zpow_natCast]
    exact_mod_cast Nat.lt_log2_self
  have positive : (0 : ℚ) < den := Nat.cast_pos.mpr (Nat.pos_of_ne_zero hden)
  constructor
  · rw [le_div_iff₀ positive]
    calc (2 : ℚ) ^ ((num.log2 : Int) - den.log2 - 1) * den
        ≤ 2 ^ ((num.log2 : Int) - den.log2 - 1) * 2 ^ ((den.log2 : Int) + 1) :=
          mul_le_mul_of_nonneg_left (lessThan den).le (zpow_nonneg (by norm_num) _)
      _ = 2 ^ (num.log2 : Int) := by rw [← zpow_add₀ two]; congr 1; omega
      _ ≤ num := atLeast hnum
  · rw [div_lt_iff₀ positive]
    calc (num : ℚ) < 2 ^ ((num.log2 : Int) + 1) := lessThan num
      _ = 2 ^ ((num.log2 : Int) - den.log2 + 1) * 2 ^ (den.log2 : Int) := by
          rw [← zpow_add₀ two]; congr 1; omega
      _ ≤ 2 ^ ((num.log2 : Int) - den.log2 + 1) * den :=
          mul_le_mul_of_nonneg_left (atLeast hden) (zpow_nonneg (by norm_num) _)

/-- The first guess is at most one too low. -/
theorem standsAt_exponentFor (hnum : num ≠ 0) (hden : 0 < den) :
    StandsAt (num / den) (exponentFor num den) := by
  have two : (2 : ℚ) ≠ 0 := by norm_num
  obtain ⟨above, below⟩ := quotient_between hnum hden.ne'
  simp only [exponentFor]
  generalize hguess : max (-1074) ((num.log2 : Int) - den.log2 - 53) = guess
  have power : (0 : ℚ) < 2 ^ guess := zpow_pos (by norm_num) _
  have scaled := rescale_eq 2 num den guess
  have positive : 0 < (rescale 2 num den guess).2 := rescale_den_pos (by decide) hden guess
  have small_iff : (rescale 2 num den guess).1 / (rescale 2 num den guess).2 < aboveFull ↔
      (num : ℚ) / den < aboveFull * 2 ^ guess := by
    rw [Nat.div_lt_iff_lt_mul positive, ← div_lt_iff₀ power, ← Nat.cast_two (R := ℚ), ← scaled,
      div_lt_iff₀ (Nat.cast_pos.mpr positive), ← Nat.cast_mul, Nat.cast_lt]
  have guess_le : -1074 ≤ guess := hguess ▸ le_max_left _ _
  have full : leastFull * (2 : ℚ) ^ guess ≤ num / den ∨ guess = -1074 := by
    rcases max_choice (-1074) ((num.log2 : Int) - den.log2 - 53) with h | h
    · exact .inr (hguess ▸ h)
    · refine .inl (le_trans ?_ above)
      have exponent : (num.log2 : Int) - den.log2 - 1 = 52 + guess := by omega
      rw [exponent, zpow_add₀ two]
      norm_num [leastFull]
  have lessThan : (num : ℚ) / den < aboveFull * 2 ^ (guess + 1) := by
    refine lt_of_lt_of_le below ?_
    have exponent : (num.log2 : Int) - den.log2 + 1 ≤ 53 + (guess + 1) := by omega
    calc (2 : ℚ) ^ ((num.log2 : Int) - den.log2 + 1)
        ≤ 2 ^ (53 + (guess + 1)) := zpow_le_zpow_right₀ (by norm_num) exponent
      _ = aboveFull * 2 ^ (guess + 1) := by rw [zpow_add₀ two]; norm_num [aboveFull]
  split
  · next small => exact ⟨guess_le, small_iff.mp small, full⟩
  · next large =>
    refine ⟨by omega, lessThan, .inl ?_⟩
    rw [← aboveFull_mul]
    exact not_lt.mp (mt small_iff.mpr large)

end Quotient

/-! ### Rounding what is a double -/

theorem roundHalfEven_mul {n den : Nat} (hden : 0 < den) : roundHalfEven (n * den) den = n := by
  rw [roundHalfEven]
  rw [Nat.mul_mod_left, Nat.mul_div_cancel _ hden, if_neg (by omega)]

theorem ofParts?_self (d : Double) : ofParts? d.negative d.mantissa d.exponent = some d :=
  dif_pos d.canonical

theorem nearest?_of_magnitude {d : Double} (nonzero : d.mantissa ≠ 0) {num den : Nat}
    (hden : 0 < den) (h : (num : ℚ) / den = d.magnitude) :
    nearest? d.negative num den = some d := by
  have power : (2 : ℚ) ^ d.exponent ≠ 0 := zpow_ne_zero _ (by norm_num)
  have hnum : num ≠ 0 := by
    rintro rfl
    rw [Nat.cast_zero, zero_div, magnitude, zero_eq_mul, Nat.cast_eq_zero] at h
    exact h.elim nonzero power
  have exponent : exponentFor num den = d.exponent :=
    (standsAt_exponentFor hnum hden).unique (h ▸ d.standsAt_magnitude)
  have positive : 0 < (rescale 2 num den d.exponent).2 := rescale_den_pos (by decide) hden _
  have scaled := rescale_eq 2 num den d.exponent
  rw [h, magnitude, Nat.cast_two, mul_div_cancel_right₀ _ power,
    div_eq_iff (Nat.cast_ne_zero.mpr positive.ne'), ← Nat.cast_mul, Nat.cast_inj] at scaled
  rw [nearest?, if_neg hnum]
  dsimp only
  rw [exponent, scaled, roundHalfEven_mul positive, if_neg d.canonical.1.ne, ofParts?_self]

/-! ### The exact decimal -/

theorem digitCount_bounds {n : Nat} (hn : n ≠ 0) :
    10 ^ (Decimal.digitCount n - 1) ≤ n ∧ n < 10 ^ Decimal.digitCount n := by
  have within : ∀ {k}, 0 < k → (Decimal.digitCount n ≤ k ↔ n < 10 ^ k) :=
    Nat.length_toDigits_le_iff (by decide)
  have positive : 0 < Decimal.digitCount n := Nat.length_toDigits_pos
  refine ⟨?_, (within positive).mp le_rfl⟩
  rcases Nat.eq_zero_or_pos (Decimal.digitCount n - 1) with one | more
  · rw [one, pow_zero]
    exact Nat.pos_of_ne_zero hn
  · refine not_lt.mp fun less => ?_
    have := (within more).mpr less
    omega

/-- The value of a decimal lies between the powers of ten that its digits tell. -/
theorem decimal_between {c : Decimal} (hc : c.digits ≠ 0) :
    (10 : ℚ) ^ (c.exponent + Decimal.digitCount c.digits - 1) ≤ c.value ∧
      c.value < 10 ^ (c.exponent + Decimal.digitCount c.digits) := by
  have ten : (10 : ℚ) ≠ 0 := by norm_num
  obtain ⟨least, less⟩ := digitCount_bounds hc
  have positive : 0 < Decimal.digitCount c.digits := Nat.length_toDigits_pos
  have power : (0 : ℚ) < 10 ^ c.exponent := zpow_pos (by norm_num) _
  have first : c.exponent + Decimal.digitCount c.digits - 1 =
      ((Decimal.digitCount c.digits - 1 : Nat) : Int) + c.exponent := by omega
  rw [first, add_comm c.exponent, zpow_add₀ ten, zpow_add₀ ten, zpow_natCast, zpow_natCast,
    Decimal.value]
  constructor
  · exact mul_le_mul_of_nonneg_right (by exact_mod_cast least) power.le
  · exact mul_lt_mul_of_pos_right (by exact_mod_cast less) power

private theorem least_bound : (10 : ℚ) ^ (-400 : Int) ≤ 2 ^ (-1074 : Int) := by
  have powers : 2 ^ 1074 ≤ 10 ^ 400 := by decide +kernel
  rw [zpow_neg, zpow_neg]
  exact inv_anti₀ (zpow_pos (by norm_num) _) (by exact_mod_cast powers)

private theorem greatest_bound : (aboveFull : ℚ) * 2 ^ (971 : Int) ≤ 10 ^ (400 : Int) := by
  have powers : aboveFull * 2 ^ 971 ≤ 10 ^ 400 := by decide +kernel
  exact_mod_cast powers

theorem magnitude_bounds {d : Double} (nonzero : d.mantissa ≠ 0) :
    (10 : ℚ) ^ (-400 : Int) ≤ d.magnitude ∧ d.magnitude < 10 ^ (400 : Int) := by
  obtain ⟨below, least, greatest, -⟩ := d.canonical
  have power : (0 : ℚ) < 2 ^ d.exponent := zpow_pos (by norm_num) _
  constructor
  · calc (10 : ℚ) ^ (-400 : Int) ≤ 2 ^ (-1074 : Int) := least_bound
      _ ≤ 2 ^ d.exponent := zpow_le_zpow_right₀ (by norm_num) least
      _ ≤ d.magnitude := le_mul_of_one_le_left power.le
          (by exact_mod_cast Nat.one_le_iff_ne_zero.mpr nonzero)
  · calc d.magnitude < aboveFull * 2 ^ d.exponent :=
          mul_lt_mul_of_pos_right (Nat.cast_lt.mpr below) power
      _ ≤ aboveFull * 2 ^ (971 : Int) := mul_le_mul_of_nonneg_left
          (zpow_le_zpow_right₀ (by norm_num) greatest) (Nat.cast_nonneg _)
      _ ≤ 10 ^ (400 : Int) := greatest_bound

theorem ofDecimal?_of_magnitude {d : Double} (nonzero : d.mantissa ≠ 0) {c : Decimal}
    (h : c.value = d.magnitude) : ofDecimal? d.negative c = some d := by
  obtain ⟨tiny, huge⟩ := magnitude_bounds nonzero
  rw [← h, ← c.value_lowestTerms] at tiny huge
  have hvalue : c.lowestTerms.value = d.magnitude := c.value_lowestTerms.trans h
  have digits : c.lowestTerms.digits ≠ 0 := by
    rw [Ne, ← Decimal.value_eq_zero_iff]
    exact ((zpow_pos (by norm_num) _).trans_le tiny).ne'
  obtain ⟨least, less⟩ := decimal_between digits
  have notTiny := (zpow_lt_zpow_iff_right₀ (by norm_num)).mp (tiny.trans_lt less)
  have notHuge := (zpow_lt_zpow_iff_right₀ (by norm_num)).mp (least.trans_lt huge)
  have scaled := rescale_eq 10 c.lowestTerms.digits 1 (-c.lowestTerms.exponent)
  rw [Nat.cast_one, div_one, zpow_neg, div_inv_eq_mul] at scaled
  rw [ofDecimal?]
  dsimp only
  rw [if_neg (by omega), if_neg (by omega)]
  exact nearest?_of_magnitude nonzero (rescale_den_pos (by decide) one_pos _)
    (scaled.trans hvalue)

theorem value_exactDecimal (d : Double) : d.exactDecimal.value = d.magnitude := by
  rw [exactDecimal]
  split
  · next nonneg =>
    obtain ⟨n, hn⟩ := Int.eq_ofNat_of_zero_le nonneg
    rw [hn]
    show ((d.mantissa * 2 ^ n : Nat) : ℚ) * 10 ^ (0 : Int) = _
    rw [magnitude, hn, zpow_zero, mul_one, zpow_natCast]
    push_cast
    rfl
  · next negative =>
    obtain ⟨n, hn⟩ := Int.eq_ofNat_of_zero_le (show 0 ≤ -d.exponent by omega)
    have hexponent : d.exponent = -n := by omega
    rw [hn]
    show ((d.mantissa * 5 ^ n : Nat) : ℚ) * 10 ^ d.exponent = _
    have tenths : (10 : ℚ) ^ n = 5 ^ n * 2 ^ n := by rw [← mul_pow]; norm_num
    rw [magnitude, hexponent, zpow_neg, zpow_neg, zpow_natCast, zpow_natCast, tenths]
    push_cast
    field_simp

/-! ### The shortest decimal -/

theorem readsBack_of_withDigits? {d : Double} {count : Nat} {c : Decimal}
    (h : d.withDigits? count = some c) : ofDecimal? d.negative c = some d := by
  have checked : ∀ {nearer farther : Decimal}, (if readsBack d nearer then some nearer
      else if readsBack d farther then some farther else none) = some c → readsBack d c = true := by
    intro nearer farther h
    split at h
    · next reads => exact Option.some.inj h ▸ reads
    · split at h
      · next reads => exact Option.some.inj h ▸ reads
      · cases h
  exact of_decide_eq_true (checked h)

theorem eq_zero_of_isZero {d : Double} (h : d.isZero = true) : d = zero d.negative := by
  obtain ⟨negative, mantissa, exponent, canonical⟩ := d
  obtain rfl : mantissa = 0 := beq_iff_eq.mp h
  obtain rfl : exponent = -1074 := canonical.2.2.2.resolve_left (by decide)
  rfl

/-- The decimal with which a double is written is read as this double. -/
theorem ofDecimal?_shortest (d : Double) : ofDecimal? d.negative d.shortest = some d := by
  rw [shortest]
  split
  · next isZero =>
    rw [ofDecimal?_of_zero d.negative rfl, ← eq_zero_of_isZero isZero]
  · next nonzero =>
    cases h : (List.range 17).findSome? fun i => d.withDigits? (i + 1) with
    | none =>
      exact ofDecimal?_of_magnitude (fun zero => nonzero (beq_iff_eq.mpr zero))
        d.value_exactDecimal
    | some c =>
      obtain ⟨i, -, hi⟩ := List.exists_of_findSome?_eq_some h
      exact readsBack_of_withDigits? hi

end Double

end Schemata

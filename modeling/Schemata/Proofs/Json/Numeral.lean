import Schemata.Json.Reader
import Schemata.Json.Writer
import Schemata.Proofs.Number.ReadBack
import Mathlib.Data.List.TakeWhile

/-!
# Numerals

A number is read in parts: a sign, the digits of the whole, those behind a point, and an exponent. A
numeral has these parts, and reading what it spells gives them back, provided that nothing follows
with which it could go on. Integers and doubles are both written as numerals. Of a double the parts
depend on the notation, but what they stand for does not, so that each notation is read as the same
number.

## Main definitions

* `Numeral`, `Numeral.text`: a numeral, and what it spells.
* `Numeral.number`: the value that it is read as.
* `Numeral.Spells`: a text is a numeral for a value.
* `Json.Ends`: what can follow a numeral.

## Main results

* `Json.readNumber_numeral`: a numeral is read as its number, to its end.
* `Json.spells_int`, `Double.spells_toText`: integers and doubles are written as numerals for
  themselves.
-/

namespace Schemata

structure Numeral where
  negative : Bool
  whole : List Char
  fraction : List Char
  exponent : Option Int

namespace Numeral

def sign (n : Numeral) : List Char := if n.negative then ['-'] else []

def pointed (n : Numeral) : List Char := if n.fraction.isEmpty then [] else '.' :: n.fraction

def scale (n : Numeral) : List Char :=
  match n.exponent with
  | none => []
  | some e =>
    ['e', if e < 0 then '-' else '+'] ++ Double.zeros (2 - (Nat.toDigits 10 e.natAbs).length)
      ++ Nat.toDigits 10 e.natAbs

def text (n : Numeral) : List Char := n.sign ++ n.whole ++ n.pointed ++ n.scale

/-- The decimal without its sign. -/
def decimal (n : Numeral) : Decimal :=
  ⟨Json.digitsValue (n.whole ++ n.fraction), n.exponent.getD 0 - n.fraction.length⟩

/-- An integer if there is neither a point nor an exponent. -/
def number (n : Numeral) : Json :=
  if n.fraction.isEmpty && n.exponent.isNone then
    .int (if n.negative then -(Json.digitsValue n.whole : Int) else Json.digitsValue n.whole)
  else .double ((Double.ofDecimal? n.negative n.decimal).getD (Double.greatest n.negative))

/-- The parts consist of digits, and the whole does not start with a zero unless it is one. -/
structure Sound (n : Numeral) : Prop where
  whole : ∀ c ∈ n.whole, Json.isDigit c = true
  fraction : ∀ c ∈ n.fraction, Json.isDigit c = true
  leading : n.whole = ['0'] ∨ ∃ c rest, n.whole = c :: rest ∧ c ≠ '0'

theorem Sound.exists_whole {n : Numeral} (h : n.Sound) : ∃ c rest, n.whole = c :: rest := by
  rcases h.leading with zero | ⟨c, rest, heq, -⟩
  · exact ⟨_, _, zero⟩
  · exact ⟨c, rest, heq⟩

/-- The text is a numeral for the value. -/
def Spells (text : List Char) (v : Json) : Prop :=
  ∃ n : Numeral, n.Sound ∧ text = n.text ∧ n.number = v

end Numeral

namespace Json

/-! ### Digits -/

theorem digitsValue_eq (digits : List Char) :
    digitsValue digits = Nat.ofDigitChars 10 digits 0 := by
  rw [digitsValue, Nat.ofDigitChars]
  congr 1
  funext n c
  rw [Nat.mul_comm]

theorem digitsValue_toDigits (n : Nat) : digitsValue (Nat.toDigits 10 n) = n := by
  rw [digitsValue_eq, Nat.ofDigitChars_ten_toDigits]

theorem digitsValue_append (digits others : List Char) :
    digitsValue (digits ++ others) =
      digitsValue digits * 10 ^ others.length + digitsValue others := by
  rw [digitsValue_eq, digitsValue_eq, digitsValue_eq, Nat.ofDigitChars_append,
    Nat.ofDigitChars_eq_ofDigitChars_zero, Nat.mul_comm]

theorem digitsValue_zeros (n : Nat) : digitsValue (Double.zeros n) = 0 := by
  rw [digitsValue_eq, Double.zeros, Nat.ofDigitChars_replicate_zero, Nat.mul_zero]

theorem isDigit_toDigits (n : Nat) : ∀ c ∈ Nat.toDigits 10 n, isDigit c = true :=
  fun _ hc => Nat.isDigit_of_mem_toDigits (by decide) (by decide) hc

theorem isDigit_zeros (n : Nat) : ∀ c ∈ Double.zeros n, isDigit c = true := by
  intro c hc
  rw [List.eq_of_mem_replicate hc]
  decide

/-- A number other than zero is not written with a zero in front. -/
theorem toDigits_leading (n : Nat) :
    Nat.toDigits 10 n = ['0'] ∨ ∃ c rest, Nat.toDigits 10 n = c :: rest ∧ c ≠ '0' := by
  induction n using Nat.strongRecOn with
  | ind n ih =>
    rw [Nat.toDigits_eq_if (by decide)]
    split
    · rcases Nat.eq_zero_or_pos n with rfl | positive
      · exact .inl rfl
      · exact .inr ⟨_, _, rfl, by rw [Ne, Nat.digitChar_eq_zero]; omega⟩
    · next several =>
      refine .inr ?_
      rcases ih (n / 10) (by omega) with zero | ⟨c, rest, heq, hc⟩
      · have value := congrArg digitsValue zero
        rw [digitsValue_toDigits] at value
        exact absurd value (Nat.div_pos (by omega) (by decide)).ne'
      · exact ⟨c, _, by rw [heq, List.cons_append], hc⟩

/-! ### Reading a numeral -/

/-- Nothing follows with which a numeral could go on. -/
def Ends (rest : List Char) : Prop :=
  ∀ c ∈ rest.head?, isDigit c = false ∧ c ≠ '.' ∧ c ≠ 'e' ∧ c ≠ 'E'

theorem spanDigits_append {digits rest : List Char} (h : ∀ c ∈ digits, isDigit c = true)
    (ends : ∀ c ∈ rest.head?, isDigit c = false) :
    spanDigits (digits ++ rest) = (digits, rest) := by
  rw [spanDigits, List.takeWhile_append_of_pos h, List.dropWhile_append_of_pos h]
  cases rest with
  | nil => simp
  | cons c rest =>
    have hc : isDigit c = false := ends c rfl
    rw [List.takeWhile_cons_of_neg (by simp [hc]), List.dropWhile_cons_of_neg (by simp [hc]),
      List.append_nil]

theorem readWhole_append {n : Numeral} (sound : n.Sound) {rest : List Char}
    (ends : ∀ c ∈ rest.head?, isDigit c = false) :
    readWhole (n.whole ++ rest) = (n.whole, rest) := by
  rcases sound.leading with zero | ⟨c, tail, heq, hc⟩
  · rw [zero]
    rfl
  · have span := spanDigits_append sound.whole ends
    rw [heq, List.cons_append] at span ⊢
    rw [readWhole]
    · exact span
    · rintro _ ⟨⟩
      exact hc rfl

theorem readFraction_pointed {n : Numeral} (sound : n.Sound) {rest : List Char}
    (ends : ∀ c ∈ rest.head?, isDigit c = false ∧ c ≠ '.') :
    readFraction (n.pointed ++ rest) = (n.fraction, rest) := by
  rw [Numeral.pointed]
  cases hfraction : n.fraction with
  | nil =>
    cases rest with
    | nil => rfl
    | cons c rest =>
      show readFraction (c :: rest) = _
      rw [readFraction]
      rintro _ ⟨⟩
      exact (ends '.' rfl).2 rfl
  | cons c tail =>
    have span := spanDigits_append sound.fraction fun c hc => (ends c hc).1
    rw [hfraction] at span
    show readFraction ('.' :: (c :: tail ++ rest)) = _
    rw [readFraction]
    dsimp only
    rw [span]
    rfl

theorem readExponent_signed (negative : Prop) [Decidable negative] (text : List Char) :
    readExponent ('e' :: (if negative then '-' else '+') :: text) =
      if (spanDigits text).1.isEmpty then
        (none, 'e' :: (if negative then '-' else '+') :: text)
      else (some (if negative then -(digitsValue (spanDigits text).1 : Int)
        else digitsValue (spanDigits text).1), (spanDigits text).2) := by
  by_cases h : negative
  · rw [if_pos h, if_pos h]
    rfl
  · rw [if_neg h, if_neg h]
    rfl

theorem readExponent_scale {n : Numeral} {rest : List Char} (ends : Ends rest) :
    readExponent (n.scale ++ rest) = (n.exponent, rest) := by
  rw [Numeral.scale]
  cases hexponent : n.exponent with
  | none =>
    cases rest with
    | nil => rfl
    | cons c rest =>
      obtain ⟨-, -, small, large⟩ := ends c rfl
      exact if_neg (not_or.mpr ⟨small, large⟩)
  | some e =>
    let shown := Double.zeros (2 - (Nat.toDigits 10 e.natAbs).length) ++ Nat.toDigits 10 e.natAbs
    have digits : ∀ c ∈ shown, isDigit c = true :=
      List.forall_mem_append.mpr ⟨isDigit_zeros _, isDigit_toDigits _⟩
    have value : digitsValue shown = e.natAbs := by
      rw [digitsValue_append, digitsValue_zeros, digitsValue_toDigits, Nat.zero_mul, Nat.zero_add]
    have span := spanDigits_append digits fun c hc => (ends c hc).1
    have nonempty : shown.isEmpty = false := by simp [shown]
    have spelt : ∀ sign : Char, ['e', sign] ++ Double.zeros (2 - (Nat.toDigits 10 e.natAbs).length)
        ++ Nat.toDigits 10 e.natAbs ++ rest = 'e' :: sign :: (shown ++ rest) := by simp [shown]
    rw [spelt]
    rw [readExponent_signed, span]
    dsimp only
    rw [nonempty, value, if_neg Bool.false_ne_true]
    split
    · next negative => rw [Int.ofNat_natAbs_of_nonpos negative.le, neg_neg]
    · next negative => rw [Int.natAbs_of_nonneg (not_lt.mp negative)]

/-- A number is read part by part. -/
theorem readNumber_of_parts {n : Numeral} {unsigned atPoint atScale rest : List Char}
    (unmarked : n.negative = false → unsigned.head? ≠ some '-')
    (whole : readWhole unsigned = (n.whole, atPoint)) (nonempty : n.whole.isEmpty = false)
    (fraction : readFraction atPoint = (n.fraction, atScale))
    (exponent : readExponent atScale = (n.exponent, rest)) :
    readNumber (n.sign ++ unsigned) = .ok (n.number, rest) := by
  rw [Numeral.sign]
  cases negative : n.negative with
  | true =>
    show readNumber ('-' :: unsigned) = _
    simp only [readNumber, whole, nonempty, fraction, exponent, Numeral.number, Numeral.decimal,
      negative, Bool.false_eq_true, if_false, if_true]
    split
    · rfl
    · rfl
  | false =>
    show readNumber unsigned = _
    rw [readNumber]
    · simp only [whole, nonempty, fraction, exponent, Numeral.number, Numeral.decimal, negative,
        Bool.false_eq_true, if_false]
      split
      · rfl
      · rfl
    · rintro r rfl
      exact unmarked negative rfl

/-- A numeral is read as its number, to its end. -/
theorem readNumber_numeral {n : Numeral} (sound : n.Sound) {rest : List Char} (ends : Ends rest) :
    readNumber (n.text ++ rest) = .ok (n.number, rest) := by
  obtain ⟨c, tail, hwhole⟩ := sound.exists_whole
  have atScale : ∀ c ∈ (n.scale ++ rest).head?, isDigit c = false ∧ c ≠ '.' := by
    rw [Numeral.scale]
    cases n.exponent with
    | none => exact fun c hc => ⟨(ends c hc).1, (ends c hc).2.1⟩
    | some e =>
      rintro _ ⟨⟩
      decide
  have atPoint : ∀ c ∈ (n.pointed ++ (n.scale ++ rest)).head?, isDigit c = false := by
    rw [Numeral.pointed]
    split
    · exact fun c hc => (atScale c hc).1
    · rintro _ ⟨⟩
      decide
  have unmarked : (n.whole ++ (n.pointed ++ (n.scale ++ rest))).head? ≠ some '-' := by
    rw [hwhole]
    rintro ⟨⟩
    exact absurd (sound.whole '-' (hwhole ▸ List.mem_cons_self)) (by decide)
  rw [Numeral.text, List.append_assoc, List.append_assoc, List.append_assoc]
  refine readNumber_of_parts (fun _ => unmarked) (readWhole_append sound atPoint)
    (by rw [hwhole]; rfl) (readFraction_pointed sound atScale) (readExponent_scale ends)

/-! ### Integers -/

theorem toList_toString_int (n : Int) :
    (toString n).toList = (if n < 0 then ['-'] else []) ++ Nat.toDigits 10 n.natAbs := by
  cases n with
  | ofNat n => exact String.toList_ofList
  | negSucc n =>
    have signed : toString (Int.negSucc n) = "-" ++ toString (n + 1) := rfl
    rw [signed, String.toList_append, if_pos (Int.negSucc_lt_zero n)]
    exact congrArg ('-' :: ·) String.toList_ofList

theorem spells_int (n : Int) : Numeral.Spells (toString n).toList (.int n) := by
  refine ⟨⟨decide (n < 0), Nat.toDigits 10 n.natAbs, [], none⟩, ?_, ?_, ?_⟩
  · exact ⟨isDigit_toDigits _, fun c hc => absurd hc List.not_mem_nil, toDigits_leading _⟩
  · rw [toList_toString_int]
    simp [Numeral.text, Numeral.sign, Numeral.pointed, Numeral.scale]
  · simp only [Numeral.number, digitsValue_toDigits, decide_eq_true_eq, List.isEmpty_nil,
      Option.isNone_none, Bool.and_self, if_true, int.injEq]
    split
    · next negative => rw [Int.ofNat_natAbs_of_nonpos negative.le, neg_neg]
    · next negative => rw [Int.natAbs_of_nonneg (not_lt.mp negative)]

end Json

/-! ### Doubles -/

namespace Numeral

/-- The parts of a magnitude with these digits, whose point stands after the first `point` of
them. -/
def ofDigits (negative : Bool) (digits : List Char) (point : Int) : Numeral :=
  if point ≤ -4 ∨ 16 < point then ⟨negative, digits.take 1, digits.drop 1, some (point - 1)⟩
  else if point ≤ 0 then ⟨negative, ['0'], Double.zeros (-point).toNat ++ digits, none⟩
  else if (digits.length : Int) ≤ point then
    ⟨negative, digits ++ Double.zeros (point - digits.length).toNat, ['0'], none⟩
  else ⟨negative, digits.take point.toNat, digits.drop point.toNat, none⟩

variable {negative : Bool} {digits : List Char} {point : Int}

theorem text_ofDigits (nonempty : digits ≠ []) :
    (ofDigits negative digits point).text =
      (if negative then ['-'] else []) ++ Double.layout digits point := by
  rw [ofDigits, Double.layout]
  dsimp only
  split
  · simp [text, sign, pointed, scale]
  split
  · simp [text, sign, pointed, scale, nonempty]
  split
  · simp [text, sign, pointed, scale]
  · next within =>
    have behind : digits.drop point.toNat ≠ [] := by
      rw [Ne, List.drop_eq_nil_iff]
      omega
    simp [text, sign, pointed, scale, behind]

theorem sound_ofDigits (all : ∀ c ∈ digits, Json.isDigit c = true)
    (leading : digits = ['0'] ∧ point = 1 ∨ ∃ c rest, digits = c :: rest ∧ c ≠ '0') :
    (ofDigits negative digits point).Sound := by
  have taken : ∀ n, ∀ c ∈ digits.take n, Json.isDigit c = true := fun n c hc =>
    all c (List.mem_of_mem_take hc)
  have dropped : ∀ n, ∀ c ∈ digits.drop n, Json.isDigit c = true := fun n c hc =>
    all c (List.mem_of_mem_drop hc)
  have zero : ∀ c ∈ ['0'], Json.isDigit c = true := List.forall_mem_singleton.mpr (by decide)
  rw [ofDigits]
  split
  · refine ⟨taken 1, dropped 1, ?_⟩
    rcases leading with ⟨rfl, -⟩ | ⟨c, rest, rfl, hc⟩
    · exact .inl rfl
    · exact .inr ⟨c, [], rfl, hc⟩
  split
  · exact ⟨zero, List.forall_mem_append.mpr ⟨Json.isDigit_zeros _, all⟩, .inl rfl⟩
  split
  · refine ⟨List.forall_mem_append.mpr ⟨all, Json.isDigit_zeros _⟩, zero, ?_⟩
    rcases leading with ⟨rfl, rfl⟩ | ⟨c, rest, rfl, hc⟩
    · exact .inl rfl
    · exact .inr ⟨c, _, List.cons_append, hc⟩
  · next small within =>
    refine ⟨taken _, dropped _, ?_⟩
    rcases leading with ⟨rfl, rfl⟩ | ⟨c, rest, rfl, hc⟩
    · exact .inl rfl
    · obtain ⟨n, hn⟩ : ∃ n, point.toNat = n + 1 := Nat.exists_eq_succ_of_ne_zero (by omega)
      exact .inr ⟨c, rest.take n, by rw [hn, List.take_succ_cons], hc⟩

/-- Where the point stands is a matter of spelling. -/
theorem value_decimal_ofDigits (nonempty : digits ≠ []) :
    (ofDigits negative digits point).decimal.value =
      Decimal.value ⟨Json.digitsValue digits, point - digits.length⟩ := by
  have length : 0 < digits.length := List.length_pos_of_ne_nil nonempty
  rw [ofDigits]
  split
  · rw [decimal, List.take_append_drop, List.length_drop]
    congr 2
    simp only [Option.getD_some]
    omega
  split
  · have digitsValue : Json.digitsValue (['0'] ++ (Double.zeros (-point).toNat ++ digits)) =
        Json.digitsValue digits := by
      have zero : Json.digitsValue ['0'] = 0 := rfl
      rw [Json.digitsValue_append, Json.digitsValue_append, Json.digitsValue_zeros, zero, zero_mul,
        zero_mul, zero_add, zero_add]
    rw [decimal, digitsValue, List.length_append, Double.zeros, List.length_replicate]
    congr 2
    simp only [Option.getD_none]
    omega
  split
  · next beyond =>
    obtain ⟨zeros, hzeros⟩ := Int.eq_ofNat_of_zero_le (show 0 ≤ point - digits.length by omega)
    have digitsValue : Json.digitsValue (digits ++ Double.zeros zeros ++ ['0']) =
        Json.digitsValue digits * 10 ^ (zeros + 1) := by
      have zero : Json.digitsValue ['0'] = 0 := rfl
      rw [Json.digitsValue_append, Json.digitsValue_append, Json.digitsValue_zeros, zero, add_zero,
        add_zero, Double.zeros, List.length_replicate, List.length_singleton, pow_one, mul_assoc,
        ← pow_succ]
    rw [hzeros, Int.toNat_natCast, decimal, digitsValue, Decimal.value, Decimal.value]
    simp only [Option.getD_none, List.length_singleton, Nat.cast_one, zero_sub, Nat.cast_mul,
      Nat.cast_pow, Nat.cast_ofNat, zpow_neg_one, zpow_natCast]
    rw [pow_succ, mul_assoc, mul_inv_cancel_right₀ (by norm_num)]
  · rw [decimal, List.take_append_drop, List.length_drop]
    congr 2
    simp only [Option.getD_none]
    omega

/-- A numeral with a point or an exponent is read as a double. -/
theorem number_ofDigits (nonempty : digits ≠ []) :
    (ofDigits negative digits point).number =
      .double ((Double.ofDecimal? negative ⟨Json.digitsValue digits, point - digits.length⟩).getD
        (Double.greatest negative)) := by
  have marked : ((ofDigits negative digits point).fraction.isEmpty &&
      (ofDigits negative digits point).exponent.isNone) = false := by
    rw [ofDigits]
    split
    · exact Bool.and_false _
    split
    · simp [nonempty]
    split
    · rfl
    · simp only [Option.isNone_none, Bool.and_true, List.isEmpty_eq_false_iff, ne_eq,
        List.drop_eq_nil_iff]
      omega
  have sign : (ofDigits negative digits point).negative = negative := by
    rw [ofDigits]
    split
    · rfl
    split
    · rfl
    split
    · rfl
    · rfl
  rw [number, marked, if_neg Bool.false_ne_true, sign,
    Double.ofDecimal?_eq_of_value_eq negative (value_decimal_ofDigits nonempty)]

end Numeral

namespace Double

/-- Leaving out the zeros at the end leaves the digits up to the last that is no zero. -/
theorem exists_significant {c : Char} (hc : c ≠ '0') (rest : List Char) :
    ∃ tail count, significant (c :: rest) = c :: tail ∧ c :: rest = c :: tail ++ zeros count := by
  let kept := ((c :: rest).reverse.dropWhile (· = '0')).reverse
  let cut := ((c :: rest).reverse.takeWhile (· = '0')).reverse
  have parts : c :: rest = kept ++ cut := by
    rw [← List.reverse_append, List.takeWhile_append_dropWhile, List.reverse_reverse]
  have spare : cut = zeros cut.length := by
    refine List.eq_replicate_of_mem fun x hx => ?_
    have zero := List.mem_takeWhile_imp (List.mem_reverse.mp hx)
    exact of_decide_eq_true zero
  cases hkept : kept with
  | nil =>
    rw [hkept, List.nil_append] at parts
    rw [← parts] at spare
    exact absurd (List.eq_of_mem_replicate (spare ▸ List.mem_cons_self)) hc
  | cons x tail =>
    rw [hkept] at parts
    obtain ⟨rfl, -⟩ := List.cons.inj parts
    refine ⟨tail, cut.length, ?_, spare ▸ parts⟩
    rw [significant, show ((c :: rest).reverse.dropWhile (· = '0')).reverse = c :: tail from hkept]

/-- A double other than the zeros has other digits than zeros. -/
theorem digits_shortest_ne_zero {d : Double} (h : d.isZero = false) : d.shortest.digits ≠ 0 := by
  intro digits
  have reads := d.ofDecimal?_shortest
  rw [ofDecimal?_of_zero d.negative digits] at reads
  rw [← Option.some.inj reads] at h
  cases h

/-- What a double is written with: digits, and the place of the point among them. -/
structure Shown (d : Double) (digits : List Char) (point : Int) : Prop where
  text : d.toText.toList = (if d.negative then ['-'] else []) ++ layout digits point
  all : ∀ c ∈ digits, Json.isDigit c = true
  leading : digits = ['0'] ∧ point = 1 ∨ ∃ c rest, digits = c :: rest ∧ c ≠ '0'
  value : Decimal.value ⟨Json.digitsValue digits, point - digits.length⟩ = d.shortest.value

theorem shown_of_isZero {d : Double} (h : d.isZero = true) : Shown d ['0'] 1 := by
  have shortest : d.shortest = ⟨0, 0⟩ := by rw [Double.shortest, if_pos h]
  refine ⟨?_, List.forall_mem_singleton.mpr (by decide), .inl ⟨rfl, rfl⟩, by rw [shortest]; rfl⟩
  simp only [toText, shortest, h, if_true, String.toList_ofList]
  rfl

theorem shown_of_not_isZero {d : Double} (h : d.isZero = false) :
    Shown d (significant (Nat.toDigits 10 d.shortest.digits))
      (d.shortest.exponent + (Nat.toDigits 10 d.shortest.digits).length) := by
  have value := Json.digitsValue_toDigits d.shortest.digits
  have digits := Json.isDigit_toDigits d.shortest.digits
  have text : d.toText.toList = (if d.negative then ['-'] else []) ++
      layout (significant (Nat.toDigits 10 d.shortest.digits))
        (d.shortest.exponent + (Nat.toDigits 10 d.shortest.digits).length) := by
    simp only [toText, h, Bool.false_eq_true, if_false, String.toList_ofList]
  rcases Json.toDigits_leading d.shortest.digits with zero | ⟨c, rest, heq, hc⟩
  · rw [zero] at value
    exact absurd value.symm (digits_shortest_ne_zero h)
  · obtain ⟨tail, count, hsignificant, hparts⟩ := exists_significant hc rest
    rw [← heq] at hsignificant hparts
    refine ⟨text, ?_, .inr ⟨c, tail, hsignificant, hc⟩, ?_⟩
    · rw [hsignificant]
      rw [hparts] at digits
      exact (List.forall_mem_append.mp digits).1
    · rw [hparts, Json.digitsValue_append, Json.digitsValue_zeros, add_zero, zeros,
        List.length_replicate] at value
      have exponent : d.shortest.exponent + (Nat.toDigits 10 d.shortest.digits).length -
          (c :: tail).length = count + d.shortest.exponent := by
        rw [hparts, List.length_append, zeros, List.length_replicate]
        push_cast
        ring
      rw [hsignificant, exponent, Decimal.value, Decimal.value, ← value, zpow_add₀ (by norm_num),
        zpow_natCast]
      push_cast
      ring

theorem exists_shown (d : Double) : ∃ digits point, Shown d digits point := by
  cases isZero : d.isZero with
  | true => exact ⟨_, _, shown_of_isZero isZero⟩
  | false => exact ⟨_, _, shown_of_not_isZero isZero⟩

theorem spells_toText (d : Double) : Numeral.Spells d.toText.toList (.double d) := by
  obtain ⟨digits, point, shown⟩ := d.exists_shown
  have nonempty : digits ≠ [] := by
    rcases shown.leading with ⟨rfl, -⟩ | ⟨c, rest, rfl, -⟩
    · exact List.cons_ne_nil _ _
    · exact List.cons_ne_nil _ _
  refine ⟨Numeral.ofDigits d.negative digits point,
    Numeral.sound_ofDigits shown.all shown.leading, ?_, ?_⟩
  · rw [Numeral.text_ofDigits nonempty, shown.text]
  · rw [Numeral.number_ofDigits nonempty, ofDecimal?_eq_of_value_eq d.negative shown.value,
      ofDecimal?_shortest, Option.getD_some]

end Double

end Schemata

/-!
# Blanks

The characters that separate words, and the text without those at its ends.

## Main definitions

* `isBlank`: the white space of Unicode together with the four ASCII information separators.
* `strip`: a text without the blanks at its two ends.

## Main results

* `length_strip_le`: stripping never lengthens a text.
* `strip_strip`: stripping twice is stripping once.
-/

namespace Schemata

def isBlank (c : Char) : Bool :=
  let n := c.toNat
  (0x9 ≤ n && n ≤ 0xd) || (0x1c ≤ n && n ≤ 0x20) || n == 0x85 || n == 0xa0 || n == 0x1680
    || (0x2000 ≤ n && n ≤ 0x200a) || n == 0x2028 || n == 0x2029 || n == 0x202f || n == 0x205f
    || n == 0x3000

def stripStart (text : List Char) : List Char := text.dropWhile isBlank

def stripEnd (text : List Char) : List Char := (text.reverse.dropWhile isBlank).reverse

def strip (text : List Char) : List Char := stripEnd (stripStart text)

/-! ### Lengths -/

theorem length_dropWhile_le {α : Type} (p : α → Bool) (xs : List α) :
    (xs.dropWhile p).length ≤ xs.length :=
  (List.dropWhile_sublist p).length_le

theorem length_stripEnd_le (text : List Char) : (stripEnd text).length ≤ text.length := by
  simpa [stripEnd] using length_dropWhile_le isBlank text.reverse

theorem length_strip_le (text : List Char) : (strip text).length ≤ text.length :=
  Nat.le_trans (length_stripEnd_le _) (length_dropWhile_le _ _)

/-! ### Stripping twice -/

theorem dropWhile_eq_self_of_head {α : Type} {p : α → Bool} {xs : List α}
    (h : ∀ x, xs.head? = some x → p x = false) : xs.dropWhile p = xs := by
  cases xs with
  | nil => rfl
  | cons x xs => simp [h x rfl]

theorem head_dropWhile_eq_false {α : Type} {p : α → Bool} {xs : List α} {x : α}
    (h : (xs.dropWhile p).head? = some x) : p x = false := by
  induction xs with
  | nil => simp at h
  | cons y ys ih =>
    by_cases hy : p y
    · exact ih (by simpa [hy] using h)
    · have hxy : y = x := by simpa [hy] using h
      simpa [hxy] using hy

theorem stripEnd_stripEnd (text : List Char) : stripEnd (stripEnd text) = stripEnd text := by
  simp only [stripEnd, List.reverse_reverse]
  rw [dropWhile_eq_self_of_head fun _ => head_dropWhile_eq_false]

theorem stripEnd_prefix (text : List Char) : stripEnd text <+: text := by
  have suffix : text.reverse.dropWhile isBlank <:+ text.reverse := List.dropWhile_suffix _
  simpa [stripEnd] using List.reverse_prefix.2 suffix

theorem stripStart_strip (text : List Char) : stripStart (strip text) = strip text := by
  apply dropWhile_eq_self_of_head
  intro c hc
  apply head_dropWhile_eq_false (p := isBlank)
  have sub := stripEnd_prefix (stripStart text)
  cases hs : strip text with
  | nil => simp [hs] at hc
  | cons d rest =>
    rw [hs] at hc
    rw [show stripEnd (stripStart text) = d :: rest from hs] at sub
    obtain ⟨tail, ht⟩ := sub
    change (stripStart text).head? = some c
    rw [← ht]
    exact hc

theorem strip_strip (text : List Char) : strip (strip text) = strip text := by
  rw [strip, stripStart_strip]
  exact stripEnd_stripEnd _

end Schemata

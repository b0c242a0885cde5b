import Schemata.Expression.Scan
import Schemata.Text.Blank

/-!
# Cutting at top level

A delimiter cuts a text only where no bracket is open and no quote: `Map<string, A | B> | null` has
two parts, not three.

## Main definitions

* `segments`: the stretches between the delimiters at top level, as they stand; there is always at
  least one.
* `splitTop`: the stretches without the blanks around them, and without those that are blank.
* `hasTop`: whether splitting changes anything.

## Main results

* `length_le_of_mem_segments`, `length_lt_of_mem_segments`: a segment is no longer than the text,
  and shorter as soon as there are two.
* `segments_eq_singleton`: a single segment is the whole text.
* `length_lt_of_mem_splitTop`: where a delimiter stands at top level, every part is shorter than the
  text.
-/

namespace Schemata

def segments (delimiter : List Char) (s : Scan) : List Char → List (List Char)
  | [] => [[]]
  | c :: rest =>
    if s.cutsAt delimiter (c :: rest) then
      [] :: segments delimiter s (rest.drop (delimiter.length - 1))
    else (segments delimiter (s.step c) rest).modifyHead (c :: ·)
termination_by text => text.length
decreasing_by
  all_goals simp only [List.length_cons, List.length_drop]; omega

def splitTop (delimiter text : List Char) : List (List Char) :=
  ((segments delimiter .start text).map strip).filter (!·.isEmpty)

def hasTop (delimiter text : List Char) : Bool := splitTop delimiter text != [strip text]

/-! ### Lengths -/

theorem segments_ne_nil (delimiter : List Char) (s : Scan) (text : List Char) :
    segments delimiter s text ≠ [] := by
  fun_induction segments delimiter s text with
  | case1 => simp
  | case2 => simp
  | case3 s c rest _ ih => simpa [List.modifyHead_eq_nil_iff] using ih

private theorem mem_modifyHead_cons {c : Char} {x : List Char} {xs : List (List Char)}
    (h : x ∈ xs.modifyHead (c :: ·)) : x ∈ xs ∨ ∃ y ∈ xs, x = c :: y := by
  cases xs with
  | nil => simp at h
  | cons y ys =>
    rcases List.mem_cons.1 h with rfl | h
    · exact .inr ⟨y, List.mem_cons_self, rfl⟩
    · exact .inl (List.mem_cons_of_mem _ h)

theorem length_le_of_mem_segments {delimiter : List Char} {s : Scan} {text x : List Char}
    (h : x ∈ segments delimiter s text) : x.length ≤ text.length := by
  fun_induction segments delimiter s text generalizing x with
  | case1 => simp_all
  | case2 s c rest _ ih =>
    rcases List.mem_cons.1 h with rfl | h
    · simp
    · have := ih h
      simp only [List.length_drop, List.length_cons] at this ⊢
      omega
  | case3 s c rest _ ih =>
    rcases mem_modifyHead_cons h with h | ⟨y, hy, rfl⟩
    · have := ih h
      simp only [List.length_cons]
      omega
    · have := ih hy
      simp only [List.length_cons]
      omega

theorem length_lt_of_mem_segments {delimiter : List Char} {s : Scan} {text x : List Char}
    (h : x ∈ segments delimiter s text) (two : 2 ≤ (segments delimiter s text).length) :
    x.length < text.length := by
  fun_induction segments delimiter s text generalizing x with
  | case1 => simp at two
  | case2 s c rest _ ih =>
    rcases List.mem_cons.1 h with rfl | h
    · simp
    · have := length_le_of_mem_segments h
      simp only [List.length_drop, List.length_cons] at this ⊢
      omega
  | case3 s c rest _ ih =>
    rw [List.length_modifyHead] at two
    rcases mem_modifyHead_cons h with h | ⟨y, hy, rfl⟩
    · have := ih h two
      simp only [List.length_cons]
      omega
    · have := ih hy two
      simp only [List.length_cons]
      omega

theorem segments_eq_singleton {delimiter : List Char} {s : Scan} {text : List Char}
    (one : (segments delimiter s text).length = 1) : segments delimiter s text = [text] := by
  fun_induction segments delimiter s text with
  | case1 => rfl
  | case2 s c rest _ ih =>
    have := segments_ne_nil delimiter s (rest.drop (delimiter.length - 1))
    simp_all
  | case3 s c rest _ ih =>
    rw [List.length_modifyHead] at one
    rw [ih one]
    rfl

theorem two_le_length_segments {delimiter text : List Char} (h : hasTop delimiter text = true)
    (hs : strip text ≠ []) : 2 ≤ (segments delimiter .start text).length := by
  have pos : 0 < (segments delimiter .start text).length :=
    List.length_pos_iff.2 (segments_ne_nil _ _ _)
  by_cases one : (segments delimiter .start text).length = 1
  · have nonblank : (strip text).isEmpty = false := by simpa using hs
    simp [hasTop, splitTop, segments_eq_singleton one, nonblank] at h
  · omega

theorem length_le_of_mem_splitTop {delimiter text x : List Char} (h : x ∈ splitTop delimiter text) :
    x.length ≤ text.length := by
  simp only [splitTop, List.mem_filter, List.mem_map] at h
  obtain ⟨⟨y, hy, rfl⟩, -⟩ := h
  exact Nat.le_trans (length_strip_le y) (length_le_of_mem_segments hy)

theorem length_lt_of_mem_splitTop {delimiter text x : List Char}
    (h : hasTop delimiter text = true) (hs : strip text ≠ [])
    (hx : x ∈ splitTop delimiter text) : x.length < text.length := by
  simp only [splitTop, List.mem_filter, List.mem_map] at hx
  obtain ⟨⟨y, hy, rfl⟩, -⟩ := hx
  exact Nat.lt_of_le_of_lt (length_strip_le y)
    (length_lt_of_mem_segments hy (two_le_length_segments h hs))

end Schemata

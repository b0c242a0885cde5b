import Schemata.Proofs.Expression.Forms

/-!
# Cutting in two passes

The members of an object literal end at semicolons or at commas, and are found in two passes: the
text is cut at one of the two characters, and then each part at the other. This is the same as one
scan that cuts at either, so that it does not matter which comes first.

## What is deliberately absent

As in all laws of cutting, nothing is asked of the brackets and quotes of a text. The second pass
begins anew at each part; but a part begins where the scan was at top level, and there a scan is in
the one state in which it starts.

## Main definitions

* `segmentsAt`: the stretches between the characters of a kind that stand at top level, by one scan.

## Main results

* `segments_eq_segmentsAt`: cutting at a delimiter of one character is such a scan.
* `segmentsAt_or`: cutting at two kinds of characters in turn.
* `nonblankParts_segmentsAt_strip`: the blanks around a part make no difference to its parts.
* `flatMap_splitTop`: splitting at two characters in turn.
* `splitTop_eitherWay`: semicolons and commas.
-/

namespace Schemata

/-- The stretches of a text between the characters at which `stops` holds and which stand at top
level, in one scan. -/
def segmentsAt (stops : Char → Bool) (s : Scan) : List Char → List (List Char)
  | [] => [[]]
  | c :: rest =>
    if s.atTop && stops c then [] :: segmentsAt stops (s.step c) rest
    else (segmentsAt stops (s.step c) rest).modifyHead (c :: ·)

section SegmentsAt

variable {stops : Char → Bool} {s : Scan} {c : Char}

theorem segmentsAt_of_stop (top : s.atTop = true) (stop : stops c = true) (text : List Char) :
    segmentsAt stops s (c :: text) = [] :: segmentsAt stops (s.step c) text := by
  rw [segmentsAt, if_pos (by rw [top, stop]; rfl)]

theorem segmentsAt_of_not_stop (h : ¬ (s.atTop = true ∧ stops c = true)) (text : List Char) :
    segmentsAt stops s (c :: text) =
      (segmentsAt stops (s.step c) text).modifyHead (c :: ·) := by
  rw [segmentsAt, if_neg (by rwa [Bool.and_eq_true])]

theorem segmentsAt_ne_nil (stops : Char → Bool) (s : Scan) (text : List Char) :
    segmentsAt stops s text ≠ [] := by
  fun_induction segmentsAt stops s text with
  | case1 => exact List.cons_ne_nil _ _
  | case2 => exact List.cons_ne_nil _ _
  | case3 s c rest _ ih => rwa [Ne, List.modifyHead_eq_nil_iff]

theorem exists_segmentsAt_cons (stops : Char → Bool) (s : Scan) (text : List Char) :
    ∃ part parts, segmentsAt stops s text = part :: parts :=
  List.exists_cons_of_ne_nil (segmentsAt_ne_nil stops s text)

theorem segments_eq_segmentsAt {d : Char} (hd : isStructural d = false) (s : Scan)
    (text : List Char) : segments [d] s text = segmentsAt (· == d) s text := by
  fun_induction segments [d] s text with
  | case1 => rfl
  | case2 s c rest cut ih =>
    rw [Scan.cutsAt, Bool.and_eq_true, Bool.and_eq_true] at cut
    obtain ⟨⟨top, -⟩, starts⟩ := cut
    obtain ⟨rfl, -⟩ := List.cons_prefix_cons.mp (List.isPrefixOf_iff_prefix.mp starts)
    have same : s.step d = s := by
      rw [Scan.eq_start_of_atTop top, Scan.step_start_of_plain hd]
    rw [segmentsAt, top, beq_self_eq_true, Bool.and_self, if_pos rfl, same]
    exact congrArg _ ih
  | case3 s c rest whole ih =>
    rw [segmentsAt_of_not_stop, ih]
    rintro ⟨top, stop⟩
    obtain rfl := eq_of_beq stop
    exact whole (cutsAt_append hd [] top rest)

/-! ### Two kinds of characters -/

/-- Only the first stretch is cut on in the state of the scan: every other begins at top level. -/
theorem segmentsAt_or (plain : ∀ c, stops c = true → isStructural c = false)
    (others : Char → Bool) (s : Scan) (text : List Char) :
    ∃ part parts, segmentsAt stops s text = part :: parts ∧
      segmentsAt (fun c => stops c || others c) s text =
        segmentsAt others s part ++ parts.flatMap (segmentsAt others .start) := by
  induction text generalizing s with
  | nil => exact ⟨[], [], rfl, rfl⟩
  | cons c rest ih =>
    obtain ⟨part, parts, hparts, either⟩ := ih (s.step c)
    by_cases stop : s.atTop = true ∧ stops c = true
    · obtain ⟨top, stop⟩ := stop
      refine ⟨[], part :: parts, by rw [segmentsAt_of_stop top stop, hparts], ?_⟩
      rw [Scan.eq_start_of_atTop top, Scan.step_start_of_plain (plain c stop)] at either
      rw [segmentsAt_of_stop top (by rw [stop]; rfl), Scan.eq_start_of_atTop top,
        Scan.step_start_of_plain (plain c stop), either, List.flatMap_cons]
      rfl
    · refine ⟨c :: part, parts, by rw [segmentsAt_of_not_stop stop, hparts]; rfl, ?_⟩
      by_cases other : s.atTop = true ∧ others c = true
      · obtain ⟨top, other⟩ := other
        rw [segmentsAt_of_stop top (by rw [other, Bool.or_true]), either,
          segmentsAt_of_stop top other]
        rfl
      · have neither : ¬ (s.atTop = true ∧ (stops c || others c) = true) := by
          rintro ⟨top, h⟩
          rcases (Bool.or_eq_true _ _).mp h with h | h
          · exact stop ⟨top, h⟩
          · exact other ⟨top, h⟩
        obtain ⟨first, further, hfirst⟩ := exists_segmentsAt_cons others (s.step c) part
        rw [segmentsAt_of_not_stop neither, either, segmentsAt_of_not_stop other, hfirst]
        rfl

theorem segmentsAt_either (plain : ∀ c, stops c = true → isStructural c = false)
    (others : Char → Bool) (text : List Char) :
    segmentsAt (fun c => stops c || others c) .start text =
      (segmentsAt stops .start text).flatMap (segmentsAt others .start) := by
  obtain ⟨part, parts, hparts, either⟩ := segmentsAt_or plain others .start text
  rw [either, hparts, List.flatMap_cons]

/-! ### Blanks around the parts -/

theorem strip_append_of_isBlank {back : List Char} (h : ∀ c ∈ back, isBlank c = true)
    (text : List Char) : strip (text ++ back) = strip text := by
  have reversed : ∀ c ∈ back.reverse, isBlank c = true := fun c hc => h c (List.mem_reverse.mp hc)
  by_cases blank : ∀ c ∈ text, isBlank c = true
  · rw [strip_eq_nil_iff.mpr blank, strip_eq_nil_iff, List.forall_mem_append]
    exact ⟨blank, h⟩
  · have start : stripStart (text ++ back) = stripStart text ++ back := by
      rw [stripStart, List.dropWhile_append, if_neg]
      · rfl
      · rwa [List.isEmpty_iff, List.dropWhile_eq_nil_iff]
    rw [strip, start, stripEnd, List.reverse_append, List.dropWhile_append_of_pos reversed]
    rfl

theorem modifyHead_nil_append (parts : List (List Char)) :
    parts.modifyHead (([] : List Char) ++ ·) = parts :=
  congrFun List.modifyHead_id parts

theorem modifyHead_append_cons (before : List Char) (c : Char) (parts : List (List Char)) :
    (parts.modifyHead (c :: ·)).modifyHead (before ++ ·) =
      parts.modifyHead ((before ++ [c]) ++ ·) := by
  rw [List.modifyHead_modifyHead]
  congr 1
  funext part
  simp

theorem nonblankParts_modifyHead_of_isBlank (hc : isBlank c = true) (parts : List (List Char)) :
    nonblankParts (parts.modifyHead (c :: ·)) = nonblankParts parts := by
  cases parts with
  | nil => rfl
  | cons part parts =>
    rw [List.modifyHead_cons, nonblankParts_cons, nonblankParts_cons, strip_cons_of_isBlank hc]

/-- The blanks before a text leave a scan in the state in which it starts. -/
theorem nonblankParts_segmentsAt_of_front {front : List Char} (h : ∀ c ∈ front, isBlank c = true)
    (text : List Char) :
    nonblankParts (segmentsAt stops .start (front ++ text)) =
      nonblankParts (segmentsAt stops .start text) := by
  induction front with
  | nil => rfl
  | cons c front ih =>
    rw [List.forall_mem_cons] at h
    rw [List.cons_append, ← ih h.2]
    have same := Scan.step_start_of_plain (isStructural_of_isBlank h.1)
    by_cases stop : Scan.start.atTop = true ∧ stops c = true
    · rw [segmentsAt_of_stop stop.1 stop.2, same, nonblankParts_cons]
      rfl
    · rw [segmentsAt_of_not_stop stop, same, nonblankParts_modifyHead_of_isBlank h.1]

/-- What is cut off the blanks behind a text is blank, up to what stands before them. -/
theorem nonblankParts_segmentsAt_of_blank {back : List Char} (h : ∀ c ∈ back, isBlank c = true)
    (stops : Char → Bool) (s : Scan) (before : List Char) :
    nonblankParts ((segmentsAt stops s back).modifyHead (before ++ ·)) =
      nonblankParts [before] := by
  induction back generalizing s before with
  | nil => rw [segmentsAt, List.modifyHead_cons, List.append_nil]
  | cons c back ih =>
    rw [List.forall_mem_cons] at h
    by_cases stop : s.atTop = true ∧ stops c = true
    · have behind := ih h.2 (s.step c) []
      rw [modifyHead_nil_append] at behind
      rw [segmentsAt_of_stop stop.1 stop.2, List.modifyHead_cons, List.append_nil,
        nonblankParts_cons, behind, nonblankParts_cons before []]
      rfl
    · have stripped := strip_append_of_isBlank (List.forall_mem_singleton.mpr h.1) before
      rw [segmentsAt_of_not_stop stop, modifyHead_append_cons, ih h.2, nonblankParts_cons,
        nonblankParts_cons, stripped]

/-- The induction is on the text; what was passed over since the last cut stands in front. -/
theorem nonblankParts_segmentsAt_of_back {back : List Char} (h : ∀ c ∈ back, isBlank c = true)
    (stops : Char → Bool) (s : Scan) (before text : List Char) :
    nonblankParts ((segmentsAt stops s (text ++ back)).modifyHead (before ++ ·)) =
      nonblankParts ((segmentsAt stops s text).modifyHead (before ++ ·)) := by
  induction text generalizing s before with
  | nil =>
    rw [List.nil_append, nonblankParts_segmentsAt_of_blank h, segmentsAt, List.modifyHead_cons,
      List.append_nil]
  | cons c text ih =>
    rw [List.cons_append]
    by_cases stop : s.atTop = true ∧ stops c = true
    · have behind := ih (s.step c) []
      rw [modifyHead_nil_append, modifyHead_nil_append] at behind
      rw [segmentsAt_of_stop stop.1 stop.2, segmentsAt_of_stop stop.1 stop.2,
        List.modifyHead_cons, List.modifyHead_cons, nonblankParts_cons, nonblankParts_cons, behind]
    · rw [segmentsAt_of_not_stop stop, segmentsAt_of_not_stop stop, modifyHead_append_cons,
        modifyHead_append_cons]
      exact ih (s.step c) (before ++ [c])

theorem nonblankParts_segmentsAt_strip (stops : Char → Bool) (text : List Char) :
    nonblankParts (segmentsAt stops .start (strip text)) =
      nonblankParts (segmentsAt stops .start text) := by
  obtain ⟨front, back, htext, hfront, hback⟩ := exists_padding text
  have behind := nonblankParts_segmentsAt_of_back hback stops .start [] (strip text)
  rw [modifyHead_nil_append, modifyHead_nil_append] at behind
  rw [← behind, ← nonblankParts_segmentsAt_of_front hfront, ← List.append_assoc, ← htext]

end SegmentsAt

/-! ### Two passes -/

theorem flatMap_nonblankParts {f : List Char → List (List Char)} (hf : f [] = [])
    (parts : List (List Char)) :
    (nonblankParts parts).flatMap f = parts.flatMap fun part => f (strip part) := by
  induction parts with
  | nil => rfl
  | cons part parts ih =>
    rw [nonblankParts_cons, List.flatMap_cons]
    split
    · next blank => rw [ih, blank, hf, List.nil_append]
    · rw [List.flatMap_cons, ih]

theorem nonblankParts_flatMap (f : List Char → List (List Char)) (parts : List (List Char)) :
    nonblankParts (parts.flatMap f) = parts.flatMap fun part => nonblankParts (f part) := by
  induction parts with
  | nil => rfl
  | cons part parts ih => rw [List.flatMap_cons, nonblankParts_append, ih, List.flatMap_cons]

/-- Splitting at one character and then each part at another is cutting at either in one scan. -/
theorem flatMap_splitTop {d e : Char} (hd : isStructural d = false) (he : isStructural e = false)
    (text : List Char) :
    (splitTop [d] text).flatMap (splitTop [e]) =
      nonblankParts (segmentsAt (fun c => c == d || c == e) .start text) := by
  have each : ∀ part, splitTop [e] (strip part) =
      nonblankParts (segmentsAt (· == e) .start part) := by
    intro part
    rw [splitTop_eq, segments_eq_segmentsAt he, nonblankParts_segmentsAt_strip]
  have none : splitTop [e] [] = [] := by
    rw [splitTop_eq, segments]
    rfl
  have plain : ∀ c, (c == d) = true → isStructural c = false := by
    intro c hc
    rwa [eq_of_beq hc]
  calc (splitTop [d] text).flatMap (splitTop [e])
      = (segmentsAt (· == d) .start text).flatMap fun part => splitTop [e] (strip part) := by
        rw [splitTop_eq, segments_eq_segmentsAt hd, flatMap_nonblankParts none]
    _ = nonblankParts ((segmentsAt (· == d) .start text).flatMap (segmentsAt (· == e) .start)) := by
        simp only [each, nonblankParts_flatMap]
    _ = nonblankParts (segmentsAt (fun c => c == d || c == e) .start text) := by
        rw [← segmentsAt_either plain]

/-- A character at which a member of an object literal ends. -/
def endsMember (c : Char) : Bool := c == ';' || c == ','

/-- The parts between semicolons and commas at top level are found by splitting at the ones and then
at the others, in either order, or by one scan; from them the members of an object literal are
read. -/
theorem splitTop_eitherWay (text : List Char) :
    (splitTop [';'] text).flatMap (splitTop [',']) =
        (splitTop [','] text).flatMap (splitTop [';']) ∧
      (splitTop [';'] text).flatMap (splitTop [',']) =
        nonblankParts (segmentsAt endsMember .start text) ∧
      Form.membersOf text =
        (nonblankParts (segmentsAt endsMember .start (interior text))).filterMap Member.read? := by
  have semicolon : isStructural ';' = false := by decide
  have comma : isStructural ',' = false := by decide
  have first : ∀ text, (splitTop [';'] text).flatMap (splitTop [',']) =
      nonblankParts (segmentsAt endsMember .start text) := flatMap_splitTop semicolon comma
  have swapped : (fun c : Char => c == ',' || c == ';') = endsMember :=
    funext fun c => Bool.or_comm _ _
  refine ⟨?_, first text, ?_⟩
  · rw [first, flatMap_splitTop comma semicolon, swapped]
  · rw [Form.membersOf, first]

/-- A bracket that was closed without having been opened does not count, and a comma inside brackets
ends nothing. -/
example : nonblankParts (segmentsAt endsMember .start "a: X); b: M<K, V>, ; c".toList) =
    ["a: X)".toList, "b: M<K, V>".toList, "c".toList] := by
  decide

end Schemata

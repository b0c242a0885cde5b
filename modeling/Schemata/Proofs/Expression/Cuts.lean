import Mathlib.Data.List.TakeWhile
import Schemata.Proofs.Expression.Balanced

/-!
# Where a text is cut

A scan that goes through a text meets its delimiters at top level one after the other. They part the
text in one way only, and the parts of this way, but for the blank ones, are what splitting gives.

## What is deliberately absent

Nothing is asked of the brackets and quotes of a text: they may be left open, or be closed without
having been opened. A part is only followed by a delimiter where the scan is back at top level, and
that is all that the laws below need.

## Main definitions

* `Scan.InQuotes`: what a scan is inside of is a quote.
* `Uncut`: no delimiter stands at top level in a stretch of text.
* `Cuts`: the parts of a text between the delimiters that a scan meets at top level.
* `StandsAtTop`: a character stands at top level somewhere in a text.

## Main results

* `cuts_segments`, `Cuts.eq_segments`: the segments of a text are its one decomposition.
* `splitTop_append`: splitting a text is splitting what stands before a delimiter and behind it.
* `not_standsAtTop_of_mem_splitTop`, `splitTop_join`: the parts are not split further, and joining
  them again changes nothing.
* `hasTop_iff`: when splitting does anything.
* `splitTop_exact`: all of this together.

## Implementation notes

The laws of joining are about delimiters of one character. A longer delimiter can begin in one text
and end in the next, so that joining makes delimiters that stand in neither.
-/

namespace Schemata

/-! ### Scanning on -/

namespace Scan

variable {s : Scan} {c : Char}

theorem eq_start_of_atTop (h : s.atTop = true) : s = start := by
  obtain ⟨depth, quote⟩ := s
  rw [atTop, Bool.and_eq_true, beq_iff_eq, Option.isNone_iff_eq_none] at h
  obtain ⟨rfl, rfl⟩ := h
  rfl

theorem after_cons (s : Scan) (c : Char) (text : List Char) :
    s.after (c :: text) = (s.step c).after text := rfl

theorem after_append (s : Scan) (x y : List Char) : s.after (x ++ y) = (s.after x).after y :=
  List.foldl_append

/-- Outside quotes, a plain character changes nothing. -/
theorem step_start_of_plain (hc : isStructural c = false) : start.step c = start := by
  obtain ⟨opening, closing, quote⟩ := isStructural_eq_false_iff.mp hc
  simp [start, step, opening, closing, quote]

/-- What a scan is inside of is a quote, if it is inside of anything. -/
def InQuotes (s : Scan) : Prop := ∀ q, s.quote = some q → isQuote q = true

theorem inQuotes_start : start.InQuotes := by
  intro q hq
  cases hq

theorem InQuotes.step (h : s.InQuotes) (c : Char) : (s.step c).InQuotes := by
  intro q hq
  rw [Scan.step] at hq
  split at hq
  · split at hq
    · cases hq
    · exact h q hq
  · split at hq
    · next quote =>
      obtain rfl := Option.some.inj hq
      exact quote
    · split at hq
      · exact h q hq
      · split at hq <;> exact h q hq

theorem InQuotes.after (h : s.InQuotes) (text : List Char) : (s.after text).InQuotes := by
  induction text generalizing s with
  | nil => exact h
  | cons c text ih => exact ih (h.step c)

/-- A blank changes nothing, inside quotes or outside. -/
theorem InQuotes.step_blank (h : s.InQuotes) (blank : isBlank c = true) : s.step c = s := by
  obtain ⟨opening, closing, quote⟩ := isStructural_eq_false_iff.mp (isStructural_of_isBlank blank)
  rw [Scan.step]
  split
  · next q hq =>
    have hne : c ≠ q := by
      rintro rfl
      rw [h c hq] at quote
      cases quote
    rw [if_neg hne]
  · simp [opening, closing, quote]

theorem InQuotes.after_blanks (h : s.InQuotes) {blanks : List Char}
    (all : ∀ c ∈ blanks, isBlank c = true) : s.after blanks = s := by
  induction blanks with
  | nil => rfl
  | cons c blanks ih =>
    rw [List.forall_mem_cons] at all
    rw [after_cons, h.step_blank all.1]
    exact ih all.2

theorem start_after_of_blanks {blanks : List Char} (h : ∀ c ∈ blanks, isBlank c = true) :
    start.after blanks = start :=
  inQuotes_start.after_blanks h

end Scan

/-! ### The cuts of a text -/

/-- No delimiter stands at top level in `part`, to which a scan comes in state `s` and behind which
`rest` stands. -/
def Uncut (delimiter : List Char) (s : Scan) (part rest : List Char) : Prop :=
  ∀ before after, part = before ++ after → after ≠ [] → (s.after before).atTop = true →
    ¬ delimiter <+: after ++ rest

/-- The parts of a text between the delimiters that a scan meets at top level. No part holds such a
delimiter, and each but the last is followed by one, behind which the scan goes on. -/
inductive Cuts (delimiter : List Char) : Scan → List (List Char) → List Char → Prop
  | last {s : Scan} {part : List Char} (uncut : Uncut delimiter s part []) :
      Cuts delimiter s [part] part
  | cut {s : Scan} {part rest : List Char} {parts : List (List Char)}
      (uncut : Uncut delimiter s part (delimiter ++ rest)) (top : (s.after part).atTop = true)
      (behind : Cuts delimiter (s.after part) parts rest) :
      Cuts delimiter s (part :: parts) (part ++ (delimiter ++ rest))

/-- The parts that are not blank, without the blanks around them. -/
def nonblankParts (parts : List (List Char)) : List (List Char) :=
  (parts.map strip).filter (!·.isEmpty)

theorem splitTop_eq (delimiter text : List Char) :
    splitTop delimiter text = nonblankParts (segments delimiter .start text) := rfl

theorem nonblankParts_append (parts more : List (List Char)) :
    nonblankParts (parts ++ more) = nonblankParts parts ++ nonblankParts more := by
  simp [nonblankParts]

theorem nonblankParts_cons (part : List Char) (parts : List (List Char)) :
    nonblankParts (part :: parts) =
      if strip part = [] then nonblankParts parts else strip part :: nonblankParts parts := by
  by_cases h : strip part = []
  · simp [nonblankParts, h]
  · simp [nonblankParts, h]

theorem mem_nonblankParts_iff {parts : List (List Char)} {x : List Char} :
    x ∈ nonblankParts parts ↔ ∃ part ∈ parts, strip part = x ∧ x ≠ [] := by
  simp only [nonblankParts, List.mem_filter, List.mem_map, Bool.not_eq_true',
    List.isEmpty_eq_false_iff]
  constructor
  · rintro ⟨⟨part, hpart, rfl⟩, hne⟩
    exact ⟨part, hpart, rfl, hne⟩
  · rintro ⟨part, hpart, rfl, hne⟩
    exact ⟨⟨part, hpart, rfl⟩, hne⟩

section Segments

variable {delimiter : List Char} {s : Scan} {c : Char} {part rest : List Char}

theorem Uncut.nil (delimiter : List Char) (s : Scan) (rest : List Char) :
    Uncut delimiter s [] rest := by
  intro before after h hne
  exact absurd (List.append_eq_nil_iff.mp h.symm).2 hne

/-- One character in front keeps a stretch uncut, unless a delimiter begins with it. -/
theorem Uncut.cons (h : Uncut delimiter (s.step c) part rest)
    (whole : s.atTop = true → ¬ delimiter <+: c :: (part ++ rest)) :
    Uncut delimiter s (c :: part) rest := by
  intro before after heq hne top
  rcases List.cons_eq_append_iff.mp heq with ⟨rfl, rfl⟩ | ⟨before, rfl, rfl⟩
  · exact whole top
  · exact h before after rfl hne top

theorem Uncut.tail (h : Uncut delimiter s (c :: part) rest) :
    Uncut delimiter (s.step c) part rest := by
  intro before after heq hne top
  subst heq
  exact h (c :: before) after rfl hne top

theorem Uncut.cutsAt_eq_false (h : Uncut delimiter s (c :: part) rest) :
    s.cutsAt delimiter (c :: (part ++ rest)) = false := by
  rw [Bool.eq_false_iff]
  intro cut
  rw [Scan.cutsAt, Bool.and_eq_true, Bool.and_eq_true] at cut
  obtain ⟨⟨top, -⟩, starts⟩ := cut
  exact h [] (c :: part) rfl (List.cons_ne_nil c part) top (List.isPrefixOf_iff_prefix.mp starts)

/-- What is not cut stays in one segment with what stands behind it. -/
theorem segments_of_uncut (h : Uncut delimiter s part rest) :
    segments delimiter s (part ++ rest) =
      (segments delimiter (s.after part) rest).modifyHead (part ++ ·) := by
  induction part generalizing s with
  | nil =>
    have unchanged : (([] : List Char) ++ ·) = id := rfl
    rw [unchanged, List.modifyHead_id]
    rfl
  | cons c part ih =>
    have whole := Bool.eq_false_iff.mp h.cutsAt_eq_false
    rw [List.cons_append, segments, if_neg whole, ih h.tail, List.modifyHead_modifyHead]
    rfl

theorem Cuts.cons {parts : List (List Char)} {text : List Char}
    (h : Cuts delimiter (s.step c) parts text)
    (whole : s.atTop = true → ¬ delimiter <+: c :: text) :
    Cuts delimiter s (parts.modifyHead (c :: ·)) (c :: text) := by
  cases h with
  | last uncut =>
    refine .last (uncut.cons ?_)
    rwa [List.append_nil]
  | cut uncut top behind => exact .cut (uncut.cons whole) top behind

/-- The segments of a text are cut where delimiters stand at top level. -/
theorem cuts_segments {d : Char} (hd : isStructural d = false) (tail : List Char) (s : Scan)
    (text : List Char) : Cuts (d :: tail) s (segments (d :: tail) s text) text := by
  fun_induction segments (d :: tail) s text with
  | case1 => exact .last (.nil _ _ _)
  | case2 s c text cut ih =>
    rw [Scan.cutsAt, Bool.and_eq_true, Bool.and_eq_true] at cut
    obtain ⟨⟨top, -⟩, starts⟩ := cut
    obtain ⟨rest, hrest⟩ := List.isPrefixOf_iff_prefix.mp starts
    obtain ⟨rfl, htext⟩ := List.cons.inj hrest
    have behind : text.drop ((d :: tail).length - 1) = rest := by
      rw [← htext]
      simp
    rw [behind] at ih ⊢
    rw [← hrest]
    exact .cut (.nil _ _ _) top ih
  | case3 s c text whole ih =>
    refine ih.cons ?_
    intro top starts
    refine whole ?_
    obtain ⟨rest, hrest⟩ := starts
    obtain ⟨rfl, rfl⟩ := List.cons.inj hrest
    exact cutsAt_append hd tail top rest

/-- There is no other way to cut a text. -/
theorem Cuts.eq_segments {d : Char} (hd : isStructural d = false) {tail : List Char} {s : Scan}
    {parts : List (List Char)} {text : List Char} (h : Cuts (d :: tail) s parts text) :
    parts = segments (d :: tail) s text := by
  induction h with
  | @last s part uncut =>
    have one : segments (d :: tail) s (part ++ []) = _ := segments_of_uncut uncut
    rw [List.append_nil, segments] at one
    rw [one, List.modifyHead_cons, List.append_nil]
  | @cut s part rest parts uncut top _ ih =>
    rw [segments_of_uncut uncut, segments_append_delimiter hd tail top, List.modifyHead_cons,
      List.append_nil, ← ih]

end Segments

/-! ### Delimiters of one character -/

/-- The character stands at top level somewhere in the text, to which a scan comes in state `s`. -/
def StandsAtTop (d : Char) (s : Scan) (text : List Char) : Prop :=
  ∃ before after, text = before ++ d :: after ∧ (s.after before).atTop = true

section Single

variable {d : Char} {s : Scan} {text : List Char}

theorem uncut_singleton_iff {part rest : List Char} :
    Uncut [d] s part rest ↔ ¬ StandsAtTop d s part := by
  constructor
  · rintro uncut ⟨before, after, heq, top⟩
    refine uncut before (d :: after) heq (List.cons_ne_nil d after) top ?_
    rw [List.cons_append]
    exact List.cons_prefix_cons.mpr ⟨rfl, List.nil_prefix⟩
  · intro none before after heq hne top starts
    obtain ⟨c, after, rfl⟩ := List.exists_cons_of_ne_nil hne
    rw [List.cons_append, List.cons_prefix_cons] at starts
    obtain ⟨rfl, -⟩ := starts
    exact none ⟨before, after, heq, top⟩

theorem Cuts.not_standsAtTop {parts : List (List Char)} (h : Cuts [d] s parts text)
    (hs : s = .start) {part : List Char} (hpart : part ∈ parts) :
    ¬ StandsAtTop d .start part := by
  induction h with
  | last uncut =>
    subst hs
    obtain rfl := List.mem_singleton.mp hpart
    exact uncut_singleton_iff.mp uncut
  | cut uncut top _ ih =>
    subst hs
    rcases List.mem_cons.mp hpart with rfl | hpart
    · exact uncut_singleton_iff.mp uncut
    · exact ih (Scan.eq_start_of_atTop top) hpart

theorem segments_of_not_standsAtTop (hd : isStructural d = false)
    (none : ¬ StandsAtTop d .start text) : segments [d] .start text = [text] :=
  ((Cuts.last (uncut_singleton_iff.mpr none)).eq_segments hd).symm

/-- Before a delimiter at top level a text is cut as on its own. -/
theorem Cuts.append (hd : isStructural d = false) {before after : List Char}
    {parts more : List (List Char)} (h : Cuts [d] s parts before)
    (top : (s.after before).atTop = true) (hmore : Cuts [d] .start more after) :
    Cuts [d] s (parts ++ more) (before ++ d :: after) := by
  induction h with
  | @last s part uncut =>
    rw [uncut_singleton_iff] at uncut
    refine .cut (uncut_singleton_iff.mpr uncut) top ?_
    rwa [Scan.eq_start_of_atTop top]
  | @cut s part rest parts uncut closed _ ih =>
    rw [uncut_singleton_iff] at uncut
    have behind : s.after (part ++ ([d] ++ rest)) = (s.after part).after rest := by
      rw [Scan.after_append, List.singleton_append, Scan.after_cons, Scan.eq_start_of_atTop closed,
        Scan.step_start_of_plain hd]
    rw [behind] at top
    have arranged :
        part ++ ([d] ++ rest) ++ d :: after = part ++ ([d] ++ (rest ++ d :: after)) := by simp
    rw [arranged]
    exact .cut (uncut_singleton_iff.mpr uncut) closed (ih top)

theorem splitTop_append (hd : isStructural d = false) {before : List Char}
    (top : (Scan.start.after before).atTop = true) (after : List Char) :
    splitTop [d] (before ++ d :: after) = splitTop [d] before ++ splitTop [d] after := by
  have cuts := (cuts_segments hd [] .start before).append hd top (cuts_segments hd [] .start after)
  rw [splitTop_eq, ← cuts.eq_segments hd, nonblankParts_append]
  rfl

/-! ### Blanks around the parts -/

theorem exists_padding (text : List Char) :
    ∃ front back, text = front ++ strip text ++ back ∧ (∀ c ∈ front, isBlank c = true) ∧
      ∀ c ∈ back, isBlank c = true := by
  have head : text = text.takeWhile isBlank ++ stripStart text :=
    List.takeWhile_append_dropWhile.symm
  have tail : stripStart text =
      strip text ++ ((stripStart text).reverse.takeWhile isBlank).reverse := by
    rw [strip, stripEnd, ← List.reverse_append, List.takeWhile_append_dropWhile,
      List.reverse_reverse]
  refine ⟨text.takeWhile isBlank, ((stripStart text).reverse.takeWhile isBlank).reverse, ?_, ?_, ?_⟩
  · rw [List.append_assoc, ← tail]
    exact head
  · intro c hc
    exact List.mem_takeWhile_imp hc
  · intro c hc
    exact List.mem_takeWhile_imp (List.mem_reverse.mp hc)

theorem strip_eq_nil_iff {text : List Char} : strip text = [] ↔ ∀ c ∈ text, isBlank c = true := by
  constructor
  · intro h
    obtain ⟨front, back, htext, hfront, hback⟩ := exists_padding text
    rw [h, List.append_nil] at htext
    rw [htext, List.forall_mem_append]
    exact ⟨hfront, hback⟩
  · intro h
    have start : stripStart text = [] := List.dropWhile_eq_nil_iff.mpr h
    rw [strip, start]
    rfl

/-- What stands behind a character that is not in `front` stands behind `front`. -/
theorem exists_behind_of_notMem {front x before after : List Char}
    (h : front ++ x = before ++ d :: after) (hd : d ∉ front) :
    ∃ y, before = front ++ y ∧ x = y ++ d :: after := by
  induction front generalizing before with
  | nil => exact ⟨before, rfl, h⟩
  | cons c front ih =>
    rw [List.mem_cons, not_or] at hd
    rw [List.cons_append] at h
    rcases List.cons_eq_append_iff.mp h with ⟨-, heq⟩ | ⟨before, rfl, heq⟩
    · exact absurd (List.cons.inj heq).1 hd.1
    · obtain ⟨y, rfl, hx⟩ := ih heq hd.2
      exact ⟨y, rfl, hx⟩

/-- What stands before a character that is not in `back` stands before `back`. -/
theorem exists_before_of_notMem {x back before after : List Char}
    (h : x ++ back = before ++ d :: after) (hd : d ∉ back) : ∃ y, x = before ++ d :: y := by
  induction x generalizing before with
  | nil =>
    rw [List.nil_append] at h
    exact absurd (h ▸ by simp) hd
  | cons c x ih =>
    rw [List.cons_append] at h
    rcases List.cons_eq_append_iff.mp h with ⟨rfl, heq⟩ | ⟨before, rfl, heq⟩
    · exact ⟨x, by rw [(List.cons.inj heq).1]; rfl⟩
    · obtain ⟨y, rfl⟩ := ih heq
      exact ⟨y, rfl⟩

theorem standsAtTop_of_strip (h : StandsAtTop d .start (strip text)) :
    StandsAtTop d .start text := by
  obtain ⟨before, after, heq, top⟩ := h
  obtain ⟨front, back, htext, hfront, -⟩ := exists_padding text
  refine ⟨front ++ before, after ++ back, ?_, ?_⟩
  · rw [htext, heq]
    simp
  · rwa [Scan.after_append, Scan.start_after_of_blanks hfront]

/-- A delimiter that is no blank stands within the blanks around a text. -/
theorem standsAtTop_strip (blank : isBlank d = false) (h : StandsAtTop d .start text) :
    StandsAtTop d .start (strip text) := by
  obtain ⟨before, after, heq, top⟩ := h
  obtain ⟨front, back, htext, hfront, hback⟩ := exists_padding text
  have notBlank : ∀ {blanks : List Char}, (∀ c ∈ blanks, isBlank c = true) → d ∉ blanks := by
    intro blanks all hd
    rw [all d hd] at blank
    cases blank
  rw [htext, List.append_assoc] at heq
  obtain ⟨x, rfl, hrest⟩ := exists_behind_of_notMem heq (notBlank hfront)
  obtain ⟨y, hy⟩ := exists_before_of_notMem hrest (notBlank hback)
  rw [Scan.after_append, Scan.start_after_of_blanks hfront] at top
  exact ⟨x, y, hy, top⟩

/-- A text that is closed is closed without the blanks behind it. -/
theorem atTop_after_strip (top : (Scan.start.after text).atTop = true) :
    (Scan.start.after (strip text)).atTop = true := by
  obtain ⟨front, back, htext, hfront, hback⟩ := exists_padding text
  have inQuotes := Scan.inQuotes_start.after (strip text)
  rwa [htext, Scan.after_append, Scan.after_append, Scan.start_after_of_blanks hfront,
    inQuotes.after_blanks hback] at top

/-! ### Parts -/

theorem not_standsAtTop_of_mem_splitTop (hd : isStructural d = false) {part : List Char}
    (h : part ∈ splitTop [d] text) : ¬ StandsAtTop d .start part := by
  rw [splitTop_eq, mem_nonblankParts_iff] at h
  obtain ⟨segment, hsegment, rfl, -⟩ := h
  intro stands
  exact (cuts_segments hd [] .start text).not_standsAtTop rfl hsegment (standsAtTop_of_strip stands)

theorem splitTop_of_not_standsAtTop (hd : isStructural d = false) (hne : strip text ≠ [])
    (none : ¬ StandsAtTop d .start text) : splitTop [d] text = [strip text] := by
  rw [splitTop_eq, segments_of_not_standsAtTop hd none, nonblankParts_cons, if_neg hne]
  rfl

theorem splitTop_part (hd : isStructural d = false) {part : List Char}
    (h : part ∈ splitTop [d] text) : splitTop [d] part = [part] := by
  have none := not_standsAtTop_of_mem_splitTop hd h
  rw [splitTop_eq, mem_nonblankParts_iff] at h
  obtain ⟨segment, -, rfl, hne⟩ := h
  have stripped := strip_strip segment
  rw [splitTop_of_not_standsAtTop hd (by rwa [stripped]) none, stripped]

/-- At top level, a text that can stand between delimiters has none of them. -/
theorem Part.not_standsAtTop (hd : isStructural d = false) (part : Part (· ≠ d) text) :
    ¬ StandsAtTop d .start text := by
  have only : splitTop [d] text = [text] := part.splitTop_eq_singleton
  have found : text ∈ splitTop [d] text := by
    rw [only]
    exact List.mem_cons_self
  exact not_standsAtTop_of_mem_splitTop hd found

/-- The induction is on the cuts: a part that is followed by another was followed by a delimiter in
the text, and so is closed. -/
theorem Cuts.splitTop_join (hd : isStructural d = false) {parts : List (List Char)}
    (h : Cuts [d] s parts text) (hs : s = .start) :
    splitTop [d] ([d].intercalate (nonblankParts parts)) = nonblankParts parts := by
  have alone : ∀ {part : List Char}, Uncut [d] .start part [] → strip part ≠ [] →
      splitTop [d] (strip part) = [strip part] := by
    intro part uncut hne
    have none : ¬ StandsAtTop d .start (strip part) := fun stands =>
      uncut_singleton_iff.mp uncut (standsAtTop_of_strip stands)
    rw [splitTop_of_not_standsAtTop hd (by rwa [strip_strip]) none, strip_strip]
  induction h with
  | @last s part uncut =>
    subst hs
    rw [nonblankParts_cons]
    split
    · show splitTop [d] [] = []
      rw [splitTop_eq, segments]
      rfl
    · next hne =>
      show splitTop [d] ([d].intercalate [strip part]) = [strip part]
      rw [List.intercalate_singleton]
      exact alone uncut hne
  | @cut s part rest parts uncut top _ ih =>
    subst hs
    have joined := ih (Scan.eq_start_of_atTop top)
    rw [uncut_singleton_iff] at uncut
    rw [nonblankParts_cons]
    split
    · exact joined
    · next hne =>
      have one := alone (uncut_singleton_iff.mpr uncut) hne
      cases hparts : nonblankParts parts with
      | nil =>
        rw [List.intercalate_singleton]
        exact one
      | cons next more =>
        rw [hparts] at joined
        rw [List.intercalate_cons_cons, List.append_assoc, List.singleton_append,
          splitTop_append hd (atTop_after_strip top), one, joined]
        rfl

theorem splitTop_join (hd : isStructural d = false) (text : List Char) :
    splitTop [d] ([d].intercalate (splitTop [d] text)) = splitTop [d] text :=
  (cuts_segments hd [] .start text).splitTop_join hd rfl

/-- Splitting does something to a text just when the delimiter stands in it at top level. If the
text were its only part nonetheless, the delimiter would stand in that part. -/
theorem hasTop_iff (hd : isStructural d = false) (blank : isBlank d = false)
    (hne : strip text ≠ []) : hasTop [d] text = true ↔ StandsAtTop d .start text := by
  rw [hasTop, bne_iff_ne]
  constructor
  · intro changed
    by_contra none
    exact changed (splitTop_of_not_standsAtTop hd hne none)
  · intro stands unchanged
    have part : strip text ∈ splitTop [d] text := by
      rw [unchanged]
      exact List.mem_cons_self
    exact not_standsAtTop_of_mem_splitTop hd part (standsAtTop_strip blank stands)

end Single

end Schemata

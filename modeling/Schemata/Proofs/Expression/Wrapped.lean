import Schemata.Proofs.Expression.Balanced

/-!
# When a text is wrapped

Two scans read brackets by different rules. The one that cuts texts has a floor, as a closing
bracket with none open changes nothing; the one that looks for the end of a wrapped text counts
below zero, and stops where the count first comes back to zero. Above zero they count alike, so that
nothing in a wrapped text is at top level for either.

## What is deliberately absent

The brackets that wrap a text need not be of one sort, and neither do those inside it: no scan tells
the sorts apart. Nor is there a predicate here for texts that can be wrapped in some bracket; the
count alone decides.

## Main definitions

* `Tally`: the state of a scan that counts brackets without a floor.
* `Enclosable`: the count of the text's brackets never falls below zero, and comes out at zero
  outside quotes.

## Main results

* `Scan.tally_step`: with a bracket open, both scans take the same step.
* `isWrapped_iff`: brackets wrap a text just when it is enclosable.
* `segments_of_isWrapped`: no delimiter cuts a wrapped text.
* `isWrapped_exact`: both together.
-/

namespace Schemata

/-! ### Counting without a floor -/

structure Tally where
  /-- How many more brackets were opened than closed. -/
  depth : Int
  /-- The quote that the scan is inside of. -/
  quote : Option Char

namespace Tally

def start : Tally := ⟨0, none⟩

def step (t : Tally) (c : Char) : Tally :=
  match t.quote with
  | some q => if c = q then { t with quote := none } else t
  | none =>
    if isQuote c then { t with quote := some c }
    else if isOpening c then { t with depth := t.depth + 1 }
    else if isClosing c then { t with depth := t.depth - 1 }
    else t

/-- The state behind a text. -/
def after (t : Tally) (text : List Char) : Tally := text.foldl step t

theorem after_cons (t : Tally) (c : Char) (text : List Char) :
    t.after (c :: text) = (t.step c).after text := rfl

/-- The same state with one more bracket open. -/
def deeper (t : Tally) : Tally := ⟨t.depth + 1, t.quote⟩

theorem step_deeper (t : Tally) (c : Char) : t.deeper.step c = (t.step c).deeper := by
  obtain ⟨depth, quote⟩ := t
  cases quote with
  | some q =>
    simp only [deeper, step]
    split <;> rfl
  | none =>
    simp only [deeper, step]
    split
    · rfl
    split
    · rfl
    split
    · have shifted : depth + 1 - 1 = depth - 1 + 1 := by omega
      rw [shifted]
    · rfl

theorem after_deeper (t : Tally) (text : List Char) :
    t.deeper.after text = (t.after text).deeper := by
  induction text generalizing t with
  | nil => rfl
  | cons c text ih => rw [after_cons, after_cons, step_deeper, ih]

theorem deeper_injective {t u : Tally} (h : t.deeper = u.deeper) : t = u := by
  obtain ⟨depth, quote⟩ := t
  obtain ⟨depth', quote'⟩ := u
  simp only [deeper, mk.injEq] at h ⊢
  exact ⟨by omega, h.2⟩

/-- A step takes the count down by one at most. -/
theorem depth_step_ge (t : Tally) (c : Char) : t.depth - 1 ≤ (t.step c).depth := by
  rw [step]
  split
  · split <;> show t.depth - 1 ≤ t.depth <;> omega
  · split
    · show t.depth - 1 ≤ t.depth
      omega
    split
    · show t.depth - 1 ≤ t.depth + 1
      omega
    split
    · exact Int.le_refl _
    · omega

/-- A closing bracket takes the count to zero where one bracket is open, outside quotes. -/
theorem depth_step_eq_zero_iff {t : Tally} {c : Char} (closing : isClosing c = true)
    (opened : 0 < t.depth) : (t.step c).depth = 0 ↔ t = start.deeper := by
  obtain ⟨depth, quote⟩ := t
  have positive : 0 < depth := opened
  cases quote with
  | some q =>
    have kept : ((⟨depth, some q⟩ : Tally).step c).depth = depth := by
      simp only [step]
      split <;> rfl
    rw [kept]
    refine iff_of_false (by omega) ?_
    simp [start, deeper]
  | none =>
    have fallen : ((⟨depth, none⟩ : Tally).step c).depth = depth - 1 := by
      simp [step, isQuote_of_isClosing closing, isOpening_of_isClosing closing, closing]
    rw [fallen]
    simp only [start, deeper, mk.injEq, and_true]
    omega

/-- Behind a bracket that is open, the count goes on one character further, unless it has come back
to zero. -/
theorem closesAtEnd_cons {t : Tally} (opened : 0 < t.depth) (c : Char) (rest : List Char) :
    closesAtEnd t.depth t.quote (c :: rest) =
      if (t.step c).depth = 0 then rest.isEmpty
      else closesAtEnd (t.step c).depth (t.step c).quote rest := by
  obtain ⟨depth, quote⟩ := t
  have nonzero : depth ≠ 0 := by
    show (⟨depth, quote⟩ : Tally).depth ≠ 0
    omega
  have next : depth + 1 ≠ 0 := by
    show (⟨depth, quote⟩ : Tally).depth + 1 ≠ 0
    omega
  rw [closesAtEnd.eq_def, step]
  cases quote with
  | some q => by_cases hq : c = q <;> simp [hq, nonzero]
  | none =>
    by_cases hquote : isQuote c = true
    · simp [hquote, nonzero]
    by_cases hopening : isOpening c = true
    · simp [hquote, hopening, next]
    by_cases hclosing : isClosing c = true
    · simp [hquote, hopening, hclosing]
    · simp [hquote, hopening, hclosing, nonzero]

end Tally

/-! ### Wrapped by brackets -/

/-- The text can stand between brackets: the count of its own never falls below zero, and it is back
at zero in the end, outside quotes. -/
structure Enclosable (text : List Char) : Prop where
  floor : ∀ before, before <+: text → 0 ≤ (Tally.start.after before).depth
  closed : Tally.start.after text = .start

/-- A count that does not come back to zero in `text` comes back to it with the bracket behind, just
when that bracket closes the only one that is open. -/
theorem closesAtEnd_concat {c : Char} (closing : isClosing c = true) {t : Tally}
    (opened : 0 < t.depth) (text : List Char) :
    closesAtEnd t.depth t.quote (text ++ [c]) = true ↔
      (∀ before, before <+: text → 0 < (t.after before).depth) ∧
        t.after text = Tally.start.deeper := by
  induction text generalizing t with
  | nil =>
    have only : ∀ before, before <+: ([] : List Char) → 0 < (t.after before).depth := by
      intro before hb
      rw [List.prefix_nil.mp hb]
      exact opened
    rw [List.nil_append, Tally.closesAtEnd_cons opened, and_iff_right only]
    have last := Tally.depth_step_eq_zero_iff closing opened
    by_cases zero : (t.step c).depth = 0
    · rw [if_pos zero]
      exact iff_of_true rfl (last.mp zero)
    · rw [if_neg zero]
      exact iff_of_false Bool.false_ne_true fun h => zero (last.mpr h)
  | cons a text ih =>
    have prefixes : (∀ before, before <+: a :: text → 0 < (t.after before).depth) ↔
        ∀ before, before <+: text → 0 < ((t.step a).after before).depth := by
      constructor
      · intro all before hb
        exact all (a :: before) (List.cons_prefix_cons.mpr ⟨rfl, hb⟩)
      · intro all before hb
        rcases List.prefix_cons_iff.mp hb with rfl | ⟨behind, rfl, inside⟩
        · exact opened
        · exact all behind inside
    rw [List.cons_append, Tally.closesAtEnd_cons opened, prefixes, Tally.after_cons]
    by_cases zero : (t.step a).depth = 0
    · rw [if_pos zero]
      refine iff_of_false (by simp) ?_
      rintro ⟨all, -⟩
      have positive : 0 < (t.step a).depth := all [] List.nil_prefix
      omega
    · rw [if_neg zero]
      have fallen := t.depth_step_ge a
      exact ih (by omega)

/-- Brackets wrap a text just when it is enclosable. -/
theorem isWrapped_iff {o c : Char} (opening : isOpening o = true) (closing : isClosing c = true)
    (text : List Char) : isWrapped o c (o :: (text ++ [c])) = true ↔ Enclosable text := by
  have bracket : closesAtEnd 0 none (o :: (text ++ [c])) =
      closesAtEnd Tally.start.deeper.depth Tally.start.deeper.quote (text ++ [c]) := by
    rw [closesAtEnd]
    simp [isQuote_of_isOpening opening, opening, Tally.start, Tally.deeper]
  have ends : isWrapped o c (o :: (text ++ [c])) = closesAtEnd 0 none (o :: (text ++ [c])) := by
    rw [isWrapped, ← List.cons_append, List.getLast?_concat]
    simp
  rw [ends, bracket, closesAtEnd_concat closing (by decide)]
  simp only [Tally.after_deeper]
  constructor
  · rintro ⟨positive, closed⟩
    refine ⟨?_, Tally.deeper_injective closed⟩
    intro before hb
    have hpos : 0 < (Tally.start.after before).depth + 1 := positive before hb
    omega
  · rintro ⟨floor, closed⟩
    refine ⟨?_, congrArg Tally.deeper closed⟩
    intro before hb
    have hfloor := floor before hb
    show 0 < (Tally.start.after before).depth + 1
    omega

/-! ### Wrapped texts are not cut -/

namespace Scan

/-- The state as one of a scan without a floor. -/
def tally (s : Scan) : Tally := ⟨s.depth, s.quote⟩

/-- With a bracket open, both scans take the same step. -/
theorem tally_step {s : Scan} (opened : 0 < s.depth) (c : Char) :
    (s.step c).tally = s.tally.step c := by
  obtain ⟨depth, quote⟩ := s
  have fallen : ((depth - 1 : Nat) : Int) = depth - 1 := by
    have positive : 0 < depth := opened
    omega
  cases quote with
  | some q =>
    by_cases hq : c = q <;> simp [tally, step, Tally.step, hq]
  | none =>
    by_cases hquote : isQuote c = true
    · simp [tally, step, Tally.step, hquote]
    by_cases hopening : isOpening c = true
    · simp [tally, step, Tally.step, hquote, hopening]
    by_cases hclosing : isClosing c = true
    · simp [tally, step, Tally.step, hquote, hopening, hclosing, fallen]
    · simp [tally, step, Tally.step, hquote, hopening, hclosing]

theorem cutsAt_eq_false_of_opened {s : Scan} (opened : 0 < s.depth) (delimiter text : List Char) :
    s.cutsAt delimiter text = false := by
  have below : s.atTop = false := by
    rw [atTop, beq_eq_false_iff_ne.mpr (by omega), Bool.false_and]
  cases text with
  | nil => rfl
  | cons c text => rw [cutsAt, below, Bool.false_and, Bool.false_and]

end Scan

/-- As long as a bracket is open the text is not cut. The induction follows the count, and the
cutting scan with it, to the last character. -/
theorem segments_of_closesAtEnd (delimiter : List Char) {s : Scan} (opened : 0 < s.depth)
    {text : List Char} (h : closesAtEnd s.depth s.quote text = true) :
    segments delimiter s text = [text] := by
  induction text generalizing s with
  | nil => cases h
  | cons c text ih =>
    have counted : 0 < s.tally.depth := by
      show (0 : Int) < (s.depth : Int)
      omega
    have next : closesAtEnd s.tally.depth s.tally.quote (c :: text) = true := h
    rw [Tally.closesAtEnd_cons counted, ← Scan.tally_step opened] at next
    have whole := Scan.cutsAt_eq_false_of_opened opened delimiter (c :: text)
    rw [segments, if_neg (Bool.eq_false_iff.mp whole)]
    by_cases zero : (s.step c).tally.depth = 0
    · rw [if_pos zero, List.isEmpty_iff] at next
      subst next
      rw [segments]
      rfl
    · rw [if_neg zero] at next
      have stillOpen : 0 < (s.step c).depth := by
        have nonzero : ((s.step c).depth : Int) ≠ 0 := zero
        omega
      rw [ih stillOpen next]
      rfl

/-- No delimiter cuts a wrapped text: its first bracket is open until its last character. -/
theorem segments_of_isWrapped {o c : Char} (opening : isOpening o = true) {text : List Char}
    (h : isWrapped o c text = true) (delimiter : List Char) :
    segments delimiter .start text = [text] := by
  simp only [isWrapped, Bool.and_eq_true, beq_iff_eq] at h
  obtain ⟨⟨⟨-, head⟩, -⟩, closes⟩ := h
  obtain ⟨rest, rfl⟩ := List.head?_eq_some_iff.mp head
  have bracket : Scan.start.step o = ⟨1, none⟩ := by
    simp [Scan.start, Scan.step, isQuote_of_isOpening opening, opening]
  have inside : closesAtEnd (1 : Nat) none rest = true := by
    rw [closesAtEnd] at closes
    simpa [isQuote_of_isOpening opening, opening] using closes
  have whole : Scan.start.cutsAt delimiter (o :: rest) = false := by
    rw [Scan.cutsAt, isStructural_of_isOpening opening, Bool.not_true, Bool.and_false,
      Bool.false_and]
  rw [segments, if_neg (Bool.eq_false_iff.mp whole), bracket,
    segments_of_closesAtEnd delimiter (s := ⟨1, none⟩) Nat.one_pos inside]
  rfl

theorem trimmed_of_isWrapped {o c : Char} (opening : isOpening o = true)
    (closing : isClosing c = true) {text : List Char} (h : isWrapped o c text = true) :
    Trimmed text := by
  simp only [isWrapped, Bool.and_eq_true, beq_iff_eq] at h
  obtain ⟨⟨⟨-, head⟩, last⟩, -⟩ := h
  refine ⟨?_, ?_, ?_⟩
  · rintro rfl
    cases head
  · intro d hd
    obtain rfl := Option.some.inj (head.symm.trans hd)
    exact isBlank_of_isStructural (isStructural_of_isOpening opening)
  · intro d hd
    obtain rfl := Option.some.inj (last.symm.trans hd)
    exact isBlank_of_isStructural (isStructural_of_isClosing closing)

/-- An opening and a closing bracket wrap what stands between them just when the count of its own
brackets never falls below zero and is back there in the end, outside quotes. A wrapped text is its
own only part, whatever the delimiter. -/
theorem isWrapped_exact {o c : Char} (opening : isOpening o = true) (closing : isClosing c = true) :
    (∀ text, isWrapped o c (o :: (text ++ [c])) = true ↔ Enclosable text) ∧
      ∀ text, isWrapped o c text = true → ∀ delimiter,
        splitTop delimiter text = [text] ∧ hasTop delimiter text = false := by
  refine ⟨isWrapped_iff opening closing, ?_⟩
  intro text wrapped delimiter
  have trimmed := trimmed_of_isWrapped opening closing wrapped
  have one : splitTop delimiter text = [text] := by
    rw [splitTop, segments_of_isWrapped opening wrapped, List.map_singleton, trimmed.strip_eq]
    simp [trimmed.ne_nil]
  refine ⟨one, ?_⟩
  rw [hasTop, one, trimmed.strip_eq, bne_self_eq_false]

/-- A brace is closed by a parenthesis here, with a bracket inside quotes between them. -/
theorem isWrapped_exact_quoted :
    isWrapped '\x7b' ')' ('\x7b' :: ("a | ')'".toList ++ [')'])) = true ∧
      Enclosable "a | ')'".toList ∧
      splitTop ['|'] "\x7ba | ')')".toList = ["\x7ba | ')')".toList] := by
  have exact := isWrapped_exact (o := '\x7b') (c := ')') (by decide) (by decide)
  have wrapped : isWrapped '\x7b' ')' ('\x7b' :: ("a | ')'".toList ++ [')'])) = true := by decide
  exact ⟨wrapped, (exact.1 _).mp wrapped, (exact.2 _ wrapped ['|']).1⟩

end Schemata

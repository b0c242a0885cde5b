import Mathlib.Data.List.Basic
import Schemata.Expression.Segments

/-!
# Balanced texts

A text is balanced when its brackets and its quotes are closed in it. Nothing inside such a text is
at top level but what stands outside its brackets and quotes, and a scan leaves it in the state in
which it came to it.

## Main definitions

* `Balanced`: the balanced texts whose plain characters at top level are all of some sort.
* `Trimmed`: the texts that neither begin nor end with a blank.
* `Part`: the texts that can stand between delimiters: balanced and trimmed ones.

## Main results

* `Balanced.segments_append`: a balanced text without the delimiter is not cut.
* `splitTop_intercalate`: cutting at a delimiter undoes joining with it.
* `isWrapped_bracketed`, `isWrapped_append`: a text is wrapped when its first bracket is closed at
  its end, and is not when it is closed before.

## Implementation notes

Brackets of one sort can be closed by brackets of another, as in the scan.
-/

namespace Schemata

/-! ### Classes of characters -/

section Classes

variable {c : Char}

theorem isQuote_of_isOpening (h : isOpening c = true) : isQuote c = false := by
  simp only [isOpening, Bool.or_eq_true, beq_iff_eq] at h
  rcases h with ((rfl | rfl) | rfl) | rfl <;> decide

theorem isQuote_of_isClosing (h : isClosing c = true) : isQuote c = false := by
  simp only [isClosing, Bool.or_eq_true, beq_iff_eq] at h
  rcases h with ((rfl | rfl) | rfl) | rfl <;> decide

theorem isOpening_of_isClosing (h : isClosing c = true) : isOpening c = false := by
  simp only [isClosing, Bool.or_eq_true, beq_iff_eq] at h
  rcases h with ((rfl | rfl) | rfl) | rfl <;> decide

theorem isAlpha_of_isClosing {c : Char} (h : isClosing c = true) : c.isAlpha = false := by
  simp only [isClosing, Bool.or_eq_true, beq_iff_eq] at h
  rcases h with ((rfl | rfl) | rfl) | rfl <;> decide

theorem isOpening_of_isQuote (h : isQuote c = true) : isOpening c = false := by
  simp only [isQuote, Bool.or_eq_true, beq_iff_eq] at h
  rcases h with (rfl | rfl) | rfl <;> decide

theorem isStructural_of_isOpening (h : isOpening c = true) : isStructural c = true := by
  rw [isStructural, h, Bool.true_or, Bool.true_or]

theorem isStructural_of_isClosing (h : isClosing c = true) : isStructural c = true := by
  rw [isStructural, h, Bool.or_true, Bool.true_or]

theorem isStructural_of_isQuote (h : isQuote c = true) : isStructural c = true := by
  rw [isStructural, h, Bool.or_true]

theorem isStructural_eq_false_iff :
    isStructural c = false ↔ isOpening c = false ∧ isClosing c = false ∧ isQuote c = false := by
  rw [isStructural, Bool.or_eq_false_iff, Bool.or_eq_false_iff, and_assoc]

/-- The characters that change the state of a scan. -/
def structuralChars : List Char := ['<', '(', '[', '{', '>', ')', ']', '}', '\'', '"', '\x60']

theorem mem_structuralChars (h : isStructural c = true) : c ∈ structuralChars := by
  simp only [isStructural, isOpening, isClosing, isQuote, Bool.or_eq_true, beq_iff_eq,
    or_assoc] at h
  simp only [structuralChars, List.mem_cons, List.not_mem_nil, or_false]
  exact h

theorem isBlank_of_isStructural (h : isStructural c = true) : isBlank c = false := by
  have all : ∀ c ∈ structuralChars, (!isBlank c) = true := List.all_eq_true.mp (by decide)
  simpa using all c (mem_structuralChars h)

theorem isStructural_of_isBlank (h : isBlank c = true) : isStructural c = false := by
  rw [Bool.eq_false_iff]
  intro hs
  exact Bool.false_ne_true ((isBlank_of_isStructural hs).symm.trans h)

end Classes

/-! ### Balanced texts -/

/-- The brackets and quotes of the text are closed in it, and its plain characters at top level are
allowed. -/
inductive Balanced : (Char → Prop) → List Char → Prop
  | nil {ok : Char → Prop} : Balanced ok []
  | plain {ok : Char → Prop} {c : Char} {rest : List Char} (structural : isStructural c = false)
      (allowed : ok c) (after : Balanced ok rest) : Balanced ok (c :: rest)
  | quoted {ok : Char → Prop} {q : Char} {body rest : List Char} (quote : isQuote q = true)
      (inside : q ∉ body) (after : Balanced ok rest) : Balanced ok (q :: (body ++ q :: rest))
  | bracketed {ok : Char → Prop} {o c : Char} {inner rest : List Char}
      (opening : isOpening o = true) (closing : isClosing c = true)
      (inside : Balanced (fun _ => True) inner) (after : Balanced ok rest) :
      Balanced ok (o :: (inner ++ c :: rest))

namespace Balanced

variable {ok : Char → Prop} {x y : List Char}

theorem mono {other : Char → Prop} (h : Balanced ok x) (imp : ∀ c, ok c → other c) :
    Balanced other x := by
  induction h with
  | nil => exact .nil
  | plain structural allowed _ ih => exact .plain structural (imp _ allowed) (ih imp)
  | quoted quote inside _ ih => exact .quoted quote inside (ih imp)
  | bracketed opening closing inside _ _ ih => exact .bracketed opening closing inside (ih imp)

/-- Inside brackets, every character is allowed. -/
theorem any (h : Balanced ok x) : Balanced (fun _ => True) x := h.mono fun _ _ => trivial

theorem append (hx : Balanced ok x) (hy : Balanced ok y) : Balanced ok (x ++ y) := by
  induction hx with
  | nil => exact hy
  | plain structural allowed _ ih => exact .plain structural allowed (ih hy)
  | quoted quote inside _ ih =>
    rw [List.cons_append, List.append_assoc, List.cons_append]
    exact .quoted quote inside (ih hy)
  | bracketed opening closing inside _ _ ih =>
    rw [List.cons_append, List.append_assoc, List.cons_append]
    exact .bracketed opening closing inside (ih hy)

theorem of_forall (h : ∀ c ∈ x, isStructural c = false ∧ ok c) : Balanced ok x := by
  induction x with
  | nil => exact .nil
  | cons c rest ih =>
    rw [List.forall_mem_cons] at h
    exact .plain h.1.1 h.1.2 (ih h.2)

/-- A text without brackets and quotes is balanced if its characters are allowed. -/
theorem of_all [DecidablePred ok]
    (h : x.all (fun c => !isStructural c && decide (ok c)) = true) : Balanced ok x := by
  refine of_forall fun c hc => ?_
  have hplain := List.all_eq_true.mp h c hc
  rwa [Bool.and_eq_true, Bool.not_eq_true', decide_eq_true_eq] at hplain

theorem wrap {o c : Char} (opening : isOpening o = true) (closing : isClosing c = true)
    (inside : Balanced ok x) {other : Char → Prop} : Balanced other (o :: (x ++ [c])) :=
  .bracketed opening closing inside.any .nil

theorem intercalate {separator : List Char} {all : List (List Char)}
    (hs : Balanced ok separator) (h : ∀ x ∈ all, Balanced ok x) :
    Balanced ok (separator.intercalate all) := by
  induction all with
  | nil => exact .nil
  | cons x rest ih =>
    rw [List.forall_mem_cons] at h
    cases rest with
    | nil =>
      rw [List.intercalate_singleton]
      exact h.1
    | cons y rest =>
      rw [List.intercalate_cons_cons]
      exact (h.1.append hs).append (ih h.2)

private theorem eq_or_getLast?_of_append_cons (front : List Char) {rest : List Char} {c l : Char}
    (h : (front ++ c :: rest).getLast? = some l) : l = c ∨ rest.getLast? = some l := by
  rw [List.getLast?_append_cons] at h
  cases rest with
  | nil =>
    cases h
    exact .inl rfl
  | cons d rest =>
    rw [List.getLast?_cons_cons] at h
    exact .inr h

/-- A balanced text does not end with an opening bracket. -/
theorem isOpening_getLast (h : Balanced ok x) {l : Char} (hl : x.getLast? = some l) :
    isOpening l = false := by
  induction h with
  | nil => cases hl
  | plain structural _ _ ih =>
    rcases eq_or_getLast?_of_append_cons [] hl with rfl | hl
    · exact (isStructural_eq_false_iff.mp structural).1
    · exact ih hl
  | quoted quote _ _ ih =>
    rw [← List.cons_append] at hl
    rcases eq_or_getLast?_of_append_cons _ hl with rfl | hl
    · exact isOpening_of_isQuote quote
    · exact ih hl
  | bracketed _ closing _ _ _ ih =>
    rw [← List.cons_append] at hl
    rcases eq_or_getLast?_of_append_cons _ hl with rfl | hl
    · exact isOpening_of_isClosing closing
    · exact ih hl

end Balanced

/-! ### Cutting -/

section Cutting

variable {d : Char} {n : Nat} {rest : List Char}

theorem cutsAt_eq_false_of_isStructural {s : Scan} {c : Char} (hc : isStructural c = true) :
    s.cutsAt [d] (c :: rest) = false := by
  rw [Scan.cutsAt, hc, Bool.not_true, Bool.and_false, Bool.false_and]

theorem cutsAt_eq_false_of_ne {s : Scan} {c : Char} (hc : s.atTop = true → c ≠ d) :
    s.cutsAt [d] (c :: rest) = false := by
  rw [Scan.cutsAt]
  cases ht : s.atTop with
  | false => rfl
  | true =>
    have hne : (d == c) = false := beq_eq_false_iff_ne.mpr (hc ht).symm
    rw [List.isPrefixOf_cons_cons, hne, Bool.false_and, Bool.and_false]

/-- A delimiter that begins with a plain character cuts wherever it stands at top level. -/
theorem cutsAt_append (hd : isStructural d = false) (tail : List Char) {s : Scan}
    (top : s.atTop = true) (rest : List Char) :
    s.cutsAt (d :: tail) (d :: (tail ++ rest)) = true := by
  rw [Scan.cutsAt, top, hd]
  simp

theorem segments_of_cutsAt_eq_false {s : Scan} {c : Char} (h : s.cutsAt [d] (c :: rest) = false) :
    segments [d] s (c :: rest) = (segments [d] (s.step c) rest).modifyHead (c :: ·) := by
  rw [segments, if_neg (Bool.eq_false_iff.mp h)]

/-- At top level, the delimiter ends a segment. -/
theorem segments_append_delimiter (hd : isStructural d = false) (tail : List Char) {s : Scan}
    (top : s.atTop = true) (rest : List Char) :
    segments (d :: tail) s (d :: tail ++ rest) = [] :: segments (d :: tail) s rest := by
  rw [List.cons_append, segments, if_pos (cutsAt_append hd tail top rest)]
  simp

private theorem segments_quoted {q : Char} {body : List Char} (inside : q ∉ body) :
    segments [d] ⟨n, some q⟩ (body ++ q :: rest) =
      (segments [d] ⟨n, none⟩ rest).modifyHead ((body ++ [q]) ++ ·) := by
  have outside : ∀ (c : Char) (text : List Char),
      (⟨n, some q⟩ : Scan).cutsAt [d] (c :: text) = false :=
    fun c text => cutsAt_eq_false_of_ne fun h => absurd h (by simp [Scan.atTop])
  induction body with
  | nil =>
    rw [List.nil_append, segments_of_cutsAt_eq_false (outside _ _), Scan.step]
    simp
  | cons c body ih =>
    rw [List.mem_cons, not_or] at inside
    have step : (⟨n, some q⟩ : Scan).step c = ⟨n, some q⟩ := if_neg (Ne.symm inside.1)
    rw [List.cons_append, segments_of_cutsAt_eq_false (outside _ _), step, ih inside.2,
      List.modifyHead_modifyHead]
    rfl

/-- A balanced text without the delimiter is not cut; with a bracket open it may hold delimiters. -/
theorem Balanced.segments_append {ok : Char → Prop} {x : List Char} (h : Balanced ok x)
    (free : n = 0 → ∀ c, ok c → c ≠ d) :
    segments [d] ⟨n, none⟩ (x ++ rest) =
      (segments [d] ⟨n, none⟩ rest).modifyHead (x ++ ·) := by
  induction h generalizing n rest with
  | nil =>
    have unchanged : (([] : List Char) ++ ·) = id := rfl
    rw [unchanged, List.modifyHead_id]
    rfl
  | @plain ok c x structural allowed _ ih =>
    obtain ⟨opening, closing, quote⟩ := isStructural_eq_false_iff.mp structural
    have step : (⟨n, none⟩ : Scan).step c = ⟨n, none⟩ := by
      simp [Scan.step, opening, closing, quote]
    have whole : (⟨n, none⟩ : Scan).cutsAt [d] (c :: (x ++ rest)) = false :=
      cutsAt_eq_false_of_ne fun ht => free (by simpa [Scan.atTop] using ht) c allowed
    rw [List.cons_append, segments_of_cutsAt_eq_false whole, step, ih free,
      List.modifyHead_modifyHead]
    rfl
  | @quoted ok q body x quote inside _ ih =>
    have step : (⟨n, none⟩ : Scan).step q = ⟨n, some q⟩ := if_pos quote
    rw [List.cons_append, List.append_assoc, List.cons_append,
      segments_of_cutsAt_eq_false (cutsAt_eq_false_of_isStructural (isStructural_of_isQuote quote)),
      step,
      segments_quoted inside, ih free, List.modifyHead_modifyHead, List.modifyHead_modifyHead]
    simp [Function.comp_def]
  | @bracketed ok o c inner x opening closing _ _ ihInner ih =>
    have stepOpening : (⟨n, none⟩ : Scan).step o = ⟨n + 1, none⟩ := by
      simp [Scan.step, opening, isQuote_of_isOpening opening]
    have stepClosing : (⟨n + 1, none⟩ : Scan).step c = ⟨n, none⟩ := by
      simp [Scan.step, closing, isQuote_of_isClosing closing, isOpening_of_isClosing closing]
    have wholeOpening := isStructural_of_isOpening opening
    have wholeClosing := isStructural_of_isClosing closing
    rw [List.cons_append, List.append_assoc, List.cons_append,
      segments_of_cutsAt_eq_false (cutsAt_eq_false_of_isStructural wholeOpening), stepOpening,
      ihInner fun h => absurd h (Nat.succ_ne_zero n),
      segments_of_cutsAt_eq_false (cutsAt_eq_false_of_isStructural wholeClosing), stepClosing,
      ih free, List.modifyHead_modifyHead, List.modifyHead_modifyHead, List.modifyHead_modifyHead]
    simp [Function.comp_def]

/-- A balanced text before a delimiter at top level is a segment. -/
theorem Balanced.segments_cut {x : List Char} (h : Balanced (· ≠ d) x)
    (hd : isStructural d = false) :
    segments [d] .start (x ++ d :: rest) = x :: segments [d] .start rest := by
  have append : segments [d] .start (x ++ d :: rest) = _ := h.segments_append fun _ _ hc => hc
  have cut : segments [d] ⟨0, none⟩ (d :: rest) = [] :: segments [d] .start rest :=
    segments_append_delimiter hd [] rfl rest
  rw [append, cut, List.modifyHead_cons, List.append_nil]

theorem Balanced.segments_eq {x : List Char} (h : Balanced (· ≠ d) x) :
    segments [d] .start x = [x] := by
  have append : segments [d] .start (x ++ []) = _ := h.segments_append fun _ _ hc => hc
  rwa [segments, List.modifyHead_cons, List.append_nil] at append

end Cutting

/-! ### Trimmed texts -/

theorem exists_strip_cons {c : Char} (hc : isBlank c = false) (rest : List Char) :
    ∃ more, strip (c :: rest) = c :: more := by
  have start : stripStart (c :: rest) = c :: rest :=
    List.dropWhile_cons_of_neg (Bool.eq_false_iff.mp hc)
  rw [strip, start, stripEnd, List.reverse_cons, List.dropWhile_append]
  split
  · exact ⟨[], by rw [List.dropWhile_cons_of_neg (Bool.eq_false_iff.mp hc)]; rfl⟩
  · exact ⟨_, by rw [List.reverse_append]; rfl⟩

/-- The text is not blank, and neither are its ends. -/
structure Trimmed (text : List Char) : Prop where
  ne_nil : text ≠ []
  head : ∀ c, text.head? = some c → isBlank c = false
  last : ∀ c, text.getLast? = some c → isBlank c = false

namespace Trimmed

variable {x y front back : List Char}

theorem of_ends {f l : Char} (middle : List Char) (hf : isBlank f = false)
    (hl : isBlank l = false) : Trimmed (f :: (middle ++ [l])) := by
  refine ⟨List.cons_ne_nil _ _, fun c hc => ?_, fun c hc => ?_⟩
  · cases hc
    exact hf
  · rw [← List.cons_append, List.getLast?_concat] at hc
    cases hc
    exact hl

theorem of_forall (hne : x ≠ []) (h : ∀ c ∈ x, isBlank c = false) : Trimmed x :=
  ⟨hne, fun c hc => h c (List.mem_of_head? hc), fun c hc => h c (List.mem_of_getLast? hc)⟩

theorem singleton {c : Char} (hc : isBlank c = false) : Trimmed [c] :=
  .of_forall (List.cons_ne_nil c []) (List.forall_mem_singleton.mpr hc)

/-- What stands between two trimmed texts does not matter. -/
theorem append (hx : Trimmed x) (middle : List Char) (hy : Trimmed y) :
    Trimmed (x ++ middle ++ y) := by
  refine ⟨?_, fun c hc => ?_, fun c hc => ?_⟩
  · intro hnil
    exact hx.ne_nil (List.append_eq_nil_iff.mp (List.append_eq_nil_iff.mp hnil).1).1
  · rw [List.append_assoc, List.head?_append_of_ne_nil _ hx.ne_nil] at hc
    exact hx.head c hc
  · rw [List.getLast?_append_of_ne_nil _ hy.ne_nil] at hc
    exact hy.last c hc

theorem intercalate {all : List (List Char)} (separator : List Char) (hne : all ≠ [])
    (h : ∀ x ∈ all, Trimmed x) : Trimmed (separator.intercalate all) := by
  induction all with
  | nil => exact absurd rfl hne
  | cons x rest ih =>
    rw [List.forall_mem_cons] at h
    cases rest with
    | nil =>
      rw [List.intercalate_singleton]
      exact h.1
    | cons y rest =>
      rw [List.intercalate_cons_cons]
      exact h.1.append separator (ih (List.cons_ne_nil y rest) h.2)

theorem strip_padded (h : Trimmed x) (hf : ∀ c ∈ front, isBlank c = true)
    (hb : ∀ c ∈ back, isBlank c = true) : strip (front ++ x ++ back) = x := by
  have start : stripStart (front ++ x ++ back) = x ++ back := by
    rw [stripStart, List.append_assoc, List.dropWhile_append_of_pos hf]
    refine dropWhile_eq_self_of_head fun c hc => h.head c ?_
    rwa [List.head?_append_of_ne_nil _ h.ne_nil] at hc
  have reversed : ∀ c ∈ back.reverse, isBlank c = true := fun c hc => hb c (List.mem_reverse.mp hc)
  rw [strip, start, stripEnd, List.reverse_append, List.dropWhile_append_of_pos reversed,
    dropWhile_eq_self_of_head fun c hc => h.last c (by rwa [List.head?_reverse] at hc),
    List.reverse_reverse]

/-- Stripping leaves a text without blanks at its ends. -/
theorem of_strip_eq (hne : x ≠ []) (h : strip x = x) : Trimmed x := by
  refine ⟨hne, fun c hc => ?_, fun c hc => ?_⟩
  · rw [← h, ← stripStart_strip] at hc
    exact head_dropWhile_eq_false hc
  · rw [← h, strip, stripEnd, List.getLast?_reverse] at hc
    exact head_dropWhile_eq_false hc

theorem strip_eq (h : Trimmed x) : strip x = x := by
  have padded : strip ([] ++ x ++ []) = x := h.strip_padded nofun nofun
  rwa [List.nil_append, List.append_nil] at padded

end Trimmed

/-! ### Parts -/

/-- A text that can stand between delimiters. -/
structure Part (ok : Char → Prop) (text : List Char) : Prop where
  balanced : Balanced ok text
  trimmed : Trimmed text

namespace Part

variable {ok : Char → Prop} {x : List Char}

theorem mono {other : Char → Prop} (h : Part ok x) (imp : ∀ c, ok c → other c) : Part other x :=
  ⟨h.balanced.mono imp, h.trimmed⟩

theorem bracketed {o c : Char} (opening : isOpening o = true) (closing : isClosing c = true)
    (inside : Balanced ok x) {other : Char → Prop} : Part other (o :: (x ++ [c])) :=
  ⟨inside.wrap opening closing, .of_ends x
    (isBlank_of_isStructural (isStructural_of_isOpening opening))
    (isBlank_of_isStructural (isStructural_of_isClosing closing))⟩

theorem quoted {q : Char} (quote : isQuote q = true) (inside : q ∉ x) :
    Part ok (q :: (x ++ [q])) :=
  have blank := isBlank_of_isStructural (isStructural_of_isQuote quote)
  ⟨.quoted quote inside .nil, .of_ends x blank blank⟩

theorem append (hx : Part ok x) {middle y : List Char} (hm : Balanced ok middle)
    (hy : Part ok y) : Part ok (x ++ middle ++ y) :=
  ⟨(hx.balanced.append hm).append hy.balanced, hx.trimmed.append middle hy.trimmed⟩

theorem intercalate {separator : List Char} {all : List (List Char)} (hs : Balanced ok separator)
    (hne : all ≠ []) (h : ∀ x ∈ all, Part ok x) : Part ok (separator.intercalate all) :=
  ⟨.intercalate hs fun x hx => (h x hx).balanced,
    .intercalate separator hne fun x hx => (h x hx).trimmed⟩

end Part

/-! ### Joining and cutting -/

section Joining

variable {d : Char} {before after : List Char}

/-- The delimiter `d`, with blanks around it. -/
structure Separates (d : Char) (before after : List Char) : Prop where
  structural : isStructural d = false
  blank : isBlank d = false
  before : ∀ c ∈ before, isBlank c = true
  after : ∀ c ∈ after, isBlank c = true

theorem Balanced.of_blanks (hd : isBlank d = false) {blanks : List Char}
    (h : ∀ c ∈ blanks, isBlank c = true) : Balanced (· ≠ d) blanks := by
  refine .of_forall fun c hc => ⟨isStructural_of_isBlank (h c hc), ?_⟩
  rintro rfl
  exact Bool.false_ne_true (hd.symm.trans (h c hc))

theorem Balanced.padded {front x back : List Char} (hx : Balanced (· ≠ d) x)
    (hd : isBlank d = false) (hfront : ∀ c ∈ front, isBlank c = true)
    (hback : ∀ c ∈ back, isBlank c = true) : Balanced (· ≠ d) (front ++ x ++ back) :=
  ((of_blanks hd hfront).append hx).append (of_blanks hd hback)

theorem segments_intercalate (hd : Separates d before after) {front back x : List Char}
    {rest : List (List Char)} (h : ∀ y ∈ x :: rest, Part (· ≠ d) y)
    (hfront : ∀ c ∈ front, isBlank c = true) (hback : ∀ c ∈ back, isBlank c = true) :
    (segments [d] .start
      (front ++ (before ++ d :: after).intercalate (x :: rest) ++ back)).map strip = x :: rest := by
  induction rest generalizing x front with
  | nil =>
    obtain ⟨hx, trimmed⟩ := h x List.mem_cons_self
    rw [List.intercalate_singleton, (hx.padded hd.blank hfront hback).segments_eq,
      List.map_singleton, trimmed.strip_padded hfront hback]
  | cons y rest ih =>
    rw [List.forall_mem_cons] at h
    obtain ⟨⟨hx, trimmed⟩, others⟩ := h
    have arranged : front ++ (before ++ d :: after).intercalate (x :: y :: rest) ++ back =
        (front ++ x ++ before) ++
          d :: (after ++ (before ++ d :: after).intercalate (y :: rest) ++ back) := by
      rw [List.intercalate_cons_cons]
      simp only [List.append_assoc, List.cons_append]
    rw [arranged, (hx.padded hd.blank hfront hd.before).segments_cut hd.structural, List.map_cons,
      trimmed.strip_padded hfront hd.before]
    exact congrArg (x :: ·) (ih others hd.after)

/-- Cutting undoes joining, whatever blanks stand around the texts. -/
theorem splitTop_padded (hd : Separates d before after) {front back : List Char}
    (hfront : ∀ c ∈ front, isBlank c = true) (hback : ∀ c ∈ back, isBlank c = true)
    {all : List (List Char)} (hne : all ≠ []) (h : ∀ x ∈ all, Part (· ≠ d) x) :
    splitTop [d] (front ++ (before ++ d :: after).intercalate all ++ back) = all := by
  obtain ⟨x, rest, rfl⟩ := List.exists_cons_of_ne_nil hne
  rw [splitTop, segments_intercalate hd h hfront hback, List.filter_eq_self]
  intro y hy
  have nonempty := (h y hy).trimmed.ne_nil
  rwa [Bool.not_eq_true', List.isEmpty_eq_false_iff]

theorem splitTop_intercalate (hd : Separates d before after) {all : List (List Char)}
    (hne : all ≠ []) (h : ∀ x ∈ all, Part (· ≠ d) x) :
    splitTop [d] ((before ++ d :: after).intercalate all) = all := by
  have padded : splitTop [d] ([] ++ (before ++ d :: after).intercalate all ++ []) = all :=
    splitTop_padded hd (List.forall_mem_nil _) (List.forall_mem_nil _) hne h
  rwa [List.nil_append, List.append_nil] at padded

theorem Part.splitTop_eq_singleton {x : List Char} (hx : Part (· ≠ d) x) :
    splitTop [d] x = [x] := by
  have nonempty : x.isEmpty = false := List.isEmpty_eq_false_iff.mpr hx.trimmed.ne_nil
  rw [splitTop, hx.balanced.segments_eq, List.map_singleton, hx.trimmed.strip_eq]
  simp [nonempty]

theorem Part.hasTop_eq_false {x : List Char} (hx : Part (· ≠ d) x) : hasTop [d] x = false := by
  rw [hasTop, hx.splitTop_eq_singleton, hx.trimmed.strip_eq, bne_self_eq_false]

theorem hasTop_eq_true {text : List Char} (h : 2 ≤ (splitTop [d] text).length) :
    hasTop [d] text = true := by
  rw [hasTop, bne_iff_ne]
  intro hone
  rw [hone] at h
  exact absurd h (by simp)

end Joining

/-! ### Wrapped texts -/

section Wrapped

variable {k : Int} {rest : List Char}

private theorem closesAtEnd_quoted {q : Char} {body : List Char} (inside : q ∉ body) :
    closesAtEnd k (some q) (body ++ q :: rest) = closesAtEnd k none rest := by
  induction body with
  | nil => rw [List.nil_append, closesAtEnd, if_pos rfl]
  | cons c body ih =>
    rw [List.mem_cons, not_or] at inside
    rw [List.cons_append, closesAtEnd, if_neg (Ne.symm inside.1), ih inside.2]

/-- With a bracket open, a balanced text does not change the count. -/
theorem Balanced.closesAtEnd_append {ok : Char → Prop} {x : List Char} (h : Balanced ok x)
    (hk : 0 < k) : closesAtEnd k none (x ++ rest) = closesAtEnd k none rest := by
  induction h generalizing k rest with
  | nil => rfl
  | plain structural _ _ ih =>
    obtain ⟨opening, closing, quote⟩ := isStructural_eq_false_iff.mp structural
    rw [List.cons_append, closesAtEnd]
    simp only [opening, closing, quote, Bool.false_eq_true, if_false]
    exact ih hk
  | quoted quote inside _ ih =>
    rw [List.cons_append, List.append_assoc, List.cons_append, closesAtEnd, if_pos quote,
      closesAtEnd_quoted inside, ih hk]
  | @bracketed ok o c inner x opening closing _ _ ihInner ih =>
    have open_o : closesAtEnd k none (o :: (inner ++ c :: (x ++ rest))) =
        closesAtEnd (k + 1) none (inner ++ c :: (x ++ rest)) := by
      rw [closesAtEnd]
      simp only [isQuote_of_isOpening opening, opening, Bool.false_eq_true, if_false, if_true]
    have close_c :
        closesAtEnd (k + 1) none (c :: (x ++ rest)) = closesAtEnd k none (x ++ rest) := by
      have below : ¬ k = 0 := by omega
      rw [closesAtEnd]
      simp only [isQuote_of_isClosing closing, isOpening_of_isClosing closing, closing,
        Bool.false_eq_true, if_false, if_true, Int.add_sub_cancel, below]
    rw [List.cons_append, List.append_assoc, List.cons_append, open_o, ihInner (by omega), close_c,
      ih hk]

/-- The first bracket is closed behind the text in it. -/
theorem closesAtEnd_bracketed {o c : Char} {inner : List Char} (opening : isOpening o = true)
    (closing : isClosing c = true) {ok : Char → Prop} (inside : Balanced ok inner) :
    closesAtEnd 0 none (o :: (inner ++ c :: rest)) = rest.isEmpty := by
  rw [closesAtEnd]
  simp only [isQuote_of_isOpening opening, opening, Bool.false_eq_true, if_false, if_true]
  rw [inside.closesAtEnd_append (by omega), closesAtEnd]
  simp [isQuote_of_isClosing closing, isOpening_of_isClosing closing, closing]

theorem isWrapped_bracketed {o c : Char} {inner : List Char} (opening : isOpening o = true)
    (closing : isClosing c = true) {ok : Char → Prop} (inside : Balanced ok inner) :
    isWrapped o c (o :: (inner ++ [c])) = true := by
  rw [isWrapped, closesAtEnd_bracketed opening closing inside, ← List.cons_append,
    List.getLast?_concat]
  simp

theorem isWrapped_of_head {o c d : Char} (hne : d ≠ o) : isWrapped o c (d :: rest) = false := by
  rw [isWrapped, List.head?_cons]
  have other : (some d == some o) = false :=
    beq_eq_false_iff_ne.mpr fun h => hne (Option.some.inj h)
  rw [other, Bool.and_false, Bool.false_and, Bool.false_and]

theorem isWrapped_of_last {o c d : Char} (hne : d ≠ c) : isWrapped o c (rest ++ [d]) = false := by
  rw [isWrapped, List.getLast?_concat]
  have other : (some d == some c) = false :=
    beq_eq_false_iff_ne.mpr fun h => hne (Option.some.inj h)
  rw [other, Bool.and_false, Bool.false_and]

/-- A bracket that is closed before the end of the text does not wrap it. -/
theorem isWrapped_append {o c : Char} (opening : isOpening o = true) {ok : Char → Prop}
    {x more : List Char} (hx : Balanced ok x) (hne : x ≠ []) (hmore : more ≠ []) :
    isWrapped o c (x ++ more) = false := by
  cases hx with
  | nil => exact absurd rfl hne
  | plain structural _ _ =>
    refine isWrapped_of_head ?_
    rintro rfl
    exact Bool.false_ne_true (structural.symm.trans (isStructural_of_isOpening opening))
  | quoted quote _ _ =>
    refine isWrapped_of_head ?_
    rintro rfl
    exact Bool.false_ne_true ((isOpening_of_isQuote quote).symm.trans opening)
  | @bracketed _ o' c' inner rest opening' closing inside _ =>
    have early : closesAtEnd 0 none (o' :: (inner ++ c' :: rest) ++ more) = false := by
      rw [List.cons_append, List.append_assoc, List.cons_append,
        closesAtEnd_bracketed opening' closing inside, List.isEmpty_eq_false_iff]
      exact fun hnil => hmore (List.append_eq_nil_iff.mp hnil).2
    rw [isWrapped, early, Bool.and_false]

theorem interior_bracketed {o c : Char} {inner : List Char} :
    interior (o :: (inner ++ [c])) = inner := by
  rw [interior, List.tail_cons, List.dropLast_concat]

end Wrapped

end Schemata

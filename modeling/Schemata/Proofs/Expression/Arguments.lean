import Schemata.Proofs.Expression.Cuts
import Schemata.Proofs.Expression.Grammar
import Schemata.Proofs.Expression.Wrapped

/-!
# Arguments of a generic

What stands between the angle brackets of a generic need not be grammatical to be found there. It
is enough that the brackets and quotes of each argument are closed in it, and that no comma stands
in it at top level; each argument is then found again, without the blanks around it.

## What is deliberately absent

An argument may begin and end with blanks, brackets of one sort may be closed by those of another,
and the argument need not be the text of anything. Only a blank argument is left out, as splitting
passes over it.

## Main definitions

* `Argument`: a text that can stand between the commas of a generic.

## Main results

* `Enclosable.after_start`: the scan that cuts texts is back at top level behind an enclosable text.
* `Enclosable.intercalate`: enclosable texts are joined to an enclosable text.
* `splitTop_arguments`: joined arguments are found between their commas.
* `trimmed_application`: a generic has no blanks around it.
* `segments_applied`: nothing cuts a generic at top level but what cuts its name.
-/

namespace Schemata

open TypeExpr

/-! ### Enclosable texts -/

theorem Tally.after_append (t : Tally) (x y : List Char) :
    t.after (x ++ y) = (t.after x).after y :=
  List.foldl_append

/-- Where the count does not fall below zero, both scans take the same step. -/
theorem Scan.tally_step_of_floor {s : Scan} {c : Char} (floor : 0 ≤ (s.tally.step c).depth) :
    (s.step c).tally = s.tally.step c := by
  by_cases opened : 0 < s.depth
  · exact tally_step opened c
  · obtain ⟨depth, quote⟩ := s
    obtain rfl : depth = 0 := Nat.eq_zero_of_not_pos opened
    cases quote with
    | some q => by_cases hq : c = q <;> simp [tally, step, Tally.step, hq]
    | none =>
      by_cases hquote : isQuote c = true
      · simp [tally, step, Tally.step, hquote]
      by_cases hopening : isOpening c = true
      · simp [tally, step, Tally.step, hquote, hopening]
      by_cases hclosing : isClosing c = true
      · simp [tally, Tally.step, hquote, hopening, hclosing] at floor
      · simp [tally, step, Tally.step, hquote, hopening, hclosing]

/-- The count of a text that keeps the floor is the state of the scan that has one. -/
theorem Scan.tally_after {s : Scan} {text : List Char}
    (floor : ∀ before, before <+: text → 0 ≤ (s.tally.after before).depth) :
    (s.after text).tally = s.tally.after text := by
  induction text generalizing s with
  | nil => rfl
  | cons c text ih =>
    have step : (s.step c).tally = s.tally.step c :=
      tally_step_of_floor (floor [c] (List.cons_prefix_cons.mpr ⟨rfl, List.nil_prefix⟩))
    rw [after_cons, Tally.after_cons, ← step]
    refine ih fun before hb => ?_
    rw [step]
    exact floor (c :: before) (List.cons_prefix_cons.mpr ⟨rfl, hb⟩)

namespace Enclosable

variable {x y : List Char}

theorem after_start (h : Enclosable x) : Scan.start.after x = .start := by
  have counted : (Scan.start.after x).tally = Scan.start.tally := by
    rw [Scan.tally_after h.floor]
    exact h.closed
  generalize Scan.start.after x = s at counted
  obtain ⟨depth, quote⟩ := s
  simp only [Scan.tally, Scan.start, Tally.mk.injEq, Int.ofNat_inj] at counted
  rw [counted.1, counted.2]
  rfl

theorem nil : Enclosable [] := by
  refine ⟨fun before hb => ?_, rfl⟩
  rw [List.prefix_nil.mp hb]
  exact Int.le_refl 0

theorem append (hx : Enclosable x) (hy : Enclosable y) : Enclosable (x ++ y) := by
  refine ⟨fun before hb => ?_, ?_⟩
  · obtain ⟨rest, hrest⟩ := hb
    rcases List.append_eq_append_iff.mp hrest with ⟨behind, rfl, -⟩ | ⟨behind, rfl, rfl⟩
    · exact hx.floor before (List.prefix_append before behind)
    · rw [Tally.after_append, hx.closed]
      exact hy.floor behind (List.prefix_append behind rest)
  · rw [Tally.after_append, hx.closed, hy.closed]

theorem of_balanced {ok : Char → Prop} (h : Balanced ok x) : Enclosable x :=
  (isWrapped_iff (o := '(') (c := ')') rfl rfl x).mp (isWrapped_bracketed rfl rfl h)

theorem intercalate {separator : List Char} {all : List (List Char)} (hs : Enclosable separator)
    (h : ∀ x ∈ all, Enclosable x) : Enclosable (separator.intercalate all) := by
  induction all with
  | nil => exact .nil
  | cons x rest ih =>
    rw [List.forall_mem_cons] at h
    cases rest with
    | nil =>
      rw [List.intercalate_singleton]
      exact h.1
    | cons y rest =>
      rw [List.intercalate_cons_cons]
      exact (h.1.append hs).append (ih h.2)

end Enclosable

/-- Brackets around a text tell whether it is enclosable. -/
instance (text : List Char) : Decidable (Enclosable text) :=
  decidable_of_iff _ (isWrapped_iff (o := '(') (c := ')') rfl rfl text)

/-! ### Arguments -/

/-- A text that can stand between the commas of a generic. -/
structure Argument (text : List Char) : Prop where
  nonblank : strip text ≠ []
  enclosable : Enclosable text
  whole : ¬ StandsAtTop ',' .start text

theorem Argument.of_part {ok : Char → Prop} {x : List Char} (part : Part ok x)
    (unlisted : ∀ c, ok c → c ≠ ',') : Argument x := by
  refine ⟨?_, .of_balanced part.balanced, (part.mono unlisted).not_standsAtTop rfl⟩
  rw [part.trimmed.strip_eq]
  exact part.trimmed.ne_nil

/-- The tests of the reader tell whether a text is an argument. -/
theorem argument_iff {text : List Char} :
    Argument text ↔ strip text ≠ [] ∧ Enclosable text ∧ hasTop [','] text = false := by
  constructor
  · rintro ⟨nonblank, enclosable, whole⟩
    refine ⟨nonblank, enclosable, ?_⟩
    rwa [Bool.eq_false_iff, Ne, hasTop_iff rfl rfl nonblank]
  · rintro ⟨nonblank, enclosable, single⟩
    refine ⟨nonblank, enclosable, ?_⟩
    rw [← hasTop_iff rfl rfl nonblank, single]
    exact Bool.false_ne_true

instance (text : List Char) : Decidable (Argument text) :=
  decidable_of_iff _ argument_iff.symm

section Splitting

variable {d : Char}

theorem strip_cons_of_isBlank {c : Char} (hc : isBlank c = true) (text : List Char) :
    strip (c :: text) = strip text := by
  rw [strip, stripStart, List.dropWhile_cons_of_pos hc]
  rfl

theorem splitTop_cons_of_isBlank (hd : isBlank d = false) {c : Char} (hc : isBlank c = true)
    (text : List Char) : splitTop [d] (c :: text) = splitTop [d] text := by
  have other : c ≠ d := by
    rintro rfl
    exact Bool.false_ne_true (hd.symm.trans hc)
  obtain ⟨part, parts, hparts⟩ := List.exists_cons_of_ne_nil (segments_ne_nil [d] .start text)
  rw [splitTop_eq, segments_of_cutsAt_eq_false (cutsAt_eq_false_of_ne fun _ => other),
    Scan.step_start_of_plain (isStructural_of_isBlank hc), splitTop_eq, hparts,
    List.modifyHead_cons, nonblankParts_cons, nonblankParts_cons, strip_cons_of_isBlank hc]

end Splitting

/-- Joined arguments are found between their commas, without the blanks around them. -/
theorem splitTop_arguments {first : List Char} {others : List (List Char)}
    (h : ∀ x ∈ first :: others, Argument x) :
    splitTop [','] ([',', ' '].intercalate (first :: others)) = (first :: others).map strip := by
  induction others generalizing first with
  | nil =>
    obtain ⟨nonblank, -, whole⟩ := List.forall_mem_singleton.mp h
    rw [List.intercalate_singleton, splitTop_of_not_standsAtTop rfl nonblank whole]
    rfl
  | cons second others ih =>
    rw [List.forall_mem_cons] at h
    obtain ⟨⟨nonblank, enclosable, whole⟩, rest⟩ := h
    have top : (Scan.start.after first).atTop = true := by
      rw [enclosable.after_start]
      rfl
    rw [List.intercalate_cons_cons, List.append_assoc, List.cons_append, List.singleton_append,
      splitTop_append rfl top, splitTop_cons_of_isBlank rfl rfl, ih rest,
      splitTop_of_not_standsAtTop rfl nonblank whole]
    rfl

theorem enclosable_arguments {all : List (List Char)} (h : ∀ x ∈ all, Argument x) :
    Enclosable ([',', ' '].intercalate all) := by
  have separator : Balanced (fun _ => True) [',', ' '] := .of_all rfl
  exact .intercalate (.of_balanced separator) fun x hx => (h x hx).enclosable

/-! ### Generics -/

section Applied

variable {base : String} {all : List (List Char)}

theorem isWrapped_arguments (h : ∀ x ∈ all, Argument x) :
    isWrapped '<' '>' ('<' :: ([',', ' '].intercalate all ++ ['>'])) = true :=
  (isWrapped_iff rfl rfl _).mpr (enclosable_arguments h)

theorem trimmed_application (identifier : isIdentifier base.toList = true) :
    Trimmed (application base all) := by
  have name := (part_of_isIdentifier identifier).trimmed
  have last : Trimmed ['>'] := .singleton rfl
  have arranged : application base all =
      base.toList ++ ('<' :: [',', ' '].intercalate all) ++ ['>'] := by
    rw [application, List.append_assoc]
    rfl
  rw [arranged]
  exact name.append _ last

/-- A name is not cut, and neither is what stands in brackets behind it. -/
theorem segments_applied {d : Char} (identifier : isIdentifier base.toList = true)
    (undivided : ¬ Undivided d) (h : ∀ x ∈ all, Argument x) :
    segments [d] .start (application base all) = [application base all] := by
  have name : Balanced (· ≠ d) base.toList := by
    refine (part_of_isIdentifier identifier).balanced.mono fun c hc => ?_
    rintro rfl
    exact undivided hc
  have behind : segments [d] .start (application base all) = _ :=
    name.segments_append fun _ _ hc => hc
  have brackets : segments [d] ⟨0, none⟩ ('<' :: ([',', ' '].intercalate all ++ ['>'])) = _ :=
    segments_of_isWrapped rfl (isWrapped_arguments h) [d]
  rw [behind, brackets]
  rfl

theorem hasTop_applied {d : Char} (identifier : isIdentifier base.toList = true)
    (undivided : ¬ Undivided d) (h : ∀ x ∈ all, Argument x) :
    hasTop [d] (application base all) = false := by
  have trimmed : Trimmed (application base all) := trimmed_application identifier
  rw [hasTop, splitTop_eq, segments_applied identifier undivided h, nonblankParts_cons,
    trimmed.strip_eq, if_neg trimmed.ne_nil]
  exact bne_self_eq_false _

end Applied

end Schemata

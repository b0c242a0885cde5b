/-!
# Control sequences

The sequences by which a text moves the cursor or changes the colours of a terminal: an escape
character and an opening bracket, then digits, semicolons and question marks, then a letter. Where
there is no terminal they are left out.

## Main definitions

* `plain`: a text without the control sequences in it.

## Main results

* `plain_eq_self`: a text without escape characters stays as it is.

## Implementation notes

A text is gone through once: what comes together around a sequence that was left out is not looked
at again.
-/

namespace Schemata

def isParameter (c : Char) : Bool := c.isDigit || c == ';' || c == '?'

/-- The text behind a control sequence, if it starts with one. -/
def behindSequence? : List Char → Option (List Char)
  | '\x1b' :: '[' :: rest =>
    match rest.dropWhile isParameter with
    | c :: after => if c.isAlpha then some after else none
    | [] => none
  | _ => none

theorem length_behindSequence_lt {text rest : List Char} (h : behindSequence? text = some rest) :
    rest.length < text.length := by
  unfold behindSequence? at h
  split at h
  · next tail =>
    split at h
    · next c after ht =>
      split at h
      · cases h
        have sub := (List.dropWhile_sublist isParameter (l := tail)).length_le
        rw [ht] at sub
        simp only [List.length_cons] at sub ⊢
        omega
      · cases h
    · cases h
  · cases h

def plain : List Char → List Char
  | [] => []
  | c :: rest =>
    match _h : behindSequence? (c :: rest) with
    | some after => plain after
    | none => c :: plain rest
termination_by text => text.length
decreasing_by
  · exact length_behindSequence_lt ‹_›
  · simp

theorem behindSequence_cons_of_ne {c : Char} (h : c ≠ '\x1b') (rest : List Char) :
    behindSequence? (c :: rest) = none := by
  unfold behindSequence?
  split
  · next heq => exact absurd (List.cons.inj heq).1 h
  · rfl

theorem plain_cons_of_ne {c : Char} (h : c ≠ '\x1b') (rest : List Char) :
    plain (c :: rest) = c :: plain rest := by
  rw [plain]
  split
  · next heq => simp [behindSequence_cons_of_ne h] at heq
  · rfl

/-- A text without escape characters stays as it is. -/
theorem plain_eq_self {text : List Char} (h : ∀ c ∈ text, c ≠ '\x1b') : plain text = text := by
  induction text with
  | nil => rw [plain]
  | cons c rest ih =>
    rw [plain_cons_of_ne (h c (by simp)), ih fun d hd => h d (List.mem_cons_of_mem c hd)]

end Schemata

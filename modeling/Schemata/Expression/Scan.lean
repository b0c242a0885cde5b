/-!
# Scanning a type expression

A scan goes through the characters of an expression and knows, before each of them, how many
brackets are open and whether it is inside quotes. Inside quotes only the same quote counts, which
closes them. The four kinds of brackets are not told apart.

## Main definitions

* `Scan`, `Scan.step`: the state of a scan, and a step of it. A closing bracket with none open
  changes nothing.
* `Scan.cutsAt`: whether a delimiter that the text starts with stands at top level.
* `isWrapped`: whether the first character opens a bracket that the last one closes.

## Implementation notes

`isWrapped` counts without the floor of `Scan.step`: it stops where the count comes back to zero.
-/

namespace Schemata

def isOpening (c : Char) : Bool := c == '<' || c == '(' || c == '[' || c == '{'

def isClosing (c : Char) : Bool := c == '>' || c == ')' || c == ']' || c == '}'

def isQuote (c : Char) : Bool := c == '\'' || c == '"' || c == '\x60'

/-- A character that changes the state of a scan. -/
def isStructural (c : Char) : Bool := isOpening c || isClosing c || isQuote c

structure Scan where
  /-- How many brackets are open. -/
  depth : Nat
  /-- The quote that the scan is inside of. -/
  quote : Option Char
  deriving DecidableEq, Repr

namespace Scan

def start : Scan := ⟨0, none⟩

def step (s : Scan) (c : Char) : Scan :=
  match s.quote with
  | some q => if c = q then { s with quote := none } else s
  | none =>
    if isQuote c then { s with quote := some c }
    else if isOpening c then { s with depth := s.depth + 1 }
    else if isClosing c then { s with depth := s.depth - 1 }
    else s

/-- The state behind a text. -/
def after (s : Scan) (text : List Char) : Scan := text.foldl step s

/-- Outside quotes, with no bracket open. -/
def atTop (s : Scan) : Bool := s.depth == 0 && s.quote.isNone

/-- The text starts with the delimiter, at top level. A bracket or a quote is read as one before it
can start a delimiter. -/
def cutsAt (s : Scan) (delimiter text : List Char) : Bool :=
  match text with
  | [] => false
  | c :: _ => s.atTop && !isStructural c && delimiter.isPrefixOf text

end Scan

/-! ### Wrapped texts -/

/-- Whether the bracket count, starting at `depth`, first comes back to zero at the end of the
text. -/
def closesAtEnd (depth : Int) (quote : Option Char) : List Char → Bool
  | [] => false
  | c :: rest =>
    match quote with
    | some q => closesAtEnd depth (if c = q then none else some q) rest
    | none =>
      if isQuote c then closesAtEnd depth (some c) rest
      else if isOpening c then closesAtEnd (depth + 1) none rest
      else if isClosing c then
        if depth - 1 = 0 then rest.isEmpty else closesAtEnd (depth - 1) none rest
      else closesAtEnd depth none rest

def isWrapped (opening closing : Char) (text : List Char) : Bool :=
  2 ≤ text.length && text.head? == some opening && text.getLast? == some closing
    && closesAtEnd 0 none text

/-- As `isWrapped`, for brackets given as texts; only a text of one character is a bracket. -/
def isWrappedIn (opening closing text : String) : Bool :=
  match opening.toList, closing.toList with
  | [o], [c] => isWrapped o c text.toList
  | _, _ => false

/-- A text without its first and its last character. -/
def interior (text : List Char) : List Char := text.tail.dropLast

theorem length_interior (text : List Char) : (interior text).length = text.length - 2 := by
  simp [interior]
  omega

theorem two_le_length_of_isWrapped {opening closing : Char} {text : List Char}
    (h : isWrapped opening closing text = true) : 2 ≤ text.length := by
  simp only [isWrapped, Bool.and_eq_true, decide_eq_true_eq] at h
  exact h.1.1.1

theorem length_interior_lt {opening closing : Char} {text : List Char}
    (h : isWrapped opening closing text = true) : (interior text).length < text.length := by
  have := two_le_length_of_isWrapped h
  rw [length_interior]
  omega

end Schemata

import Schemata.Text.Word

/-!
# Names and literals in type expressions

## Main definitions

* `isIdentifier`: a dotted name. Each part starts with an ASCII letter, an underscore or a dollar
  sign, and goes on with word characters and dollar signs.
* `isLiteral`: a text between two quotes of one sort.
-/

namespace Schemata

def isNameStart (c : Char) : Bool := c.isAlpha || c == '_' || c == '$'

def isNameChar (c : Char) : Bool := isWordChar c || c == '$'

/-- The rest of a dotted name; `fresh` says that a part has to start here. -/
def isIdentifierFrom (fresh : Bool) : List Char → Bool
  | [] => !fresh
  | c :: rest =>
    if fresh then isNameStart c && isIdentifierFrom false rest
    else if c == '.' then isIdentifierFrom true rest
    else isNameChar c && isIdentifierFrom false rest

def isIdentifier (text : List Char) : Bool := isIdentifierFrom true text

/-- Only the two ends count: the same quote may stand in between. -/
def isLiteral (text : List Char) : Bool :=
  match text with
  | c :: rest => (c == '\'' || c == '"') && rest.getLast? == some c
  | [] => false

end Schemata

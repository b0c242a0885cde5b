import Schemata.Json.Basic
import Schemata.Number.Shortest
import Schemata.Text.Quoted

/-!
# Writing JSON

Two layouts: on one line, with a blank after every comma and colon, and spread over lines with two
blanks of indentation a level. Either may be kept to ASCII, characters beyond being written as
UTF-16 escapes; the line form may sort the fields of objects, and may escape what has a meaning in
markup.

## Main definitions

* `Json.Spelling`: how the characters of a text are written.
* `Json.line`: the form on one line.
* `Json.pretty`: the form spread over lines.
-/

namespace Schemata.Json

structure Spelling where
  /-- Escape every character behind the tilde. -/
  ascii : Bool
  /-- Escape `<`, `>`, `&` and the single quote. -/
  markupSafe : Bool

namespace Spelling

def plain : Spelling := ⟨false, false⟩

def asciiOnly : Spelling := ⟨true, false⟩

def markup : Spelling := ⟨true, true⟩

def unitEscape (unit : Nat) : List Char := ['\\', 'u'] ++ hexadecimal 4 unit

/-- A character as one UTF-16 escape, or as two beyond the basic plane. -/
def escape (c : Char) : List Char :=
  let n := c.toNat
  if n < 0x10000 then unitEscape n
  else unitEscape (0xd800 + (n - 0x10000) / 0x400) ++ unitEscape (0xdc00 + (n - 0x10000) % 0x400)

def isMarkup (c : Char) : Bool := c == '<' || c == '>' || c == '&' || c == '\''

def char (spelling : Spelling) (c : Char) : List Char :=
  if c = '"' ∨ c = '\\' then ['\\', c]
  else if c = '\n' then ['\\', 'n']
  else if c = '\r' then ['\\', 'r']
  else if c = '\t' then ['\\', 't']
  else if c = '\x0c' then ['\\', 'f']
  else if c = '\x08' then ['\\', 'b']
  else if c.toNat < 0x20 then escape c
  else if spelling.markupSafe && isMarkup c then escape c
  else if spelling.ascii && 0x7e < c.toNat then escape c
  else [c]

def text (spelling : Spelling) (s : String) : List Char :=
  ['"'] ++ s.toList.flatMap spelling.char ++ ['"']

end Spelling

/-- The text of a value that is no list and no object. -/
def scalarText (spelling : Spelling) : Json → List Char
  | .null => "null".toList
  | .bool b => (if b then "true" else "false").toList
  | .int n => (toString n).toList
  | .double d => d.toText.toList
  | .str s => spelling.text s
  | .arr _ | .obj _ => []

def joined (separator : List Char) : List (List Char) → List Char
  | [] => []
  | [t] => t
  | t :: rest => t ++ separator ++ joined separator rest

def sortFields (fields : List (String × List Char)) : List (String × List Char) :=
  fields.mergeSort fun a b => !(b.1 < a.1)

/-! ### On one line -/

mutual

def lineText (spelling : Spelling) (sorted : Bool) : Json → List Char
  | .arr items => ['['] ++ joined [',', ' '] (lineItems spelling sorted items) ++ [']']
  | .obj fields =>
    let fields := lineFields spelling sorted fields
    let fields := if sorted then sortFields fields else fields
    ['{'] ++ joined [',', ' '] (fields.map fun (name, v) => spelling.text name ++ [':', ' '] ++ v)
      ++ ['}']
  | .null => scalarText spelling .null
  | .bool b => scalarText spelling (.bool b)
  | .int n => scalarText spelling (.int n)
  | .double d => scalarText spelling (.double d)
  | .str s => scalarText spelling (.str s)

def lineItems (spelling : Spelling) (sorted : Bool) : List Json → List (List Char)
  | [] => []
  | v :: rest => lineText spelling sorted v :: lineItems spelling sorted rest

def lineFields (spelling : Spelling) (sorted : Bool) :
    List (String × Json) → List (String × List Char)
  | [] => []
  | (name, v) :: rest => (name, lineText spelling sorted v) :: lineFields spelling sorted rest

end

def line (spelling : Spelling) (sorted : Bool) (v : Json) : String :=
  String.ofList (lineText spelling sorted v)

/-! ### Spread over lines -/

def lineBreak (level : Nat) : List Char := '\n' :: List.replicate (2 * level) ' '

/-- Parts of a list or an object, each on a line of its own one level in; nothing between the
brackets when there are none. -/
def block (opening closing : Char) (level : Nat) (parts : List (List Char)) : List Char :=
  if parts.isEmpty then [opening, closing]
  else [opening] ++ lineBreak (level + 1) ++ joined (',' :: lineBreak (level + 1)) parts
    ++ lineBreak level ++ [closing]

mutual

def prettyText (spelling : Spelling) (level : Nat) : Json → List Char
  | .arr items => block '[' ']' level (prettyItems spelling (level + 1) items)
  | .obj fields => block '{' '}' level (prettyFields spelling (level + 1) fields)
  | .null => scalarText spelling .null
  | .bool b => scalarText spelling (.bool b)
  | .int n => scalarText spelling (.int n)
  | .double d => scalarText spelling (.double d)
  | .str s => scalarText spelling (.str s)

def prettyItems (spelling : Spelling) (level : Nat) : List Json → List (List Char)
  | [] => []
  | v :: rest => prettyText spelling level v :: prettyItems spelling level rest

def prettyFields (spelling : Spelling) (level : Nat) : List (String × Json) → List (List Char)
  | [] => []
  | (name, v) :: rest =>
    (spelling.text name ++ [':', ' '] ++ prettyText spelling level v)
      :: prettyFields spelling level rest

end

def pretty (spelling : Spelling) (v : Json) : String :=
  String.ofList (prettyText spelling 0 v)

end Schemata.Json

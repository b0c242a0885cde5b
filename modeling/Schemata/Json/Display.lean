import Schemata.Json.Basic
import Schemata.Number.Shortest
import Schemata.Text.Quoted

/-!
# Values in messages

How messages, paths and command lines spell a value: `None`, `True` and `False`, numbers in their
shortest form, lists in brackets and objects in braces. Inside a list or an object a text is
quoted; on its own it stands as it is.

## Main definitions

* `Json.literal`: the spelling with texts quoted.
* `Json.display`: the spelling with a text left as it is.
-/

namespace Schemata.Json

mutual

def literal : Json → String
  | .null => "None"
  | .bool b => if b then "True" else "False"
  | .int n => toString n
  | .double d => d.toText
  | .str s => quoted s
  | .arr items => "[" ++ String.intercalate ", " (literals items) ++ "]"
  | .obj fields => "\x7b" ++ String.intercalate ", " (fieldLiterals fields) ++ "\x7d"

def literals : List Json → List String
  | [] => []
  | v :: rest => literal v :: literals rest

def fieldLiterals : List (String × Json) → List String
  | [] => []
  | (name, v) :: rest => (quoted name ++ ": " ++ literal v) :: fieldLiterals rest

end

def display : Json → String
  | .str s => s
  | v => literal v

end Schemata.Json

import Schemata.Schema.Check

/-!
# Loading schemas

A schema is read from its JSON form by the entry that tells what it is: `$ref`, then `oneOf` or
`anyOf`, then `allOf`, then `type`, then `properties`; an object with none of them says nothing. A
value that is no schema is refused with its path; constraints that contradict each other are
dropped, because samples taken at run time hold such things.

## Main definitions

* `TypeForm`: what the entry `type` asks for: one type, or alternatives.
* `Schema.Below`, `Schema.loadNode`: a node, given how the schemas below it are read.
* `Schema.load`: the schema of a JSON value at a path.
* `Schema.loadMany`: the schemas of a list.

## Implementation notes

An entry is looked up and read in one pass over the entries of the object, so that all functions
recurse on the value itself. What a list of types asks for is worked out first, as a `TypeForm`;
the entries of the object are then read once for each of the types.
-/

namespace Schemata

/-! ### Types -/

inductive TypeForm where
  /-- One type; the flag says that `null` stood beside it. -/
  | single (type : Json) (besideNull : Bool)
  /-- Several types, each with its place in the path. -/
  | alternatives (forms : List (String × TypeForm))

namespace TypeForm

def isNullName : Json → Bool
  | .str s => s == "null"
  | _ => false

mutual

/-- What a value of the entry `type` asks for. In a list, `null` is set aside; it counts as a mark
when one type or none is left. -/
def ofJson : Json → TypeForm
  | .arr types =>
    match types.filter (!isNullName ·) with
    | [] => .single (.str "null") true
    | [type] => .single type (types.any isNullName)
    | _ => .alternatives (ofItems types)
  | .null => .single .null false
  | .bool b => .single (.bool b) false
  | .int n => .single (.int n) false
  | .double d => .single (.double d) false
  | .str s => .single (.str s) false
  | .obj fields => .single (.obj fields) false

def ofItems : List Json → List (String × TypeForm)
  | [] => []
  | type :: rest =>
    if isNullName type then ofItems rest else (type.display, ofJson type) :: ofItems rest

end

end TypeForm

namespace Schema

/-! ### Single entries -/

def entry (name : String) (fields : Fields Json) : Json := (fields.lookup name).getD .null

/-- A bound is a number; any other value is no bound. -/
def boundEntry (name : String) (fields : Fields Json) : Json :=
  let v := entry name fields
  if v.isNumber then v else .null

/-- A pair of bounds, or none when the lower one exceeds the upper one. -/
def boundEntries (lowName highName : String) (fields : Fields Json) : Json × Json :=
  let low := boundEntry lowName fields
  let high := boundEntry highName fields
  if low.exceeds? high = some true then (.null, .null) else (low, high)

/-- The distinct values of a list that is not empty; anything else is no closed set. -/
def enumEntry (fields : Fields Json) : Option (List Json) :=
  match entry "enum" fields with
  | .arr [] => none
  | .arr values => some (Json.distinct values)
  | _ => none

/-- The part of `values` that names properties. -/
def knownNames (properties : Fields Schema) : List Json → Except Fault (List Json)
  | [] => .ok []
  | v :: rest => do
    let known ← namesProperty properties v
    let names ← knownNames properties rest
    return if known then v :: names else names

def requiredEntry (properties : Fields Schema) (fields : Fields Json) :
    Except Fault (List Json) :=
  let v := entry "required" fields
  if !v.truthy then .ok []
  else match v.elements? with
    | none => .error .illTyped
    | some values => knownNames properties values

/-- The name that a reference stands for: what follows the prefix, or else the last slash. -/
def referenceName (refPrefix : Json) (reference : String) : Except Fault String :=
  match refPrefix with
  | .str start =>
    let start := start.toList
    let chars := reference.toList
    if start.isPrefixOf chars then .ok (String.ofList (chars.drop start.length))
    else .ok (String.ofList (chars.reverse.takeWhile (· ≠ '/')).reverse)
  | _ => .error .illTyped

def loadReference (refPrefix : Json) (path : String) (v : Json) : Except Fault Schema :=
  match v with
  | .str "" => .error (.load .badReference path)
  | .str reference => return .ref (.str (← referenceName refPrefix reference))
  | _ => .error (.load .badReference path)

/-! ### Nodes with a type -/

def loadString (fields : Fields Json) (nullable : Bool) : Except Fault Schema :=
  let (minLength, maxLength) := boundEntries "minLength" "maxLength" fields
  StringFacets.node
    { format := entry "format" fields
      enum := enumEntry fields
      exemplar := entry "example" fields
      minLength := minLength
      maxLength := maxLength
      nullable := .bool nullable }

def loadNumber (fields : Fields Json) (integer nullable : Bool) : Except Fault Schema :=
  let (minimum, maximum) := boundEntries "minimum" "maximum" fields
  NumberFacets.node
    { integer := .bool integer
      format := entry "format" fields
      minimum := minimum
      maximum := maximum
      exemplar := entry "example" fields
      nullable := .bool nullable }

/-- How the schemas below a node are read, given the path of the node. -/
structure Below where
  properties : String → Except Fault (Fields Schema)
  additional : String → Except Fault (Option Schema)
  items : String → Except Fault (Option Schema)

def loadObject (below : Below) (fields : Fields Json) (path : String) (nullable : Bool) :
    Except Fault Schema := do
  let properties ← below.properties path
  let required ← requiredEntry properties fields
  let additional ← below.additional path
  objectNode properties required additional (.bool nullable)

def loadArray (below : Below) (fields : Fields Json) (path : String) : Except Fault Schema := do
  let (minItems, maxItems) := boundEntries "minItems" "maxItems" fields
  let items ← below.items path
  ArrayFacets.node items
    { minItems := minItems
      maxItems := maxItems
      unique := .bool (entry "uniqueItems" fields).truthy }

/-- The node of one type. -/
def loadType (below : Below) (fields : Fields Json) (path : String) (type : Json)
    (nullable : Bool) : Except Fault Schema :=
  match type with
  | .str "object" => loadObject below fields path nullable
  | .str "array" => loadArray below fields path
  | .str "string" => loadString fields nullable
  | .str "number" => loadNumber fields false nullable
  | .str "integer" => loadNumber fields true nullable
  | .str "boolean" =>
    .ok (.boolean { exemplar := entry "example" fields, nullable := .bool nullable })
  | .str "null" => .ok (.string { nullable := .bool true })
  | _ => .ok .empty

mutual

def loadForm (below : Below) (fields : Fields Json) (path : String) :
    TypeForm → Except Fault Schema
  | .single type besideNull =>
    loadType below fields path type ((entry "nullable" fields).truthy || besideNull)
  | .alternatives forms => do return .oneOf (← loadForms below fields path forms)

def loadForms (below : Below) (fields : Fields Json) (path : String) :
    List (String × TypeForm) → Except Fault (List Schema)
  | [] => .ok []
  | (place, form) :: rest => do
    let s ← loadForm below fields s!"{path}/type/{place}" form
    return s :: (← loadForms below fields path rest)

end

/-- The node of an object that is neither a reference nor a list of schemas. -/
def loadNode (below : Below) (fields : Fields Json) (path : String) : Except Fault Schema :=
  if Fields.has fields "type" then
    loadForm below fields path (TypeForm.ofJson (entry "type" fields))
  else if Fields.has fields "properties" then
    loadObject below fields path (entry "nullable" fields).truthy
  else .ok .empty

/-! ### Values -/

mutual

def load (refPrefix : Json) (path : String) : Json → Except Fault Schema
  | .obj fields =>
    if Fields.has fields "$ref" then loadReference refPrefix path (entry "$ref" fields)
    else if Fields.has fields "oneOf" then
      return .oneOf (← loadMembers refPrefix s!"{path}/oneOf" "oneOf" fields)
    else if Fields.has fields "anyOf" then
      return .oneOf (← loadMembers refPrefix s!"{path}/anyOf" "anyOf" fields)
    else if Fields.has fields "allOf" then
      return .allOf (← loadMembers refPrefix s!"{path}/allOf" "allOf" fields)
    else
      loadNode
        { properties := fun path => loadProperties refPrefix s!"{path}/properties" fields
          additional := fun path => loadAdditional refPrefix s!"{path}/additionalProperties" fields
          items := fun path => loadItems refPrefix s!"{path}/items" fields }
        fields path
  | v => .error (.load (.notASchema v.typeName) path)

/-- The schemas of a list, from index `i` on. -/
def loadAll (refPrefix : Json) (path : String) (i : Nat) : List Json → Except Fault (List Schema)
  | [] => .ok []
  | v :: rest => do
    let s ← load refPrefix s!"{path}/{i}" v
    return s :: (← loadAll refPrefix path (i + 1) rest)

/-- The schemas under the names of an object. -/
def loadFields (refPrefix : Json) (path : String) :
    List (String × Json) → Except Fault (List (String × Schema))
  | [] => .ok []
  | (name, v) :: rest => do
    let s ← load refPrefix s!"{path}/{name}" v
    return (name, s) :: (← loadFields refPrefix path rest)

/-- The list of schemas in the entry `name`. -/
def loadMembers (refPrefix : Json) (path name : String) :
    List (String × Json) → Except Fault (List Schema)
  | [] => .ok []
  | (n, v) :: rest =>
    if n = name then match v with
      | .arr items => loadAll refPrefix path 0 items
      | _ => .error (.load .variantsNotAList path)
    else loadMembers refPrefix path name rest

def loadProperties (refPrefix : Json) (path : String) :
    List (String × Json) → Except Fault (List (String × Schema))
  | [] => .ok []
  | (n, v) :: rest =>
    if n = "properties" then match v with
      | .obj fields => loadFields refPrefix path fields
      | v => if v.truthy then .error (.load .propertiesNotAnObject path) else .ok []
    else loadProperties refPrefix path rest

/-- The schema of further properties, when the entry is an object. -/
def loadAdditional (refPrefix : Json) (path : String) :
    List (String × Json) → Except Fault (Option Schema)
  | [] => .ok none
  | (n, v) :: rest =>
    if n = "additionalProperties" then match v with
      | .obj fields => return some (← load refPrefix path (.obj fields))
      | _ => .ok none
    else loadAdditional refPrefix path rest

/-- The schema of items, unless the entry is `null`. -/
def loadItems (refPrefix : Json) (path : String) :
    List (String × Json) → Except Fault (Option Schema)
  | [] => .ok none
  | (n, v) :: rest =>
    if n = "items" then
      if v.isNull then .ok none else return some (← load refPrefix path v)
    else loadItems refPrefix path rest

end

/-- The schemas of a JSON list. -/
def loadMany (refPrefix : Json) (path : String) : Json → Except Fault (List Schema)
  | .arr items => loadAll refPrefix path 0 items
  | v => .error (.load (.notAList v.typeName) path)

end Schema

end Schemata

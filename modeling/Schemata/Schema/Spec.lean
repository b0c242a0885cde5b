import Schemata.Schema.Check

/-!
# Schemas described part by part

A specification names a kind and gives the parts of the node, each as it is to be kept: no
constraint is dropped, and parts that do not go together are refused. Nodes below a node are given
by specifications of their own, and come first: properties, further properties, items, variants and
then parts, in whatever order they are given.

## Main definitions

* `Schema.SpecBelow`: the schemas below a node.
* `Schema.ofSpec`: the schema of a specification.
-/

namespace Schemata

namespace Schema

/-- The schemas that the specifications below a node describe. -/
structure SpecBelow where
  properties : Fields Schema
  additional : Option Schema
  items : Option Schema
  variants : List Schema
  parts : List Schema

/-- The entries that the specification of a kind can have, besides the kind itself. -/
def specNames : String → Option (List String)
  | "string" => some ["format", "enum", "example", "min_length", "max_length", "nullable"]
  | "number" | "integer" =>
    some ["integer", "format", "minimum", "maximum", "example", "nullable"]
  | "boolean" => some ["example", "nullable"]
  | "object" => some ["properties", "required", "additional_properties", "nullable"]
  | "array" => some ["items", "min_items", "max_items", "unique_items"]
  | "oneOf" => some ["variants"]
  | "allOf" => some ["parts"]
  | "ref" => some ["name"]
  | "empty" | "base" => some []
  | _ => none

def specEntry (name : String) (default : Json) (fields : Fields Json) : Json :=
  (fields.lookup name).getD default

/-- The values of a closed set, `null` standing for none. -/
def enumPart (v : Json) : Except Fault (Option (List Json)) :=
  if v.isNull then .ok none
  else match v.elements? with
    | some values => .ok (some values)
    | none => .error .illTyped

def elementsPart (v : Json) : Except Fault (List Json) :=
  match v.elements? with
  | some values => .ok values
  | none => .error .illTyped

def stringOfSpec (fields : Fields Json) : Except Fault Schema := do
  StringFacets.node
    { format := specEntry "format" .null fields
      enum := ← enumPart (specEntry "enum" .null fields)
      exemplar := specEntry "example" .null fields
      minLength := specEntry "min_length" .null fields
      maxLength := specEntry "max_length" .null fields
      nullable := specEntry "nullable" (.bool false) fields }

def numberOfSpec (integer : Json) (fields : Fields Json) : Except Fault Schema :=
  NumberFacets.node
    { integer := integer
      format := specEntry "format" .null fields
      minimum := specEntry "minimum" .null fields
      maximum := specEntry "maximum" .null fields
      exemplar := specEntry "example" .null fields
      nullable := specEntry "nullable" (.bool false) fields }

/-- The node of a kind with the given entries. -/
def nodeOfSpec (kind : String) (below : SpecBelow) (fields : Fields Json) :
    Except Fault Schema := do
  match kind with
  | "string" => stringOfSpec fields
  | "number" => numberOfSpec (specEntry "integer" (.bool false) fields) fields
  | "integer" => numberOfSpec (.bool true) fields
  | "boolean" =>
    return .boolean
      { exemplar := specEntry "example" .null fields
        nullable := specEntry "nullable" (.bool false) fields }
  | "object" =>
    let required ← elementsPart (specEntry "required" (.arr []) fields)
    objectNode below.properties required below.additional
      (specEntry "nullable" (.bool false) fields)
  | "array" =>
    ArrayFacets.node below.items
      { minItems := specEntry "min_items" .null fields
        maxItems := specEntry "max_items" .null fields
        unique := specEntry "unique_items" (.bool false) fields }
  | "oneOf" => return .oneOf below.variants
  | "allOf" => return .allOf below.parts
  | "ref" => return .ref (specEntry "name" (.str "") fields)
  | "empty" => return .empty
  | "base" => return .abstract
  | _ => throw .illTyped

/-- The node of a kind, refused when an entry is none of the kind's. -/
def nodeOfKnownSpec (below : SpecBelow) (fields : Fields Json) : Except Fault Schema :=
  match specEntry "kind" .null fields with
  | .str kind =>
    match specNames kind with
    | some names =>
      if fields.all fun field => field.1 == "kind" || names.contains field.1 then
        nodeOfSpec kind below fields
      else .error .illTyped
    | none => .error .illTyped
  | _ => .error .illTyped

mutual

def ofSpec : Json → Except Fault Schema
  | .obj fields => do
    let properties ← specProperties fields
    let additional ← specOption "additional_properties" fields
    let items ← specOption "items" fields
    let variants ← specList "variants" fields
    let parts ← specList "parts" fields
    nodeOfKnownSpec ⟨properties, additional, items, variants, parts⟩ fields
  | _ => .error .illTyped

def specProperties : List (String × Json) → Except Fault (Fields Schema)
  | [] => .ok []
  | (name, v) :: rest =>
    if name = "properties" then match v with
      | .obj fields => specFields fields
      | v => .error (if v.isNull then .illTyped else .notAnObject)
    else specProperties rest

/-- The schema of the entry `key`, unless it is `null`. -/
def specOption (key : String) : List (String × Json) → Except Fault (Option Schema)
  | [] => .ok none
  | (name, v) :: rest =>
    if name = key then
      if v.isNull then .ok none else return some (← ofSpec v)
    else specOption key rest

/-- The schemas of the list in the entry `key`. -/
def specList (key : String) : List (String × Json) → Except Fault (List Schema)
  | [] => .ok []
  | (name, v) :: rest =>
    if name = key then match v with
      | .arr specs => specItems specs
      | _ => .error .illTyped
    else specList key rest

def specFields : List (String × Json) → Except Fault (List (String × Schema))
  | [] => .ok []
  | (name, spec) :: rest => do
    let s ← ofSpec spec
    return (name, s) :: (← specFields rest)

def specItems : List Json → Except Fault (List Schema)
  | [] => .ok []
  | spec :: rest => do
    let s ← ofSpec spec
    return s :: (← specItems rest)

end

end Schema

end Schemata

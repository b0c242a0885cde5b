import Schemata.Expression.Reading
import Schemata.Schema.Document

/-!
# Sessions

A session reads one expression after the other and remembers the schema of each, under its text
without the blanks around it. A remembered expression is answered without warnings, with a fixed
confidence. Expressions inside an expression are not remembered.

## Main definitions

* `TypeDefinition`: a structured description of a type.
* `Cache`: what a session remembers, in the order of first reading.
* `Parser.answerIn`: the reading of an expression in a session.
* `Parser.define`: the schema of a type definition in a session.
* `Answer`: a schema with its confidence and its warnings; `Answer.document?` is its JSON form.

## Implementation notes

A refused expression leaves the cache as it is; a node of no kind is remembered although no answer
comes of it. Whatever a definition has remembered before it fails stays remembered.
-/

namespace Schemata

/-- A type with a closed set of values, with properties, with elements, or given by an expression:
the first of them that is there decides. The expression matters only where it decides, so that it
may be none until then. -/
inductive TypeDefinition where
  | mk (enumValues : Json) (properties : List (String × TypeDefinition))
      (element : Option TypeDefinition) (type : Option String) (optional : Bool)

namespace TypeDefinition

def optional : TypeDefinition → Bool
  | .mk _ _ _ _ optional => optional

/-- The entries that a definition can have. -/
def entryNames : List String :=
  ["name", "type", "properties", "element_type", "optional", "description", "enum_values"]

/-- A definition has a name and a type, and no entry that is not known. -/
def isComplete (fields : Fields Json) : Bool :=
  Fields.has fields "name" && Fields.has fields "type"
    && fields.all fun field => entryNames.contains field.1

def textOf? : Json → Option String
  | .str s => some s
  | _ => none

mutual

def ofJson : Json → Except Fault TypeDefinition
  | .obj fields => do
    let properties ← propertiesEntry fields
    let element ← elementEntry fields
    if isComplete fields then
      return .mk ((fields.lookup "enum_values").getD .null) properties element
        ((fields.lookup "type").bind textOf?) ((fields.lookup "optional").getD .null).truthy
    else throw .illTyped
  | .null | .bool _ | .int _ | .double _ | .str _ | .arr _ => .error .illTyped

def propertiesEntry : List (String × Json) → Except Fault (List (String × TypeDefinition))
  | [] => .ok []
  | (name, v) :: rest =>
    if name = "properties" then match v with
      | .obj fields => ofFields fields
      | .null => .ok []
      | _ => .error .notAnObject
    else propertiesEntry rest

def elementEntry : List (String × Json) → Except Fault (Option TypeDefinition)
  | [] => .ok none
  | (name, v) :: rest =>
    if name = "element_type" then if v.isNull then .ok none else return some (← ofJson v)
    else elementEntry rest

def ofFields : List (String × Json) → Except Fault (List (String × TypeDefinition))
  | [] => .ok []
  | (name, v) :: rest => do
    let d ← ofJson v
    return (name, d) :: (← ofFields rest)

end

end TypeDefinition

abbrev Cache := Fields Schema

structure Answer where
  schema : Schema
  /-- The confidence, in tenths. -/
  confidence : Nat
  warnings : List Warning

namespace Answer

/-- What a remembered schema is answered with. -/
def remembered (s : Schema) : Answer := ⟨s, 9, []⟩

def ofReading (r : Reading) : Except Fault Answer := do
  return ⟨r.schema, ← r.confidence, r.warnings⟩

def document? (refPrefix : Json) (answer : Answer) : Except Fault Json := do
  return .obj
    [ ("schema", ← answer.schema.document? refPrefix),
      ("confidence", .double ((Double.ofQuotient? answer.confidence 10).getD (.zero false))),
      ("warnings", .arr (answer.warnings.map fun warning => .str warning.message)) ]

end Answer

namespace Parser

/-- The answer of a new session. -/
def answer (p : Parser) (text : String) : Except Fault Answer :=
  p.parse (strip text.toList) >>= Answer.ofReading

def cacheKey (text : String) : String := String.ofList (strip text.toList)

def answerIn (p : Parser) (text : String) (cache : Cache) : Except Fault Answer × Cache :=
  let key := cacheKey text
  match cache.lookup key with
  | some s => (.ok (.remembered s), cache)
  | none =>
    match p.parse key.toList with
    | .error fault => (.error fault, cache)
    | .ok r => (Answer.ofReading r, Fields.insert key r.schema cache)

/-! ### Type definitions -/

/-- The string schema of the distinct values of a closed set. -/
def closedSet (enumValues : Json) : Except Fault Schema :=
  match enumValues.elements? with
  | none => .error .illTyped
  | some values => StringFacets.node { enum := some (Json.distinct values) }

def requiredOf (properties : List (String × TypeDefinition)) : List Json :=
  (properties.filter fun property => !property.2.optional).map fun property => .str property.1

mutual

def define (p : Parser) : TypeDefinition → Cache → Except Fault Schema × Cache
  | .mk enumValues properties element type _, cache =>
    if enumValues.truthy then (closedSet enumValues, cache)
    else if !properties.isEmpty then
      match defineAll p properties cache with
      | (.error fault, cache) => (.error fault, cache)
      | (.ok schemas, cache) =>
        (Schema.objectNode schemas (requiredOf properties) none (.bool false), cache)
    else
      match defineOption p element cache with
      | (.error fault, cache) => (.error fault, cache)
      | (.ok (some s), cache) => (.ok (.array (some s) {}), cache)
      | (.ok none, cache) =>
        match type with
        | none => (.error .notText, cache)
        | some text =>
          match answerIn p text cache with
          | (.error fault, cache) => (.error fault, cache)
          | (.ok answer, cache) => (.ok answer.schema, cache)

def defineAll (p : Parser) :
    List (String × TypeDefinition) → Cache → Except Fault (List (String × Schema)) × Cache
  | [], cache => (.ok [], cache)
  | (name, d) :: rest, cache =>
    match define p d cache with
    | (.error fault, cache) => (.error fault, cache)
    | (.ok s, cache) =>
      match defineAll p rest cache with
      | (.error fault, cache) => (.error fault, cache)
      | (.ok schemas, cache) => (.ok ((name, s) :: schemas), cache)

def defineOption (p : Parser) :
    Option TypeDefinition → Cache → Except Fault (Option Schema) × Cache
  | none, cache => (.ok none, cache)
  | some d, cache =>
    match define p d cache with
    | (.error fault, cache) => (.error fault, cache)
    | (.ok s, cache) => (.ok (some s), cache)

end

/-! ### Runs -/

inductive Request where
  | parse (text : String)
  | define (definition : TypeDefinition)
  | stats
  | clear

inductive Response where
  | answer (result : Except Fault Answer)
  | schema (result : Except Fault Schema)
  /-- The remembered expressions, in the order of first reading. -/
  | stats (keys : List String)

def handle (p : Parser) (cache : Cache) : Request → Response × Cache
  | .parse text =>
    let (result, cache) := p.answerIn text cache
    (.answer result, cache)
  | .define definition =>
    let (result, cache) := p.define definition cache
    (.schema result, cache)
  | .stats => (.stats (Fields.names cache), cache)
  | .clear => (.stats [], [])

/-- The responses of a session to a list of requests, from an empty cache on. -/
def runFrom (p : Parser) (cache : Cache) : List Request → List Response
  | [] => []
  | request :: rest =>
    let (response, cache) := p.handle cache request
    response :: runFrom p cache rest

def run (p : Parser) (requests : List Request) : List Response := p.runFrom [] requests

end Parser

end Schemata

import Schemata.Expression.Form
import Schemata.Expression.Warning
import Schemata.Config
import Schemata.Samples.Sample

/-!
# Reading type expressions

The schema of an expression is put together from the schemas of the expressions inside its form,
which are read one level deeper. Every text has a reading: what cannot be represented is simplified,
with a warning.

## Main definitions

* `Form.schema`: the schema of a form, given those of its components.
* `Form.warningsBefore`, `Form.warningsAfter`: what is to be reported of a form, before and after
  the reports of its components.
* `Reading`: the schema of a text, with the warnings about it.
* `Parser`, `Parser.read`: the settings that a reading depends on, and the reading of a text at a
  depth.
* `Parser.parse`: the reading of a whole expression.
* `Reading.confidence`: how far the reading can be trusted, in tenths.

## Main results

* `Parser.read_eq`: the equation of reading.
-/

namespace Schemata

/-! ### Forms -/

namespace Form

/-- Adds a member of an object literal. A repeated name keeps its place and takes the later type;
once required, it stays so. -/
def addMember (object : Fields Schema × List String × Option Schema) :
    Member × Schema → Fields Schema × List String × Option Schema
  | (.property name optional _, s) =>
    let (properties, required, additional) := object
    (Fields.insert name s properties,
      if optional || required.contains name then required else required ++ [name], additional)
  | (.index _, s) =>
    let (properties, required, _) := object
    (properties, required, some s)

def objectOf (members : List (Member × Schema)) : Schema :=
  let (properties, required, additional) := members.foldl addMember ([], [], none)
  .object properties required additional (.bool false)

def tupleOf (elements : List Schema) : Schema :=
  let count : Json := .int elements.length
  .array (if elements.isEmpty then none else some (.oneOf elements))
    { minItems := count, maxItems := count }

def literalsOf (values : List (List Char)) : Schema :=
  .string { enum := some (Json.distinct (values.map fun v => .str (String.ofList v))) }

def schema (form : Form) (inner : List Schema) : Schema :=
  let first := inner.headD .empty
  match form with
  | .blank | .unrecognized => .empty
  | .known s => s
  | .inner _ | .modified .. | .selected .. => first
  | .list _ unique => .array inner.head? { unique := .bool unique }
  | .literals values => literalsOf values
  | .null => nullOnly
  | .single _ nullable => if nullable then first.withNullable?.getD first else first
  | .oneOf .. => .oneOf inner
  | .allOf _ => .allOf inner
  | .object members => objectOf (members.zip inner)
  | .tuple _ => tupleOf inner
  | .dictionary _ => .object [] [] inner.head? (.bool false)
  | .generic base _ => .ref (.str (String.ofList base))
  | .reference name => .ref (.str (String.ofList name))

def warningsBefore (expr : List Char) : Form → List Warning
  | .blank => [.blank]
  | .oneOf _ nullable => if nullable then [.nullMembersDropped expr] else []
  | .modified base argument => [.modifierDropped base argument]
  | .selected base _ arguments => [.selectionDropped base arguments]
  | .generic base arguments => [.argumentsDropped base arguments]
  | .unrecognized => [.unrecognized expr]
  | _ => []

def warningsAfter (form : Form) (inner : List Schema) : List Warning :=
  match form with
  | .single member nullable =>
    if nullable && (inner.headD .empty).withNullable?.isNone then [.nullabilityDropped member]
    else []
  | _ => []

/-- A node of no kind is to be marked as nullable. -/
def refuses (form : Form) (inner : List Schema) : Bool :=
  match form with
  | .single _ nullable => nullable && (inner.headD .empty).kind = .abstract
  | _ => false

end Form

/-! ### Texts -/

structure Reading where
  schema : Schema
  warnings : List Warning
  /-- No schema comes of the text: somewhere in it, a node of no kind is to be nullable. -/
  refused : Bool

structure Parser where
  overrides : Fields Schema
  maxDepth : Json

namespace Parser

def tooDeep (p : Parser) (depth : Nat) : Bool :=
  Json.exceeds? (.int depth) p.maxDepth == some true

/-- The reading of a form whose components have been read. -/
def assemble (expr : List Char) (form : Form) (inner : List Reading) : Reading where
  schema := form.schema (inner.map Reading.schema)
  warnings := form.warningsBefore expr ++ inner.flatMap Reading.warnings
    ++ form.warningsAfter (inner.map Reading.schema)
  refused := inner.any Reading.refused || form.refuses (inner.map Reading.schema)

def cutOff (p : Parser) : Reading := ⟨.anyObject, [.depthExceeded p.maxDepth], false⟩

def read (p : Parser) (depth : Nat) (text : List Char) : Reading :=
  if p.tooDeep depth then p.cutOff
  else
    let form := Form.of p.overrides (strip text)
    assemble (strip text) form
      (form.components.attach.map fun component => read p (depth + 1) component.val)
termination_by (strip text).length
decreasing_by exact Form.length_lt_of_mem_components component.property

theorem read_eq (p : Parser) (depth : Nat) (text : List Char) :
    p.read depth text =
      if p.tooDeep depth then p.cutOff
      else
        let form := Form.of p.overrides (strip text)
        assemble (strip text) form (form.components.map (p.read (depth + 1))) := by
  rw [read]
  simp

end Parser

namespace Reading

/-- A whole point, less a tenth for every warning, two for a reference and three for a schema that
says nothing; but never below a tenth. A node of no kind has no confidence. -/
def confidence (r : Reading) : Except Fault Nat :=
  match r.schema.kind with
  | .abstract => .error .noKind
  | .reference => .ok (max 1 (10 - (r.warnings.length + 2)))
  | .empty => .ok (max 1 (10 - (r.warnings.length + 3)))
  | _ => .ok (max 1 (10 - r.warnings.length))

end Reading

/-! ### Whole expressions -/

namespace Parser

/-- The reading of an expression; the limit of depth has to be a number. -/
def parse (p : Parser) (text : List Char) : Except Fault Reading :=
  if p.maxDepth.number?.isNone then .error .illTyped
  else
    let r := p.read 0 text
    if r.refused then .error .noKind else .ok r

/-- The overrides of the settings, as samples. -/
def configOverrides (config : Config) : Except Fault (Fields Sample) := do
  match ← config.overrides with
  | .obj fields => return fields.map fun (name, v) => (name, .raw v)
  | _ => throw .illTyped

def loadOverrides (refPrefix : Json) : Fields Sample → Except Fault (Fields Schema)
  | [] => .ok []
  | (name, sample) :: rest => do
    let s ← sample.load refPrefix s!"type_overrides/{name}"
    return (name, s) :: (← loadOverrides refPrefix rest)

/-- The parser of the settings, with a limit of depth and with overrides that go before theirs. -/
def ofConfig (config : Config) (maxDepth : Option Json) (overrides : Fields Sample) :
    Except Fault Parser := do
  let samples := overrides.foldl (fun all (name, sample) => Fields.insert name sample all)
    (← configOverrides config)
  return ⟨← loadOverrides config.refPrefix samples, maxDepth.getD config.maxDepth⟩

end Parser

end Schemata

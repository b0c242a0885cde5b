import Schemata.CommandLine.Options
import Schemata.CommandLine.Workspace
import Schemata.Json.Display
import Schemata.Json.Basic

/-!
# Commands, and how they are shown

Three commands: `parse` reads a type expression, `merge` and `analyze` read samples. A report shows
the command that made it: its arguments first, then the options that were given, with the paths of
existing files shortened to their names.

## Main definitions

* `Command`, with its options and its arguments.
* `Invocation`: a command with the values of its parameters.
* `Invocation.line`: the command line, as it is shown, unless a path in it is too long to be looked
  for.
-/

namespace Schemata

inductive Command where
  | parse | merge | analyze
  deriving DecidableEq, Repr

def programName : String := "schema_infer"

namespace Command

def name : Command → String
  | .parse => "parse"
  | .merge => "merge"
  | .analyze => "analyze"

def ofName? : String → Option Command
  | "parse" => some .parse
  | "merge" => some .merge
  | "analyze" => some .analyze
  | _ => none

def options : Command → List OptionSpec
  | .parse => [⟨"config", some 'c', true⟩]
  | .merge | .analyze =>
    [⟨"config", some 'c', true⟩, ⟨"output", some 'o', true⟩, ⟨"report", none, false⟩,
      ⟨"snapshots", none, false⟩]

/-- What the arguments of the command are called. -/
def argumentName : Command → String
  | .parse => "expression"
  | .merge | .analyze => "samples"

end Command

/-- A command as it was called. -/
structure Invocation where
  command : Command
  /-- The name that the command was called by, if it was called as a command of the program. -/
  calledAs : String
  /-- The values of its parameters; a list holds several arguments. -/
  parameters : List (String × Json)

namespace Invocation

/-- A list of values as the value of one option. -/
def tupleText : List Json → String
  | [v] => "(" ++ v.literal ++ ",)"
  | items => "(" ++ String.intercalate ", " (Json.literals items) ++ ")"

def valueText (w : Workspace) : Json → Except Workspace.Obstacle String
  | .str path => w.shorten path
  | .arr items => .ok (tupleText items)
  | v => .ok v.literal

/-- An argument; a list among several arguments is shown as a list. -/
def argumentText (w : Workspace) : Json → Except Workspace.Obstacle String
  | .str path => w.shorten path
  | v => .ok v.literal

def argumentWords (w : Workspace) (i : Invocation) : Except Workspace.Obstacle (List String) :=
  match i.parameters.lookup i.command.argumentName with
  | none => .ok []
  | some (.arr items) => items.mapM (argumentText w)
  | some v => if v.truthy then return [← argumentText w v] else .ok []

def wordsOf (w : Workspace) (i : Invocation) (spec : OptionSpec) :
    Except Workspace.Obstacle (List String) :=
  match i.parameters.lookup spec.name with
  | none => .ok []
  | some v =>
    if !v.truthy then .ok []
    else if spec.takesValue then return [spec.long, ← valueText w v]
    else .ok [spec.long]

def optionWords (w : Workspace) (i : Invocation) : Except Workspace.Obstacle (List String) :=
  List.flatten <$> i.command.options.mapM (wordsOf w i)

def line (w : Workspace) (i : Invocation) : Except Workspace.Obstacle String := do
  let called := if i.calledAs = "" then [] else [i.calledAs]
  let arguments ← i.argumentWords w
  let options ← i.optionWords w
  return String.intercalate " " ([programName] ++ called ++ arguments ++ options)

end Invocation

end Schemata

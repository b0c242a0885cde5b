import Schemata.CommandLine.Command
import Schemata.CommandLine.Effect
import Schemata.Expression.Session
import Schemata.Json.Reader
import Schemata.Report
import Schemata.Text.Control

/-!
# Running a command line

A run takes the words of a command line and the files that can be seen, and gives an exit code, what
is printed, and the files as they are afterwards. Its last step is the only one that prints or
writes: everything has been read and worked out by then.

## Main definitions

* `Request`: a command whose words have been understood.
* `Findings`: what the samples of a command come to.
* `textOf`, `deliver`: the text that a request gives, and the step that prints or writes it.
* `Outcome`, `run`.

## Implementation notes

The first thing that stops a run decides how it ends, so the order is part of what a run is: the
words, the paths of options as they are given and then those of samples, the settings, the files one
by one, what they come to, the command line shown in a report, the text, the output.

A text is printed without control sequences, but written to a file as it is.
-/

namespace Schemata

namespace CommandLine

/-! ### Words -/

/-- A command on samples, with its paths resolved. -/
structure SampleRequest where
  command : Command
  config : Option Place
  output : Option Place
  report : Bool
  snapshots : Bool
  samples : List Place

/-- A command with its words understood and its paths resolved. -/
inductive Request where
  | parse (config : Option Place) (expression : String)
  | samples (request : SampleRequest)

/-- The command of a command line, and the words behind it. -/
def commandWords? : List String → Option (Command × List String)
  | [] => none
  | word :: rest =>
    if word = "--" then match rest with
      | [] => none
      | name :: rest => (Command.ofName? name).map (·, rest)
    else (Command.ofName? word).map (·, rest)

def placeOf (path : String) : Run Place := do
  if path.toList.contains '\x00' then throw (.interrupted .brokenPath)
  else return (← Run.workspace).resolve path

/-- The place of a path at which there has to be something. -/
def placeToRead (path : String) : Run Place := do
  let place ← placeOf path
  if (← Run.workspace).has place then return place else throw .usage

/-- The place that an option names: settings are read, everything else is written. -/
def optionPlace (name path : String) : Run Place :=
  if name = "config" then placeToRead path else placeOf path

def optionPlaces (values : Fields String) : Run (Fields Place) :=
  values.mapM fun (name, path) => do return (name, ← optionPlace name path)

def requestOf (command : Command) (given : Words) : Run Request := do
  let places ← optionPlaces given.values
  match command with
  | .parse =>
    match given.arguments with
    | [expression] => return .parse (places.lookup "config") expression
    | _ => throw .usage
  | command =>
    let samples ← given.arguments.mapM placeToRead
    if samples.isEmpty then throw .usage
    else return .samples {
      command := command
      config := places.lookup "config"
      output := places.lookup "output"
      report := given.flags.contains "report"
      snapshots := given.flags.contains "snapshots"
      samples := samples }

/-- A command and its words, by the options that the command takes. -/
def commandLine? (words : List String) : Option (Command × Words) := do
  let (command, rest) ← commandWords? words
  return (command, ← readWords? command.options rest)

def readRequest (words : List String) : Run Request :=
  match commandLine? words with
  | none => throw .usage
  | some (command, given) => requestOf command given

/-! ### Inputs -/

def orInterrupt {α : Type} : Except Fault α → Run α
  | .ok v => pure v
  | .error fault => throw (.interrupted (.fault fault))

/-- A fault that has a wording refuses the input; every other one interrupts the run. -/
def orRefuse {α : Type} (subject : String) : Except Fault α → Run α
  | .ok v => pure v
  | .error fault =>
    match fault.message? with
    | some message => throw (.refused s!"{subject}: {message}")
    | none => throw (.interrupted (.fault fault))

def readText (place : Place) : Run String := do
  match (← Run.workspace).read? place with
  | some text => return text
  | none => throw (.interrupted .readsDirectory)

def readConfig : Option Place → Run Config
  | none => pure {}
  | some place => do
    match Json.read (← readText place) with
    | .error _ => throw (.interrupted .undecodableSettings)
    | .ok v => orInterrupt (Config.ofJson v)

def readJson (place : Place) : Run Json := do
  match Json.read (← readText place) with
  | .ok v => return v
  | .error e =>
    let path := fullPath place
    throw (.refused s!"{path}: invalid JSON ({e.message})")

/-- The schemas of a file that holds one schema or a list of them. -/
def loadFile (refPrefix : Json) : Json → Except Fault (List Schema)
  | .arr items => Schema.loadMany refPrefix "#" (.arr items)
  | v => return [← Schema.load refPrefix "#" v]

/-- The snapshots of a file that holds one snapshot or a list of them. -/
def loadSnapshotFile (refPrefix : Json) : Json → Except Fault (List Snapshot)
  | .arr items => Snapshot.loadAll refPrefix 0 items
  | v => Snapshot.loadAll refPrefix 0 [v]

/-- What a list of files holds, file after file. -/
def readFiles {α : Type} (load : Json → Except Fault (List α)) : List Place → Run (List α)
  | [] => pure []
  | place :: rest => do
    let items ← orRefuse (fullPath place) (load (← readJson place))
    return items ++ (← readFiles load rest)

/-! ### Findings -/

/-- What the samples of a command come to. -/
inductive Findings where
  | merged (schema : Schema)
  | sides (both : MergedSnapshot)
  | occurrence (analysis : OccurrenceReport)

namespace Findings

def sidesJson (refPrefix : Json) (both : MergedSnapshot) : Except Fault Json := do
  return .obj
    [ ("requestSchema", ← Schema.documentOrNull? refPrefix both.request),
      ("responseSchema", ← Schema.documentOrNull? refPrefix both.response) ]

def analysisJson (r : OccurrenceReport) : Json :=
  .obj
    [ ("totalSamples", .int r.total),
      ("requiredFields", .arr (r.required.map .str)),
      ("optionalFields", .arr (r.optional.map .str)),
      ("enumCandidates", .obj (r.enumCandidates.map fun (path, values) =>
        (path, .arr values))) ]

def toJson (refPrefix : Json) : Findings → Except Fault Json
  | .merged s => s.document? refPrefix
  | .sides both => sidesJson refPrefix both
  | .occurrence analysis => .ok (analysisJson analysis)

/-- The report that shows a command line. -/
def toReport (refPrefix : Json) (line : String) : Findings → Except Fault Report
  | .merged s => do
    return {
      commandLine := line
      merged := ← Report.documents refPrefix [("sample", some s)] }
  | .sides both => do
    return {
      commandLine := line
      merged := ← Report.documents refPrefix
        [("request", both.request), ("response", both.response)] }
  | .occurrence analysis => .ok { commandLine := line, analysis := some analysis }

/-- What schemas come to, each a sample of its own. -/
def ofSchemas (config : Config) (command : Command) (all : List Schema) : Except Fault Findings :=
  if command = .analyze then .occurrence <$> analyze config (all.map fun s => [s])
  else .merged <$> merge config all

def ofSnapshots (config : Config) (command : Command) (all : List Snapshot) :
    Except Fault Findings :=
  if command = .analyze then .occurrence <$> analyzeSnapshots config all
  else .sides <$> mergeSnapshots config all

end Findings

def findings (settings : Config) (r : SampleRequest) : Run Findings := do
  if r.snapshots then
    let all ← readFiles (loadSnapshotFile settings.refPrefix) r.samples
    orInterrupt (Findings.ofSnapshots settings r.command all)
  else
    let all ← readFiles (loadFile settings.refPrefix) r.samples
    orInterrupt (Findings.ofSchemas settings r.command all)

/-! ### Results -/

/-- The command with its parameters, as a report shows it. -/
def SampleRequest.invocation (r : SampleRequest) : Invocation :=
  let path (place : Place) : Json := .str (fullPath place)
  let optional (place : Option Place) : Json := (place.map path).getD .null
  { command := r.command
    calledAs := r.command.name
    parameters :=
      [ ("config", optional r.config), ("output", optional r.output), ("report", .bool r.report),
        ("snapshots", .bool r.snapshots), ("samples", .arr (r.samples.map path)) ] }

/-- The command line that a report shows. -/
def shownLine (r : SampleRequest) : Run String := do
  match r.invocation.line (← Run.workspace) with
  | .ok line => return line
  | .error obstacle => throw (.interrupted (.obstacle obstacle))

def answerText (config : Config) (expression : String) : Run String := do
  let parser ← orRefuse "Invalid type override" (Parser.ofConfig config none [])
  let answer ← orInterrupt (parser.answer expression)
  let document ← orInterrupt (answer.document? config.refPrefix)
  return Json.pretty .asciiOnly document

def findingsText (settings : Config) (r : SampleRequest) : Run String := do
  let found ← findings settings r
  if r.report then
    let report ← orInterrupt (found.toReport settings.refPrefix (← shownLine r))
    return report.render
  else
    let document ← orInterrupt (found.toJson settings.refPrefix)
    return Json.pretty .asciiOnly document

/-- The text that a request gives. -/
def textOf : Request → Run String
  | .parse config expression => do answerText (← readConfig config) expression
  | .samples r => do findingsText (← readConfig r.config) r

/-! ### Outcomes -/

structure Outcome where
  exitCode : Nat
  stdout : String
  stderr : String
  interruption : Option Interruption
  workspace : Workspace

/-- A text as it is printed: without control sequences. -/
def printed (text : String) : String := String.ofList (plain text.toList)

/-- A text with a line break at its end. -/
def endedLine (text : String) : String :=
  if text.toList.getLast? = some '\n' then text else text ++ "\n"

/-- Where the text of a request goes, if it is not printed. -/
def Request.output : Request → Option Place
  | .parse _ _ => none
  | .samples r => r.output

def deliver (text : String) : Option Place → Run Unit
  | none => Run.print (printed (endedLine text))
  | some place => do
    Run.openFile place
    Run.putText place text

/-- All steps of a run. -/
def steps (words : List String) : Run Unit := do
  let request ← readRequest words
  deliver (← textOf request) request.output

/-- What a run comes to, by how it ended and by the traces that it left. -/
def Outcome.of : Except Stop Unit × Traces → Outcome
  | (.ok (), t) => ⟨0, t.stdout, "", none, t.workspace⟩
  | (.error .usage, t) => ⟨2, t.stdout, "", none, t.workspace⟩
  | (.error (.refused message), t) =>
    ⟨1, t.stdout, printed s!"Error: {message}\n", none, t.workspace⟩
  | (.error (.interrupted cause), t) => ⟨1, t.stdout, "", some cause, t.workspace⟩

def run (w : Workspace) (words : List String) : Outcome :=
  .of ((steps words).start ⟨"", w⟩)

end CommandLine

end Schemata

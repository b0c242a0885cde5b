import Schemata.CommandLine.Run

/-!
# The program

Looks up on disk what the words of the command line may name, runs the command on that, and then
writes and prints what came of it.
-/

namespace Schemata

/-- What a word may name: itself, or the value attached to an option. -/
def namedPaths (word : String) : List String :=
  let behindEquals := match (splitEquals word.toList).2 with
    | some value => [String.ofList value]
    | none => []
  [word, String.ofList (word.toList.drop 2)] ++ behindEquals

def usage : String :=
  "Usage: schema_infer parse [-c CONFIG] EXPRESSION\n"
    ++ "       schema_infer merge|analyze [-c CONFIG] [-o OUTPUT] [--report] [--snapshots]"
    ++ " SAMPLES..."

/-- The workspace with what stands on disk at a place, if anything does. -/
def look (w : Workspace) (place : Place) : IO Workspace := do
  let file := (← IO.currentDir) / fullPath place
  if ← file.isDir then return { w with directories := place :: w.directories }
  else if ← file.pathExists then
    try
      let text ← IO.FS.readFile file
      return { w with files := Workspace.putFile place text w.files }
    catch _ => return w
  else return w

def lookAround (w : Workspace) (words : List String) : IO Workspace :=
  (words.flatMap namedPaths).foldlM (fun w path => do
    let place := w.resolve path
    look (← look w place) place.dropLast) w

def store (before after : Workspace) : IO Unit := do
  for (place, text) in after.files do
    if before.files.lookup place != some text then
      IO.FS.writeFile (fullPath place) text

def execute (words : List String) : IO Nat := do
  let directory := (← IO.currentDir).toString
  let w : Workspace := { root := namesIn directory, files := [] }
  let w ← lookAround w words
  let outcome := CommandLine.run w words
  store w outcome.workspace
  IO.print outcome.stdout
  IO.eprint outcome.stderr
  if outcome.exitCode = 2 then IO.eprintln usage
  if let some cause := outcome.interruption then
    let text := cause.text
    IO.eprintln s!"Error: {text}"
  return outcome.exitCode

end Schemata

def main (words : List String) : IO UInt32 := do
  return UInt32.ofNat (← Schemata.execute words)

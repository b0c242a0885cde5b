import Schemata.CommandLine.Workspace
import Schemata.Fault

/-!
# What a run does

A run reads files, prints, and writes files, one step after the other, until it is done or something
stops it. What has been printed and written by then stays: nothing is taken back when a run is
stopped.

## Main definitions

* `Stop`: why a run ends without a result.
* `Traces`: what is printed, and the files as they are.
* `Run`: steps that leave traces and can be stopped; `Run.start` takes them from given traces on.
* `Run.workspace`, `Run.print`, `Run.openFile`, `Run.putText`: the steps that see or change traces.

## Implementation notes

A file is written in two steps. Opening it can fail, and empties the file when it does not; its text
is put into it after that. This cannot fail any more, because a text is a sequence of characters
each of which can be encoded.
-/

namespace Schemata

/-- What stops a run without a message of its own. -/
inductive Interruption where
  | fault (fault : Fault)
  | undecodableSettings
  | readsDirectory
  /-- No path holds the character of code 0. -/
  | brokenPath
  | obstacle (obstacle : Workspace.Obstacle)

def Interruption.text : Interruption → String
  | .fault .notAnObject => "the settings are not an object"
  | .fault cause => cause.message?.getD "a value does not fit its use"
  | .undecodableSettings => "the settings are not JSON"
  | .readsDirectory => "a directory cannot be read as a file"
  | .brokenPath => "a path holds a character that no path can hold"
  | .obstacle .isDirectory => "the output is a directory"
  | .obstacle .notDirectory => "the output lies below a file"
  | .obstacle .missingDirectory => "the directory of the output does not exist"
  | .obstacle .nameTooLong => "a name is too long"

inductive Stop where
  /-- The words fit no command, or a file to be read is not there. -/
  | usage
  | refused (message : String)
  | interrupted (cause : Interruption)

structure Traces where
  stdout : String
  workspace : Workspace

abbrev Run := ExceptT Stop (StateM Traces)

namespace Run

variable {α β : Type}

/-- How a run that starts from these traces ends, and the traces it leaves. -/
def start (m : Run α) (t : Traces) : Except Stop α × Traces := (StateT.run (ExceptT.run m) t).run

/-! ### Steps -/

/-- The files as they are now. -/
def workspace : Run Workspace := return (← get).workspace

def print (text : String) : Run Unit := modify fun t => { t with stdout := t.stdout ++ text }

/-- Opens a file for writing, which makes it or empties it. -/
def openFile (place : Place) : Run Unit := do
  match (← workspace).obstacleTo place with
  | some obstacle => throw (.interrupted (.obstacle obstacle))
  | none => modify fun t => { t with workspace := t.workspace.put place "" }

/-- Puts a text into a file that has been opened. -/
def putText (place : Place) (text : String) : Run Unit :=
  modify fun t => { t with workspace := t.workspace.put place text }

/-! ### The steps, one after the other -/

@[simp] theorem start_pure (a : α) (t : Traces) : (pure a : Run α).start t = (.ok a, t) := rfl

@[simp] theorem start_throw (stop : Stop) (t : Traces) :
    (throw stop : Run α).start t = (.error stop, t) := rfl

@[simp] theorem start_workspace (t : Traces) : workspace.start t = (.ok t.workspace, t) := rfl

@[simp] theorem start_print (text : String) (t : Traces) :
    (print text).start t = (.ok (), { t with stdout := t.stdout ++ text }) := rfl

@[simp] theorem start_putText (place : Place) (text : String) (t : Traces) :
    (putText place text).start t =
      (.ok (), { t with workspace := t.workspace.put place text }) := rfl

/-- Steps that are stopped are followed by nothing. -/
theorem start_bind (m : Run α) (f : α → Run β) (t : Traces) :
    (m >>= f).start t = match m.start t with
      | (.ok a, t) => (f a).start t
      | (.error stop, t) => (.error stop, t) := by
  rcases h : m.start t with ⟨stop | a, t'⟩
  · rw [start] at h ⊢
    simp [ExceptT.run_bind, StateT.run_bind, h]
  · rw [start] at h ⊢
    simp [ExceptT.run_bind, StateT.run_bind, h, start]

@[simp] theorem start_openFile (place : Place) (t : Traces) :
    (openFile place).start t = match t.workspace.obstacleTo place with
      | some obstacle => (.error (.interrupted (.obstacle obstacle)), t)
      | none => (.ok (), { t with workspace := t.workspace.put place "" }) := by
  rw [openFile, start_bind, start_workspace]
  dsimp only
  split <;> rfl

end Run

end Schemata

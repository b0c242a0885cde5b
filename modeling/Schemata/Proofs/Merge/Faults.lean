import Schemata.Proofs.Merge.Defined
import Schemata.Proofs.Merge.Regular
import Schemata.Proofs.Schema.Checked
import Schemata.Proofs.Schema.Origin

/-!
# How merging fails

With integers for limits, merging loaded samples fails in two ways only: in a group of plain values
a format is a list or an object, or the limits admit an empty closed set and a group of strings has
no values. A group that jams is never passed over, so that the merge gives a result just when no
group on the way jams.

## Main results

* `merges_of_descends`: where merging gives a result, the groups on the way have one.
* `exists_merge_iff`: when merging well-formed samples gives a result.
* `Schema.wellFormed_of_load`: what is loaded from a well-formed value is well-formed.
* `merge_accounted`: what merging loaded samples can come to.
* `exists_merge_of_loaded`: it comes to a result when the limits admit no empty set and formats are
  plain.

## Implementation notes

A group that several samples come down to can jam although none of the samples is odd: two strings
of which nothing more is known do, when the lower limit is zero.
-/

namespace Schemata

variable {config : Config} {least greatest : Int} {samples group : List Schema}

/-! ### Groups on the way -/

theorem merges_of_descends_step {m : Schema} (h : Merges config samples m)
    (step : Descends samples group) : ∃ t, Merges config group t := by
  cases step with
  | property several objects found =>
    obtain ⟨properties, additional, -, names, merged, -, -⟩ := h.of_objects several objects
    rw [← names] at found
    obtain ⟨t, ht⟩ := Fields.mem_names_iff.mp found
    exact ⟨t, merged _ t ht⟩
  | further several objects found =>
    obtain ⟨properties, additional, -, -, -, absent, merged⟩ := h.of_objects several objects
    obtain ⟨t, ht⟩ := Option.ne_none_iff_exists'.mp (mt absent.mp found)
    exact ⟨t, merged t ht⟩
  | items several arrays found =>
    obtain ⟨items, -, absent, merged⟩ := h.of_arrays several arrays
    obtain ⟨t, ht⟩ := Option.ne_none_iff_exists'.mp (mt absent.mp found)
    exact ⟨t, merged t ht⟩

/-- Where merging gives a result, the groups on the way have one. -/
theorem merges_of_descends {m : Schema} (h : Merges config samples m)
    (reach : Relation.ReflTransGen Descends samples group) : ∃ t, Merges config group t := by
  induction reach with
  | refl => exact ⟨m, h⟩
  | tail _ step ih =>
    obtain ⟨t, ht⟩ := ih
    exact merges_of_descends_step ht step

/-- Samples that jam have no result. -/
theorem not_jams_of_merges (limits : config.IntegerLimits least greatest)
    (sound : ∀ s ∈ samples, s.SoundNode) {m : Schema} (h : Merges config samples m)
    (fault : Fault) : ¬ Jams least greatest samples fault := by
  rintro (⟨several, primitive, kinds, hs, nested⟩ | ⟨several, strings, bare, admitted⟩)
  · have merged := h.of_values several primitive kinds
    obtain ⟨format, hformat, -⟩ := mergePrimitives_cases primitive merged
    cases hformat.symm.trans (commonFormat_eq_error_iff.mpr ⟨rfl, _, hs, nested⟩)
  · obtain ⟨format, -, hm⟩ := mergeStrings_of_mergePrimitives (h.of_values several rfl strings)
    cases hm.symm.trans ((mergeStrings_eq_error_iff limits sound).mpr
      ⟨rfl, candidateValues_eq_nil_iff.mpr bare, admitted⟩)

/-- Merging well-formed samples gives a result just when no group on the way jams. -/
theorem exists_merge_iff (limits : config.IntegerLimits least greatest)
    (wf : ∀ s ∈ samples, s.WellFormed) :
    (∃ m, merge config samples = .ok m) ↔
      ¬ ∃ group fault, Relation.ReflTransGen Descends samples group ∧
        Jams least greatest group fault := by
  constructor
  · rintro ⟨m, hm⟩ ⟨group, fault, reach, jams⟩
    obtain ⟨t, ht⟩ := merges_of_descends (merges_of_merge hm) reach
    have sound : ∀ s ∈ group, s.SoundNode := fun s hs =>
      forall_nodes_of_descends reach wf s hs s s.self_mem_nodes
    exact not_jams_of_merges limits sound ht fault jams
  · intro free
    cases h : merge config samples with
    | ok m => exact ⟨m, rfl⟩
    | error fault =>
      obtain ⟨group, reach, jams⟩ := exists_jams_of_merge limits wf h
      exact absurd ⟨group, fault, reach, jams⟩ free

/-! ### Loaded samples -/

namespace Schema

variable {refPrefix path : String} {v : Json} {s : Schema}

theorem wellFormed_entry {object : Fields Json} (wf : (Json.obj object).WellFormed)
    (name : String) : (entry name object).WellFormed := by
  rw [entry]
  cases h : object.lookup name with
  | none => trivial
  | some w => exact (Json.wellFormed_obj_iff.mp wf).2 _ (Fields.mem_of_lookup_eq_some h)

theorem ReadFrom.soundNode {object : Fields Json} (h : s.ReadFrom object)
    (wf : (Json.obj object).WellFormed) : s.SoundNode where
  kind := h.concrete
  names := by
    rcases h.names with hnil | ⟨below, hbelow, heq⟩
    · rw [hnil]
      exact List.nodup_nil
    · rw [heq]
      exact (Json.wellFormed_obj_iff.mp ((Json.wellFormed_obj_iff.mp wf).2 _ hbelow)).1
  exemplar := by
    rcases h.exemplar with heq | heq
    · rw [heq]
      trivial
    · rw [heq]
      exact wellFormed_entry wf "example"
  enum := by
    intro values hvalues v hv
    rcases h.enum with heq | heq
    · cases heq.symm.trans hvalues
    · rw [heq, enumEntry] at hvalues
      split at hvalues
      · cases hvalues
      · next given _ hgiven =>
        cases hvalues
        have list := wellFormed_entry wf "enum"
        rw [hgiven] at list
        exact Json.wellFormed_arr_iff.mp list v (Json.mem_of_mem_distinct hv)
      · cases hvalues

/-- What is loaded from a well-formed value is well-formed. -/
theorem wellFormed_of_load (wf : v.WellFormed) (h : load (.str refPrefix) path v = .ok s) :
    s.WellFormed := by
  intro t ht
  obtain ⟨object, within, read⟩ := readWithin_of_load h t ht
  exact read.soundNode (within.wellFormed wf)

/-- What is loaded has the formats of the value. -/
theorem plainFormats_of_load (plain : ∀ object, ObjectWithin object v →
      ¬ Nested (entry "format" object)) (h : load (.str refPrefix) path v = .ok s) :
    s.PlainFormats := by
  intro t ht
  obtain ⟨object, within, read⟩ := readWithin_of_load h t ht
  rcases read.format with heq | heq
  · rw [heq]
    refine ⟨fun items h => ?_, fun fields h => ?_⟩
    · cases h
    · cases h
  · rw [heq]
    exact ⟨fun items e => plain object within (.inl ⟨items, e⟩),
      fun fields e => plain object within (.inr ⟨fields, e⟩)⟩

end Schema

/-- Samples whose formats are neither lists nor objects are merged, whatever else they hold, as long
as the limits admit no empty closed set. -/
theorem exists_merge_of_loaded (limits : config.EnumLimits least greatest) {refPrefix : String}
    (loaded : ∀ s ∈ samples, ∃ path v, v.WellFormed ∧
      (∀ object, Schema.ObjectWithin object v → ¬ Schema.Nested (Schema.entry "format" object)) ∧
        Schema.load (.str refPrefix) path v = .ok s) :
    ∃ m, merge config samples = .ok m := by
  refine exists_merge limits (fun s hs => ?_) fun s hs => ?_
  · obtain ⟨path, v, hv, -, hload⟩ := loaded s hs
    exact Schema.wellFormed_of_load hv hload
  · obtain ⟨path, v, -, plain, hload⟩ := loaded s hs
    exact Schema.plainFormats_of_load plain hload

/-- Merging loaded samples gives a result just when no group on the way jams; a fault is that of a
group that does. Where there is a result, none of its nodes would have failed its checks. -/
theorem merge_accounted (limits : config.IntegerLimits least greatest) {refPrefix : String}
    (loaded : ∀ s ∈ samples, ∃ path v, v.WellFormed ∧ Schema.load (.str refPrefix) path v = .ok s) :
    ((∃ m, merge config samples = .ok m) ↔
      ¬ ∃ group fault, Relation.ReflTransGen Descends samples group ∧
        Jams least greatest group fault) ∧
    (∀ fault, merge config samples = .error fault → ∃ group,
      Relation.ReflTransGen Descends samples group ∧ Jams least greatest group fault) ∧
    ∀ m, merge config samples = .ok m → ∀ t ∈ m.nodes, t.checked = .ok t := by
  have wf : ∀ s ∈ samples, s.WellFormed := by
    intro s hs
    obtain ⟨path, v, hv, hload⟩ := loaded s hs
    exact Schema.wellFormed_of_load hv hload
  have regular : ∀ s ∈ samples, s.Regular refPrefix := by
    intro s hs
    obtain ⟨path, v, -, hload⟩ := loaded s hs
    exact Schema.regular_of_load hload
  refine ⟨exists_merge_iff limits wf, fun fault => exists_jams_of_merge limits wf, ?_⟩
  intro m hm t ht
  exact ((regular_of_merge hm regular).of_mem_nodes t ht).checked

/-- A string of which an example is known. -/
def loadedName (text : String) : Schema :=
  .string { exemplar := .str text, nullable := .bool false }

theorem load_loadedName (text : String) :
    Schema.load (.str "#/components/schemas/") "#"
      (.obj [("type", .str "string"), ("example", .str text)]) = .ok (loadedName text) := by
  rw [Schema.load]
  rfl

theorem merge_accounted_names :
    (∀ s ∈ [loadedName "ann", loadedName "bob"], ∃ path v, v.WellFormed ∧
      Schema.load (.str "#/components/schemas/") path v = .ok s) ∧
    ∃ m, merge {} [loadedName "ann", loadedName "bob"] = .ok m := by
  have loaded : ∀ s ∈ [loadedName "ann", loadedName "bob"], ∃ path v, v.WellFormed ∧
      Schema.load (.str "#/components/schemas/") path v = .ok s := by
    have name : ∀ text, ∃ path v, v.WellFormed ∧
        Schema.load (.str "#/components/schemas/") path v = .ok (loadedName text) := by
      intro text
      refine ⟨"#", _, ?_, load_loadedName text⟩
      simp [Json.WellFormed, Json.FieldsWellFormed]
    exact List.forall_mem_cons.mpr ⟨name _, List.forall_mem_singleton.mpr (name _)⟩
  have limits : Config.IntegerLimits {} 2 10 := ⟨rfl, rfl⟩
  refine ⟨loaded, (merge_accounted limits loaded).1.mpr ?_⟩
  rintro ⟨group, fault, reach, jams⟩
  have here : group = [loadedName "ann", loadedName "bob"] := by
    rcases reach.cases_head with heq | ⟨next, step, -⟩
    · exact heq.symm
    · cases step with
      | property _ objects | further _ objects => cases objects _ List.mem_cons_self
      | items _ arrays => cases arrays _ List.mem_cons_self
  subst here
  cases jams with
  | format _ _ _ hs nested =>
    have plain : ∀ text, ¬ Schema.Nested (loadedName text).format := by
      rintro text (⟨items, h⟩ | ⟨fields, h⟩)
      · cases h
      · cases h
    rcases List.mem_pair.mp hs with rfl | rfl
    · exact plain _ nested
    · exact plain _ nested
  | emptySet _ _ _ admitted => exact absurd admitted.1 (by decide)

/-- A list where a format is expected is loaded, and then cannot be compared; a lower limit of zero
lets strings without values through to a closed set of nothing. -/
theorem merge_fails_of_loaded :
    (Schema.load (.str "#/components/schemas/") "#"
        (.obj [("type", .str "integer"), ("format", .arr [.str "int32"])]) =
          .ok (.number { integer := .bool true, format := .arr [.str "int32"],
                         nullable := .bool false }) ∧
      Schema.load (.str "#/components/schemas/") "#"
        (.obj [("type", .str "integer"), ("format", .arr [.str "int32"]), ("example", .int 3)]) =
          .ok (.number { integer := .bool true, format := .arr [.str "int32"],
                         exemplar := .int 3, nullable := .bool false }) ∧
      merge {} [.number { integer := .bool true, format := .arr [.str "int32"],
                          nullable := .bool false },
                .number { integer := .bool true, format := .arr [.str "int32"],
                          exemplar := .int 3, nullable := .bool false }] = .error .illTyped) ∧
    Schema.load (.str "#/components/schemas/") "#" (.obj [("type", .str "string")]) =
        .ok (.string { nullable := .bool false }) ∧
      merge { enumMinValues := .int 0 }
        [.string { nullable := .bool false }, .string { nullable := .bool false }] =
          .error (.inconsistent .emptyEnum) := by
  refine ⟨⟨?_, ?_, ?_⟩, ?_, ?_⟩
  · rw [Schema.load]
    rfl
  · rw [Schema.load]
    rfl
  · rw [merge_cons_cons]
    rfl
  · rw [Schema.load]
    rfl
  · have limits : Config.IntegerLimits { enumMinValues := .int 0 } 0 10 := ⟨rfl, rfl⟩
    have sound : ∀ s ∈ [Schema.string { nullable := .bool false },
        .string { nullable := .bool false }], s.SoundNode := by
      have one : (Schema.string { nullable := .bool false }).SoundNode := by
        refine ⟨Kind.noConfusion, List.nodup_nil, trivial, fun values closed => ?_⟩
        cases closed
      exact List.forall_mem_cons.mpr ⟨one, List.forall_mem_singleton.mpr one⟩
    rw [merge_cons_cons]
    exact (mergeStrings_eq_error_iff limits sound).mpr ⟨rfl, rfl, by decide⟩

end Schemata

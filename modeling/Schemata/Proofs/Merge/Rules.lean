import Schemata.Samples.Merge
import Schemata.Proofs.Schema.Check

/-!
# The rules of merging

Merging takes one of six ways, by how many samples there are and of which kinds. The relation of
this module has a rule for each way; what holds of every result of merging is shown by induction on
it, and the function is not opened again.

## Main definitions

* `propertyGroup`: the schemas that samples have for a property.
* `requiredNames`: the names of the properties that all samples have.
* `Merges`: `Merges config samples s` when `s` comes of merging `samples`.

## Main results

* `merges_of_merge`: whatever `merge` returns comes of its samples by the rules.
* `Merges.of_objects` and its like: of several samples the kinds tell which rule applies.
* `mem_requiredNames_iff`: what is required of a merged object.
* `propertyGroup_eq`: a group holds one schema of each sample that has the property.
-/

namespace Schemata

/-! ### Groups of properties -/

/-- The schemas that samples have for a property, in the order of the samples. -/
def propertyGroup (name : String) (samples : List Schema) : List Schema :=
  Fields.under name (samples.flatMap Schema.properties)

/-- The names of the properties that all samples have, in first-seen order. -/
def requiredNames (samples : List Schema) : List String :=
  Schema.texts (sharedNames samples.length (propertyGroups samples))

theorem mem_propertyGroups_iff {samples : List Schema} {name : String} {group : List Schema} :
    (name, group) ∈ propertyGroups samples ↔
      name ∈ Fields.names (propertyGroups samples) ∧ group = propertyGroup name samples := by
  rw [propertyGroups, Fields.mem_gather_iff, Fields.names_gather, Fields.mem_firstSeen,
    propertyGroup]

theorem nodup_names_propertyGroups (samples : List Schema) :
    (Fields.names (propertyGroups samples)).Nodup :=
  Fields.nodup_names_gather _

theorem names_propertyGroups (samples : List Schema) :
    Fields.names (propertyGroups samples) =
      Fields.firstSeen (samples.flatMap fun s => Fields.names s.properties) := by
  rw [propertyGroups, Fields.names_gather, Fields.names, List.map_flatMap]
  rfl

theorem mem_names_propertyGroups_iff {samples : List Schema} {name : String} :
    name ∈ Fields.names (propertyGroups samples) ↔
      ∃ s ∈ samples, name ∈ Fields.names s.properties := by
  rw [names_propertyGroups, Fields.mem_firstSeen, List.mem_flatMap]

theorem mem_propertyGroup_iff {samples : List Schema} {name : String} {s : Schema} :
    s ∈ propertyGroup name samples ↔ ∃ sample ∈ samples, (name, s) ∈ sample.properties := by
  rw [propertyGroup, Fields.mem_under, List.mem_flatMap]

theorem propertyGroup_ne_nil {samples : List Schema} {name : String}
    (h : name ∈ Fields.names (propertyGroups samples)) :
    propertyGroup name samples ≠ [] := by
  obtain ⟨s, hs, hname⟩ := mem_names_propertyGroups_iff.mp h
  obtain ⟨t, ht⟩ := Fields.mem_names_iff.mp hname
  exact List.ne_nil_of_mem (mem_propertyGroup_iff.mpr ⟨s, hs, Fields.mem_of_lookup_eq_some ht⟩)

theorem propertyGroup_eq {samples : List Schema}
    (nodup : ∀ s ∈ samples, (Fields.names s.properties).Nodup) (name : String) :
    propertyGroup name samples = samples.filterMap fun s => s.properties.lookup name :=
  Fields.under_flatMap nodup name

theorem heightOfAll_propertyGroup_lt {samples : List Schema} {name : String} (hne : samples ≠ [])
    (h : name ∈ Fields.names (propertyGroups samples)) :
    Schema.heightOfAll (propertyGroup name samples) < Schema.heightOfAll samples := by
  have group : (name, propertyGroup name samples) ∈ propertyGroups samples :=
    mem_propertyGroups_iff.mpr ⟨h, rfl⟩
  exact heightOfAll_group_lt hne group

theorem requiredNames_eq (samples : List Schema) :
    requiredNames samples =
      ((propertyGroups samples).filter fun group => group.2.length == samples.length).map
        Prod.fst := by
  rw [requiredNames, sharedNames, Schema.texts_map_str]

theorem requiredNames_eq_filter (samples : List Schema) :
    requiredNames samples = (Fields.names (propertyGroups samples)).filter fun name =>
      (propertyGroup name samples).length == samples.length := by
  rw [requiredNames_eq, Fields.names, List.filter_map]
  congr 1
  refine List.filter_congr fun group hgroup => ?_
  obtain ⟨-, hlist⟩ := mem_propertyGroups_iff.mp hgroup
  rw [hlist]
  rfl

theorem nodup_requiredNames (samples : List Schema) : (requiredNames samples).Nodup := by
  rw [requiredNames_eq]
  exact (nodup_names_propertyGroups _).sublist (List.filter_sublist.map _)

theorem mem_requiredNames_iff {samples : List Schema} {name : String} :
    name ∈ requiredNames samples ↔
      name ∈ Fields.names (propertyGroups samples) ∧
        (propertyGroup name samples).length = samples.length := by
  rw [requiredNames_eq, List.mem_map]
  constructor
  · rintro ⟨⟨n, group⟩, h, rfl⟩
    rw [List.mem_filter, mem_propertyGroups_iff] at h
    obtain ⟨⟨hn, rfl⟩, hl⟩ := h
    exact ⟨hn, by simpa using hl⟩
  · rintro ⟨hn, hl⟩
    refine ⟨(name, propertyGroup name samples), ?_, rfl⟩
    rw [List.mem_filter, mem_propertyGroups_iff]
    exact ⟨⟨hn, rfl⟩, by simpa using hl⟩

/-- A property is required when no sample lacks it. -/
theorem mem_requiredNames_iff_forall {samples : List Schema} (hne : samples ≠ [])
    (nodup : ∀ s ∈ samples, (Fields.names s.properties).Nodup) {name : String} :
    name ∈ requiredNames samples ↔ ∀ s ∈ samples, name ∈ Fields.names s.properties := by
  rw [mem_requiredNames_iff, mem_names_propertyGroups_iff, propertyGroup,
    Fields.length_under_flatMap_eq_iff nodup]
  refine and_iff_right_of_imp fun h => ?_
  obtain ⟨s, rest, rfl⟩ := List.exists_cons_of_ne_nil hne
  exact ⟨s, List.mem_cons_self, h s List.mem_cons_self⟩

/-! ### The rules -/

namespace Kind

/-- Samples of this kind are merged into one node; samples of another stay apart even when they are
of one kind. -/
def IsJoined (kind : Kind) : Prop :=
  kind = .object ∨ kind = .array ∨ kind.isPrimitive = true

end Kind

inductive Merges (config : Config) : List Schema → Schema → Prop
  | nothing : Merges config [] .anyObject
  | alone {s t : Schema} (finished : finish config s = .ok t) : Merges config [s] t
  /-- Samples of several kinds, or of a kind that is not joined, are the alternatives. -/
  | apart {samples variants : List Schema} (several : 2 ≤ samples.length)
      (kinds : ∀ s ∈ samples, s.kind ≠ .abstract)
      (unlike : ¬ ∃ kind : Kind, kind.IsJoined ∧ ∀ s ∈ samples, s.kind = kind)
      (finished : finishAll config samples = .ok variants) :
      Merges config samples (.oneOf variants)
  | objects {samples : List Schema} {properties : Fields Schema} {additional : Option Schema}
      (several : 2 ≤ samples.length) (kinds : ∀ s ∈ samples, s.kind = .object)
      (names : Fields.names properties = Fields.names (propertyGroups samples))
      (merged : ∀ name s, properties.lookup name = some s →
        Merges config (propertyGroup name samples) s)
      (absent : additional = none ↔ samples.filterMap Schema.additional = [])
      (further : ∀ s, additional = some s →
        Merges config (samples.filterMap Schema.additional) s) :
      Merges config samples (.object properties (requiredNames samples) additional
        (.bool (samples.any fun s => s.nullable.truthy)))
  | arrays {samples : List Schema} {items : Option Schema} (several : 2 ≤ samples.length)
      (kinds : ∀ s ∈ samples, s.kind = .array)
      (absent : items = none ↔ samples.filterMap Schema.items = [])
      (merged : ∀ s, items = some s → Merges config (samples.filterMap Schema.items) s) :
      Merges config samples (.array items {})
  | values {samples : List Schema} {kind : Kind} {s : Schema} (several : 2 ≤ samples.length)
      (primitive : kind.isPrimitive = true) (kinds : ∀ s ∈ samples, s.kind = kind)
      (merged : mergePrimitives config kind samples = .ok s) : Merges config samples s

/-! ### Results come by the rules -/

variable {config : Config}

theorem groups_of_mapM {f : List Schema → Except Fault Schema}
    {groups : Fields (List Schema)} {properties : Fields Schema}
    (h : (groups.mapM fun (group : String × List Schema) => do return (group.1, ← f group.2)) =
      .ok properties) :
    Fields.names properties = Fields.names groups ∧
      ∀ name s, (name, s) ∈ properties → ∃ group, (name, group) ∈ groups ∧ f group = .ok s := by
  have pairs : List.Forall₂ (fun (group : String × List Schema) (property : String × Schema) =>
      property.1 = group.1 ∧ f group.2 = .ok property.2) groups properties := by
    refine (Fault.mapM_eq_ok_iff.mp h).imp fun group property hp => ?_
    obtain ⟨s, hs, heq⟩ := Fault.bind_eq_ok_iff.mp hp
    cases Fault.pure_eq_ok_iff.mp heq
    exact ⟨rfl, hs⟩
  clear h
  induction pairs with
  | nil => exact ⟨rfl, fun _ _ h => absurd h List.not_mem_nil⟩
  | @cons group property groups properties hp _ ih =>
    refine ⟨?_, fun name s hs => ?_⟩
    · rw [Fields.names, Fields.names, List.map_cons, List.map_cons, hp.1]
      exact congrArg _ ih.1
    · rcases List.mem_cons.mp hs with rfl | hs
      · exact ⟨group.2, List.mem_cons.mpr (.inl (Prod.ext hp.1 rfl)), hp.2⟩
      · obtain ⟨below, hb, hf⟩ := ih.2 name s hs
        exact ⟨below, List.mem_cons_of_mem _ hb, hf⟩

/-! The samples to which merging goes down have smaller trees, so that the rules are known to hold
of them when they are shown for the samples above. -/

private theorem merges_objects {samples : List Schema} {s : Schema}
    (several : 2 ≤ samples.length) (kinds : ∀ s ∈ samples, s.kind = .object)
    (ih : ∀ below t, Schema.heightOfAll below < Schema.heightOfAll samples →
      merge config below = .ok t → Merges config below t)
    (h : (do
      let properties ← (propertyGroups samples).mapM fun (group : String × List Schema) => do
        return (group.1, ← merge config group.2)
      let additional ← if (samples.filterMap Schema.additional).isEmpty then pure none
        else some <$> merge config (samples.filterMap Schema.additional)
      Schema.objectNode properties (sharedNames samples.length (propertyGroups samples)) additional
        (.bool (samples.any fun s => s.nullable.truthy))) = .ok s) :
    Merges config samples s := by
  have hne : samples ≠ [] := by
    rintro rfl
    simp at several
  obtain ⟨properties, hp, h⟩ := Fault.bind_eq_ok_iff.mp h
  obtain ⟨names, groups⟩ := groups_of_mapM hp
  have merged : ∀ name s, properties.lookup name = some s →
      Merges config (propertyGroup name samples) s := by
    intro name s hs
    obtain ⟨group, hg, hm⟩ := groups name s (Fields.mem_of_lookup_eq_some hs)
    obtain ⟨hn, rfl⟩ := mem_propertyGroups_iff.mp hg
    exact ih _ _ (heightOfAll_propertyGroup_lt hne hn) hm
  dsimp only at h
  split at h
  · next hempty =>
    obtain ⟨additional, ha, h⟩ := Fault.bind_eq_ok_iff.mp h
    obtain rfl := Fault.pure_eq_ok_iff.mp ha
    obtain ⟨rfl, -⟩ := Schema.objectNode_eq_ok_iff.mp h
    exact .objects several kinds names merged (by simpa using hempty)
      fun s hs => absurd hs.symm (Option.some_ne_none s)
  · next hsome =>
    obtain ⟨additional, ha, h⟩ := Fault.bind_eq_ok_iff.mp h
    obtain ⟨t, ht, rfl⟩ := Fault.map_eq_ok_iff.mp ha
    obtain ⟨rfl, -⟩ := Schema.objectNode_eq_ok_iff.mp h
    have absent : some t = none ↔ samples.filterMap Schema.additional = [] := by
      simpa using hsome
    refine .objects several kinds names merged absent fun s hs => ?_
    obtain rfl := Option.some.inj hs
    exact ih _ _ (heightOfAll_additional_lt hne) ht

private theorem merges_arrays {samples : List Schema} {s : Schema}
    (several : 2 ≤ samples.length) (kinds : ∀ s ∈ samples, s.kind = .array)
    (ih : ∀ below t, Schema.heightOfAll below < Schema.heightOfAll samples →
      merge config below = .ok t → Merges config below t)
    (h : (if (samples.filterMap Schema.items).isEmpty then return Schema.array none {}
      else return Schema.array (some (← merge config (samples.filterMap Schema.items))) {}) =
        Except.ok s) :
    Merges config samples s := by
  have hne : samples ≠ [] := by
    rintro rfl
    simp at several
  split at h
  · next hempty =>
    obtain rfl := Fault.pure_eq_ok_iff.mp h
    exact .arrays several kinds (by simpa using hempty)
      fun s hs => absurd hs.symm (Option.some_ne_none s)
  · next hsome =>
    obtain ⟨t, ht, h⟩ := Fault.bind_eq_ok_iff.mp h
    obtain rfl := Fault.pure_eq_ok_iff.mp h
    have absent : some t = none ↔ samples.filterMap Schema.items = [] := by
      simpa using hsome
    refine .arrays several kinds absent fun s hs => ?_
    obtain rfl := Option.some.inj hs
    exact ih _ _ (heightOfAll_items_lt hne) ht

private theorem merges_apart {samples : List Schema} {s : Schema} (several : 2 ≤ samples.length)
    (kinds : ∀ s ∈ samples, s.kind ≠ .abstract)
    (unlike : ¬ ∃ kind : Kind, kind.IsJoined ∧ ∀ s ∈ samples, s.kind = kind)
    (h : (do return Schema.oneOf (← finishAll config samples)) = Except.ok s) :
    Merges config samples s := by
  obtain ⟨variants, hv, h⟩ := Fault.bind_eq_ok_iff.mp h
  obtain rfl := Fault.pure_eq_ok_iff.mp h
  exact .apart several kinds unlike hv

theorem merges_of_merge {samples : List Schema} {s : Schema} (h : merge config samples = .ok s) :
    Merges config samples s := by
  induction hn : Schema.heightOfAll samples using Nat.strongRecOn generalizing samples s with
  | _ n ih =>
    subst hn
    match samples, h with
    | [], h =>
      rw [merge_nil] at h
      cases h
      exact .nothing
    | [one], h =>
      rw [merge_singleton] at h
      exact .alone h
    | first :: second :: others, h =>
      rw [merge_cons_cons] at h
      have several : 2 ≤ (first :: second :: others).length := by simp
      have hfirst : first ∈ first :: second :: others := List.mem_cons_self
      generalize first :: second :: others = samples at *
      have below : ∀ below t, Schema.heightOfAll below < Schema.heightOfAll samples →
          merge config below = .ok t → Merges config below t := fun _ _ hlt ht => ih _ hlt ht rfl
      dsimp only at h
      split at h
      · cases h
      next hconcrete =>
      have kinds : ∀ s ∈ samples, s.kind ≠ .abstract := by simpa using hconcrete
      split at h
      · next hunlike =>
        refine merges_apart several kinds ?_ h
        rintro ⟨kind, -, alike⟩
        obtain ⟨s, hs, hne⟩ := List.any_eq_true.mp hunlike
        rw [alike s hs, alike first hfirst] at hne
        simp at hne
      next hsame =>
      have alike : ∀ s ∈ samples, s.kind = first.kind := by simpa using hsame
      split at h
      · next hkind => exact merges_objects several (fun s hs => hkind ▸ alike s hs) below h
      next hobject =>
      split at h
      · next hkind => exact merges_arrays several (fun s hs => hkind ▸ alike s hs) below h
      next harray =>
      split at h
      · next hkind => exact .values several hkind alike h
      · next hprimitive =>
        refine merges_apart several kinds ?_ h
        rintro ⟨kind, hjoined, hall⟩
        rw [← hall first hfirst] at hjoined
        rcases hjoined with hk | hk | hk
        · exact hobject hk
        · exact harray hk
        · exact hprimitive hk

/-- Several samples of one kind of plain values are merged by their values. -/
theorem merge_of_values {samples : List Schema} (several : 2 ≤ samples.length) {kind : Kind}
    (primitive : kind.isPrimitive = true) (values : ∀ s ∈ samples, s.kind = kind) :
    merge config samples = mergePrimitives config kind samples := by
  match samples, several, values with
  | first :: second :: others, _, values =>
    have hfirst : first.kind = kind := values first List.mem_cons_self
    rw [merge_cons_cons]
    generalize first :: second :: others = samples at *
    have concrete : (samples.any (·.kind = .abstract)) = false := by
      rw [List.any_eq_false]
      intro s hs habstract
      rw [← values s hs, of_decide_eq_true habstract] at primitive
      cases primitive
    have alike : (samples.any (·.kind ≠ first.kind)) = false := by
      rw [List.any_eq_false]
      intro s hs
      simp [values s hs, hfirst]
    have noObject : first.kind ≠ .object := by
      rintro hobject
      rw [← hfirst, hobject] at primitive
      cases primitive
    have noArray : first.kind ≠ .array := by
      rintro harray
      rw [← hfirst, harray] at primitive
      cases primitive
    dsimp only
    rw [concrete, alike, if_neg Bool.false_ne_true, if_neg Bool.false_ne_true, if_neg noObject,
      if_neg noArray, hfirst, if_pos primitive]

/-! ### Which rule applies

Of several samples the kinds tell by which rule a result comes of them. -/

section Inversion

variable {samples : List Schema} {m : Schema}

theorem kind_unique (several : 2 ≤ samples.length) {kind other : Kind}
    (kinds : ∀ s ∈ samples, s.kind = kind) (others : ∀ s ∈ samples, s.kind = other) :
    kind = other := by
  obtain ⟨s, hs⟩ := List.exists_mem_of_length_pos (l := samples) (by omega)
  rw [← kinds s hs, others s hs]

theorem Merges.of_nothing (h : Merges config [] m) : m = .anyObject := by
  cases h with
  | nothing => rfl
  | apart several => exact absurd several (by simp)
  | objects several => exact absurd several (by simp)
  | arrays several => exact absurd several (by simp)
  | values several => exact absurd several (by simp)

theorem Merges.of_alone {s : Schema} (h : Merges config [s] m) : finish config s = .ok m := by
  cases h with
  | alone finished => exact finished
  | apart several => exact absurd several (by simp)
  | objects several => exact absurd several (by simp)
  | arrays several => exact absurd several (by simp)
  | values several => exact absurd several (by simp)

theorem Merges.of_unlike (h : Merges config samples m) (several : 2 ≤ samples.length)
    (unlike : ¬ ∃ kind : Kind, kind.IsJoined ∧ ∀ s ∈ samples, s.kind = kind) :
    ∃ variants, m = .oneOf variants ∧ finishAll config samples = .ok variants := by
  cases h with
  | nothing => exact absurd several (by simp)
  | alone => exact absurd several (by simp)
  | apart _ _ _ finished => exact ⟨_, rfl, finished⟩
  | objects _ kinds => exact absurd ⟨_, .inl rfl, kinds⟩ unlike
  | arrays _ kinds => exact absurd ⟨_, .inr (.inl rfl), kinds⟩ unlike
  | values _ primitive kinds => exact absurd ⟨_, .inr (.inr primitive), kinds⟩ unlike

theorem Merges.of_objects (h : Merges config samples m) (several : 2 ≤ samples.length)
    (objects : ∀ s ∈ samples, s.kind = .object) :
    ∃ properties additional, m = .object properties (requiredNames samples) additional
        (.bool (samples.any fun s => s.nullable.truthy)) ∧
      Fields.names properties = Fields.names (propertyGroups samples) ∧
      (∀ name s, properties.lookup name = some s →
        Merges config (propertyGroup name samples) s) ∧
      (additional = none ↔ samples.filterMap Schema.additional = []) ∧
      ∀ s, additional = some s → Merges config (samples.filterMap Schema.additional) s := by
  cases h with
  | nothing => exact absurd several (by simp)
  | alone => exact absurd several (by simp)
  | apart _ _ unlike => exact absurd ⟨_, .inl rfl, objects⟩ unlike
  | objects _ _ names merged absent further => exact ⟨_, _, rfl, names, merged, absent, further⟩
  | arrays _ kinds => cases kind_unique several objects kinds
  | values _ primitive kinds =>
    cases kind_unique several objects kinds
    cases primitive

theorem Merges.of_arrays (h : Merges config samples m) (several : 2 ≤ samples.length)
    (arrays : ∀ s ∈ samples, s.kind = .array) :
    ∃ items, m = .array items {} ∧ (items = none ↔ samples.filterMap Schema.items = []) ∧
      ∀ s, items = some s → Merges config (samples.filterMap Schema.items) s := by
  cases h with
  | nothing => exact absurd several (by simp)
  | alone => exact absurd several (by simp)
  | apart _ _ unlike => exact absurd ⟨_, .inr (.inl rfl), arrays⟩ unlike
  | objects _ kinds => cases kind_unique several arrays kinds
  | arrays _ _ absent merged => exact ⟨_, rfl, absent, merged⟩
  | values _ primitive kinds =>
    cases kind_unique several arrays kinds
    cases primitive

theorem Merges.of_values (h : Merges config samples m) (several : 2 ≤ samples.length)
    {kind : Kind} (primitive : kind.isPrimitive = true) (values : ∀ s ∈ samples, s.kind = kind) :
    mergePrimitives config kind samples = .ok m := by
  cases h with
  | nothing => exact absurd several (by simp)
  | alone => exact absurd several (by simp)
  | apart _ _ unlike => exact absurd ⟨_, .inr (.inr primitive), values⟩ unlike
  | objects _ kinds =>
    cases kind_unique several values kinds
    cases primitive
  | arrays _ kinds =>
    cases kind_unique several values kinds
    cases primitive
  | values _ _ kinds merged =>
    cases kind_unique several values kinds
    exact merged

end Inversion

end Schemata

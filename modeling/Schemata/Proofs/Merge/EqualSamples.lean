import Schemata.Proofs.Merge.Faults
import Schemata.Proofs.Merge.Permuted
import Schemata.Proofs.Schema.Same

/-!
# Merging equal samples

Samples that are equal one by one need not be written alike: their properties can come in another
order, and `1`, `1.0` and `true` are one value. Merging mostly does not see the difference, so that
it gives equal schemas. It shows in three places, each in a node that merging makes:

* required names are listed in the order in which the samples list their properties;
* a closed set is sorted by spelling, so that its order depends on how the values are written;
* a range is of numbers only, so that it leaves `true` out but takes `1` in.

## Main definitions

* `MergedAlike`: two schemas merged from equal samples differ in these places only.

## Main results

* `forall₂_observedValues`, `forall₂_candidateValues`: equal samples have equal values, one by one.
* `mergedAlike_of_merges`: whatever comes by the rules of equal samples is alike.
* `mergedAlike_of_same`: merging equal samples that were loaded gives schemas that are alike.
* `merge_tells_apart`: the results do differ in each of the three places.
-/

namespace Schemata

/-- Two schemas merged from `samples` and from `others` are equal, but for the order of required
names where the samples list properties in another order, for the order of a closed set where its
values are spelt in another way, and for a range where a value is a number on one side only. -/
inductive MergedAlike : List Schema → List Schema → Schema → Schema → Prop
  | same {samples others : List Schema} {s t : Schema} (same : s.same t = true) :
      MergedAlike samples others s t
  | object {samples others : List Schema} {properties properties' : Fields Schema}
      {required required' : List String} {additional additional' : Option Schema} {nullable : Json}
      (several : 2 ≤ samples.length) (kinds : ∀ s ∈ samples, s.kind = .object)
      (names : (Fields.names properties).Perm (Fields.names properties'))
      (nodup : (Fields.names properties).Nodup)
      (below : ∀ name s t, properties.lookup name = some s → properties'.lookup name = some t →
        MergedAlike (propertyGroup name samples) (propertyGroup name others) s t)
      (known : required.Perm required')
      (listed : List.Forall₂ (fun s t => Fields.names s.properties = Fields.names t.properties)
        samples others → required = required')
      (absent : additional = none ↔ additional' = none)
      (further : ∀ s t, additional = some s → additional' = some t →
        MergedAlike (samples.filterMap Schema.additional) (others.filterMap Schema.additional)
          s t) :
      MergedAlike samples others (.object properties required additional nullable)
        (.object properties' required' additional' nullable)
  | array {samples others : List Schema} {items items' : Option Schema} {facets : ArrayFacets}
      (several : 2 ≤ samples.length) (kinds : ∀ s ∈ samples, s.kind = .array)
      (absent : items = none ↔ items' = none)
      (below : ∀ s t, items = some s → items' = some t →
        MergedAlike (samples.filterMap Schema.items) (others.filterMap Schema.items) s t) :
      MergedAlike samples others (.array items facets) (.array items' facets)
  | string {samples others : List Schema} {f g : StringFacets} {values values' : List Json}
      (several : 2 ≤ samples.length) (kinds : ∀ s ∈ samples, s.kind = .string)
      (closed : f.enum = some values) (closed' : g.enum = some values')
      (rearranged : Json.Rearranged values values')
      (spelt : List.Forall₂ (fun v w => v.display = w.display) (candidateValues samples)
        (candidateValues others) → Json.sameItems values values' = true)
      (same : StringFacets.same { f with enum := none } { g with enum := none } = true) :
      MergedAlike samples others (.string f) (.string g)
  | number {samples others : List Schema} {f g : NumberFacets} (several : 2 ≤ samples.length)
      (kinds : ∀ s ∈ samples, s.kind = .number ∨ s.kind = .integer)
      (range : List.Forall₂ (fun v w => v.isNumber = w.isNumber) (observedValues samples)
        (observedValues others) →
          f.minimum.same g.minimum = true ∧ f.maximum.same g.maximum = true)
      (same : NumberFacets.same { f with minimum := .null, maximum := .null }
        { g with minimum := .null, maximum := .null } = true) :
      MergedAlike samples others (.number f) (.number g)

/-! ### Lists of equal values -/

section Lists

variable {values others : List Json}

theorem same_headD (equal : List.Forall₂ Json.Equal values others) :
    (values.headD .null).same (others.headD .null) = true := by
  cases equal with
  | nil => rfl
  | cons h _ => exact h.same

theorem rearranged_of_forall₂ (equal : List.Forall₂ Json.Equal values others) :
    Json.Rearranged values others :=
  ⟨others, .refl _, Json.sameItems_iff.mpr (equal.imp fun _ _ h => h.same)⟩

/-- Equal values that are spelt alike are put in the same order: both lists are sorted as the list
of their pairs is. -/
theorem sameItems_sortBySpelling (equal : List.Forall₂ Json.Equal values others)
    (spelt : List.Forall₂ (fun v w => v.display = w.display) values others) :
    Json.sameItems (sortBySpelling values) (sortBySpelling others) = true := by
  let pairs := values.zip others
  let before (p q : Json × Json) : Bool := !(q.1.display < p.1.display)
  let spelling (v w : Json) : Bool := !(w.display < v.display)
  have left : (pairs.mergeSort before).map Prod.fst = sortBySpelling values := by
    have sorted : (pairs.mergeSort before).map Prod.fst =
        (pairs.map Prod.fst).mergeSort spelling := List.map_mergeSort fun _ _ _ _ => rfl
    rwa [List.map_fst_zip (Nat.le_of_eq equal.length_eq)] at sorted
  have right : (pairs.mergeSort before).map Prod.snd = sortBySpelling others := by
    have sorted : (pairs.mergeSort before).map Prod.snd =
        (pairs.map Prod.snd).mergeSort spelling := by
      refine List.map_mergeSort fun p hp q hq => ?_
      show (!(q.1.display < p.1.display)) = !(q.2.display < p.2.display)
      rw [List.forall₂_zip spelt hp, List.forall₂_zip spelt hq]
    rwa [List.map_snd_zip (Nat.le_of_eq equal.length_eq.symm)] at sorted
  rw [← left, ← right, Json.sameItems_iff, List.forall₂_map_left_iff, List.forall₂_map_right_iff,
    List.forall₂_same]
  intro p hp
  exact (List.forall₂_zip equal ((List.mergeSort_perm _ _).mem_iff.mp hp)).same

theorem exists_number_of_forall₂ (equal : List.Forall₂ Json.Equal values others)
    (numbers : List.Forall₂ (fun v w => v.isNumber = w.isNumber) values others) {v : Json}
    (h : v ∈ values.filter Json.isNumber) :
    ∃ w ∈ others.filter Json.isNumber, ∃ x, v.number? = some x ∧ w.number? = some x := by
  obtain ⟨hv, number⟩ := List.mem_filter.mp h
  have both := List.Forall₂.mp (fun _ _ => And.intro) equal numbers
  obtain ⟨w, hw, hvw, alike⟩ := exists_mem_of_forall₂ both hv
  obtain ⟨x, hx⟩ := Json.number?_of_isNumber number
  exact ⟨w, List.mem_filter.mpr ⟨hw, alike ▸ number⟩, x, hx, Json.number?_eq_of_same hx hvw.same⟩

end Lists

/-! ### Values of equal samples -/

section Values

variable {config : Config} {samples others : List Schema} {m n : Schema}
  (equal : List.Forall₂ Schema.Equal samples others)

include equal

theorem forall₂_exemplars :
    List.Forall₂ Json.Equal (samples.map Schema.exemplar) (others.map Schema.exemplar) :=
  List.rel_map (fun _ _ h => Schema.Equal.exemplar h) equal

theorem forall₂_observedValues :
    List.Forall₂ Json.Equal (observedValues samples) (observedValues others) := by
  refine Json.forall₂_foldl_addNew .nil
    (List.rel_filter (fun v w h => ?_) (forall₂_exemplars equal))
  show ((!v.isNull) = true) ↔ ((!w.isNull) = true)
  rw [Json.isNull_eq_of_same h.same]

theorem forall₂_candidateValues :
    List.Forall₂ Json.Equal (candidateValues samples) (candidateValues others) := by
  refine Json.forall₂_foldl_addNew (forall₂_observedValues equal)
    (List.rel_flatMap equal fun s t h => ?_)
  have enum := h.enum
  generalize s.enum = chosen at enum
  generalize t.enum = chosen' at enum
  cases enum with
  | none => exact .nil
  | some all => exact all

theorem any_nullable_eq :
    (samples.any fun s => s.nullable.truthy) = others.any fun s => s.nullable.truthy := by
  induction equal with
  | nil => rfl
  | cons h _ ih => rw [List.any_cons, List.any_cons, h.nullable_eq, ih]

theorem forall_kinds_iff {P : Kind → Prop} :
    (∀ s ∈ samples, P s.kind) ↔ ∀ t ∈ others, P t.kind := by
  induction equal with
  | nil => simp
  | cons h _ ih =>
    rw [List.forall_mem_cons, List.forall_mem_cons, ih, Schema.kind_eq_of_same h.same]

theorem same_commonFormat_of_equal {format format' : Json} (hne : samples ≠ [])
    (h : commonFormat samples = .ok format) (h' : commonFormat others = .ok format') :
    format.same format' = true := by
  have wf := wellFormed_of_commonFormat h
  have wf' := wellFormed_of_commonFormat h'
  have hne' : others ≠ [] := by
    rintro rfl
    exact hne (List.forall₂_nil_right_iff.mp equal)
  refine same_commonFormat_of_counterparts hne hne' h h' (fun s hs => ?_) fun t ht => ?_
  · obtain ⟨t, ht, hst⟩ := exists_mem_of_forall₂ equal hs
    exact ⟨t, ht, hst.same_format⟩
  · obtain ⟨s, hs, hst⟩ := exists_mem_of_forall₂ (R := fun t s => Schema.Equal s t) equal.flip ht
    exact ⟨s, hs, Json.same_symm (wf s hs) (wf' t ht) hst.same_format⟩

theorem mergedAlike_of_mergeStrings {format format' : Json} (several : 2 ≤ samples.length)
    (kinds : ∀ s ∈ samples, s.kind = .string) (same : format.same format' = true) (nullable : Bool)
    (h : mergeStrings config samples format nullable = .ok m)
    (h' : mergeStrings config others format' nullable = .ok n) :
    MergedAlike samples others m n := by
  have candidates := forall₂_candidateValues equal
  have sameMark : (Json.bool nullable).same (.bool nullable) = true := Json.same_refl trivial
  rcases mergeStrings_cases h with ⟨admitted, rfl⟩ | ⟨admitted, rfl⟩
  · rcases mergeStrings_cases h' with ⟨-, rfl⟩ | ⟨refused, -⟩
    · refine .string several kinds rfl rfl ?_ (sameItems_sortBySpelling candidates) ?_
      · exact (rearranged_of_forall₂ candidates).of_perm (sortBySpelling_perm _)
          (sortBySpelling_perm _).symm
      · exact StringFacets.same_iff.mpr ⟨same, .none, rfl, rfl, rfl, sameMark⟩
    · rw [candidates.length_eq, refused] at admitted
      cases admitted
  · rcases mergeStrings_cases h' with ⟨refused, -⟩ | ⟨-, rfl⟩
    · rw [candidates.length_eq, refused] at admitted
      cases admitted
    · have head := same_headD (forall₂_observedValues equal)
      exact .same (Schema.same_of_sameParts
        (.string (StringFacets.same_iff.mpr ⟨same, .none, head, rfl, rfl, sameMark⟩)))

theorem same_numericRange_of_equal
    (numbers : List.Forall₂ (fun v w => v.isNumber = w.isNumber) (observedValues samples)
      (observedValues others)) :
    (numericRange (observedValues samples)).1.same (numericRange (observedValues others)).1 = true ∧
      (numericRange (observedValues samples)).2.same
        (numericRange (observedValues others)).2 = true := by
  have observed := forall₂_observedValues equal
  refine same_numericRange_of_counterparts
    (fun v hv => exists_number_of_forall₂ observed numbers hv) fun w hw => ?_
  exact exists_number_of_forall₂ (Json.forall₂_symm observed)
    ((numbers.imp fun _ _ => Eq.symm).flip) hw

theorem mergedAlike_of_mergePrimitives {kind : Kind} (several : 2 ≤ samples.length)
    (primitive : kind.isPrimitive = true) (kinds : ∀ s ∈ samples, s.kind = kind)
    (h : mergePrimitives config kind samples = .ok m)
    (h' : mergePrimitives config kind others = .ok n) : MergedAlike samples others m n := by
  have hne : samples ≠ [] := List.ne_nil_of_length_pos (by omega)
  have head := same_headD (forall₂_observedValues equal)
  have sameMark : ∀ b, (Json.bool b).same (.bool b) = true := fun b => Json.same_refl trivial
  obtain ⟨format, hformat, h⟩ := mergePrimitives_cases primitive h
  obtain ⟨format', hformat', h'⟩ := mergePrimitives_cases primitive h'
  have common := same_commonFormat_of_equal equal hne hformat hformat'
  rw [← any_nullable_eq equal] at h'
  rcases h with ⟨rfl, hm⟩ | ⟨rfl, rfl⟩ | ⟨number, rfl⟩
  · obtain ⟨-, hn⟩ := h'.resolve_right (by simp)
    exact mergedAlike_of_mergeStrings equal several kinds common _ hm hn
  · obtain ⟨-, rfl⟩ := (h'.resolve_left (by simp)).resolve_right (by simp)
    refine .same (Schema.same_of_sameParts (.boolean ?_))
    simp only [BooleanFacets.same, head, sameMark, Bool.and_self]
  · have noString : kind ≠ .string := by rintro rfl; simp at number
    have noBoolean : kind ≠ .boolean := by rintro rfl; simp at number
    obtain ⟨-, rfl⟩ := (h'.resolve_left fun h => noString h.1).resolve_left fun h => noBoolean h.1
    refine .number several (fun s hs => kinds s hs ▸ number) (same_numericRange_of_equal equal) ?_
    simp only [NumberFacets.same, head, sameMark, common, Bool.and_self, Bool.and_true]
    rfl

end Values

/-! ### Below equal samples -/

section Below

variable {config : Config} {samples others : List Schema}

theorem same_of_finish {s t m n : Schema} (h : Schema.Equal s t) (hm : finish config s = .ok m)
    (hn : finish config t = .ok n) : m.same n = true := by
  rw [finish_of_wellFormed config h.left] at hm
  rw [finish_of_wellFormed config h.right] at hn
  obtain rfl := Except.ok.inj hm
  obtain rfl := Except.ok.inj hn
  cases config.includeExamples.truthy with
  | true => exact Schema.same_enrich h.same
  | false => exact h.same

theorem names_propertyGroups_eq
    (listed : List.Forall₂ (fun s t => Fields.names s.properties = Fields.names t.properties)
      samples others) :
    Fields.names (propertyGroups samples) = Fields.names (propertyGroups others) := by
  rw [names_propertyGroups, names_propertyGroups]
  congr 1
  induction listed with
  | nil => rfl
  | cons h _ ih => rw [List.flatMap_cons, List.flatMap_cons, h, ih]

variable (equal : List.Forall₂ Schema.Equal samples others)

include equal

theorem sameAll_of_finishAll {variants variants' : List Schema}
    (h : finishAll config samples = .ok variants) (h' : finishAll config others = .ok variants') :
    List.Forall₂ (fun s t => s.same t = true) variants variants' := by
  have finished := forall₂_of_finishAll h
  have finished' := forall₂_of_finishAll h'
  clear h h'
  induction equal generalizing variants variants' with
  | nil =>
    cases finished
    cases finished'
    exact .nil
  | cons hst _ ih =>
    cases finished with
    | cons hm rest =>
      cases finished' with
      | cons hn rest' => exact .cons (same_of_finish hst hm hn) (ih rest rest')

theorem forall₂_propertyGroup (name : String) :
    List.Forall₂ Schema.Equal (propertyGroup name samples) (propertyGroup name others) := by
  have nodup : ∀ s ∈ samples, (Fields.names s.properties).Nodup := fun s hs => by
    obtain ⟨t, -, hst⟩ := exists_mem_of_forall₂ equal hs
    exact hst.left.soundNode.names
  have nodup' : ∀ t ∈ others, (Fields.names t.properties).Nodup := fun t ht => by
    obtain ⟨s, -, hst⟩ := exists_mem_of_forall₂ (R := fun t s => Schema.Equal s t) equal.flip ht
    exact hst.right.soundNode.names
  rw [propertyGroup_eq nodup, propertyGroup_eq nodup']
  exact List.rel_filterMap (fun _ _ h => h.lookup name) equal

theorem names_propertyGroups_perm_of_equal :
    (Fields.names (propertyGroups samples)).Perm (Fields.names (propertyGroups others)) := by
  refine (List.perm_ext_iff_of_nodup (nodup_names_propertyGroups _)
    (nodup_names_propertyGroups _)).mpr fun name => ?_
  rw [mem_names_propertyGroups_iff, mem_names_propertyGroups_iff]
  induction equal with
  | nil => rfl
  | cons h _ ih => simp only [List.exists_mem_cons_iff, ih, h.names_perm.mem_iff]

theorem requiredNames_perm_of_equal : (requiredNames samples).Perm (requiredNames others) := by
  rw [requiredNames_eq_filter, requiredNames_eq_filter]
  simp only [(forall₂_propertyGroup equal _).length_eq, equal.length_eq]
  exact (names_propertyGroups_perm_of_equal equal).filter _

theorem requiredNames_eq_of_equal
    (listed : List.Forall₂ (fun s t => Fields.names s.properties = Fields.names t.properties)
      samples others) : requiredNames samples = requiredNames others := by
  rw [requiredNames_eq_filter, requiredNames_eq_filter, names_propertyGroups_eq listed]
  simp only [(forall₂_propertyGroup equal _).length_eq, equal.length_eq]

end Below

/-! ### All kinds -/

section Merging

variable {config : Config} {samples others : List Schema} {m n : Schema}

/-- The induction is on the rules for the one list; equal schemas are of one kind, which tells that
the same rule applies to the other. -/
theorem mergedAlike_of_merges (h : Merges config samples m) (h' : Merges config others n)
    (equal : List.Forall₂ Schema.Equal samples others) : MergedAlike samples others m n := by
  induction h generalizing others n with
  | nothing =>
    obtain rfl := List.forall₂_nil_left_iff.mp equal
    rw [h'.of_nothing]
    exact .same (Schema.same_of_sameParts (.object rfl (by simp) .none rfl))
  | @alone s t finished =>
    obtain ⟨u, none, hsu, hnone, rfl⟩ := List.forall₂_cons_left_iff.mp equal
    obtain rfl := List.forall₂_nil_left_iff.mp hnone
    exact .same (same_of_finish hsu finished h'.of_alone)
  | @apart samples variants several kinds unlike finished =>
    have several' : 2 ≤ others.length := equal.length_eq ▸ several
    have unlike' : ¬ ∃ kind : Kind, kind.IsJoined ∧ ∀ t ∈ others, t.kind = kind := by
      rintro ⟨kind, joined, all⟩
      exact unlike ⟨kind, joined, (forall_kinds_iff equal (P := (· = kind))).mpr all⟩
    obtain ⟨variants', rfl, finished'⟩ := h'.of_unlike several' unlike'
    exact .same (Schema.same_of_sameParts (.oneOf (sameAll_of_finishAll equal finished finished')))
  | @objects samples properties additional several kinds names merged absent further ihp iha =>
    have several' : 2 ≤ others.length := equal.length_eq ▸ several
    have additionals := List.rel_filterMap (fun _ _ h => Schema.Equal.additional h) equal
    obtain ⟨properties', additional', rfl, names', merged', absent', further'⟩ :=
      h'.of_objects several' ((forall_kinds_iff equal (P := (· = .object))).mp kinds)
    rw [← any_nullable_eq equal]
    refine .object several kinds ?_ ?_ (fun name s t hs ht => ?_)
      (requiredNames_perm_of_equal equal) (requiredNames_eq_of_equal equal)
      (absent_iff_of_length_eq additionals.length_eq absent absent') fun s t hs ht => ?_
    · rw [names, names']
      exact names_propertyGroups_perm_of_equal equal
    · rw [names]
      exact nodup_names_propertyGroups samples
    · exact ihp name s hs (merged' name t ht) (forall₂_propertyGroup equal name)
    · exact iha s hs (further' t ht) additionals
  | @arrays samples items several kinds absent merged ih =>
    have several' : 2 ≤ others.length := equal.length_eq ▸ several
    have elements := List.rel_filterMap (fun _ _ h => Schema.Equal.items h) equal
    obtain ⟨items', rfl, absent', merged'⟩ :=
      h'.of_arrays several' ((forall_kinds_iff equal (P := (· = .array))).mp kinds)
    refine .array several kinds (absent_iff_of_length_eq elements.length_eq absent absent')
      fun s t hs ht => ?_
    exact ih s hs (merged' t ht) elements
  | @values samples kind s several primitive kinds merged =>
    have several' : 2 ≤ others.length := equal.length_eq ▸ several
    have merged' := h'.of_values several' primitive
      ((forall_kinds_iff equal (P := (· = kind))).mp kinds)
    exact mergedAlike_of_mergePrimitives equal several primitive kinds merged merged'

/-- Merging equal samples that were loaded gives schemas that are alike. -/
theorem mergedAlike_of_same
    (loaded : ∀ s ∈ samples, ∃ refPrefix path v, Json.WellFormed v ∧
      Schema.load (.str refPrefix) path v = .ok s)
    (loaded' : ∀ t ∈ others, ∃ refPrefix path v, Json.WellFormed v ∧
      Schema.load (.str refPrefix) path v = .ok t)
    (same : List.Forall₂ (fun s t => s.same t = true) samples others)
    (h : merge config samples = .ok m) (h' : merge config others = .ok n) :
    MergedAlike samples others m n := by
  have wf : ∀ s ∈ samples, s.WellFormed := fun s hs => by
    obtain ⟨refPrefix, path, v, hv, hload⟩ := loaded s hs
    exact Schema.wellFormed_of_load hv hload
  have wf' : ∀ t ∈ others, t.WellFormed := fun t ht => by
    obtain ⟨refPrefix, path, v, hv, hload⟩ := loaded' t ht
    exact Schema.wellFormed_of_load hv hload
  exact mergedAlike_of_merges (merges_of_merge h) (merges_of_merge h')
    (Schema.forall₂_equal wf wf' same)

end Merging

/-! ### Two orders of properties -/

/-- An object that may have two properties, in either order. -/
def twoProperties (name other : String) : Schema :=
  .object [(name, .empty), (other, .empty)] [] none (.bool false)

def twoPropertiesDocument (name other : String) : Json :=
  .obj [("type", .str "object"), ("properties", .obj [(name, .obj []), (other, .obj [])])]

theorem load_twoProperties (name other : String) :
    Schema.load (.str "#/") "#" (twoPropertiesDocument name other) =
      .ok (twoProperties name other) := by
  rw [twoPropertiesDocument, Schema.load]
  rfl

theorem same_twoProperties :
    (twoProperties "a" "b").same (twoProperties "b" "a") = true := by
  have any : Schema.empty.same .empty = true := Schema.same_of_sameParts .empty
  refine Schema.same_of_sameParts (.object rfl ?_ .none rfl)
  exact List.forall_mem_cons.mpr ⟨⟨_, rfl, any⟩,
    List.forall_mem_cons.mpr ⟨⟨_, rfl, any⟩, List.forall_mem_nil _⟩⟩

theorem merge_twoProperties {name other : String} (h : name ≠ other) :
    merge {} [twoProperties name other, twoProperties name other] =
      .ok (.object [(name, .oneOf [.empty, .empty]), (other, .oneOf [.empty, .empty])]
        [name, other] none (.bool false)) := by
  have below : merge {} [.empty, .empty] = .ok (.oneOf [.empty, .empty]) := by
    rw [merge_cons_cons]
    rfl
  have groups : propertyGroups [twoProperties name other, twoProperties name other] =
      [(name, [.empty, .empty]), (other, [.empty, .empty])] := by
    simp [propertyGroups, twoProperties, Schema.properties, Fields.gather, Fields.firstSeen, h,
      h.symm]
  rw [merge_cons_cons]
  simp only [groups, List.mapM_cons, List.mapM_nil, below]
  change Schema.objectNode [(name, .oneOf [.empty, .empty]), (other, .oneOf [.empty, .empty])]
    [.str name, .str other] none (.bool false) = _
  exact Schema.objectNode_eq_ok_iff.mpr ⟨rfl, by simp [Fields.names]⟩

theorem mergedAlike_of_same_twoProperties :
    MergedAlike [twoProperties "a" "b", twoProperties "a" "b"]
      [twoProperties "b" "a", twoProperties "b" "a"]
      (.object [("a", .oneOf [.empty, .empty]), ("b", .oneOf [.empty, .empty])] ["a", "b"] none
        (.bool false))
      (.object [("b", .oneOf [.empty, .empty]), ("a", .oneOf [.empty, .empty])] ["b", "a"] none
        (.bool false)) := by
  have loaded : ∀ name other : String, name ≠ other →
      ∀ s ∈ [twoProperties name other, twoProperties name other], ∃ refPrefix path v,
        Json.WellFormed v ∧ Schema.load (.str refPrefix) path v = .ok s := by
    intro name other hne s hs
    obtain rfl : s = twoProperties name other := by simpa using hs
    refine ⟨_, _, _, ?_, load_twoProperties name other⟩
    simp [twoPropertiesDocument, Json.WellFormed, Json.FieldsWellFormed, hne]
  exact mergedAlike_of_same (loaded "a" "b" (by decide)) (loaded "b" "a" (by decide))
    (.cons same_twoProperties (.cons same_twoProperties .nil)) (merge_twoProperties (by decide))
    (merge_twoProperties (by decide))

/-! ### Equal samples that merging tells apart -/

/-- Equal schemas are loaded from the values of the two lists, and merging tells them apart. -/
def ToldApart (values others : List Json) : Prop :=
  ∃ xs ys m n, List.Forall₂ (fun v s => Schema.load (.str "#/") "#" v = .ok s) values xs ∧
    List.Forall₂ (fun v s => Schema.load (.str "#/") "#" v = .ok s) others ys ∧
      List.Forall₂ (fun s t => s.same t = true) xs ys ∧
        merge {} xs = .ok m ∧ merge {} ys = .ok n ∧ m.same n = false

/-- A value of a type, of which an example is given. -/
def exampleDocument (type : String) (v : Json) : Json :=
  .obj [("type", .str type), ("example", v)]

theorem sortBySpelling_pair (v w : Json) :
    sortBySpelling [v, w] = if w.display < v.display then [w, v] else [v, w] := by
  let before (a b : Json) : Bool := !(b.display < a.display)
  have halves : [v, w].mergeSort before = [v].merge [w] before := by
    have half : ([v, w].length + 1) / 2 = 1 := by simp
    simp only [List.mergeSort, List.MergeSort.Internal.splitInTwo_fst,
      List.MergeSort.Internal.splitInTwo_snd, half]
    change ([v].mergeSort before).merge ([w].mergeSort before) before = _
    rw [List.mergeSort_singleton, List.mergeSort_singleton]
  change [v, w].mergeSort before = _
  rw [halves, List.cons_merge_cons, List.nil_merge, List.merge_right]
  by_cases h : w.display < v.display
  · have swapped : before v w = false := by
      simp only [before, h, decide_true, Bool.not_true]
    rw [swapped, if_pos h]
    rfl
  · have kept : before v w = true := by
      simp only [before, h, decide_false, Bool.not_false]
    rw [kept, if_neg h]
    rfl

theorem merge_strings {v w : Json} {values : List Json}
    (candidates : candidateValues [.string { exemplar := v }, .string { exemplar := w }] = [v, w])
    (sorted : (if w.display < v.display then [w, v] else [v, w]) = values)
    (distinct : Json.allDistinct values = true) :
    merge {} [.string { exemplar := v }, .string { exemplar := w }] =
      .ok (.string { enum := some values }) := by
  have admitted : Config.admitsEnum {} [v, w].length = .ok true := by
    have limits : Config.IntegerLimits {} 2 10 := ⟨rfl, rfl⟩
    rw [admitsEnum_of_integers limits]
    rfl
  rw [merge_cons_cons]
  change mergeStrings {} _ .null false = _
  simp only [mergeStrings, candidates, admitted, sortBySpelling_pair, sorted]
  change StringFacets.node { enum := some values } = _
  refine StringFacets.node_eq_ok_iff.mpr ⟨rfl, fun others hothers => ?_, .inl rfl⟩
  obtain rfl := Option.some.inj hothers
  refine ⟨?_, distinct⟩
  rw [← sorted]
  split <;> exact List.cons_ne_nil _ _

/-- Required names follow the order of properties, a range leaves `true` out but not `1`, and a
closed set has `1` before and `true` after a text. -/
theorem merge_tells_apart :
    ToldApart [twoPropertiesDocument "a" "b", twoPropertiesDocument "a" "b"]
      [twoPropertiesDocument "b" "a", twoPropertiesDocument "b" "a"] ∧
    ToldApart [exampleDocument "integer" (.int 1), exampleDocument "integer" (.int 5)]
      [exampleDocument "integer" (.bool true), exampleDocument "integer" (.int 5)] ∧
    ToldApart [exampleDocument "string" (.int 1), exampleDocument "string" (.str "B")]
      [exampleDocument "string" (.bool true), exampleDocument "string" (.str "B")] := by
  refine ⟨?_, ?_, ?_⟩
  · refine ⟨_, _, _, _, .cons (load_twoProperties _ _) (.cons (load_twoProperties _ _) .nil),
      .cons (load_twoProperties _ _) (.cons (load_twoProperties _ _) .nil),
      .cons same_twoProperties (.cons same_twoProperties .nil), merge_twoProperties (by decide),
      merge_twoProperties (by decide), ?_⟩
    simp [Schema.same]
  · have load : ∀ v, Schema.load (.str "#/") "#" (exampleDocument "integer" v) =
        .ok (.number { integer := .bool true, exemplar := v }) := fun v => by
      rw [exampleDocument, Schema.load]
      rfl
    refine ⟨_, _, .number { integer := .bool true, minimum := .int 1, maximum := .int 5,
                            exemplar := .int 1 },
      .number { integer := .bool true, minimum := .int 5, maximum := .int 5,
                exemplar := .bool true },
      .cons (load _) (.cons (load _) .nil), .cons (load _) (.cons (load _) .nil),
      .cons ?_ (.cons ?_ .nil), ?_, ?_, ?_⟩
    · exact Schema.same_of_sameParts (.number (by decide))
    · exact Schema.same_of_sameParts (.number (by decide))
    · rw [merge_cons_cons]
      rfl
    · rw [merge_cons_cons]
      rfl
    · rw [Schema.same]
      decide
  · have load : ∀ v, Schema.load (.str "#/") "#" (exampleDocument "string" v) =
        .ok (.string { exemplar := v }) := fun v => by
      rw [exampleDocument, Schema.load]
      rfl
    refine ⟨_, _, .string { enum := some [.int 1, .str "B"] },
      .string { enum := some [.str "B", .bool true] }, .cons (load _) (.cons (load _) .nil),
      .cons (load _) (.cons (load _) .nil), .cons ?_ (.cons ?_ .nil), ?_, ?_, ?_⟩
    · exact Schema.same_of_sameParts (.string (by decide))
    · exact Schema.same_of_sameParts (.string (by decide))
    · exact merge_strings rfl rfl rfl
    · exact merge_strings rfl rfl rfl
    · rw [Schema.same]
      decide

end Schemata

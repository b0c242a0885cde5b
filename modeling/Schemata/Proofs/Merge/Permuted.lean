import Schemata.Proofs.Merge.Coverage
import Schemata.Proofs.Json.Equivalence
import Schemata.Schema.Equality

/-!
# Merging permuted samples

Samples are gone through in order, and of equal values the first one is kept. Another order of the
samples gives the same schema nonetheless, but for the order in which names, values of closed sets
and alternatives are listed, and for which of the examples stands for all.

## Main definitions

* `Reordered`: two schemas merged from the same samples differ in these respects only.

## Main results

* `same_commonFormat`, `same_numericRange`, `rearranged_candidateValues`: what is collected from
  plain values does not depend on the order of the samples.
* `reordered_of_merges`: whatever comes by the rules of permuted samples is reordered.
* `merge_reordered`: merging permuted samples gives two results, which are reordered.

## Implementation notes

Alternatives that a sample came with keep their order. The samples tell them from those that merging
made, so that `Reordered` speaks of two schemas and of what they were merged from.
-/

namespace Schemata

/-- The closed sets hold equal values, if there are any. -/
def SameChoices : Option (List Json) → Option (List Json) → Prop
  | none, none => True
  | some values, some others => Json.Rearranged values others
  | _, _ => False

/-- Two schemas merged from `samples` are equal but for the order of properties, of required names,
of the values of closed sets and of the alternatives that merging made, and for the choice of
examples. What is not merged is the same. -/
inductive Reordered : List Schema → Schema → Schema → Prop
  | unmerged {samples : List Schema} {s : Schema} (few : samples.length ≤ 1) :
      Reordered samples s s
  | apart {samples variants others : List Schema} (several : 2 ≤ samples.length)
      (unlike : ¬ ∃ kind : Kind, kind.IsJoined ∧ ∀ s ∈ samples, s.kind = kind)
      (perm : variants.Perm others) : Reordered samples (.oneOf variants) (.oneOf others)
  | object {samples : List Schema} {properties others : Fields Schema}
      {required required' : List String} {additional additional' : Option Schema} {nullable : Json}
      (several : 2 ≤ samples.length) (kinds : ∀ s ∈ samples, s.kind = .object)
      (nodup : (Fields.names properties).Nodup)
      (names : (Fields.names properties).Perm (Fields.names others))
      (below : ∀ name s t, properties.lookup name = some s → others.lookup name = some t →
        Reordered (propertyGroup name samples) s t)
      (known : required.Perm required') (absent : additional = none ↔ additional' = none)
      (further : ∀ s t, additional = some s → additional' = some t →
        Reordered (samples.filterMap Schema.additional) s t) :
      Reordered samples (.object properties required additional nullable)
        (.object others required' additional' nullable)
  | array {samples : List Schema} {items others : Option Schema} {facets : ArrayFacets}
      (several : 2 ≤ samples.length) (kinds : ∀ s ∈ samples, s.kind = .array)
      (absent : items = none ↔ others = none)
      (below : ∀ s t, items = some s → others = some t →
        Reordered (samples.filterMap Schema.items) s t) :
      Reordered samples (.array items facets) (.array others facets)
  | string {samples : List Schema} {f g : StringFacets} (several : 2 ≤ samples.length)
      (choices : SameChoices f.enum g.enum) (given : f.exemplar.isNull = g.exemplar.isNull)
      (same : StringFacets.same { f with enum := none, exemplar := .null }
        { g with enum := none, exemplar := .null } = true) :
      Reordered samples (.string f) (.string g)
  | number {samples : List Schema} {f g : NumberFacets} (several : 2 ≤ samples.length)
      (given : f.exemplar.isNull = g.exemplar.isNull)
      (same : NumberFacets.same { f with exemplar := .null } { g with exemplar := .null } = true) :
      Reordered samples (.number f) (.number g)
  | boolean {samples : List Schema} {f g : BooleanFacets} (several : 2 ≤ samples.length)
      (given : f.exemplar.isNull = g.exemplar.isNull)
      (same : BooleanFacets.same { f with exemplar := .null } { g with exemplar := .null } = true) :
      Reordered samples (.boolean f) (.boolean g)

/-! ### Plain values -/

section Values

variable {samples others : List Schema}

theorem isIn_observedValues_of_perm (perm : samples.Perm others)
    (sound : ∀ s ∈ samples, s.SoundNode) {v : Json} (h : v ∈ observedValues samples) :
    v.isIn (observedValues others) = true := by
  obtain ⟨s, hs, rfl, given⟩ := mem_observedValues_given h
  exact isIn_observedValues (perm.mem_iff.mp hs) given (Json.same_refl (sound s hs).exemplar)

theorem isIn_candidateValues_of_perm (perm : samples.Perm others)
    (sound : ∀ s ∈ samples, s.SoundNode) {v : Json} (h : v ∈ candidateValues samples) :
    v.isIn (candidateValues others) = true := by
  have hrefl : v.same v = true := Json.same_refl (wellFormed_of_mem_candidates sound h)
  obtain ⟨s, hs, source⟩ := mem_stringValues_iff.mp (mem_stringValues h)
  exact isIn_candidateValues (mem_stringValues_iff.mpr ⟨s, perm.mem_iff.mp hs, source⟩) hrefl

theorem rearranged_candidateValues (perm : samples.Perm others)
    (sound : ∀ s ∈ samples, s.SoundNode) :
    Json.Rearranged (candidateValues samples) (candidateValues others) := by
  have sound' : ∀ s ∈ others, s.SoundNode := fun s hs => sound s (perm.mem_iff.mpr hs)
  exact Json.rearranged_of_covers (apart_candidates _) (apart_candidates _)
    (fun v => wellFormed_of_mem_candidates sound) (fun v => wellFormed_of_mem_candidates sound')
    (fun v => isIn_candidateValues_of_perm perm sound)
    fun v => isIn_candidateValues_of_perm perm.symm sound'

/-- An example stands for all when there is one at all. -/
theorem isNull_headD_observedValues :
    ((observedValues samples).headD .null).isNull = (observedValues samples).isEmpty := by
  cases h : observedValues samples with
  | nil => rfl
  | cons v rest =>
    have hv : v ∈ observedValues samples := by
      rw [h]
      exact List.mem_cons_self
    obtain ⟨-, -, -, given⟩ := mem_observedValues_given hv
    exact given

theorem isEmpty_observedValues_of_perm (perm : samples.Perm others)
    (sound : ∀ s ∈ samples, s.SoundNode) :
    (observedValues samples).isEmpty = (observedValues others).isEmpty := by
  have empty_of_empty : ∀ {these those : List Schema}, these.Perm those →
      (∀ s ∈ these, s.SoundNode) → observedValues those = [] → observedValues these = [] := by
    intro these those perm sound none
    refine List.eq_nil_iff_forall_not_mem.mpr fun v hv => ?_
    have covered := isIn_observedValues_of_perm perm sound hv
    rw [none] at covered
    cases covered
  rw [Bool.eq_iff_iff, List.isEmpty_iff, List.isEmpty_iff]
  exact ⟨empty_of_empty perm.symm fun s hs => sound s (perm.mem_iff.mpr hs),
    empty_of_empty perm sound⟩

/-! ### Ranges -/

/-- A number among the examples keeps an equal number among the examples of permuted samples, as
none of these is a boolean. -/
theorem exists_number_of_perm (perm : samples.Perm others)
    (plain : ∀ s ∈ samples, ∀ b, s.exemplar ≠ .bool b) {v : Json}
    (h : v ∈ (observedValues samples).filter Json.isNumber) :
    ∃ w ∈ (observedValues others).filter Json.isNumber, ∃ x,
      v.number? = some x ∧ w.number? = some x := by
  obtain ⟨mem, -⟩ := not_hidden_of_kept h
  have mem' : v ∈ numericExamples others :=
    ((perm.map Schema.exemplar).filter Json.isNumber).mem_iff.mp mem
  refine exists_kept_of_not_hidden mem' (not_hidden_of_plain ?_)
  exact fun s hs => plain s (perm.mem_iff.mpr hs)

theorem same_numericRange (perm : samples.Perm others)
    (plain : ∀ s ∈ samples, ∀ b, s.exemplar ≠ .bool b) :
    (numericRange (observedValues samples)).1.same
        (numericRange (observedValues others)).1 = true ∧
      (numericRange (observedValues samples)).2.same
        (numericRange (observedValues others)).2 = true := by
  refine same_numericRange_of_counterparts (fun v => exists_number_of_perm perm plain) fun v => ?_
  exact exists_number_of_perm perm.symm fun s hs => plain s (perm.mem_iff.mpr hs)

/-! ### Formats -/

theorem wellFormed_format {s : Schema} (h : s.PlainFormats) : s.format.WellFormed := by
  obtain ⟨noList, noObject⟩ := h.format
  cases hf : s.format with
  | arr items => exact absurd hf (noList items)
  | obj fields => exact absurd hf (noObject fields)
  | _ => trivial

theorem same_commonFormat {format format' : Json} (perm : samples.Perm others)
    (hne : samples ≠ []) (formats : ∀ s ∈ samples, s.PlainFormats)
    (h : commonFormat samples = .ok format) (h' : commonFormat others = .ok format') :
    format.same format' = true := by
  have wf : ∀ s ∈ samples, s.format.WellFormed := fun s hs => wellFormed_format (formats s hs)
  refine same_commonFormat_of_counterparts hne (fun none => hne (List.perm_nil.mp (none ▸ perm)))
    h h' (fun s hs => ⟨s, perm.mem_iff.mp hs, Json.same_refl (wf s hs)⟩) fun s hs => ?_
  have hs := perm.mem_iff.mpr hs
  exact ⟨s, hs, Json.same_refl (wf s hs)⟩

/-! ### Merged plain values -/

variable {config : Config} {m n : Schema}

theorem reordered_of_mergeStrings {format format' : Json} (several : 2 ≤ samples.length)
    (perm : samples.Perm others) (sound : ∀ s ∈ samples, s.SoundNode)
    (same : format.same format' = true) (nullable : Bool)
    (h : mergeStrings config samples format nullable = .ok m)
    (h' : mergeStrings config others format' nullable = .ok n) : Reordered samples m n := by
  have candidates := rearranged_candidateValues perm sound
  rcases mergeStrings_cases h with ⟨admitted, rfl⟩ | ⟨admitted, rfl⟩
  · rcases mergeStrings_cases h' with ⟨-, rfl⟩ | ⟨refused, -⟩
    · refine .string several ?_ rfl ?_
      · exact candidates.of_perm (sortBySpelling_perm _) (sortBySpelling_perm _).symm
      · simp [StringFacets.same, same, Json.same, Json.isNull]
    · rw [candidates.length_eq, refused] at admitted
      cases admitted
  · rcases mergeStrings_cases h' with ⟨refused, -⟩ | ⟨-, rfl⟩
    · rw [candidates.length_eq, refused] at admitted
      cases admitted
    · refine .string several trivial ?_ ?_
      · simp only [isNull_headD_observedValues]
        exact isEmpty_observedValues_of_perm perm sound
      · simp [StringFacets.same, same, Json.same, Json.isNull]

theorem reordered_of_mergePrimitives {kind : Kind} (several : 2 ≤ samples.length)
    (perm : samples.Perm others) (primitive : kind.isPrimitive = true)
    (kinds : ∀ s ∈ samples, s.kind = kind) (wf : ∀ s ∈ samples, s.WellFormed)
    (formats : ∀ s ∈ samples, s.PlainFormats) (plain : ∀ s ∈ samples, s.PlainNumbers)
    (h : mergePrimitives config kind samples = .ok m)
    (h' : mergePrimitives config kind others = .ok n) : Reordered samples m n := by
  have hne : samples ≠ [] := List.ne_nil_of_length_pos (by omega)
  have sound : ∀ s ∈ samples, s.SoundNode := fun s hs => (wf s hs).soundNode
  have nullable : (samples.any fun s => s.nullable.truthy) =
      others.any fun s => s.nullable.truthy := perm.any_eq
  have given := isEmpty_observedValues_of_perm perm sound
  have sameMark : ∀ b, (Json.bool b).same (.bool b) = true := fun b => Json.same_refl trivial
  obtain ⟨format, hformat, h⟩ := mergePrimitives_cases primitive h
  obtain ⟨format', hformat', h'⟩ := mergePrimitives_cases primitive h'
  have common := same_commonFormat perm hne formats hformat hformat'
  rw [← nullable] at h'
  rcases h with ⟨rfl, hm⟩ | ⟨rfl, rfl⟩ | ⟨number, rfl⟩
  · obtain ⟨-, hn⟩ := h'.resolve_right (by simp)
    exact reordered_of_mergeStrings several perm sound common _ hm hn
  · obtain ⟨-, rfl⟩ := (h'.resolve_left (by simp)).resolve_right (by simp)
    refine .boolean several ?_ (sameMark _)
    simp only [isNull_headD_observedValues, given]
  · have noString : kind ≠ .string := by rintro rfl; simp at number
    have noBoolean : kind ≠ .boolean := by rintro rfl; simp at number
    obtain ⟨-, rfl⟩ := (h'.resolve_left fun h => noString h.1).resolve_left fun h => noBoolean h.1
    have noBooleans : ∀ s ∈ samples, ∀ b, s.exemplar ≠ .bool b := by
      intro s hs
      rw [← kinds s hs] at number
      obtain ⟨f, rfl, -⟩ := Schema.eq_number_of_kind number
      exact plain _ hs _ (Schema.self_mem_nodes _) f rfl
    obtain ⟨least, greatest⟩ := same_numericRange perm noBooleans
    refine .number several ?_ ?_
    · simp only [isNull_headD_observedValues, given]
    · simp only [NumberFacets.same, sameMark, common, least, greatest, Bool.and_true]
      rfl

end Values

/-! ### Below the samples -/

section Below

variable {config : Config} {samples others : List Schema}

theorem perm_of_finishAll {variants variants' : List Schema} (perm : samples.Perm others)
    (h : finishAll config samples = .ok variants) (h' : finishAll config others = .ok variants') :
    variants.Perm variants' := by
  obtain ⟨ordered, finished, hperm⟩ := List.perm_comp_forall₂ perm.symm (forall₂_of_finishAll h)
  have unique : Relator.RightUnique fun s t : Schema => finish config s = .ok t :=
    fun s t u ht hu => Except.ok.inj (ht.symm.trans hu)
  rw [← List.right_unique_forall₂' unique finished (forall₂_of_finishAll h')]
  exact hperm.symm

theorem propertyGroup_perm (perm : samples.Perm others) (name : String) :
    (propertyGroup name samples).Perm (propertyGroup name others) :=
  (perm.flatMap_right _).filterMap _

theorem names_propertyGroups_perm (perm : samples.Perm others) :
    (Fields.names (propertyGroups samples)).Perm (Fields.names (propertyGroups others)) := by
  refine (List.perm_ext_iff_of_nodup (nodup_names_propertyGroups _)
    (nodup_names_propertyGroups _)).mpr fun name => ?_
  rw [mem_names_propertyGroups_iff, mem_names_propertyGroups_iff]
  exact exists_congr fun s => and_congr_left fun _ => perm.mem_iff

theorem requiredNames_perm (perm : samples.Perm others) :
    (requiredNames samples).Perm (requiredNames others) := by
  rw [requiredNames_eq_filter, requiredNames_eq_filter]
  simp only [(propertyGroup_perm perm _).length_eq, perm.length_eq]
  exact (names_propertyGroups_perm perm).filter _

/-- What is merged of the schemas below samples is there on both sides or on none, as many as they
are. -/
theorem absent_iff_of_length_eq {below below' : List Schema} {merged merged' : Option Schema}
    (h : below.length = below'.length) (absent : merged = none ↔ below = [])
    (absent' : merged' = none ↔ below' = []) : merged = none ↔ merged' = none := by
  rw [absent, absent', ← List.length_eq_zero_iff, h, List.length_eq_zero_iff]

end Below

/-! ### All kinds -/

variable {config : Config} {samples others : List Schema} {m n : Schema}

/-- Whatever comes by the rules of permuted samples is reordered. The induction is on the rules for
the one order; the kinds of the samples tell that the same rule applies to the other. -/
theorem reordered_of_merges (h : Merges config samples m) (h' : Merges config others n)
    (perm : samples.Perm others) (wf : ∀ s ∈ samples, s.WellFormed)
    (formats : ∀ s ∈ samples, s.PlainFormats) (plain : ∀ s ∈ samples, s.PlainNumbers) :
    Reordered samples m n := by
  induction h generalizing others n with
  | nothing =>
    obtain rfl := List.nil_perm.mp perm
    rw [h'.of_nothing]
    exact .unmerged (Nat.zero_le 1)
  | @alone s t finished =>
    obtain rfl := List.singleton_perm.mp perm
    cases finished.symm.trans h'.of_alone
    exact .unmerged (Nat.le_refl 1)
  | @apart samples variants several kinds unlike finished =>
    have several' : 2 ≤ others.length := perm.length_eq ▸ several
    have unlike' : ¬ ∃ kind : Kind, kind.IsJoined ∧ ∀ s ∈ others, s.kind = kind := by
      simp only [← perm.mem_iff]
      exact unlike
    obtain ⟨variants', rfl, finished'⟩ := h'.of_unlike several' unlike'
    exact .apart several unlike (perm_of_finishAll perm finished finished')
  | @objects samples properties additional several kinds names merged absent further ihp iha =>
    have several' : 2 ≤ others.length := perm.length_eq ▸ several
    obtain ⟨properties', additional', rfl, names', merged', absent', further'⟩ :=
      h'.of_objects several' fun s hs => kinds s (perm.mem_iff.mpr hs)
    have nullable : (samples.any fun s => s.nullable.truthy) =
        others.any fun s => s.nullable.truthy := perm.any_eq
    rw [← nullable]
    refine .object several kinds ?_ ?_ (fun name s t hs ht => ?_) (requiredNames_perm perm)
      (absent_iff_of_length_eq (perm.filterMap _).length_eq absent absent') fun s t hs ht => ?_
    · rw [names]
      exact nodup_names_propertyGroups samples
    · rw [names, names']
      exact names_propertyGroups_perm perm
    · exact ihp name s hs (merged' name t ht) (propertyGroup_perm perm name)
        (forall_nodes_propertyGroup wf name) (forall_nodes_propertyGroup formats name)
        (forall_nodes_propertyGroup plain name)
    · exact iha s hs (further' t ht) (perm.filterMap _) (forall_nodes_additional wf)
        (forall_nodes_additional formats) (forall_nodes_additional plain)
  | @arrays samples items several kinds absent merged ih =>
    have several' : 2 ≤ others.length := perm.length_eq ▸ several
    obtain ⟨items', rfl, absent', merged'⟩ :=
      h'.of_arrays several' fun s hs => kinds s (perm.mem_iff.mpr hs)
    refine .array several kinds
      (absent_iff_of_length_eq (perm.filterMap _).length_eq absent absent') fun s t hs ht => ?_
    exact ih s hs (merged' t ht) (perm.filterMap _) (forall_nodes_items wf)
      (forall_nodes_items formats) (forall_nodes_items plain)
  | @values samples kind s several primitive kinds merged =>
    have several' : 2 ≤ others.length := perm.length_eq ▸ several
    have merged' := h'.of_values several' primitive fun s hs => kinds s (perm.mem_iff.mpr hs)
    exact reordered_of_mergePrimitives several perm primitive kinds wf formats plain merged merged'

/-- Merging permuted samples gives two results, which are reordered. -/
theorem merge_reordered {least greatest : Int} (limits : config.EnumLimits least greatest)
    (wf : ∀ s ∈ samples, s.WellFormed) (formats : ∀ s ∈ samples, s.PlainFormats)
    (plain : ∀ s ∈ samples, s.PlainNumbers) (perm : samples.Perm others) :
    ∃ m n, merge config samples = .ok m ∧ merge config others = .ok n ∧ Reordered samples m n := by
  obtain ⟨m, hm⟩ := exists_merge limits wf formats
  obtain ⟨n, hn⟩ := exists_merge limits (fun s hs => wf s (perm.mem_iff.mpr hs))
    fun s hs => formats s (perm.mem_iff.mpr hs)
  exact ⟨m, n, hm, hn,
    reordered_of_merges (merges_of_merge hm) (merges_of_merge hn) perm wf formats plain⟩

theorem merge_reordered_people :
    ∃ m n, merge {} people = .ok m ∧ merge {} people.reverse = .ok n ∧ Reordered people m n ∧
      (Fields.names m.properties).Perm (Fields.names n.properties) := by
  have limits : Config.EnumLimits {} 2 10 := ⟨rfl, rfl, by decide⟩
  obtain ⟨m, n, hm, hn, reordered⟩ := merge_reordered limits wellFormed_people plainFormats_people
    (by simp [people, Schema.PlainNumbers, Schema.nodes, Schema.nodesOfFields,
      Schema.nodesOfOption]) people.reverse_perm.symm
  refine ⟨m, n, hm, hn, reordered, ?_⟩
  cases reordered with
  | unmerged few => exact absurd few (by decide)
  | object _ _ _ names => exact names
  | apart _ unlike => exact absurd ⟨.object, .inl rfl, by decide⟩ unlike
  | _ => exact .nil

end Schemata

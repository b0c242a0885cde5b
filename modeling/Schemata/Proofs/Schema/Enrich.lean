import Schemata.Samples.Merge
import Schemata.Proofs.Fault
import Schemata.Proofs.Fields

/-!
# What enriching leaves as it is

Enriching a schema gives examples to its leaves. The shape of the schema stays, and so does every
other annotation.

## Main results

* `Schema.enrich_string` and its like: a leaf differs in its example alone.
* `Schema.lookup_enrichFields`, `Schema.names_enrichFields`: properties are enriched one by one.
* `eq_of_finish`, `forall₂_of_finishAll`: a finished sample is the sample, or the sample enriched.
* `holds_of_finish`, `holds_of_finishAll`: what enriching keeps, finishing keeps.
-/

namespace Schemata

namespace Schema

/-! ### Leaves -/

theorem enrich_string (f : StringFacets) :
    ∃ v, enrich (.string f) = .string { f with exemplar := v } := by
  rw [enrich, enrichLeaf]
  split
  · exact ⟨_, rfl⟩
  · exact ⟨f.exemplar, rfl⟩

theorem enrich_number (f : NumberFacets) :
    ∃ v, enrich (.number f) = .number { f with exemplar := v } := by
  rw [enrich, enrichLeaf]
  split
  · exact ⟨_, rfl⟩
  · exact ⟨f.exemplar, rfl⟩

theorem enrich_boolean (f : BooleanFacets) :
    ∃ v, enrich (.boolean f) = .boolean { f with exemplar := v } := by
  rw [enrich, enrichLeaf]
  split
  · exact ⟨_, rfl⟩
  · exact ⟨f.exemplar, rfl⟩

theorem kind_enrich (s : Schema) : s.enrich.kind = s.kind := by
  cases s with
  | string f =>
    obtain ⟨v, h⟩ := enrich_string f
    rw [h]
    rfl
  | number f =>
    obtain ⟨v, h⟩ := enrich_number f
    rw [h]
    rfl
  | boolean f =>
    obtain ⟨v, h⟩ := enrich_boolean f
    rw [h]
    rfl
  | _ => rfl

theorem nullable_enrich (s : Schema) : s.enrich.nullable = s.nullable := by
  cases s with
  | string f =>
    obtain ⟨v, h⟩ := enrich_string f
    rw [h]
    rfl
  | number f =>
    obtain ⟨v, h⟩ := enrich_number f
    rw [h]
    rfl
  | boolean f =>
    obtain ⟨v, h⟩ := enrich_boolean f
    rw [h]
    rfl
  | _ => rfl

/-! ### Nodes with children -/

theorem enrichFields_eq_map (fields : List (String × Schema)) :
    enrichFields fields = fields.map fun field => (field.1, field.2.enrich) := by
  induction fields with
  | nil => rfl
  | cons field rest ih => rw [enrichFields, ih, List.map_cons]

theorem enrichOption_eq_map (below : Option Schema) : enrichOption below = below.map enrich := by
  cases below <;> rfl

theorem names_enrichFields (fields : Fields Schema) :
    Fields.names (enrichFields fields) = Fields.names fields := by
  simp [enrichFields_eq_map, Fields.names, Function.comp_def]

theorem lookup_enrichFields (name : String) (fields : Fields Schema) :
    (enrichFields fields).lookup name = (fields.lookup name).map enrich := by
  rw [enrichFields_eq_map, Fields.lookup_map_values]

end Schema

/-! ### Finished samples -/

theorem eq_of_finish {config : Config} {s t : Schema} (h : finish config s = .ok t) :
    t = s ∨ t = s.enrich := by
  rw [finish] at h
  split at h
  · exact .inl (Except.ok.inj h).symm
  split at h
  · exact .inr (Except.ok.inj h).symm
  · cases h

theorem forall₂_of_finishAll {config : Config} {samples variants : List Schema}
    (h : finishAll config samples = .ok variants) :
    List.Forall₂ (fun s t => finish config s = .ok t) samples variants := by
  induction samples generalizing variants with
  | nil =>
    cases h
    exact .nil
  | cons s rest ih =>
    obtain ⟨t, ht, h⟩ := Fault.bind_eq_ok_iff.mp h
    obtain ⟨tail, htail, h⟩ := Fault.bind_eq_ok_iff.mp h
    cases Fault.pure_eq_ok_iff.mp h
    exact .cons ht (ih htail)

/-- What enriching keeps holds of finished samples when it holds of the samples. -/
theorem holds_of_finish {P : Schema → Prop} (enriched : ∀ s, P s → P s.enrich) {config : Config}
    {s t : Schema} (h : finish config s = .ok t) (holds : P s) : P t := by
  rcases eq_of_finish h with rfl | rfl
  · exact holds
  · exact enriched s holds

theorem holds_of_finishAll {P : Schema → Prop} (enriched : ∀ s, P s → P s.enrich)
    {config : Config} {samples variants : List Schema} (h : finishAll config samples = .ok variants)
    (holds : ∀ s ∈ samples, P s) : ∀ t ∈ variants, P t := by
  have pairs := forall₂_of_finishAll h
  clear h
  induction pairs with
  | nil => exact holds
  | cons hfinish _ ih =>
    rw [List.forall_mem_cons] at holds ⊢
    exact ⟨holds_of_finish enriched hfinish holds.1, ih holds.2⟩

theorem exists_mem_of_finishAll {config : Config} {samples variants : List Schema}
    (h : finishAll config samples = .ok variants) {s : Schema} (hs : s ∈ samples) :
    ∃ t ∈ variants, finish config s = .ok t := by
  have pairs := forall₂_of_finishAll h
  clear h
  induction pairs with
  | nil => exact absurd hs List.not_mem_nil
  | cons ht _ ih =>
    rcases List.mem_cons.mp hs with rfl | hs
    · exact ⟨_, List.mem_cons_self, ht⟩
    · obtain ⟨t, hmem, ht⟩ := ih hs
      exact ⟨t, List.mem_cons_of_mem _ hmem, ht⟩

end Schemata

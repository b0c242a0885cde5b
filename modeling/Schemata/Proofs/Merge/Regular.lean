import Schemata.Samples.Snapshot
import Schemata.Proofs.Merge.Rules
import Schemata.Proofs.Merge.Values
import Schemata.Proofs.Schema.Regular

/-!
# Merged schemas are regular

## Main results

* `regular_of_merge`: merging regular samples gives a regular schema.
* `regular_of_mergeSnapshots`: so does merging the sides of snapshots.
-/

namespace Schemata

variable {refPrefix : String} {config : Config} {samples : List Schema} {s : Schema}

theorem soundBounds_numericRange (values : List Json) :
    SoundBounds (numericRange values).1 (numericRange values).2 := by
  rcases numericRange_spec values with ⟨-, h⟩ | ⟨low, high, h, hlow, hhigh, hle⟩
  · rw [h]
    exact .absent
  · rw [h]
    refine ⟨.inr (List.mem_filter.mp hlow).2, .inr (List.mem_filter.mp hhigh).2, ?_⟩
    rw [(hle high hhigh).1]
    decide

theorem regular_of_mergeStrings {format : Json} {nullable : Bool}
    (h : mergeStrings config samples format nullable = .ok s) : s.Regular refPrefix := by
  rw [mergeStrings] at h
  obtain ⟨admitted, -, h⟩ := Fault.bind_eq_ok_iff.mp h
  cases admitted with
  | true =>
    obtain ⟨rfl, enum, -⟩ := StringFacets.node_eq_ok_iff.mp h
    exact .string (fun values hv => (enum values hv).imp_right Json.allDistinct_iff.mp) .absent rfl
  | false =>
    obtain ⟨rfl, -, -⟩ := StringFacets.node_eq_ok_iff.mp h
    exact Schema.regular_text refPrefix

theorem regular_of_mergePrimitives {kind : Kind} (primitive : kind.isPrimitive = true)
    (h : mergePrimitives config kind samples = .ok s) : s.Regular refPrefix := by
  obtain ⟨format, -, h⟩ := mergePrimitives_cases primitive h
  rcases h with ⟨-, hm⟩ | ⟨-, rfl⟩ | ⟨-, rfl⟩
  · exact regular_of_mergeStrings hm
  · exact .boolean rfl
  · exact .number rfl (soundBounds_numericRange _) rfl

theorem regular_of_merges (h : Merges config samples s)
    (regular : ∀ t ∈ samples, t.Regular refPrefix) : s.Regular refPrefix := by
  induction h with
  | nothing => exact Schema.regular_anyObject refPrefix
  | alone finished =>
    exact holds_of_finish (P := Schema.Regular refPrefix) (fun _ => Schema.Regular.enrich) finished
      (regular _ List.mem_cons_self)
  | apart _ _ _ finished =>
    exact .oneOf (holds_of_finishAll (P := Schema.Regular refPrefix)
      (fun _ => Schema.Regular.enrich) finished regular)
  | @objects samples properties additional _ _ names _ _ _ ihp iha =>
    refine .object (fun property hp => ?_) (fun name hname => ?_) fun t ht => ?_
    · have nodup : (Fields.names properties).Nodup := by
        rw [names]
        exact nodup_names_propertyGroups _
      refine ihp property.1 property.2 (Fields.lookup_eq_some_of_mem nodup hp) fun t ht => ?_
      obtain ⟨sample, hs, hmem⟩ := mem_propertyGroup_iff.mp ht
      exact (regular sample hs).of_mem_properties hmem
    · rw [names]
      exact (mem_requiredNames_iff.mp hname).1
    · refine iha t ht fun u hu => ?_
      obtain ⟨sample, hs, hmem⟩ := List.mem_filterMap.mp hu
      exact (regular sample hs).of_additional hmem
  | arrays _ _ _ _ ih =>
    refine .array (fun t ht => ih t ht fun u hu => ?_) .absent rfl
    obtain ⟨sample, hs, hmem⟩ := List.mem_filterMap.mp hu
    exact (regular sample hs).of_items hmem
  | values _ primitive _ merged => exact regular_of_mergePrimitives primitive merged

theorem regular_of_merge (h : merge config samples = .ok s)
    (regular : ∀ t ∈ samples, t.Regular refPrefix) : s.Regular refPrefix :=
  regular_of_merges (merges_of_merge h) regular

/-! ### Sides of snapshots -/

section Sides

variable {P : Schema → Prop}
  (carried : ∀ samples s, merge config samples = .ok s → (∀ t ∈ samples, P t) → P s)

include carried

theorem holds_of_mergeSide {side : Option Schema} (h : mergeSide config samples = .ok side)
    (holds : ∀ t ∈ samples, P t) (hs : side = some s) : P s := by
  rw [mergeSide] at h
  split at h
  · cases h
    cases hs
  · obtain ⟨t, ht, rfl⟩ := Fault.map_eq_ok_iff.mp h
    cases hs
    exact carried _ _ ht holds

/-- What merging carries over from samples, it carries over from snapshots to each side. -/
theorem holds_of_mergeSnapshots {snapshots : List Snapshot} {merged : MergedSnapshot}
    (h : mergeSnapshots config snapshots = .ok merged)
    (holds : ∀ snapshot ∈ snapshots, ∀ t ∈ snapshot.schemas, P t)
    (hs : merged.request = some s ∨ merged.response = some s) : P s := by
  rw [mergeSnapshots] at h
  obtain ⟨request, hrequest, h⟩ := Fault.bind_eq_ok_iff.mp h
  obtain ⟨response, hresponse, h⟩ := Fault.bind_eq_ok_iff.mp h
  obtain rfl := Fault.pure_eq_ok_iff.mp h
  have side : ∀ part : Snapshot → Option Schema,
      (∀ snapshot t, part snapshot = some t → t ∈ snapshot.schemas) →
        ∀ t ∈ snapshots.filterMap part, P t := by
    intro part within t ht
    obtain ⟨snapshot, hmem, heq⟩ := List.mem_filterMap.mp ht
    exact holds snapshot hmem t (within snapshot t heq)
  rcases hs with hs | hs
  · refine holds_of_mergeSide carried hrequest (side _ fun snapshot t heq => ?_) hs
    exact List.mem_append_left _ (Option.mem_toList.mpr heq)
  · refine holds_of_mergeSide carried hresponse (side _ fun snapshot t heq => ?_) hs
    exact List.mem_append_right _ (Option.mem_toList.mpr heq)

end Sides

theorem regular_of_mergeSnapshots {snapshots : List Snapshot} {merged : MergedSnapshot}
    (h : mergeSnapshots config snapshots = .ok merged)
    (regular : ∀ snapshot ∈ snapshots, ∀ t ∈ snapshot.schemas, t.Regular refPrefix)
    (hs : merged.request = some s ∨ merged.response = some s) : s.Regular refPrefix :=
  holds_of_mergeSnapshots (fun _ _ => regular_of_merge) h regular hs

end Schemata

import Schemata.Proofs.Schema.Nodes
import Schemata.Proofs.Schema.Regular

/-!
# Nodes that pass their checks

The checks of a node look at nothing but the node, and can be made again of a node that is there.
Where nodes are put together without checks, this says that none of them would have failed.

## Main definitions

* `Schema.checked`: a node made again, with the checks of its kind.

## Main results

* `Schema.Regular.of_mem_nodes`: all nodes of a regular schema are regular.
* `Schema.Regular.checked`: a regular node passes.
-/

namespace Schemata

namespace Schema

/-- The node made again. Nodes without values, bounds or properties have no checks. -/
def checked : Schema → Except Fault Schema
  | .string facets => facets.node
  | .number facets => facets.node
  | .object properties required additional nullable =>
    objectNode properties (required.map .str) additional nullable
  | .array items facets => facets.node items
  | s => .ok s

variable {refPrefix : String} {s : Schema}

theorem Regular.of_mem_nodes (h : s.Regular refPrefix) : ∀ t ∈ s.nodes, t.Regular refPrefix := by
  induction h with
  | object below known further ihp iha =>
    exact forall_nodes_object.mpr ⟨.object below known further, ihp, iha⟩
  | array below bounds marked ih =>
    exact forall_nodes_array.mpr ⟨.array below bounds marked, ih⟩
  | oneOf below ih => exact forall_nodes_oneOf.mpr ⟨.oneOf below, ih⟩
  | allOf below ih => exact forall_nodes_allOf.mpr ⟨.allOf below, ih⟩
  | string enum bounds marked => exact List.forall_mem_singleton.mpr (.string enum bounds marked)
  | number whole bounds marked => exact List.forall_mem_singleton.mpr (.number whole bounds marked)
  | boolean marked => exact List.forall_mem_singleton.mpr (.boolean marked)
  | ref nonempty => exact List.forall_mem_singleton.mpr (.ref nonempty)
  | empty => exact List.forall_mem_singleton.mpr .empty

theorem Regular.checked (h : s.Regular refPrefix) : s.checked = .ok s := by
  cases h with
  | string enum bounds marked =>
    exact StringFacets.node_eq_ok_iff.mpr ⟨rfl, fun values hv =>
      (enum values hv).imp_right Json.allDistinct_iff.mpr, bounds.boundsAgree⟩
  | number whole bounds marked =>
    exact NumberFacets.node_eq_ok_iff.mpr ⟨rfl, bounds.boundsAgree⟩
  | @object properties required additional nullable below known further =>
    have texts : texts (required.map fun name => .str name) = required := by
      rw [texts_map_str, List.map_id']
    refine objectNode_eq_ok_iff.mpr ⟨by rw [texts], fun v hv => ?_⟩
    obtain ⟨name, hname, rfl⟩ := List.mem_map.mp hv
    exact ⟨name, known name hname, rfl⟩
  | array below bounds marked =>
    exact ArrayFacets.node_eq_ok_iff.mpr ⟨rfl, bounds.boundsAgree⟩
  | boolean | oneOf | allOf | ref | empty => rfl

end Schema

end Schemata

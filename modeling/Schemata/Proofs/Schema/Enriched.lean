import Schemata.Proofs.Occurrence.Paths
import Schemata.Proofs.Schema.Checked
import Schemata.Proofs.Schema.Enrich

/-!
# Enriched schemas

Enriching goes from a schema to the values of its properties and to its items, and comes back with
every node on the way made again. The nodes are put together without the checks of nodes; here the
same is done with the checks, and comes to the same schema.

What is enriched can be read off place by place: an example where there was neither an example nor
a closed set, and nothing else.

## Main definitions

* `Schema.Accepted`: a schema whose nodes have a kind and pass their checks.
* `Schema.Bare`: a plain value with neither an example nor a closed set.
* `Schema.NodeEnriched`: what enriching makes of one node.
* `Schema.enrichChecked`: enriching with all checks.

## Main results

* `Schema.walk_enrich`: what is at a place is enriched there.
* `Schema.nodeEnriched_enrich`, `Schema.not_bare_enrich`: what becomes of one node.
* `Schema.enrich_enrich`: enriching twice is enriching once.
* `Schema.enrichChecked_eq_ok`: no check fails.

## What is deliberately absent

No places lead into further properties, alternatives and parts. What stands there is part of the
node above it, and is compared as such.
-/

namespace Schemata

theorem Json.isNull_iff {v : Json} : v.isNull = true ↔ v = .null := by
  cases v <;> simp [isNull]

namespace Schema

/-- All nodes of the tree have a kind, and pass their checks. -/
def Accepted (s : Schema) : Prop := ∀ t ∈ s.nodes, t.kind ≠ .abstract ∧ t.checked = .ok t

theorem Accepted.checked {s : Schema} (h : s.Accepted) : s.checked = .ok s :=
  (h s s.self_mem_nodes).2

/-- A plain value with neither an example nor a closed set. -/
def Bare (s : Schema) : Prop := s.kind.isPrimitive = true ∧ s.exemplar = .null ∧ s.enum = none

/-- What enriching makes of one node, whatever it makes of the nodes below. -/
inductive NodeEnriched : Schema → Schema → Prop where
  | bare {s : Schema} : s.Bare → NodeEnriched s (s.withExemplar s.kind.defaultExemplar)
  | object {properties properties' : Fields Schema} {required : List String}
      {additional : Option Schema} {nullable : Json} :
      Fields.names properties' = Fields.names properties →
        NodeEnriched (.object properties required additional nullable)
          (.object properties' required additional nullable)
  | array {items items' : Option Schema} {facets : ArrayFacets} :
      items'.isSome = items.isSome → NodeEnriched (.array items facets) (.array items' facets)
  | other {s : Schema} : ¬ s.Bare → s.kind ≠ .object → s.kind ≠ .array → NodeEnriched s s

/-- A leaf made again with an example, if it has to be. -/
def enrichLeafChecked (s : Schema) : Except Fault Schema :=
  if s.exemplar.isNull && s.enum.isNone then (s.withExemplar s.kind.defaultExemplar).checked
  else .ok s

/-! ### Plain values -/

theorem enrich_of_isPrimitive {s : Schema} (primitive : s.kind.isPrimitive = true) :
    s.enrich = s.enrichLeaf := by
  cases s with
  | string | number | boolean => rfl
  | _ => cases primitive

theorem bare_iff {s : Schema} (primitive : s.kind.isPrimitive = true) :
    s.Bare ↔ (s.exemplar.isNull && s.enum.isNone) = true := by
  rw [Bare, Bool.and_eq_true, Json.isNull_iff, Option.isNone_iff_eq_none, and_iff_right primitive]

theorem enrich_of_bare {s : Schema} (bare : s.Bare) :
    s.enrich = s.withExemplar s.kind.defaultExemplar := by
  rw [enrich_of_isPrimitive bare.1, enrichLeaf, if_pos ((bare_iff bare.1).mp bare)]

theorem enrich_of_not_bare {s : Schema} (primitive : s.kind.isPrimitive = true) (full : ¬ s.Bare) :
    s.enrich = s := by
  rw [enrich_of_isPrimitive primitive, enrichLeaf, if_neg ((bare_iff primitive).not.mp full)]

theorem exemplar_withExemplar {s : Schema} (primitive : s.kind.isPrimitive = true) (v : Json) :
    (s.withExemplar v).exemplar = v := by
  cases s with
  | string | number | boolean => rfl
  | _ => cases primitive

theorem defaultExemplar_ne_null {kind : Kind} (primitive : kind.isPrimitive = true) :
    kind.defaultExemplar ≠ .null := by
  cases kind with
  | string | number | integer | boolean => exact Json.noConfusion
  | _ => cases primitive

/-- The node with another example passes the checks that it passed. -/
theorem checked_withExemplar {s : Schema} (h : s.checked = .ok s)
    (primitive : s.kind.isPrimitive = true) (v : Json) :
    (s.withExemplar v).checked = .ok (s.withExemplar v) := by
  cases s with
  | string f =>
    obtain ⟨-, enum, bounds⟩ := StringFacets.node_eq_ok_iff.mp h
    exact StringFacets.node_eq_ok_iff.mpr ⟨rfl, enum, bounds⟩
  | number f =>
    exact NumberFacets.node_eq_ok_iff.mpr ⟨rfl, (NumberFacets.node_eq_ok_iff.mp h).2⟩
  | boolean f => rfl
  | _ => cases primitive

theorem nodeEnriched_of_isPrimitive {s : Schema} (primitive : s.kind.isPrimitive = true) :
    NodeEnriched s s.enrich := by
  by_cases bare : s.Bare
  · rw [enrich_of_bare bare]
    exact .bare bare
  · rw [enrich_of_not_bare primitive bare]
    refine .other bare (fun object => ?_) fun array => ?_
    · rw [object] at primitive
      cases primitive
    · rw [array] at primitive
      cases primitive

/-! ### Every node -/

theorem nodeEnriched_enrich (s : Schema) : NodeEnriched s s.enrich := by
  cases s with
  | string f => exact nodeEnriched_of_isPrimitive rfl
  | number f => exact nodeEnriched_of_isPrimitive (isPrimitive_number f)
  | boolean f => exact nodeEnriched_of_isPrimitive rfl
  | object properties required additional nullable => exact .object (names_enrichFields _)
  | array items facets =>
    refine .array ?_
    rw [enrichOption_eq_map, Option.isSome_map]
  | _ => exact .other (fun bare => nomatch bare.1) Kind.noConfusion Kind.noConfusion

theorem not_bare_enrich (s : Schema) : ¬ s.enrich.Bare := by
  intro bare
  have primitive := bare.1
  rw [kind_enrich] at primitive
  by_cases before : s.Bare
  · have exemplar := bare.2.1
    rw [enrich_of_bare before, exemplar_withExemplar primitive] at exemplar
    exact defaultExemplar_ne_null primitive exemplar
  · rw [enrich_of_not_bare primitive before] at bare
    exact before bare

theorem enrich_enrich_of_isPrimitive {s : Schema} (primitive : s.kind.isPrimitive = true) :
    s.enrich.enrich = s.enrich :=
  enrich_of_not_bare (by rwa [kind_enrich]) (not_bare_enrich s)

theorem enrich_enrich (s : Schema) : s.enrich.enrich = s.enrich := by
  induction s using nestedInduction with
  | object properties required additional nullable ih _ =>
    have below : enrichFields (enrichFields properties) = enrichFields properties := by
      rw [enrichFields_eq_map, enrichFields_eq_map, List.map_map]
      exact List.map_congr_left fun property hp => Prod.ext rfl (ih property hp)
    rw [enrich, enrich, below]
  | array items facets ih =>
    have below : enrichOption (enrichOption items) = enrichOption items := by
      cases items with
      | none => rfl
      | some s => exact congrArg some (ih s rfl)
    rw [enrich, enrich, below]
  | string f => exact enrich_enrich_of_isPrimitive rfl
  | number f => exact enrich_enrich_of_isPrimitive (isPrimitive_number f)
  | boolean f => exact enrich_enrich_of_isPrimitive rfl
  | oneOf | allOf | ref | empty | abstract => rfl

/-! ### Places -/

theorem below?_enrich (s : Schema) (step : Step) :
    s.enrich.below? step = (s.below? step).map enrich := by
  cases s with
  | object properties required additional nullable =>
    cases step with
    | property name => exact lookup_enrichFields name properties
    | items => rfl
  | array items facets =>
    cases step with
    | property name => rfl
    | items => exact enrichOption_eq_map items
  | string f =>
    obtain ⟨v, h⟩ := enrich_string f
    rw [h]
    cases step <;> rfl
  | number f =>
    obtain ⟨v, h⟩ := enrich_number f
    rw [h]
    cases step <;> rfl
  | boolean f =>
    obtain ⟨v, h⟩ := enrich_boolean f
    rw [h]
    cases step <;> rfl
  | _ => cases step <;> rfl

theorem walk_enrich (s : Schema) (place : List Step) :
    s.enrich.walk place = (s.walk place).map enrich := by
  induction place generalizing s with
  | nil => rfl
  | cons step rest ih =>
    rw [walk, walk, below?_enrich]
    cases s.below? step with
    | none => rfl
    | some t => exact ih t

/-! ### Enriching with all checks -/

mutual

/-- Enriching, with the checks of each node that is made again. Objects without properties and
lists without items are returned as they are. -/
def enrichChecked : Schema → Except Fault Schema
  | .object properties required additional nullable =>
    if properties.isEmpty then .ok (.object properties required additional nullable)
    else do
      let properties ← enrichFieldsChecked properties
      objectNode properties (required.map .str) additional nullable
  | .array none facets => .ok (.array none facets)
  | .array (some items) facets => do
    let items ← items.enrichChecked
    facets.node (some items)
  | .string facets => enrichLeafChecked (.string facets)
  | .number facets => enrichLeafChecked (.number facets)
  | .boolean facets => enrichLeafChecked (.boolean facets)
  | .oneOf variants => .ok (.oneOf variants)
  | .allOf parts => .ok (.allOf parts)
  | .ref name => .ok (.ref name)
  | .empty => .ok .empty
  | .abstract => .error .noKind

def enrichFieldsChecked : List (String × Schema) → Except Fault (List (String × Schema))
  | [] => .ok []
  | (name, s) :: rest => do
    let s ← s.enrichChecked
    return (name, s) :: (← enrichFieldsChecked rest)

end

/-- The checks of a node do not look at what enriching changes. -/
theorem checked_enrich {s : Schema} (h : s.checked = .ok s) : s.enrich.checked = .ok s.enrich := by
  by_cases primitive : s.kind.isPrimitive = true
  · by_cases bare : s.Bare
    · rw [enrich_of_bare bare]
      exact checked_withExemplar h primitive _
    · rwa [enrich_of_not_bare primitive bare]
  · cases s with
    | string | boolean => exact absurd rfl primitive
    | number f => exact absurd (isPrimitive_number f) primitive
    | object properties required additional nullable =>
      obtain ⟨made, known⟩ := objectNode_eq_ok_iff.mp h
      injection made with _ hrequired
      refine objectNode_eq_ok_iff.mpr ⟨?_, ?_⟩
      · rw [← hrequired]
        rfl
      · rwa [names_enrichFields]
    | array items facets =>
      exact ArrayFacets.node_eq_ok_iff.mpr ⟨rfl, (ArrayFacets.node_eq_ok_iff.mp h).2⟩
    | _ => rfl

theorem enrichLeafChecked_eq_ok {s : Schema} (primitive : s.kind.isPrimitive = true)
    (h : s.checked = .ok s) : s.enrichLeafChecked = .ok s.enrich := by
  rw [enrichLeafChecked, enrich_of_isPrimitive primitive, enrichLeaf]
  split
  · exact checked_withExemplar h primitive _
  · rfl

theorem enrichFieldsChecked_eq_ok {fields : List (String × Schema)}
    (h : ∀ field ∈ fields, field.2.enrichChecked = .ok field.2.enrich) :
    enrichFieldsChecked fields = .ok (enrichFields fields) := by
  induction fields with
  | nil => rfl
  | cons field rest ih =>
    rw [List.forall_mem_cons] at h
    rw [enrichFieldsChecked, h.1, ih h.2]
    rfl

theorem enrichChecked_eq_ok {s : Schema} (h : s.Accepted) : s.enrichChecked = .ok s.enrich := by
  induction s using nestedInduction with
  | string f => exact enrichLeafChecked_eq_ok rfl h.checked
  | number f => exact enrichLeafChecked_eq_ok (isPrimitive_number f) h.checked
  | boolean f => exact enrichLeafChecked_eq_ok rfl h.checked
  | object properties required additional nullable ih _ =>
    obtain ⟨-, below, -⟩ := forall_nodes_object.mp h
    rw [enrichChecked]
    split
    · next none =>
      rw [List.isEmpty_iff.mp none]
      rfl
    · rw [enrichFieldsChecked_eq_ok fun property hp => ih property hp (below property hp)]
      exact checked_enrich h.checked
  | array items facets ih =>
    obtain ⟨-, below⟩ := forall_nodes_array.mp h
    cases items with
    | none => rfl
    | some s =>
      rw [enrichChecked, ih s rfl (below s rfl)]
      exact checked_enrich h.checked
  | oneOf | allOf | ref | empty => rfl
  | abstract => exact absurd rfl (h _ (self_mem_nodes _)).1

theorem Accepted.enrich_root {s : Schema} (h : s.Accepted) :
    s.enrich.kind ≠ .abstract ∧ s.enrich.checked = .ok s.enrich := by
  rw [kind_enrich]
  exact (h s s.self_mem_nodes).imp_right checked_enrich

theorem Accepted.enrich {s : Schema} (h : s.Accepted) : s.enrich.Accepted := by
  have root := h.enrich_root
  induction s using nestedInduction with
  | string f =>
    obtain ⟨v, enriched⟩ := enrich_string f
    rw [enriched] at root ⊢
    exact List.forall_mem_singleton.mpr root
  | number f =>
    obtain ⟨v, enriched⟩ := enrich_number f
    rw [enriched] at root ⊢
    exact List.forall_mem_singleton.mpr root
  | boolean f =>
    obtain ⟨v, enriched⟩ := enrich_boolean f
    rw [enriched] at root ⊢
    exact List.forall_mem_singleton.mpr root
  | object properties required additional nullable ih _ =>
    obtain ⟨-, below, further⟩ := forall_nodes_object.mp h
    refine forall_nodes_object.mpr ⟨root, fun property hp => ?_, further⟩
    rw [enrichFields_eq_map] at hp
    obtain ⟨before, hbefore, rfl⟩ := List.mem_map.mp hp
    have accepted : before.2.Accepted := below before hbefore
    exact ih before hbefore accepted accepted.enrich_root
  | array items facets ih =>
    obtain ⟨-, below⟩ := forall_nodes_array.mp h
    refine forall_nodes_array.mpr ⟨root, fun s hs => ?_⟩
    rw [enrichOption_eq_map] at hs
    obtain ⟨before, hbefore, rfl⟩ := Option.map_eq_some_iff.mp hs
    have accepted : before.Accepted := below before hbefore
    exact ih before hbefore accepted accepted.enrich_root
  | oneOf | allOf | ref | empty | abstract => exact h

/-- Enriching never fails, and gives examples to bare leaves only, of which it leaves none; a second
time changes nothing. -/
theorem enrichChecked_exact {s : Schema} (h : s.Accepted) :
    s.enrichChecked = .ok s.enrich ∧
      (∀ place, Option.Rel NodeEnriched (s.walk place) (s.enrich.walk place)) ∧
      (∀ place t, s.enrich.walk place = some t → ¬ t.Bare) ∧
      s.enrich.enrich = s.enrich ∧ s.enrich.enrichChecked = .ok s.enrich := by
  have again : s.enrich.enrichChecked = .ok s.enrich := by
    rw [enrichChecked_eq_ok h.enrich, enrich_enrich]
  refine ⟨enrichChecked_eq_ok h, fun place => ?_, fun place t ht => ?_, enrich_enrich s, again⟩
  · rw [walk_enrich]
    cases s.walk place with
    | none => exact .none
    | some t => exact .some (nodeEnriched_enrich t)
  · rw [walk_enrich] at ht
    obtain ⟨before, -, rfl⟩ := Option.map_eq_some_iff.mp ht
    exact not_bare_enrich before

/-- Examples that are falsy, leaves at two depths, and a bare leaf where enriching does not go. -/
def order : Schema :=
  .object
    [("paid", .boolean { exemplar := .bool false }),
      ("count", .number { integer := .bool true, exemplar := .int 0, minimum := .int 0 }),
      ("note", .string { exemplar := .str "" }),
      ("lines", .array
        (some (.object [("sku", .string { minLength := .int 3 }), ("price", .number {})] ["sku"]
          none (.bool false)))
        { minItems := .int 1 })]
    ["paid", "lines"] (some (.string {})) (.bool true)

theorem enrichChecked_exact_order : order.Accepted ∧ order.enrichChecked = .ok order.enrich ∧
    (∀ place, Option.Rel NodeEnriched (order.walk place) (order.enrich.walk place)) ∧
    (∀ place t, order.enrich.walk place = some t → ¬ t.Bare) ∧
    order.enrich.enrich = order.enrich ∧ order.enrich.enrichChecked = .ok order.enrich := by
  have accepted : order.Accepted := by
    simp only [Accepted, order, nodes, nodesOfFields, nodesOfOption, List.cons_append,
      List.nil_append, List.append_nil, List.forall_mem_cons, List.not_mem_nil, false_imp_iff,
      forall_const, and_true]
    refine ⟨?_, ?_, ?_, ?_, ?_, ?_, ?_, ?_, ?_⟩ <;> exact ⟨by decide, rfl⟩
  exact ⟨accepted, enrichChecked_exact accepted⟩

end Schema

end Schemata

import Schemata.Samples.Enrich

/-!
# The nodes of a schema

A schema is a tree, and most of what is asked of a schema is asked of each of its nodes.

## Main definitions

* `Schema.nodes`: all nodes of a tree, the root first.

## Main results

* `Schema.nestedInduction`: induction on a schema, with the schemas directly below it.
* `Schema.forall_nodes_object` and its like: what holds of every node holds of the root and of every
  node below each child.
* `Schema.eq_object_of_kind` and its like: the nodes of a kind.
-/

namespace Schemata

namespace Schema

/-- Induction on a schema: what holds of the schemas directly below a node has to be carried over to
the node. -/
@[elab_as_elim]
theorem nestedInduction {P : Schema → Prop} (string : ∀ facets, P (.string facets))
    (number : ∀ facets, P (.number facets)) (boolean : ∀ facets, P (.boolean facets))
    (object : ∀ properties required additional nullable,
      (∀ property ∈ properties, P property.2) → (∀ s, additional = some s → P s) →
        P (.object properties required additional nullable))
    (array : ∀ items facets, (∀ s, items = some s → P s) → P (.array items facets))
    (oneOf : ∀ variants, (∀ s ∈ variants, P s) → P (.oneOf variants))
    (allOf : ∀ parts, (∀ s ∈ parts, P s) → P (.allOf parts)) (ref : ∀ name, P (.ref name))
    (empty : P .empty) (abstract : P .abstract) (s : Schema) : P s :=
  Schema.rec (motive_1 := P) (motive_2 := fun fields => ∀ field ∈ fields, P field.2)
    (motive_3 := fun below => ∀ s, below = some s → P s) (motive_4 := fun all => ∀ s ∈ all, P s)
    (motive_5 := fun field => P field.2)
    string number boolean object array oneOf allOf ref empty abstract
    (fun _ h => absurd h List.not_mem_nil)
    (fun _ _ hf hrest => List.forall_mem_cons.mpr ⟨hf, hrest⟩)
    (fun _ h => absurd h.symm (Option.some_ne_none _))
    (fun _ hs _ h => Option.some.inj h ▸ hs)
    (fun _ h => absurd h List.not_mem_nil)
    (fun _ _ hs hrest => List.forall_mem_cons.mpr ⟨hs, hrest⟩)
    (fun _ _ hs => hs) s

mutual

/-- All nodes of a tree. -/
def nodes : Schema → List Schema
  | .object properties required additional nullable =>
    .object properties required additional nullable
      :: (nodesOfFields properties ++ nodesOfOption additional)
  | .array items facets => .array items facets :: nodesOfOption items
  | .oneOf variants => .oneOf variants :: nodesOfAll variants
  | .allOf parts => .allOf parts :: nodesOfAll parts
  | .string facets => [.string facets]
  | .number facets => [.number facets]
  | .boolean facets => [.boolean facets]
  | .ref name => [.ref name]
  | .empty => [.empty]
  | .abstract => [.abstract]

def nodesOfFields : List (String × Schema) → List Schema
  | [] => []
  | (_, s) :: rest => s.nodes ++ nodesOfFields rest

def nodesOfOption : Option Schema → List Schema
  | none => []
  | some s => s.nodes

def nodesOfAll : List Schema → List Schema
  | [] => []
  | s :: rest => s.nodes ++ nodesOfAll rest

end

/-! ### Quantifying over nodes -/

variable {P : Schema → Prop}

theorem forall_nodesOfFields {fields : List (String × Schema)} :
    (∀ t ∈ nodesOfFields fields, P t) ↔ ∀ field ∈ fields, ∀ t ∈ field.2.nodes, P t := by
  induction fields with
  | nil => simp [nodesOfFields]
  | cons field rest ih => rw [nodesOfFields, List.forall_mem_append, ih, List.forall_mem_cons]

theorem forall_nodesOfOption {below : Option Schema} :
    (∀ t ∈ nodesOfOption below, P t) ↔ ∀ s, below = some s → ∀ t ∈ s.nodes, P t := by
  cases below with
  | none => simp [nodesOfOption]
  | some s => simp [nodesOfOption]

theorem forall_nodesOfAll {all : List Schema} :
    (∀ t ∈ nodesOfAll all, P t) ↔ ∀ s ∈ all, ∀ t ∈ s.nodes, P t := by
  induction all with
  | nil => simp [nodesOfAll]
  | cons s rest ih => rw [nodesOfAll, List.forall_mem_append, ih, List.forall_mem_cons]

theorem forall_nodes_object {properties : List (String × Schema)} {required : List String}
    {additional : Option Schema} {nullable : Json} :
    (∀ t ∈ (object properties required additional nullable).nodes, P t) ↔
      P (.object properties required additional nullable) ∧
        (∀ property ∈ properties, ∀ t ∈ property.2.nodes, P t) ∧
          ∀ s, additional = some s → ∀ t ∈ s.nodes, P t := by
  rw [nodes, List.forall_mem_cons, List.forall_mem_append, forall_nodesOfFields,
    forall_nodesOfOption]

theorem forall_nodes_array {items : Option Schema} {facets : ArrayFacets} :
    (∀ t ∈ (array items facets).nodes, P t) ↔
      P (.array items facets) ∧ ∀ s, items = some s → ∀ t ∈ s.nodes, P t := by
  rw [nodes, List.forall_mem_cons, forall_nodesOfOption]

theorem forall_nodes_oneOf {variants : List Schema} :
    (∀ t ∈ (oneOf variants).nodes, P t) ↔
      P (.oneOf variants) ∧ ∀ s ∈ variants, ∀ t ∈ s.nodes, P t := by
  rw [nodes, List.forall_mem_cons, forall_nodesOfAll]

theorem forall_nodes_allOf {parts : List Schema} :
    (∀ t ∈ (allOf parts).nodes, P t) ↔ P (.allOf parts) ∧ ∀ s ∈ parts, ∀ t ∈ s.nodes, P t := by
  rw [nodes, List.forall_mem_cons, forall_nodesOfAll]

theorem self_mem_nodes (s : Schema) : s ∈ s.nodes := by
  cases s <;> simp [nodes]

/-! ### Nodes of a kind -/

variable {s : Schema}

theorem eq_string_of_kind (h : s.kind = .string) : ∃ f, s = .string f := by
  cases s with
  | string f => exact ⟨f, rfl⟩
  | number f =>
    rw [kind] at h
    split at h <;> cases h
  | _ => cases h

theorem eq_boolean_of_kind (h : s.kind = .boolean) : ∃ f, s = .boolean f := by
  cases s with
  | boolean f => exact ⟨f, rfl⟩
  | number f =>
    rw [kind] at h
    split at h <;> cases h
  | _ => cases h

theorem eq_number_of_kind (h : s.kind = .number ∨ s.kind = .integer) :
    ∃ f, s = .number f ∧ (f.integer.truthy = true ↔ s.kind = .integer) := by
  cases s with
  | number f =>
    refine ⟨f, rfl, ?_⟩
    rw [kind]
    split <;> simp_all
  | _ => rcases h with h | h <;> cases h

theorem isPrimitive_number (f : NumberFacets) : (Schema.number f).kind.isPrimitive = true := by
  rw [kind]
  split <;> rfl

theorem eq_object_of_kind (h : s.kind = .object) :
    ∃ properties required additional nullable,
      s = .object properties required additional nullable := by
  cases s with
  | object properties required additional nullable => exact ⟨_, _, _, _, rfl⟩
  | number f =>
    rw [kind] at h
    split at h <;> cases h
  | _ => cases h

theorem eq_array_of_kind (h : s.kind = .array) : ∃ items facets, s = .array items facets := by
  cases s with
  | array items facets => exact ⟨_, _, rfl⟩
  | number f =>
    rw [kind] at h
    split at h <;> cases h
  | _ => cases h

/-! ### Nodes below a node

What the merge goes down to: the values of properties, the schema of further properties and the
schema of items. -/

theorem forall_nodes_of_mem_properties (h : ∀ t ∈ s.nodes, P t) {name : String}
    {child : Schema} (hc : (name, child) ∈ s.properties) : ∀ t ∈ child.nodes, P t := by
  cases s with
  | object properties required additional nullable =>
    exact (forall_nodes_object.mp h).2.1 _ hc
  | _ => exact absurd hc List.not_mem_nil

theorem forall_nodes_of_additional (h : ∀ t ∈ s.nodes, P t) {child : Schema}
    (hc : s.additional = some child) : ∀ t ∈ child.nodes, P t := by
  cases s with
  | object properties required additional nullable =>
    exact (forall_nodes_object.mp h).2.2 _ hc
  | _ => exact absurd hc.symm (Option.some_ne_none child)

theorem forall_nodes_of_items (h : ∀ t ∈ s.nodes, P t) {child : Schema}
    (hc : s.items = some child) : ∀ t ∈ child.nodes, P t := by
  cases s with
  | array items facets => exact (forall_nodes_array.mp h).2 _ hc
  | _ => exact absurd hc.symm (Option.some_ne_none child)

end Schema

end Schemata

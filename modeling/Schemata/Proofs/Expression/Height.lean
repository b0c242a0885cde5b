import Schemata.Proofs.Expression.Depth
import Schemata.Proofs.Expression.Nullable
import Schemata.Proofs.Expression.Overrides

/-!
# How tall an answer is

Reading goes down one level at a time, and no form puts more than two nodes above those of the
expressions inside it. Where the limit of depth is met, one node stands for all that is below.
Without overrides, the limit therefore bounds the length of every way from the root of an answer to
a leaf. A tuple has two nodes, the array and the alternatives for its elements, so that tuples in
each other attain the bound.

## What is deliberately absent

Overrides are schemas of any height, and are put into an answer as they are: there is no bound in
terms of the limit with them.

## Main definitions

* `Schema.children`: the nodes directly below a node.
* `Schema.WayDown`: the nodes on a way from the root of a tree to a leaf.
* `Schema.AtMost`: the trees whose ways down have a bounded length.
* `nestedTuple`: tuples in each other.

## Main results

* `Schema.atMost_of_children`: a node is one more on every way.
* `Form.atMost_schema`: no form puts more than two nodes above its components.
* `Parser.atMost_read`: two nodes for each level that is left, and one for what is cut off.
* `Parser.ways_of_answer`: the bound on answers, and that it is attained.
-/

namespace Schemata

open TypeExpr

/-! ### Ways down -/

namespace Schema

/-- The nodes directly below a node. -/
def children : Schema → List Schema
  | .object properties _ additional _ => properties.map Prod.snd ++ additional.toList
  | .array items _ => items.toList
  | .oneOf variants => variants
  | .allOf parts => parts
  | .string _ | .number _ | .boolean _ | .ref _ | .empty | .abstract => []

/-- The nodes on a way from the root of a tree down to a leaf. -/
inductive WayDown : Schema → List Schema → Prop
  | leaf {s : Schema} (childless : s.children = []) : WayDown s [s]
  | down {s t : Schema} {way : List Schema} (child : t ∈ s.children) (further : WayDown t way) :
      WayDown s (s :: way)

/-- No way down has more than `n` nodes. -/
def AtMost (n : Nat) (s : Schema) : Prop := ∀ way, WayDown s way → way.length ≤ n

variable {s : Schema} {n m : Nat}

theorem AtMost.mono (h : s.AtMost n) (le : n ≤ m) : s.AtMost m := by
  intro way hway
  exact Nat.le_trans (h way hway) le

theorem atMost_of_children (h : ∀ t ∈ s.children, t.AtMost n) : s.AtMost (n + 1) := by
  intro way hway
  cases hway with
  | leaf => exact Nat.succ_le_succ (Nat.zero_le n)
  | down child further => exact Nat.succ_le_succ (h _ child _ further)

theorem atMost_of_leaf (childless : s.children = []) : s.AtMost (n + 1) := by
  refine atMost_of_children fun t ht => ?_
  rw [childless] at ht
  cases ht

theorem atMost_object {properties : List (String × Schema)} {required : List String}
    {additional : Option Schema} {nullable : Json}
    (below : ∀ property ∈ properties, property.2.AtMost n)
    (further : ∀ t, additional = some t → t.AtMost n) :
    AtMost (n + 1) (.object properties required additional nullable) := by
  refine atMost_of_children fun t ht => ?_
  rw [children, List.mem_append, List.mem_map, Option.mem_toList] at ht
  rcases ht with ⟨property, hp, rfl⟩ | ht
  · exact below property hp
  · exact further t ht

theorem atMost_array {items : Option Schema} {facets : ArrayFacets}
    (below : ∀ t, items = some t → t.AtMost n) : AtMost (n + 1) (.array items facets) := by
  refine atMost_of_children fun t ht => ?_
  rw [children, Option.mem_toList] at ht
  exact below t ht

/-- The mark for nullable does not change what is below a node. -/
theorem children_withNullable (s : Schema) : (s.withNullable?.getD s).children = s.children := by
  cases s <;> rfl

/-- A node with the same children as another has as many nodes on its ways. -/
theorem AtMost.of_children_eq {t : Schema} (h : s.AtMost n) (same : t.children = s.children) :
    t.AtMost n := by
  intro way hway
  cases hway with
  | leaf childless => exact h [s] (.leaf (same ▸ childless))
  | down child further => exact h (s :: _) (.down (same ▸ child) further)

end Schema

/-! ### Forms -/

namespace Form

open Schema

variable {n : Nat}

/-- No form puts more than two nodes above its components. Only a tuple puts two. -/
theorem atMost_schema {form : Form} (known : ∀ s, form = .known s → s.AtMost (n + 2))
    {inner : List Schema} (h : ∀ s ∈ inner, s.AtMost n) : (form.schema inner).AtMost (n + 2) := by
  have first : (inner.headD .empty).AtMost (n + 2) :=
    headD_of_forall (atMost_of_leaf rfl) fun s hs => (h s hs).mono (Nat.le_add_right n 2)
  have one : ∀ t, inner.head? = some t → t.AtMost n := fun t ht => h t (List.mem_of_head? ht)
  have lower : ∀ {s : Schema}, s.AtMost (n + 1) → s.AtMost (n + 2) := fun hs =>
    hs.mono (Nat.le_succ (n + 1))
  cases form with
  | known s => exact known s rfl
  | inner | modified | selected => exact first
  | list => exact lower (atMost_array one)
  | single member nullable =>
    rw [schema]
    split
    · exact first.of_children_eq (children_withNullable _)
    · exact first
  | oneOf | allOf => exact lower (atMost_of_children h)
  | object members =>
    have below : ∀ member ∈ members.zip inner, member.2.AtMost n :=
      fun member hm => h _ (List.of_mem_zip hm).2
    obtain ⟨properties, required, additional, heq, parts⟩ := exists_objectOf below
    rw [schema, heq]
    exact lower (atMost_object parts.1 parts.2)
  | tuple =>
    refine atMost_array fun t ht => ?_
    split at ht
    · cases ht
    · cases ht
      exact atMost_of_children h
  | dictionary => exact lower (atMost_object (List.forall_mem_nil _) one)
  | _ => exact atMost_of_leaf rfl

/-- The names that need no definition stand for single nodes. -/
theorem atMost_of_known {expr : List Char} {s : Schema} (h : Form.of [] expr = .known s) :
    s.AtMost (n + 2) := by
  have leaves : ∀ primitive ∈ primitives, primitive.2.children = [] := by
    simp [primitives, dateTime, nullOnly, anyObject, Schema.children]
  obtain ⟨name, h | h⟩ := exists_of_known h
  · cases h
  · exact atMost_of_leaf (leaves _ h)

end Form

/-! ### Readings -/

namespace Parser

open Schema

variable {p : Parser} {limit : Int}

/-- There are two nodes at most for each level that the limit leaves, and one for what is cut off.
The induction is on the length of the expression, as reading goes down. -/
theorem atMost_read (fresh : p.overrides = []) (limited : p.maxDepth.integer? = some limit)
    (depth : Nat) (text : List Char) :
    (p.read depth text).schema.AtMost (2 * (limit + 1 - depth).toNat + 1) := by
  induction hn : (strip text).length using Nat.strongRecOn generalizing depth text with
  | _ n ih =>
    subst hn
    rw [read_eq]
    split
    · exact atMost_of_leaf rfl
    · next shallow =>
      rw [tooDeep_eq limited, decide_eq_true_iff] at shallow
      have levels : 2 * (limit + 1 - depth).toNat + 1 =
          (2 * (limit + 1 - (depth + 1 : Nat)).toNat + 1) + 2 := by omega
      rw [levels]
      refine Form.atMost_schema (fun s hs => ?_) fun s hs => ?_
      · rw [fresh] at hs
        exact Form.atMost_of_known hs
      · obtain ⟨r, hr, rfl⟩ := List.mem_map.mp hs
        obtain ⟨component, hc, rfl⟩ := List.mem_map.mp hr
        exact ih _ (Form.length_lt_of_mem_components hc) (depth + 1) component rfl

end Parser

/-! ### Tuples in each other -/

/-- A tuple in a tuple, and so on, with a name in the innermost one. -/
def nestedTuple : Nat → TypeExpr
  | 0 => .primitive "string"
  | levels + 1 => .tuple [nestedTuple levels]

theorem grammatical_nestedTuple (levels : Nat) : Grammatical (nestedTuple levels) := by
  induction levels with
  | zero => exact .primitive (by decide)
  | succ levels ih => exact .tuple (List.cons_ne_nil _ _) (List.forall_mem_singleton.mpr ih)

theorem of_nestedTuple (levels : Nat) :
    Form.of [] (nestedTuple (levels + 1)).print = .tuple [(nestedTuple levels).print] := by
  have element := (grammatical_nestedTuple levels).part_print
  rw [nestedTuple, print, printAll_eq_map]
  exact Form.of_tuple (List.cons_ne_nil _ _) (List.forall_mem_singleton.mpr element)

namespace Parser

open Schema

variable {p : Parser} {limit : Int}

/-- The innermost tuple is cut off where all levels are used up. -/
theorem exists_way_nestedTuple (fresh : p.overrides = [])
    (limited : p.maxDepth.integer? = some limit) (levels depth : Nat)
    (all : limit + 1 = levels + depth) :
    ∃ way, WayDown (p.read depth (nestedTuple levels).print).schema way ∧
      way.length = 2 * levels + 1 := by
  induction levels generalizing depth with
  | zero =>
    have deep : p.tooDeep depth = true := by
      rw [tooDeep_eq limited]
      exact decide_eq_true (by omega)
    rw [read_eq, deep, if_pos rfl]
    exact ⟨_, .leaf rfl, rfl⟩
  | succ levels ih =>
    have shallow : p.tooDeep depth = false := by
      rw [tooDeep_eq limited]
      exact decide_eq_false (by omega)
    have trimmed := (grammatical_nestedTuple (levels + 1)).part_print.trimmed
    have form := of_nestedTuple levels
    rw [← fresh] at form
    obtain ⟨way, hway, length⟩ := ih (depth + 1) (by omega)
    rw [read_of_form shallow trimmed form]
    refine ⟨_, .down (List.mem_singleton.mpr rfl) (.down (List.mem_singleton.mpr rfl) hway), ?_⟩
    rw [List.length_cons, List.length_cons, length]
    omega

/-- Without overrides, every answer has two nodes at most for each level that the limit allows for,
and three more, on every way from the root to a leaf; and there is an answer that has as many. -/
theorem ways_of_answer (fresh : p.overrides = []) (limited : p.maxDepth.integer? = some limit)
    (deep : 0 ≤ limit) :
    (∀ requests text, ∃ answer, (p.answerIn text (p.cacheAfter requests)).1 = .ok answer ∧
      ∀ way, WayDown answer.schema way → (way.length : Int) ≤ 2 * limit + 3) ∧
    ∃ text answer way, p.answer text = .ok answer ∧ WayDown answer.schema way ∧
      (way.length : Int) = 2 * limit + 3 := by
  have sound : p.Sound := .of_fresh fresh (number?_of_integer_limit limited)
  constructor
  · intro requests text
    obtain ⟨new, hnew, schema, -⟩ := exists_new_answer sound text
    obtain ⟨again, hagain, same⟩ := exists_answer_after sound hnew requests
    refine ⟨again, hagain, fun way hway => ?_⟩
    rw [same, schema] at hway
    have bound := atMost_read fresh limited 0 _ way hway
    omega
  · obtain ⟨way, hway, length⟩ :=
      exists_way_nestedTuple fresh limited (limit + 1).toNat 0 (by omega)
    obtain ⟨answer, hanswer, schema, -⟩ :=
      exists_new_answer sound (String.ofList (nestedTuple (limit + 1).toNat).print)
    rw [cacheKey, String.toList_ofList, String.toList_ofList, read_strip] at schema
    refine ⟨_, answer, way, hanswer, schema ▸ hway, ?_⟩
    rw [length]
    omega

/-- Under a limit of one, no way has more than five nodes, and one of the ways of two tuples around
a third has as many. -/
theorem ways_of_answer_one :
    (∀ requests text, ∃ answer,
      ((⟨[], .int 1⟩ : Parser).answerIn text ((⟨[], .int 1⟩ : Parser).cacheAfter requests)).1 =
        .ok answer ∧ ∀ way, WayDown answer.schema way → (way.length : Int) ≤ 5) ∧
    ∃ text answer way, (⟨[], .int 1⟩ : Parser).answer text = .ok answer ∧
      WayDown answer.schema way ∧ (way.length : Int) = 5 :=
  ways_of_answer (p := ⟨[], .int 1⟩) rfl rfl (by decide)

end Parser

end Schemata

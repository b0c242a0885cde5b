import Schemata.Schema.Equality
import Schemata.Proofs.Json.Equivalence
import Schemata.Proofs.Merge.Defined

/-!
# Equal schemas

Equality of schemas compares annotations as values and looks properties up by name, so that equal
schemas can differ in how values are written and in the order of properties. What they agree in is
said here once for each part of a node, on schemas in which no object repeats a name.

## Main definitions

* `Schema.SameParts`: equality of schemas, part by part.
* `Schema.Equal`: two well-formed schemas are equal.

## Main results

* `Schema.sameParts_of_same`: what equality says of each kind of node.
* `Schema.kind_eq_of_same`, `Schema.Equal.lookup` and their like: what equal schemas agree in.
* `Schema.same_enrich`: enriched, they are equal again.
-/

namespace Schemata

/-! ### Parts -/

theorem StringFacets.same_iff {f g : StringFacets} :
    f.same g = true ↔ f.format.same g.format = true ∧
      Option.Rel (fun values others => Json.sameItems values others = true) f.enum g.enum ∧
        f.exemplar.same g.exemplar = true ∧ f.minLength.same g.minLength = true ∧
          f.maxLength.same g.maxLength = true ∧ f.nullable.same g.nullable = true := by
  rw [same]
  cases f.enum <;> cases g.enum <;> simp [and_assoc]

namespace Schema

theorem sameFields_iff {fields others : List (String × Schema)} :
    sameFields fields others = true ↔
      ∀ field ∈ fields, ∃ t, others.lookup field.1 = some t ∧ field.2.same t = true := by
  induction fields with
  | nil => simp [sameFields]
  | cons field rest ih =>
    obtain ⟨name, s⟩ := field
    rw [sameFields, Bool.and_eq_true, ih, List.forall_mem_cons]
    refine and_congr_left fun _ => ?_
    cases others.lookup name <;> simp

theorem sameAll_iff {all others : List Schema} :
    sameAll all others = true ↔ List.Forall₂ (fun s t => s.same t = true) all others := by
  induction all generalizing others with
  | nil => cases others <;> simp [sameAll]
  | cons s rest ih =>
    cases others with
    | nil => simp [sameAll]
    | cons t others => rw [sameAll, Bool.and_eq_true, ih, List.forall₂_cons]

theorem sameOption_iff {below other : Option Schema} :
    sameOption below other = true ↔ Option.Rel (fun s t => s.same t = true) below other := by
  cases below <;> cases other <;> simp [sameOption]

/-- What equality of two schemas says of their parts. -/
inductive SameParts : Schema → Schema → Prop
  | string {f g : StringFacets} (same : f.same g = true) : SameParts (.string f) (.string g)
  | number {f g : NumberFacets} (same : f.same g = true) : SameParts (.number f) (.number g)
  | boolean {f g : BooleanFacets} (same : f.same g = true) : SameParts (.boolean f) (.boolean g)
  | object {properties others : List (String × Schema)} {required : List String}
      {additional additional' : Option Schema} {nullable nullable' : Json}
      (length : properties.length = others.length)
      (below : ∀ property ∈ properties, ∃ t, others.lookup property.1 = some t ∧
        property.2.same t = true)
      (further : Option.Rel (fun s t => s.same t = true) additional additional')
      (marked : nullable.same nullable' = true) :
      SameParts (.object properties required additional nullable)
        (.object others required additional' nullable')
  | array {items others : Option Schema} {f g : ArrayFacets}
      (below : Option.Rel (fun s t => s.same t = true) items others) (same : f.same g = true) :
      SameParts (.array items f) (.array others g)
  | oneOf {variants others : List Schema}
      (below : List.Forall₂ (fun s t => s.same t = true) variants others) :
      SameParts (.oneOf variants) (.oneOf others)
  | allOf {parts others : List Schema}
      (below : List.Forall₂ (fun s t => s.same t = true) parts others) :
      SameParts (.allOf parts) (.allOf others)
  | ref {name other : Json} (same : name.same other = true) : SameParts (.ref name) (.ref other)
  | empty : SameParts .empty .empty
  | abstract : SameParts .abstract .abstract

theorem same_of_sameParts {s t : Schema} (h : SameParts s t) : s.same t = true := by
  cases h with
  | object length below further marked =>
    simp only [Schema.same, Bool.and_eq_true, beq_iff_eq, sameFields_iff, sameOption_iff]
    exact ⟨⟨⟨⟨length, below⟩, trivial⟩, further⟩, marked⟩
  | array below same =>
    rw [Schema.same, Bool.and_eq_true, sameOption_iff]
    exact ⟨below, same⟩
  | oneOf below | allOf below =>
    rw [Schema.same, sameAll_iff]
    exact below
  | string same | number same | boolean same | ref same =>
    rw [Schema.same]
    exact same
  | empty | abstract => rw [Schema.same]

theorem sameParts_of_same {s t : Schema} (h : s.same t = true) : SameParts s t := by
  cases s with
  | string f =>
    cases t with
    | string g =>
      rw [same] at h
      exact .string h
    | _ => simp [same] at h
  | number f =>
    cases t with
    | number g =>
      rw [same] at h
      exact .number h
    | _ => simp [same] at h
  | boolean f =>
    cases t with
    | boolean g =>
      rw [same] at h
      exact .boolean h
    | _ => simp [same] at h
  | object properties required additional nullable =>
    cases t with
    | object others required' additional' nullable' =>
      simp only [same, Bool.and_eq_true, beq_iff_eq, sameFields_iff, sameOption_iff] at h
      obtain ⟨⟨⟨⟨length, below⟩, rfl⟩, further⟩, marked⟩ := h
      exact .object length below further marked
    | _ => simp [same] at h
  | array items f =>
    cases t with
    | array others g =>
      rw [same, Bool.and_eq_true, sameOption_iff] at h
      exact .array h.1 h.2
    | _ => simp [same] at h
  | oneOf variants =>
    cases t with
    | oneOf others =>
      rw [same, sameAll_iff] at h
      exact .oneOf h
    | _ => simp [same] at h
  | allOf parts =>
    cases t with
    | allOf others =>
      rw [same, sameAll_iff] at h
      exact .allOf h
    | _ => simp [same] at h
  | ref name =>
    cases t with
    | ref other =>
      rw [same] at h
      exact .ref h
    | _ => simp [same] at h
  | empty =>
    cases t with
    | empty => exact .empty
    | _ => simp [same] at h
  | abstract =>
    cases t with
    | abstract => exact .abstract
    | _ => simp [same] at h

/-! ### What equal schemas agree in -/

theorem kind_eq_of_same {s t : Schema} (h : s.same t = true) : s.kind = t.kind := by
  cases sameParts_of_same h with
  | @number f g same =>
    simp only [NumberFacets.same, Bool.and_eq_true] at same
    rw [kind, kind, Json.truthy_eq_of_same same.1.1.1.1.1]
  | _ => rfl

theorem truthy_nullable_of_same {s t : Schema} (h : s.same t = true) :
    s.nullable.truthy = t.nullable.truthy := by
  apply Json.truthy_eq_of_same
  cases sameParts_of_same h with
  | string same => exact (StringFacets.same_iff.mp same).2.2.2.2.2
  | number same =>
    simp only [NumberFacets.same, Bool.and_eq_true] at same
    exact same.2
  | boolean same =>
    simp only [BooleanFacets.same, Bool.and_eq_true] at same
    exact same.2
  | object _ _ _ marked => exact marked
  | _ => rfl

/-- Two well-formed schemas are equal. -/
structure Equal (s t : Schema) : Prop where
  left : s.WellFormed
  right : t.WellFormed
  same : s.same t = true

theorem rel_equal {below other : Option Schema} (wf : ∀ s, below = some s → s.WellFormed)
    (wf' : ∀ t, other = some t → t.WellFormed)
    (h : Option.Rel (fun s t => s.same t = true) below other) : Option.Rel Equal below other := by
  cases h with
  | none => exact .none
  | some same => exact .some ⟨wf _ rfl, wf' _ rfl, same⟩

theorem forall₂_equal {samples others : List Schema} (wf : ∀ s ∈ samples, s.WellFormed)
    (wf' : ∀ t ∈ others, t.WellFormed)
    (h : List.Forall₂ (fun s t => s.same t = true) samples others) :
    List.Forall₂ Equal samples others := by
  induction h with
  | nil => exact .nil
  | cons same _ ih =>
    rw [List.forall_mem_cons] at wf wf'
    exact .cons ⟨wf.1, wf'.1, same⟩ (ih wf.2 wf'.2)

namespace Equal

variable {s t : Schema}

theorem nullable_eq (h : Equal s t) : s.nullable.truthy = t.nullable.truthy :=
  truthy_nullable_of_same h.same

theorem same_format (h : Equal s t) : s.format.same t.format = true := by
  cases sameParts_of_same h.same with
  | string same => exact (StringFacets.same_iff.mp same).1
  | number same =>
    simp only [NumberFacets.same, Bool.and_eq_true] at same
    exact same.1.1.1.1.2
  | _ => rfl

theorem exemplar (h : Equal s t) : Json.Equal s.exemplar t.exemplar := by
  refine ⟨h.left.soundNode.exemplar, h.right.soundNode.exemplar, ?_⟩
  cases sameParts_of_same h.same with
  | string same => exact (StringFacets.same_iff.mp same).2.2.1
  | number same =>
    simp only [NumberFacets.same, Bool.and_eq_true] at same
    exact same.1.2
  | boolean same =>
    simp only [BooleanFacets.same, Bool.and_eq_true] at same
    exact same.1
  | _ => rfl

theorem enum (h : Equal s t) : Option.Rel (List.Forall₂ Json.Equal) s.enum t.enum := by
  have parts : Option.Rel (fun values others => Json.sameItems values others = true)
      s.enum t.enum := by
    cases sameParts_of_same h.same with
    | string same => exact (StringFacets.same_iff.mp same).2.1
    | _ => exact .none
  have wf := h.left.soundNode.enum
  have wf' := h.right.soundNode.enum
  generalize s.enum = chosen at parts wf
  generalize t.enum = chosen' at parts wf'
  cases parts with
  | none => exact .none
  | some same => exact .some (Json.forall₂_equal (wf _ rfl) (wf' _ rfl) same)

/-- The properties of one are found in the other, and as many they are. -/
theorem names_perm (h : Equal s t) :
    (Fields.names s.properties).Perm (Fields.names t.properties) := by
  have nodup := h.left.soundNode.names
  cases sameParts_of_same h.same with
  | @object properties others _ _ _ _ _ length below =>
    refine (List.subperm_of_subset nodup fun name hname => ?_).perm_of_length_le ?_
    · obtain ⟨property, hp, rfl⟩ := List.mem_map.mp hname
      obtain ⟨t, ht, -⟩ := below property hp
      exact Fields.mem_names_iff.mpr ⟨t, ht⟩
    · simp [Fields.names, Schema.properties, length]
  | _ => exact .refl _

theorem lookup (h : Equal s t) (name : String) :
    Option.Rel Equal (s.properties.lookup name) (t.properties.lookup name) := by
  refine rel_equal
    (fun u hu => forall_nodes_of_mem_properties h.left (Fields.mem_of_lookup_eq_some hu))
    (fun u hu => forall_nodes_of_mem_properties h.right (Fields.mem_of_lookup_eq_some hu)) ?_
  cases hs : s.properties.lookup name with
  | none =>
    have hnone : t.properties.lookup name = none := by
      rw [Fields.lookup_eq_none_iff] at hs ⊢
      rwa [← h.names_perm.mem_iff]
    rw [hnone]
    exact .none
  | some u =>
    have hmem := Fields.mem_of_lookup_eq_some hs
    cases sameParts_of_same h.same with
    | object _ below =>
      obtain ⟨w, hw, same⟩ := below _ hmem
      rw [Schema.properties, hw]
      exact .some same
    | _ => exact absurd hmem List.not_mem_nil

theorem additional (h : Equal s t) : Option.Rel Equal s.additional t.additional := by
  refine rel_equal (fun u hu => forall_nodes_of_additional h.left hu)
    (fun u hu => forall_nodes_of_additional h.right hu) ?_
  cases sameParts_of_same h.same with
  | object _ _ further => exact further
  | _ => exact .none

theorem items (h : Equal s t) : Option.Rel Equal s.items t.items := by
  refine rel_equal (fun u hu => forall_nodes_of_items h.left hu)
    (fun u hu => forall_nodes_of_items h.right hu) ?_
  cases sameParts_of_same h.same with
  | array below => exact below
  | _ => exact .none

end Equal

/-! ### Enriching -/

theorem wellFormed_defaultExemplar (kind : Kind) : kind.defaultExemplar.WellFormed := by
  cases kind <;> trivial

/-- Equal leaves lack an example together, and get the same one. -/
theorem same_enrichLeaf {s t : Schema} (same : s.same t = true) (kind : s.kind = t.kind)
    (given : s.exemplar.isNull = t.exemplar.isNull) (closed : s.enum.isNone = t.enum.isNone)
    (exchanged : ∀ v : Json, v.same v = true →
      (s.withExemplar v).same (t.withExemplar v) = true) :
    s.enrichLeaf.same t.enrichLeaf = true := by
  rw [enrichLeaf, enrichLeaf, given, closed, kind]
  split
  · exact exchanged _ (Json.same_refl (wellFormed_defaultExemplar _))
  · exact same

theorem same_enrich {s t : Schema} (same : s.same t = true) : s.enrich.same t.enrich = true := by
  induction s using nestedInduction generalizing t with
  | string f =>
    cases sameParts_of_same same with
    | @string _ g parts =>
      obtain ⟨format, enum, exemplar, bounds⟩ := StringFacets.same_iff.mp parts
      have closed : f.enum.isNone = g.enum.isNone := by
        generalize f.enum = chosen at enum
        generalize g.enum = chosen' at enum
        cases enum <;> rfl
      refine same_enrichLeaf same rfl (Json.isNull_eq_of_same exemplar) closed fun v hv => ?_
      exact same_of_sameParts (.string (StringFacets.same_iff.mpr ⟨format, enum, hv, bounds⟩))
  | number f =>
    cases sameParts_of_same same with
    | @number _ g parts =>
      simp only [NumberFacets.same, Bool.and_eq_true] at parts
      obtain ⟨⟨⟨⟨⟨integer, format⟩, minimum⟩, maximum⟩, exemplar⟩, nullable⟩ := parts
      refine same_enrichLeaf same (kind_eq_of_same same) (Json.isNull_eq_of_same exemplar) rfl
        fun v hv => ?_
      refine same_of_sameParts (.number ?_)
      simp only [NumberFacets.same, Bool.and_eq_true]
      exact ⟨⟨⟨⟨⟨integer, format⟩, minimum⟩, maximum⟩, hv⟩, nullable⟩
  | boolean f =>
    cases sameParts_of_same same with
    | @boolean _ g parts =>
      simp only [BooleanFacets.same, Bool.and_eq_true] at parts
      refine same_enrichLeaf same rfl (Json.isNull_eq_of_same parts.1) rfl fun v hv => ?_
      refine same_of_sameParts (.boolean ?_)
      simp only [BooleanFacets.same, Bool.and_eq_true]
      exact ⟨hv, parts.2⟩
  | object properties required additional nullable ihp _ =>
    cases sameParts_of_same same with
    | @object _ others _ _ additional' _ nullable' length below further marked =>
      rw [enrich, enrich]
      refine same_of_sameParts (.object ?_ (fun property hp => ?_) further marked)
      · simp [enrichFields_eq_map, length]
      · rw [enrichFields_eq_map] at hp
        obtain ⟨field, hf, rfl⟩ := List.mem_map.mp hp
        obtain ⟨u, hu, hsame⟩ := below field hf
        refine ⟨u.enrich, ?_, ihp field hf hsame⟩
        rw [lookup_enrichFields, hu]
        rfl
  | array items facets ih =>
    cases sameParts_of_same same with
    | array below parts =>
      rw [enrich, enrich, enrichOption_eq_map, enrichOption_eq_map]
      refine same_of_sameParts (.array ?_ parts)
      cases below with
      | none => exact .none
      | some hsame => exact .some (ih _ rfl hsame)
  | oneOf variants =>
    cases sameParts_of_same same with
    | oneOf below => exact same
  | allOf parts =>
    cases sameParts_of_same same with
    | allOf below => exact same
  | ref name =>
    cases sameParts_of_same same with
    | ref parts => exact same
  | empty =>
    cases sameParts_of_same same with
    | empty => exact same
  | abstract =>
    cases sameParts_of_same same with
    | abstract => exact same

end Schema

end Schemata

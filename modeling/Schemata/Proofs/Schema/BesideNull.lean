import Schemata.Proofs.Schema.Untagged
import Schemata.Proofs.Schema.Same

/-!
# Two ways to say that a value may be null

A value that may be `null` is described by `null` in the list of its types, or by the entry
`nullable` beside them. Where one type is asked for, both put the same mark on its node. Where
several are asked for, only the entry does: it is read again for each alternative, while `null` in
the list is set aside before the alternatives are read and then forgotten.

## Main definitions

* `Schema.withTypes`, `Schema.withNullable`: an object with a list of types, and with the entry.
* `Schema.ToldAlike`: nothing depends on which of the two ways is taken.
* `Schema.markAlternatives`: the marks that the entry puts on alternatives.

## Main results

* `Schema.loadForms_named`: alternatives are read with marks as they are read without, and marked.
* `Schema.load_besideNull`: when the two ways give one schema, and what they give otherwise.

## Implementation notes

An array carries no mark, so lists of nothing but arrays do not tell the two ways apart; nor does an
object that has the entry already.
-/

namespace Schemata

namespace Schema

/-- The types that a value can have, apart from `null`. -/
def typeNames : List String := ["string", "number", "integer", "boolean", "object", "array"]

/-- The object, asking for `types`. -/
def withTypes (types : List String) (fields : Fields Json) : Fields Json :=
  Fields.insert "type" (.arr (types.map .str)) fields

/-- The object with the entry that marks what it describes. -/
def withNullable (fields : Fields Json) : Fields Json :=
  Fields.insert "nullable" (.bool true) fields

/-- There is one type, or no alternative to put a new mark on. -/
def ToldAlike (types : List String) (fields : Fields Json) : Prop :=
  types.length = 1 ∨ (entry "nullable" fields).truthy = true ∨ ∀ type ∈ types, type = "array"

/-- The schema with marks on its alternatives. -/
def markAlternatives : Schema → Schema
  | .oneOf variants => .oneOf (variants.map marked)
  | s => s

/-! ### What a list of names asks for -/

/-- Each name with its place in the path. -/
def namedForms (types : List String) : List (String × TypeForm) :=
  types.map fun type => ((Json.str type).display, .single (.str type) false)

section Names

variable {types : List String}

theorem ne_null_of_mem_typeNames (known : ∀ type ∈ types, type ∈ typeNames) :
    ∀ type ∈ types, type ≠ "null" := by
  rintro type hmem rfl
  exact absurd (known _ hmem) (by decide)

theorem isNullName_str {type : String} (h : type ≠ "null") :
    TypeForm.isNullName (.str type) = false :=
  beq_false_of_ne h

variable (named : ∀ type ∈ types, type ≠ "null")

include named

theorem ofItems_names (rest : List Json) :
    TypeForm.ofItems (types.map .str ++ rest) = namedForms types ++ TypeForm.ofItems rest := by
  induction types with
  | nil => rfl
  | cons type types ih =>
    rw [List.forall_mem_cons] at named
    rw [List.map_cons, List.cons_append, TypeForm.ofItems, isNullName_str named.1,
      if_neg Bool.false_ne_true, ih named.2, TypeForm.ofJson]
    rfl

theorem filter_names : (types.map Json.str).filter (!TypeForm.isNullName ·) = types.map .str := by
  rw [List.filter_eq_self]
  intro v hv
  obtain ⟨type, hmem, rfl⟩ := List.mem_map.mp hv
  rw [isNullName_str (named type hmem)]
  rfl

theorem filter_names_null : ((types ++ ["null"]).map Json.str).filter (!TypeForm.isNullName ·) =
    types.map .str := by
  rw [List.map_append, List.filter_append, filter_names named]
  exact List.append_nil _

theorem ofJson_names (several : 2 ≤ types.length) :
    TypeForm.ofJson (.arr (types.map .str)) = .alternatives (namedForms types) := by
  have left : 2 ≤ ((types.map Json.str).filter (!TypeForm.isNullName ·)).length := by
    rwa [filter_names named, List.length_map]
  have items := ofItems_names named []
  rw [List.append_nil] at items
  rw [ofJson_of_several left, items]
  exact congrArg TypeForm.alternatives (List.append_nil _)

/-- Among several types, `null` is as good as not there. -/
theorem ofJson_names_null (several : 2 ≤ types.length) :
    TypeForm.ofJson (.arr ((types ++ ["null"]).map .str)) = .alternatives (namedForms types) := by
  have left : 2 ≤ (((types ++ ["null"]).map Json.str).filter (!TypeForm.isNullName ·)).length := by
    rwa [filter_names_null named, List.length_map]
  rw [ofJson_of_several left, List.map_append, ofItems_names named]
  exact congrArg TypeForm.alternatives (List.append_nil _)

end Names

/-! ### Alternatives -/

section Alternatives

variable {fields others : Fields Json} {below : Below} {path : String} {types : List String}

/-- A mark on the object marks each of the alternatives, which are read as they are without it. -/
theorem loadForms_named (agree : AgreeOutside typeEntries others fields)
    (mark : (entry "nullable" others).truthy = true) (below : Below) (path : String)
    (types : List String) :
    loadForms below others path (namedForms types) =
      List.map marked <$> loadForms below fields path (namedForms types) := by
  induction types with
  | nil => rfl
  | cons type types ih =>
    have first : ∀ path, loadForm below others path (.single (.str type) false) =
        marked <$> loadForm below fields path (.single (.str type) false) := by
      intro path
      rw [loadForm, loadForm, mark, Bool.or_false, Bool.or_false, loadType_congr agree]
      exact loadType_marked below fields path (.str type) _
    show loadForms below others path ((_, .single (.str type) false) :: namedForms types) =
      _ <$> loadForms below fields path ((_, .single (.str type) false) :: namedForms types)
    rw [loadForms, loadForms, first, ih]
    simp only [map_eq_pure_bind, bind_assoc, pure_bind, List.map_cons]

theorem loadForms_arrays (agree : AgreeOutside typeEntries others fields) (below : Below)
    (path : String) (arrays : ∀ type ∈ types, type = "array") :
    loadForms below others path (namedForms types) =
      loadForms below fields path (namedForms types) := by
  induction types with
  | nil => rfl
  | cons type types ih =>
    rw [List.forall_mem_cons] at arrays
    obtain ⟨rfl, arrays⟩ := arrays
    have first : ∀ path, loadForm below others path (.single (.str "array") false) =
        loadForm below fields path (.single (.str "array") false) := by
      intro path
      rw [loadForm, loadForm]
      exact loadArray_congr agree below path
    show loadForms below others path ((_, .single (.str "array") false) :: namedForms types) =
      loadForms below fields path ((_, .single (.str "array") false) :: namedForms types)
    rw [loadForms, loadForms, first, ih arrays]

/-- Each of the names gives one of the alternatives. -/
theorem exists_of_loadForms {variants : List Schema}
    (h : loadForms below fields path (namedForms types) = .ok variants) {type : String}
    (mem : type ∈ types) : ∃ s ∈ variants, ∃ path,
      loadType below fields path (.str type) (entry "nullable" fields).truthy = .ok s := by
  induction types generalizing variants with
  | nil => exact absurd mem List.not_mem_nil
  | cons first types ih =>
    change loadForms below fields path
      ((_, .single (.str first) false) :: namedForms types) = _ at h
    rw [loadForms] at h
    obtain ⟨s, hs, h⟩ := Fault.bind_eq_ok_iff.mp h
    obtain ⟨rest, hrest, h⟩ := Fault.bind_eq_ok_iff.mp h
    obtain rfl := Fault.pure_eq_ok_iff.mp h
    rcases List.mem_cons.mp mem with rfl | mem
    · rw [loadForm, Bool.or_false] at hs
      exact ⟨s, List.mem_cons_self, _, hs⟩
    · obtain ⟨t, ht, found⟩ := ih hrest mem
      exact ⟨t, List.mem_cons_of_mem _ ht, found⟩

/-- Of the nodes that are read for the names of types, only an array carries no mark. -/
theorem not_same_marked {s : Schema} {type : String} (known : type ∈ typeNames)
    (noArray : type ≠ "array") (h : loadType below fields path (.str type) false = .ok s) :
    s.same s.marked = false := by
  have mark : s.nullable.truthy ≠ s.marked.nullable.truthy := by
    simp only [typeNames, List.mem_cons, List.not_mem_nil, or_false] at known
    rcases known with rfl | rfl | rfl | rfl | rfl | rfl
    · obtain ⟨rfl, -⟩ := StringFacets.node_eq_ok_iff.mp h
      exact Bool.false_ne_true
    · obtain ⟨rfl, -⟩ := NumberFacets.node_eq_ok_iff.mp h
      exact Bool.false_ne_true
    · obtain ⟨rfl, -⟩ := NumberFacets.node_eq_ok_iff.mp h
      exact Bool.false_ne_true
    · cases h
      exact Bool.false_ne_true
    · obtain ⟨properties, -, h⟩ := Fault.bind_eq_ok_iff.mp h
      obtain ⟨required, -, h⟩ := Fault.bind_eq_ok_iff.mp h
      obtain ⟨additional, -, h⟩ := Fault.bind_eq_ok_iff.mp h
      obtain ⟨rfl, -⟩ := objectNode_eq_ok_iff.mp h
      exact Bool.false_ne_true
    · exact absurd rfl noArray
  rw [← Bool.not_eq_true]
  exact fun same => mark (truthy_nullable_of_same same)

/-- Alternatives of which one can be marked are not equal to the marked ones. -/
theorem not_same_markAlternatives {variants : List Schema}
    (known : ∀ type ∈ types, type ∈ typeNames)
    (unmarked : (entry "nullable" fields).truthy = false) {type : String} (mem : type ∈ types)
    (noArray : type ≠ "array")
    (h : loadForms below fields path (namedForms types) = .ok variants) :
    (Schema.oneOf variants).same (markAlternatives (.oneOf variants)) = false := by
  obtain ⟨s, hmem, place, hs⟩ := exists_of_loadForms h mem
  rw [unmarked] at hs
  have apart := not_same_marked (known type mem) noArray hs
  rw [← Bool.not_eq_true]
  intro same
  rw [markAlternatives, Schema.same, sameAll_iff, List.forall₂_map_right_iff,
    List.forall₂_same] at same
  rw [same s hmem] at apart
  cases apart

end Alternatives

/-! ### Both ways -/

section Entries

variable (types : List String) (fields : Fields Json)

theorem lookup_type_withTypes :
    (withTypes types fields).lookup "type" = some (.arr (types.map .str)) := by
  rw [withTypes, Fields.lookup_insert, if_pos rfl]

theorem lookup_type_withNullable :
    (withNullable (withTypes types fields)).lookup "type" = some (.arr (types.map .str)) := by
  rw [withNullable, Fields.lookup_insert, if_neg (by decide), lookup_type_withTypes]

theorem entry_nullable_withTypes :
    entry "nullable" (withTypes types fields) = entry "nullable" fields := by
  rw [entry, withTypes, Fields.lookup_insert, if_neg (by decide)]
  rfl

theorem entry_nullable_withNullable : entry "nullable" (withNullable fields) = .bool true := by
  rw [entry, withNullable, Fields.lookup_insert, if_pos rfl]
  rfl

theorem agree_withTypes : AgreeOutside typeEntries (withTypes types fields) fields :=
  .insert _ (by decide)

theorem agree_withNullable :
    AgreeOutside typeEntries (withNullable (withTypes types fields)) fields :=
  (AgreeOutside.insert _ (by decide)).trans (agree_withTypes types fields)

end Entries

section Load

variable {refPrefix : Json} {path : String} {fields : Fields Json} {types : List String}

/-- One type: both ways put a mark on its node. -/
theorem load_besideNull_of_one (untagged : Untagged fields) {type : String}
    (named : type ≠ "null") :
    load refPrefix path (.obj (withTypes ([type] ++ ["null"]) fields)) =
      load refPrefix path (.obj (withNullable (withTypes [type] fields))) := by
  have each : ∀ t ∈ [type], t ≠ "null" := List.forall_mem_singleton.mpr named
  have beside : (([type] ++ ["null"]).map Json.str).any TypeForm.isNullName = true := by
    rw [List.map_append, List.any_append]
    exact Bool.or_true _
  rw [load_of_agree untagged (agree_withTypes _ _) (lookup_type_withTypes _ _),
    load_of_agree untagged (agree_withNullable _ _) (lookup_type_withNullable _ _),
    ofJson_of_one (filter_names_null each), ofJson_of_one (filter_names each), loadForm, loadForm,
    loadType_congr (agree_withTypes _ _), loadType_congr (agree_withNullable _ _),
    entry_nullable_withNullable, beside, Bool.or_true]
  rfl

section Several

variable (untagged : Untagged fields) (named : ∀ type ∈ types, type ≠ "null")
  (several : 2 ≤ types.length)

include untagged named several

theorem load_withTypes_of_several :
    load refPrefix path (.obj (withTypes types fields)) =
      Schema.oneOf <$> loadForms (belowOf refPrefix fields) fields path (namedForms types) := by
  rw [load_of_agree untagged (agree_withTypes _ _) (lookup_type_withTypes _ _),
    ofJson_names named several, loadForm, loadForms_congr (agree_withTypes _ _)]
  · rfl
  · rw [entry_nullable_withTypes]

/-- Several types: `null` among them is forgotten. -/
theorem load_besideNull_of_several :
    load refPrefix path (.obj (withTypes (types ++ ["null"]) fields)) =
      load refPrefix path (.obj (withTypes types fields)) := by
  rw [load_withTypes_of_several untagged named several,
    load_of_agree untagged (agree_withTypes _ _) (lookup_type_withTypes _ _),
    ofJson_names_null named several, loadForm, loadForms_congr (agree_withTypes _ _)]
  · rfl
  · rw [entry_nullable_withTypes]

theorem load_withNullable_of_several :
    load refPrefix path (.obj (withNullable (withTypes types fields))) =
      Schema.oneOf <$> loadForms (belowOf refPrefix fields) (withNullable (withTypes types fields))
        path (namedForms types) := by
  rw [load_of_agree untagged (agree_withNullable _ _) (lookup_type_withNullable _ _),
    ofJson_names named several, loadForm]
  rfl

/-- Several types: the entry marks each of the alternatives. -/
theorem load_withNullable_eq_markAlternatives :
    load refPrefix path (.obj (withNullable (withTypes types fields))) =
      markAlternatives <$> load refPrefix path (.obj (withTypes types fields)) := by
  rw [load_withNullable_of_several untagged named several,
    load_withTypes_of_several untagged named several,
    loadForms_named (agree_withNullable _ _) (by rw [entry_nullable_withNullable]; rfl),
    Functor.map_map, Functor.map_map]
  rfl

end Several

/-- For one type, `null` beside it and the entry `nullable` give one schema. For several they do
only when the entry was there before or all of the types are arrays: the entry marks each of the
alternatives, and `null` among several types is as good as not there. -/
theorem load_besideNull (refPrefix : Json) (path : String) {fields : Fields Json}
    (untagged : Untagged fields) {types : List String} (given : types ≠ [])
    (known : ∀ type ∈ types, type ∈ typeNames) :
    (ToldAlike types fields →
      load refPrefix path (.obj (withTypes (types ++ ["null"]) fields)) =
        load refPrefix path (.obj (withNullable (withTypes types fields)))) ∧
    (¬ ToldAlike types fields → ∀ s t,
      load refPrefix path (.obj (withTypes (types ++ ["null"]) fields)) = .ok s →
        load refPrefix path (.obj (withNullable (withTypes types fields))) = .ok t →
          s.same t = false) ∧
    (2 ≤ types.length →
      load refPrefix path (.obj (withTypes (types ++ ["null"]) fields)) =
          load refPrefix path (.obj (withTypes types fields)) ∧
        load refPrefix path (.obj (withNullable (withTypes types fields))) =
          markAlternatives <$> load refPrefix path (.obj (withTypes types fields))) := by
  have named := ne_null_of_mem_typeNames known
  have pos : 0 < types.length := List.length_pos_iff.mpr given
  refine ⟨fun alike => ?_, fun apart s t hs ht => ?_, fun several => ?_⟩
  · by_cases several : 2 ≤ types.length
    · rw [load_besideNull_of_several untagged named several,
        load_withTypes_of_several untagged named several,
        load_withNullable_of_several untagged named several]
      congr 1
      rcases alike with one | mark | arrays
      · omega
      · refine (loadForms_congr (agree_withNullable _ _) ?_ _ _ _).symm
        rw [entry_nullable_withNullable, mark]
        rfl
      · exact (loadForms_arrays (agree_withNullable _ _) _ _ arrays).symm
    · have one : types.length = 1 := by omega
      obtain ⟨type, rfl⟩ := List.length_eq_one_iff.mp one
      exact load_besideNull_of_one untagged (named type List.mem_cons_self)
  · rw [ToldAlike, not_or, not_or, Bool.not_eq_true] at apart
    obtain ⟨notOne, unmarked, notArrays⟩ := apart
    have several : 2 ≤ types.length := by omega
    rw [load_besideNull_of_several untagged named several] at hs
    rw [load_withNullable_eq_markAlternatives untagged named several, hs] at ht
    obtain rfl := Fault.pure_eq_ok_iff.mp ht
    rw [load_withTypes_of_several untagged named several] at hs
    obtain ⟨variants, hvariants, rfl⟩ := Fault.map_eq_ok_iff.mp hs
    simp only [not_forall] at notArrays
    obtain ⟨type, hmem, noArray⟩ := notArrays
    exact not_same_markAlternatives known unmarked hmem noArray hvariants
  · exact ⟨load_besideNull_of_several untagged named several,
      load_withNullable_eq_markAlternatives untagged named several⟩

/-- An object with a bound for each of two types. -/
def shortTextOrNumber : Fields Json := [("maxLength", .int 8), ("minimum", .int 1)]

theorem load_besideNull_shortTextOrNumber :
    Untagged shortTextOrNumber ∧
    load (.str "#/components/schemas/") "#"
        (.obj (withTypes (["string"] ++ ["null"]) shortTextOrNumber)) =
      load (.str "#/components/schemas/") "#"
        (.obj (withNullable (withTypes ["string"] shortTextOrNumber))) ∧
    load (.str "#/components/schemas/") "#"
        (.obj (withNullable (withTypes ["string", "integer"] shortTextOrNumber))) =
      markAlternatives <$> .ok (.oneOf [.string { maxLength := .int 8 },
        .number { integer := .bool true, minimum := .int 1 }]) ∧
    (Schema.oneOf [.string { maxLength := .int 8 },
      .number { integer := .bool true, minimum := .int 1 }]).same
      (.oneOf [.string { maxLength := .int 8, nullable := .bool true },
        .number { integer := .bool true, minimum := .int 1, nullable := .bool true }]) = false := by
  have untagged : Untagged shortTextOrNumber := ⟨rfl, rfl, rfl, rfl⟩
  have known : (∀ type ∈ ["string"], type ∈ typeNames) ∧
      ∀ type ∈ ["string", "integer"], type ∈ typeNames := by decide
  have one := load_besideNull (.str "#/components/schemas/") "#" untagged (by decide) known.1
  have two := load_besideNull (.str "#/components/schemas/") "#" untagged (by decide) known.2
  have loaded : load (.str "#/components/schemas/") "#"
      (.obj (withTypes ["string", "integer"] shortTextOrNumber)) =
        .ok (.oneOf [.string { maxLength := .int 8 },
          .number { integer := .bool true, minimum := .int 1 }]) := by
    rw [load]
    rfl
  have apart : ¬ ToldAlike ["string", "integer"] shortTextOrNumber := by
    rintro (single | mark | arrays)
    · cases single
    · cases mark
    · exact absurd (arrays "string" List.mem_cons_self) (by decide)
  obtain ⟨forgotten, marks⟩ := two.2.2 (by decide)
  rw [loaded] at forgotten marks
  exact ⟨untagged, one.1 (.inl rfl), marks, two.2.1 apart _ _ forgotten marks⟩

/-- Of an object that asks for a text, a number or `null`, nothing is left that may be `null`. -/
theorem load_drops_null :
    load (.str "#/components/schemas/") "#"
        (.obj (withTypes (["string", "number"] ++ ["null"]) [])) =
      .ok (.oneOf [.string {}, .number {}]) ∧
    load (.str "#/components/schemas/") "#"
        (.obj (withNullable (withTypes ["string", "number"] []))) =
      .ok (.oneOf [.string { nullable := .bool true }, .number { nullable := .bool true }]) ∧
    (Schema.oneOf [.string {}, .number {}]).same
      (.oneOf [.string { nullable := .bool true }, .number { nullable := .bool true }]) =
        false := by
  refine ⟨?_, ?_, ?_⟩
  · rw [load]
    rfl
  · rw [load]
    rfl
  · decide +kernel

end Load

end Schema

end Schemata

import Schemata.Proofs.Schema.Origin
import Schemata.Proofs.Schema.ReadPlaces
import Schemata.Proofs.Json.Equivalence

/-!
# Constraints that contradict each other

Samples that are taken at run time hold constraints that are ill-typed, repeated or inverted.
Loading brings them into what a node accepts, and drops no more than that: a bound stays unless it
is no number or its pair is inverted, a closed set loses its repetitions, and a required name stays
when there is a property of this name. This holds at every place that is read, and it is enough: no
node is ever refused for parts that contradict each other.

## Main definitions

* `Json.firstOccurrences`: the values of a list that equal none before them.
* `Schema.Inverted`: the lower bound is greater than the upper one.
* `Schema.BoundKept`, `Schema.EnumKept`, `Schema.RequiresNames`: what stays of an entry.
* `Schema.Normalised`: the node of a type, by the entries of its object.

## Main results

* `Json.distinct_eq_firstOccurrences`: dropping repetitions keeps first occurrences.
* `Schema.normalised_of_load`: the node of an object.
* `Schema.load_normalises`: the nodes at all places of a value.

## Implementation notes

What stays is said in terms of the entries themselves, their exact values and their order, not of
the functions that read them.
-/

namespace Schemata

namespace Json

/-- The values of a list that equal none before them, in their order. -/
def firstOccurrences (values : List Json) : List Json :=
  (values.zipIdx.filter fun occurrence => !occurrence.1.isIn (values.take occurrence.2)).map
    Prod.fst

/-- One more value at the end of a list does not count for those before it. -/
theorem firstOccurrences_concat (values : List Json) (v : Json) :
    firstOccurrences (values ++ [v]) =
      firstOccurrences values ++ if v.isIn values then [] else [v] := by
  have before : values.zipIdx.filter (fun occurrence =>
        !occurrence.1.isIn ((values ++ [v]).take occurrence.2)) =
      values.zipIdx.filter fun occurrence => !occurrence.1.isIn (values.take occurrence.2) := by
    refine List.filter_congr fun occurrence hmem => ?_
    have hlt := List.snd_lt_of_mem_zipIdx hmem
    rw [List.take_append_of_le_length (by omega)]
  rw [firstOccurrences, List.zipIdx_append, List.filter_append, List.map_append, before,
    firstOccurrences, List.zipIdx_singleton, List.filter_cons, List.filter_nil, Nat.zero_add]
  dsimp only
  rw [List.take_left]
  cases v.isIn values <;> rfl

/-- Whether an equal value was kept or only seen makes no difference. -/
theorem distinct_eq_firstOccurrences (values : List Json) :
    distinct values = firstOccurrences values := by
  induction values using List.reverseRecOn with
  | nil => rfl
  | append_singleton values v ih =>
    have seen : v.isIn (distinct values) = v.isIn values := isIn_eq_of_find? (find?_distinct v _)
    have last : distinct (values ++ [v]) = addNew (distinct values) v := List.foldl_append
    rw [last, firstOccurrences_concat, addNew, seen, ih]
    cases v.isIn values with
    | true => exact (List.append_nil _).symm
    | false => rfl

end Json

namespace Schema

/-! ### What stays of an entry -/

/-- Both bounds are numbers, and the lower one is greater. -/
def Inverted (lowName highName : String) (fields : Fields Json) : Prop :=
  (entry lowName fields).isNumber = true ∧ (entry highName fields).isNumber = true ∧
    ∃ low high, (entry lowName fields).number? = some low ∧
      (entry highName fields).number? = some high ∧ high < low

/-- A bound is what stands in its entry, if that is a number and the pair is not inverted. -/
structure BoundKept (name : String) (inverted : Prop) (fields : Fields Json) (bound : Json) :
    Prop where
  kept : (entry name fields).isNumber = true → ¬ inverted → bound = entry name fields
  dropped : (entry name fields).isNumber = false ∨ inverted → bound = .null

/-- What stays of a pair of bounds. -/
structure BoundsKept (lowName highName : String) (fields : Fields Json) (low high : Json) :
    Prop where
  low : BoundKept lowName (Inverted lowName highName fields) fields low
  high : BoundKept highName (Inverted lowName highName fields) fields high

/-- A closed set holds the first occurrences of a list with values; nothing else makes one. -/
structure EnumKept (fields : Fields Json) (enum : Option (List Json)) : Prop where
  listed : ∀ values, fields.lookup "enum" = some (.arr values) → values ≠ [] →
    enum = some (Json.firstOccurrences values)
  unlisted : (∀ values, fields.lookup "enum" = some (.arr values) → values = []) → enum = none

/-- The names that an object requires, where there are none or they are a list of texts. -/
inductive RequiresNames (fields : Fields Json) : List String → Prop
  | absent (h : fields.lookup "required" = none) : RequiresNames fields []
  | listed {names : List String} (h : fields.lookup "required" = some (.arr (names.map .str))) :
      RequiresNames fields names

/-- The node of an object that asks for a type, by what its entries are. -/
inductive Normalised (fields : Fields Json) : String → Schema → Prop
  | string {facets : StringFacets}
      (bounds : BoundsKept "minLength" "maxLength" fields facets.minLength facets.maxLength)
      (enum : EnumKept fields facets.enum) : Normalised fields "string" (.string facets)
  | number {facets : NumberFacets} (fraction : facets.integer = .bool false)
      (bounds : BoundsKept "minimum" "maximum" fields facets.minimum facets.maximum) :
      Normalised fields "number" (.number facets)
  | integer {facets : NumberFacets} (whole : facets.integer = .bool true)
      (bounds : BoundsKept "minimum" "maximum" fields facets.minimum facets.maximum) :
      Normalised fields "integer" (.number facets)
  | array {items : Option Schema} {facets : ArrayFacets}
      (bounds : BoundsKept "minItems" "maxItems" fields facets.minItems facets.maxItems) :
      Normalised fields "array" (.array items facets)
  | object {properties : List (String × Schema)} {required : List String}
      {additional : Option Schema} {nullable : Json}
      (names : Fields.names properties = Fields.names (propertyEntries fields))
      (known : ∀ names, RequiresNames fields names →
        required = names.filter (· ∈ Fields.names (propertyEntries fields))) :
      Normalised fields "object" (.object properties required additional nullable)

/-! ### Entries -/

section Entries

variable {fields : Fields Json}

theorem exceeds?_boundEntry_iff (lowName highName : String) :
    (boundEntry lowName fields).exceeds? (boundEntry highName fields) = some true ↔
      Inverted lowName highName fields := by
  rw [Inverted, boundEntry, boundEntry]
  cases hlow : (entry lowName fields).isNumber with
  | false =>
    refine ⟨fun h => ?_, fun h => absurd h.1 Bool.false_ne_true⟩
    cases h
  | true =>
    obtain ⟨low, hlow'⟩ := Json.number?_of_isNumber hlow
    cases hhigh : (entry highName fields).isNumber with
    | false =>
      refine ⟨fun h => ?_, fun h => absurd h.2.1 Bool.false_ne_true⟩
      cases hentry : entry lowName fields <;> rw [hentry] at hlow h <;> cases hlow <;> cases h
    | true =>
      obtain ⟨high, hhigh'⟩ := Json.number?_of_isNumber hhigh
      rw [if_pos rfl, if_pos rfl, Json.exceeds?_of_numbers hlow' hhigh', Option.some.injEq,
        decide_eq_true_iff, hlow', hhigh']
      constructor
      · exact fun h => ⟨rfl, rfl, low, high, rfl, rfl, h⟩
      · rintro ⟨-, -, _, _, ⟨⟩, ⟨⟩, h⟩
        exact h

theorem boundsKept_boundEntries (lowName highName : String) (fields : Fields Json) :
    BoundsKept lowName highName fields (boundEntries lowName highName fields).1
      (boundEntries lowName highName fields).2 := by
  have each : ∀ name, BoundKept name False fields (boundEntry name fields) := by
    intro name
    rw [boundEntry]
    constructor
    · intro number _
      rw [if_pos number]
    · rintro (other | ⟨⟨⟩⟩)
      rw [other]
      rfl
  have spared : ∀ {inverted : Prop} {name bound}, ¬ inverted →
      BoundKept name False fields bound → BoundKept name inverted fields bound := by
    intro inverted name bound agree kept
    exact ⟨fun number _ => kept.kept number id, fun h => kept.dropped (h.imp_right agree)⟩
  rw [boundEntries]
  split
  · next h =>
    have inverted := (exceeds?_boundEntry_iff lowName highName).mp h
    exact ⟨⟨fun _ agree => absurd inverted agree, fun _ => rfl⟩,
      ⟨fun _ agree => absurd inverted agree, fun _ => rfl⟩⟩
  · next h =>
    have agree := mt (exceeds?_boundEntry_iff lowName highName).mpr h
    exact ⟨spared agree (each lowName), spared agree (each highName)⟩

theorem enumKept_enumEntry (fields : Fields Json) : EnumKept fields (enumEntry fields) := by
  constructor
  · intro values hvalues given
    rw [enumEntry, entry, hvalues, ← Json.distinct_eq_firstOccurrences]
    cases values with
    | nil => exact absurd rfl given
    | cons v rest => rfl
  · intro unlisted
    rw [enumEntry, entry]
    cases henum : fields.lookup "enum" with
    | none => rfl
    | some v =>
      cases v with
      | arr values =>
        rw [unlisted values henum]
        rfl
      | _ => rfl

theorem texts_of_requiresNames {properties : Fields Schema} {names : List String}
    {required : List Json} (requires : RequiresNames fields names)
    (h : requiredEntry properties fields = .ok required) :
    texts required = names.filter (· ∈ Fields.names properties) := by
  cases requires with
  | absent habsent =>
    rw [requiredEntry, entry, habsent] at h
    cases h
    rfl
  | listed hlisted =>
    rw [requiredEntry, entry, hlisted] at h
    cases names with
    | nil =>
      cases h
      rfl
    | cons name rest =>
      have names := texts_map_str id (name :: rest)
      rw [List.map_id] at names
      rw [← names]
      exact texts_of_knownNames h

end Entries

/-! ### Nodes -/

/-- The types whose nodes carry constraints. -/
def constrainedTypes : List String := ["string", "number", "integer", "array", "object"]

theorem normalised_of_load {refPrefix path : String} {fields : Fields Json} {type : String}
    {s : Schema} (asks : AsksFor fields (.str type)) (constrained : type ∈ constrainedTypes)
    (h : load (.str refPrefix) path (.obj fields) = .ok s) : Normalised fields type s := by
  simp only [constrainedTypes, List.mem_cons, List.not_mem_nil, or_false] at constrained
  obtain ⟨nullable, hload⟩ := exists_loadType_of_asksFor asks
  rcases constrained with rfl | rfl | rfl | rfl | rfl
  · rw [hload] at h
    obtain ⟨rfl, -⟩ := StringFacets.node_eq_ok_iff.mp h
    exact .string (boundsKept_boundEntries _ _ _) (enumKept_enumEntry _)
  · rw [hload] at h
    obtain ⟨rfl, -⟩ := NumberFacets.node_eq_ok_iff.mp h
    exact .number rfl (boundsKept_boundEntries _ _ _)
  · rw [hload] at h
    obtain ⟨rfl, -⟩ := NumberFacets.node_eq_ok_iff.mp h
    exact .integer rfl (boundsKept_boundEntries _ _ _)
  · obtain ⟨items, unique, rfl, -⟩ := exists_array_of_load asks h
    exact .array (boundsKept_boundEntries _ _ _)
  · obtain ⟨properties, _, _, _, rfl, ⟨_, named⟩, ⟨required, hrequired, rfl⟩, -⟩ :=
      exists_object_of_load asks h
    have names := names_of_loadFields named
    refine .object names fun given requires => ?_
    rw [← names]
    exact texts_of_requiresNames requires hrequired

/-- Loading never finds that the parts of a node contradict each other, and each node of what is
loaded has of its constraints what makes sense. No node stands anywhere but where a value is
read. -/
theorem load_normalises (refPrefix : String) (v : Json) :
    (∀ path cause, load (.str refPrefix) path v ≠ .error (.inconsistent cause)) ∧
      ∀ path s, load (.str refPrefix) path v = .ok s →
        (∀ place w, ReadsAt v place w →
          ∃ t, s.descend place = some t ∧ LoadsTo (.str refPrefix) w t ∧
            ∀ fields type, w = .obj fields → AsksFor fields (.str type) →
              type ∈ constrainedTypes → Normalised fields type t) ∧
        ∀ place t, s.descend place = some t →
          ∃ w, ReadsAt v place w ∧ LoadsTo (.str refPrefix) w t := by
  refine ⟨fun path cause h => ?_, fun path s h => ⟨fun place w read => ?_, fun place t ht => ?_⟩⟩
  · cases explained_load h
  · obtain ⟨t, ht, loads⟩ := exists_descend_of_readsAt read ⟨path, h⟩
    refine ⟨t, ht, loads, ?_⟩
    rintro fields type rfl asks constrained
    obtain ⟨path, loads⟩ := loads
    exact normalised_of_load asks constrained loads
  · exact exists_readsAt_of_descend ⟨path, h⟩ ht

/-- Sizes whose bounds are out of order. -/
def sizeEntries : Fields Json :=
  [("type", .str "integer"), ("minimum", .int 9), ("maximum", .int 2)]

/-- A list of sizes, with a bound that is no number. -/
def sizeListEntries : Fields Json :=
  [("type", .arr [.str "array", .str "null"]), ("minItems", .bool true), ("maxItems", .int 4),
    ("items", .obj sizeEntries)]

/-- An object with this list, which requires a property that it does not have. -/
def clothingEntries : Fields Json :=
  [("type", .str "object"), ("properties", .obj [("sizes", .obj sizeListEntries)]),
    ("required", .arr [.str "names", .str "sizes"])]

theorem load_normalises_clothing :
    load (.str "#/components/schemas/") "#" (.obj clothingEntries) =
        .ok (.object [("sizes", .array (some (.number { integer := .bool true }))
          { maxItems := .int 4 })] ["sizes"] none (.bool false)) ∧
      Normalised sizeEntries "integer" (.number { integer := .bool true }) ∧
      Normalised sizeListEntries "array" (.array (some (.number { integer := .bool true }))
        { maxItems := .int 4 }) := by
  have loaded : load (.str "#/components/schemas/") "#" (.obj clothingEntries) =
      .ok (.object [("sizes", .array (some (.number { integer := .bool true }))
        { maxItems := .int 4 })] ["sizes"] none (.bool false)) := by
    rw [clothingEntries, load]
    rfl
  have single : ∀ name items, Json.str name ≠ .arr items := by
    intro name items heq
    cases heq
  have clothing : AsksFor clothingEntries (.str "object") :=
    .plain ⟨rfl, rfl, rfl, rfl⟩ rfl (single _)
  have list : AsksFor sizeListEntries (.str "array") := .listed ⟨rfl, rfl, rfl, rfl⟩ rfl rfl
  have size : AsksFor sizeEntries (.str "integer") := .plain ⟨rfl, rfl, rfl, rfl⟩ rfl (single _)
  obtain ⟨nodes, -⟩ :=
    (load_normalises "#/components/schemas/" (.obj clothingEntries)).2 "#" _ loaded
  refine ⟨loaded, ?_, ?_⟩
  · obtain ⟨t, ht, -, normalised⟩ := nodes [.property "sizes", .items] (.obj sizeEntries)
      (.step (.property clothing rfl) (.step (.items list rfl) .here))
    cases ht
    exact normalised sizeEntries "integer" rfl size (by decide)
  · obtain ⟨t, ht, -, normalised⟩ := nodes [.property "sizes"] (.obj sizeListEntries)
      (.step (.property clothing rfl) .here)
    cases ht
    exact normalised sizeListEntries "array" rfl list (by decide)

end Schema

end Schemata

import Schemata.Proofs.Schema.Load

/-!
# Objects that are read by their type

An object is read by its type when none of the entries that come before the type stands in it. The
type then says which of the other entries are read, and these make the node; whether it may be
`null` is only a mark on it. Objects that agree in the other entries thus give the same nodes, up to
marks.

## Main definitions

* `Schema.Untagged`: no entry that comes before the type stands in the object.
* `Schema.belowOf`: how the schemas below the node of an object are read from its entries.
* `Schema.AgreeOutside`: two objects differ in some entries at most.
* `Schema.marked`: the node with the mark for nullable, where there is one.

## Main results

* `Schema.load_of_type`, `Schema.load_of_noType`: which node an untagged object gives.
* `Schema.loadType_congr`: the node of a type reads neither the type nor the mark from the object.
* `Schema.loadType_marked`: the mark is put on a node that is read in the same way without it.
* `Schema.ofJson_of_one`, `Schema.ofJson_of_several`: what a list of types asks for.
-/

namespace Schemata

namespace Schema

/-- An object without the entries that come before its type. -/
structure Untagged (fields : Fields Json) : Prop where
  noReference : fields.lookup "$ref" = none
  noOneOf : fields.lookup "oneOf" = none
  noAnyOf : fields.lookup "anyOf" = none
  noAllOf : fields.lookup "allOf" = none

/-- How the schemas below the node of an object are read. -/
def belowOf (refPrefix : Json) (fields : Fields Json) : Below where
  properties path := loadProperties refPrefix s!"{path}/properties" fields
  additional path := loadAdditional refPrefix s!"{path}/additionalProperties" fields
  items path := loadItems refPrefix s!"{path}/items" fields

/-- The objects agree in every entry, except perhaps in those of `names`. -/
def AgreeOutside (names : List String) (fields others : Fields Json) : Prop :=
  ∀ name, name ∉ names → fields.lookup name = others.lookup name

/-- The node with the mark for nullable, if nodes of its kind have one. -/
def marked (s : Schema) : Schema := s.withNullable?.getD s

variable {refPrefix : Json} {path : String} {fields others : Fields Json}

theorem has_eq_false {name : String} (h : fields.lookup name = none) :
    Fields.has fields name = false := by
  rw [Fields.has, h]
  rfl

theorem has_of_lookup {name : String} {v : Json} (h : fields.lookup name = some v) :
    Fields.has fields name = true := by
  rw [Fields.has, h]
  rfl

theorem load_of_untagged (h : Untagged fields) :
    load refPrefix path (.obj fields) = loadNode (belowOf refPrefix fields) fields path := by
  simp only [load, has_eq_false h.noReference, has_eq_false h.noOneOf, has_eq_false h.noAnyOf,
    has_eq_false h.noAllOf, Bool.false_eq_true, if_false]
  rfl

theorem load_of_type (h : Untagged fields) {type : Json}
    (typed : fields.lookup "type" = some type) :
    load refPrefix path (.obj fields) =
      loadForm (belowOf refPrefix fields) fields path (TypeForm.ofJson type) := by
  rw [load_of_untagged h, loadNode, if_pos (has_of_lookup typed), entry, typed]
  rfl

theorem load_of_noType (h : Untagged fields) (untyped : fields.lookup "type" = none)
    (properties : Fields.has fields "properties" = true) :
    load refPrefix path (.obj fields) =
      loadObject (belowOf refPrefix fields) fields path (entry "nullable" fields).truthy := by
  rw [load_of_untagged h, loadNode, has_eq_false untyped, if_neg Bool.false_ne_true,
    if_pos properties]

/-! ### Putting an entry -/

namespace AgreeOutside

variable {names : List String}

theorem refl (names : List String) (fields : Fields Json) : AgreeOutside names fields fields :=
  fun _ _ => rfl

theorem symm (h : AgreeOutside names fields others) : AgreeOutside names others fields :=
  fun name other => (h name other).symm

theorem trans {further : Fields Json} (h : AgreeOutside names fields others)
    (h' : AgreeOutside names others further) : AgreeOutside names fields further :=
  fun name other => (h name other).trans (h' name other)

theorem mono {more : List String} (h : AgreeOutside names fields others) (sub : names ⊆ more) :
    AgreeOutside more fields others :=
  fun name other => h name fun hmem => other (sub hmem)

/-- Putting an entry changes no other one. -/
theorem insert {name : String} (v : Json) (mem : name ∈ names) :
    AgreeOutside names (Fields.insert name v fields) fields := by
  intro key other
  have hne : key ≠ name := fun heq => other (heq ▸ mem)
  rw [Fields.lookup_insert, if_neg hne]

theorem entry_eq (h : AgreeOutside names fields others) {name : String} (other : name ∉ names) :
    entry name fields = entry name others := by
  rw [entry, entry, h name other]

end AgreeOutside

/-! ### The node of a type -/

/-- The entries that say of what type a value is. -/
def typeEntries : List String := ["type", "nullable"]

theorem Untagged.congr (h : Untagged fields) (agree : AgreeOutside typeEntries others fields) :
    Untagged others where
  noReference := (agree _ (by decide)).trans h.noReference
  noOneOf := (agree _ (by decide)).trans h.noOneOf
  noAnyOf := (agree _ (by decide)).trans h.noAnyOf
  noAllOf := (agree _ (by decide)).trans h.noAllOf

section Congr

variable (agree : AgreeOutside typeEntries fields others)

include agree

theorem boundEntries_congr {low high : String} (hlow : low ∉ typeEntries)
    (hhigh : high ∉ typeEntries) : boundEntries low high fields = boundEntries low high others := by
  rw [boundEntries, boundEntry, boundEntry, agree.entry_eq hlow, agree.entry_eq hhigh]
  rfl

theorem loadString_congr (nullable : Bool) :
    loadString fields nullable = loadString others nullable := by
  have enum : enumEntry fields = enumEntry others := by
    rw [enumEntry, enumEntry, agree.entry_eq (by decide)]
  rw [loadString, boundEntries_congr agree (by decide) (by decide), enum,
    agree.entry_eq (by decide : "format" ∉ typeEntries),
    agree.entry_eq (by decide : "example" ∉ typeEntries)]
  rfl

theorem loadNumber_congr (integer nullable : Bool) :
    loadNumber fields integer nullable = loadNumber others integer nullable := by
  rw [loadNumber, boundEntries_congr agree (by decide) (by decide),
    agree.entry_eq (by decide : "format" ∉ typeEntries),
    agree.entry_eq (by decide : "example" ∉ typeEntries)]
  rfl

theorem loadObject_congr (below : Below) (path : String) (nullable : Bool) :
    loadObject below fields path nullable = loadObject below others path nullable := by
  have required : ∀ properties,
      requiredEntry properties fields = requiredEntry properties others := by
    intro properties
    rw [requiredEntry, requiredEntry, agree.entry_eq (by decide)]
  simp only [loadObject, required]

theorem loadArray_congr (below : Below) (path : String) :
    loadArray below fields path = loadArray below others path := by
  rw [loadArray, boundEntries_congr agree (by decide) (by decide),
    agree.entry_eq (by decide : "uniqueItems" ∉ typeEntries)]
  rfl

theorem loadType_congr (below : Below) (path : String) (type : Json) (nullable : Bool) :
    loadType below fields path type nullable = loadType below others path type nullable := by
  rw [loadType.eq_def, loadType.eq_def, loadObject_congr agree, loadArray_congr agree,
    loadString_congr agree, loadNumber_congr agree, loadNumber_congr agree,
    agree.entry_eq (by decide : "example" ∉ typeEntries)]

theorem belowOf_congr : belowOf refPrefix fields = belowOf refPrefix others := by
  simp only [belowOf, loadProperties_eq, loadAdditional_eq, loadItems_eq,
    agree "properties" (by decide), agree "additionalProperties" (by decide),
    agree "items" (by decide)]

end Congr

mutual

/-- Objects of which both or neither are marked give the same node for what a type asks for. -/
theorem loadForm_congr (agree : AgreeOutside typeEntries fields others)
    (mark : (entry "nullable" fields).truthy = (entry "nullable" others).truthy) (below : Below)
    (path : String) :
    (form : TypeForm) → loadForm below fields path form = loadForm below others path form
  | .single type besideNull => by rw [loadForm, loadForm, mark, loadType_congr agree]
  | .alternatives forms => by rw [loadForm, loadForm, loadForms_congr agree mark below path forms]

theorem loadForms_congr (agree : AgreeOutside typeEntries fields others)
    (mark : (entry "nullable" fields).truthy = (entry "nullable" others).truthy) (below : Below)
    (path : String) : (forms : List (String × TypeForm)) →
      loadForms below fields path forms = loadForms below others path forms
  | [] => by rw [loadForms, loadForms]
  | (place, form) :: rest => by
    rw [loadForms, loadForms, loadForm_congr agree mark below _ form,
      loadForms_congr agree mark below path rest]

end

/-- What an object gives whose type is put in the place of that of another object. -/
theorem load_of_agree (untagged : Untagged fields) (agree : AgreeOutside typeEntries others fields)
    {type : Json} (typed : others.lookup "type" = some type) :
    load refPrefix path (.obj others) =
      loadForm (belowOf refPrefix fields) others path (TypeForm.ofJson type) := by
  rw [load_of_type (untagged.congr agree) typed, belowOf_congr agree]

/-! ### Marks -/

theorem marked_marked (s : Schema) : s.marked.marked = s.marked := by
  cases s <;> rfl

/-- Reading for a mark is reading, and then putting the mark on. -/
theorem loadType_marked (below : Below) (fields : Fields Json) (path : String) (type : Json)
    (nullable : Bool) :
    loadType below fields path type true = marked <$> loadType below fields path type nullable := by
  have unmarked :
      loadType below fields path type true = marked <$> loadType below fields path type false := by
    rw [loadType.eq_def, loadType.eq_def]
    split
    · simp only [loadObject, objectNode, map_bind]
      refine bind_congr fun properties => bind_congr fun required => bind_congr fun additional =>
        bind_congr fun unknown => ?_
      split <;> rfl
    · simp only [loadArray, ArrayFacets.node, map_bind]
      rfl
    · simp only [loadString, StringFacets.node, map_bind]
      rfl
    · simp only [loadNumber, NumberFacets.node, map_bind]
      rfl
    · simp only [loadNumber, NumberFacets.node, map_bind]
      rfl
    all_goals rfl
  cases nullable with
  | false => exact unmarked
  | true =>
    rw [unmarked, Functor.map_map]
    simp only [marked_marked]

/-! ### Lists of types -/

/-- A list in which one type is left asks for it, and for a mark when `null` was set aside. -/
theorem ofJson_of_one {types : List Json} {type : Json}
    (h : types.filter (!TypeForm.isNullName ·) = [type]) :
    TypeForm.ofJson (.arr types) = .single type (types.any TypeForm.isNullName) := by
  rw [TypeForm.ofJson, h]

/-- A list in which several types are left asks for alternatives; that `null` was set aside is
not noted. -/
theorem ofJson_of_several {types : List Json}
    (h : 2 ≤ (types.filter (!TypeForm.isNullName ·)).length) :
    TypeForm.ofJson (.arr types) = .alternatives (TypeForm.ofItems types) := by
  rw [TypeForm.ofJson]
  split
  · next hnil => simp [hnil] at h
  · next hone => simp [hone] at h
  · rfl

end Schema

end Schemata

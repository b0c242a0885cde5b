import Schemata.Proofs.Json.Same
import Mathlib.Data.List.Nodup

/-!
# Places in a value

A place is told by the names on the way to it. An entry of an object goes by its own name and an
item of a list by its index in decimal, so that one list of texts names a place whatever it leads
through.

A path spells the names one after the other, with a slash between them. It can be read back when no
name has a slash in it, and indices never have one.

## Main definitions

* `Json.children`: what stands directly inside a value, by name.
* `Json.at?`: the value at a place.
* `Json.allNames`: the names of all entries, at any depth.
* `pathSegments`: the parts of a path between its slashes.

## Main results

* `Json.nodup_names_children`: no two children of a well-formed value go by one name.
* `Json.at?_cons_of_mem`: descending through a child.
* `Json.slash_notMem_of_mem_children`: where no entry has a slash in its name, no child has.
* `pathSegments_intercalate`: the segments of a path are the names that it spells.
-/

namespace Schemata

namespace Json

/-! ### Children -/

def children : Json → Fields Json
  | .arr items => items.mapIdx fun i v => (toString i, v)
  | .obj fields => fields
  | _ => []

theorem toList_toString (i : Nat) : (toString i).toList = Nat.toDigits 10 i := String.toList_ofList

/-- The digits of an index tell which one it is. -/
theorem toString_injective : Function.Injective (toString : Nat → String) := by
  refine Function.LeftInverse.injective (g := fun text => Nat.ofDigitChars 10 text.toList 0) ?_
  intro i
  show Nat.ofDigitChars 10 (toString i).toList 0 = i
  rw [toList_toString]
  exact Nat.ofDigitChars_toDigits (by decide) (by decide)

theorem mem_children_arr {items : List Json} {i : Nat} {v : Json} (h : items[i]? = some v) :
    (toString i, v) ∈ (arr items).children := by
  obtain ⟨hi, rfl⟩ := List.getElem?_eq_some_iff.mp h
  exact List.mem_mapIdx.mpr ⟨i, hi, rfl⟩

theorem nodup_names_children {v : Json} (wf : v.WellFormed) : (Fields.names v.children).Nodup := by
  cases v with
  | arr items =>
    have hnames : Fields.names (arr items).children = (List.range items.length).map toString := by
      apply List.ext_getElem
      · simp [Fields.names, children]
      · intro i hi hi'
        simp [Fields.names, children]
    rw [hnames]
    exact List.Nodup.map toString_injective List.nodup_range
  | obj fields => exact (wellFormed_obj_iff.mp wf).1
  | _ => exact List.nodup_nil

theorem wellFormed_of_mem_children {v w : Json} {name : String} (wf : v.WellFormed)
    (h : (name, w) ∈ v.children) : w.WellFormed := by
  cases v with
  | arr items =>
    obtain ⟨i, hi, heq⟩ := List.mem_mapIdx.mp h
    cases heq
    exact wellFormed_arr_iff.mp wf _ (List.getElem_mem hi)
  | obj fields => exact (wellFormed_obj_iff.mp wf).2 _ h
  | _ => exact absurd h List.not_mem_nil

/-! ### Places -/

/-- The value at a place, if there is such a place. -/
def at? : List String → Json → Option Json
  | [], v => some v
  | name :: rest, v => (v.children.lookup name).bind (at? rest)

@[simp]
theorem at?_nil (v : Json) : v.at? [] = some v := rfl

theorem at?_cons_of_mem {v w : Json} {name : String} (wf : v.WellFormed)
    (h : (name, w) ∈ v.children) (rest : List String) : v.at? (name :: rest) = w.at? rest := by
  rw [at?, Fields.lookup_eq_some_of_mem (nodup_names_children wf) h, Option.bind_some]

/-! ### Names -/

mutual

/-- The names of the entries of all objects, at any depth. -/
def allNames : Json → List String
  | .arr items => allNamesOfItems items
  | .obj fields => allNamesOfFields fields
  | _ => []

def allNamesOfItems : List Json → List String
  | [] => []
  | v :: rest => v.allNames ++ allNamesOfItems rest

def allNamesOfFields : List (String × Json) → List String
  | [] => []
  | (name, v) :: rest => name :: (v.allNames ++ allNamesOfFields rest)

end

theorem mem_allNames_arr_iff {items : List Json} {name : String} :
    name ∈ (arr items).allNames ↔ ∃ v ∈ items, name ∈ v.allNames := by
  rw [allNames]
  induction items with
  | nil => simp [allNamesOfItems]
  | cons v rest ih => simp [allNamesOfItems, ih]

theorem mem_allNames_obj_iff {fields : Fields Json} {name : String} :
    name ∈ (obj fields).allNames ↔ ∃ field ∈ fields, name = field.1 ∨ name ∈ field.2.allNames := by
  rw [allNames]
  induction fields with
  | nil => simp [allNamesOfFields]
  | cons field rest ih => simp [allNamesOfFields, ih, or_assoc]

theorem allNames_subset_of_mem_children {v w : Json} {name : String}
    (h : (name, w) ∈ v.children) : w.allNames ⊆ v.allNames := by
  intro n hn
  cases v with
  | arr items =>
    obtain ⟨i, hi, heq⟩ := List.mem_mapIdx.mp h
    cases heq
    exact mem_allNames_arr_iff.mpr ⟨_, List.getElem_mem hi, hn⟩
  | obj fields => exact mem_allNames_obj_iff.mpr ⟨_, h, .inr hn⟩
  | _ => exact absurd h List.not_mem_nil

theorem slash_notMem_of_mem_children {v w : Json} {name : String}
    (plain : ∀ n ∈ v.allNames, '/' ∉ n.toList) (h : (name, w) ∈ v.children) :
    '/' ∉ name.toList := by
  cases v with
  | arr items =>
    obtain ⟨i, hi, heq⟩ := List.mem_mapIdx.mp h
    cases heq
    intro hslash
    rw [toList_toString] at hslash
    exact absurd (Nat.isDigit_of_mem_toDigits (by decide) (by decide) hslash) (by decide)
  | obj fields => exact plain _ (mem_allNames_obj_iff.mpr ⟨_, h, .inl rfl⟩)
  | _ => exact absurd h List.not_mem_nil

end Json

/-! ### Paths -/

def pathSegments (path : String) : List String := (path.toList.splitOn '/').map String.ofList

/-- A path can be read back when none of the names that it spells has a slash in it. -/
theorem pathSegments_intercalate {names : List String} (nonempty : names ≠ [])
    (plain : ∀ name ∈ names, '/' ∉ name.toList) :
    pathSegments ("/".intercalate names) = names := by
  have split : ("/".intercalate names).toList.splitOn '/' = names.map String.toList := by
    rw [String.toList_intercalate]
    apply List.splitOn_intercalate
    · intro chars hchars
      obtain ⟨name, hname, rfl⟩ := List.mem_map.mp hchars
      exact plain name hname
    · simpa using nonempty
  rw [pathSegments, split, List.map_map]
  simp [Function.comp_def]

example : pathSegments "#/properties/a/items" = ["#", "properties", "a", "items"] := by decide

end Schemata

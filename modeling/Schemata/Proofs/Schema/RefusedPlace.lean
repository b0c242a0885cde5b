import Schemata.Proofs.Schema.LoadFaults

/-!
# Where loading refuses a value

A refusal names the place of what offends, and the place is read off the path by splitting it at its
slashes, unless the path goes through an object that asks for several types. Loading such an object
once for each type puts the word `type` and the type into the path without a step down, so that
below it the path no longer names a place of the value.

## Main results

* `Schema.at?_of_leads`: steps lead to the value at their place.
* `Schema.pathSegments_spell`: a path without alternatives spells a place.
* `Schema.load_refuses_at`: a refusal, its place and its path.
-/

namespace Schemata

namespace Schema

section Steps

variable {v u : Json} {steps : List PathStep}

@[simp]
theorem placeOf_nil : placeOf [] = [] := rfl

@[simp]
theorem placeOf_child (name : String) (steps : List PathStep) :
    placeOf (.child name :: steps) = name :: placeOf steps := rfl

@[simp]
theorem placeOf_alternative (place : String) (steps : List PathStep) :
    placeOf (.alternative place :: steps) = placeOf steps := rfl

theorem at?_of_leads (h : Leads v steps u) (wf : v.WellFormed) :
    v.at? (placeOf steps) = some u := by
  induction h with
  | here => simp
  | child mem _ ih =>
    rw [placeOf_child, Json.at?_cons_of_mem wf mem]
    exact ih (Json.wellFormed_of_mem_children wf mem)
  | alternative _ _ ih => exact ih wf

theorem slash_notMem_placeOf (h : Leads v steps u)
    (plain : ∀ name ∈ v.allNames, '/' ∉ name.toList) :
    ∀ name ∈ placeOf steps, '/' ∉ name.toList := by
  induction h with
  | here => simp
  | child mem _ ih =>
    rw [placeOf_child, List.forall_mem_cons]
    refine ⟨Json.slash_notMem_of_mem_children plain mem, ih fun name hname => ?_⟩
    exact plain name (Json.allNames_subset_of_mem_children mem hname)
  | alternative _ _ ih => exact ih plain

/-- Either every step goes further down, or one of them is taken at an object with several types. -/
theorem children_or_alternative (h : Leads v steps u) (wf : v.WellFormed) :
    steps = (placeOf steps).map .child ∨
      ∃ before type after object, steps = before ++ .alternative type :: after ∧
        v.at? (placeOf before) = some (.obj object) ∧ HasSeveralTypes object := by
  induction h with
  | here => exact .inl rfl
  | @child v w u name steps mem _ ih =>
    rcases ih (Json.wellFormed_of_mem_children wf mem) with direct | through
    · left
      rw [placeOf_child, List.map_cons, ← direct]
    · right
      obtain ⟨before, type, after, object, rfl, hobject, several⟩ := through
      refine ⟨.child name :: before, type, after, object, rfl, ?_, several⟩
      rw [placeOf_child, Json.at?_cons_of_mem wf mem]
      exact hobject
  | @alternative object u place steps several _ _ =>
    exact .inr ⟨[], place, steps, object, rfl, Json.at?_nil _, several⟩

/-- A slash before each name is a slash between the names, after the root. -/
theorem append_spell_children (first : String) (place : List String) :
    first ++ spell (place.map .child) = "/".intercalate (first :: place) := by
  induction place generalizing first with
  | nil => simp [spell]
  | cons name rest ih =>
    rw [String.intercalate_cons_cons, ← ih, List.map_cons, spell, PathStep.text]
    simp only [String.append_assoc]

theorem pathSegments_spell {place : List String} (plain : ∀ name ∈ place, '/' ∉ name.toList) :
    pathSegments ("#" ++ spell (place.map .child)) = "#" :: place := by
  rw [append_spell_children]
  refine pathSegments_intercalate (List.cons_ne_nil _ _) (List.forall_mem_cons.mpr ⟨?_, plain⟩)
  decide

end Steps

/-- A refusal is about the value at the place to which its path leads, and this value is as the
cause says. The segments of the path are the names on the way there, or the path goes through a step
that is none: the choice of a type at an object that asks for several. -/
theorem load_refuses_at {refPrefix path : String} {v : Json} {cause : LoadCause} (wf : v.WellFormed)
    (plain : ∀ name ∈ v.allNames, '/' ∉ name.toList)
    (h : load (.str refPrefix) "#" v = .error (.load cause path)) :
    ∃ steps u, path = "#" ++ spell steps ∧ v.at? (placeOf steps) = some u ∧
      Offends (placeOf steps) u cause ∧
      (pathSegments path = "#" :: placeOf steps ∨
        ∃ before type after object, steps = before ++ .alternative type :: after ∧
          v.at? (placeOf before) = some (.obj object) ∧ HasSeveralTypes object) := by
  cases explained_load h with
  | @refused _ steps u leads offends =>
    refine ⟨steps, u, rfl, at?_of_leads leads wf, offends, ?_⟩
    refine (children_or_alternative leads wf).imp_left fun direct => ?_
    have hplain := slash_notMem_placeOf leads plain
    rw [direct, pathSegments_spell hplain, ← direct]

/-- An object with a list whose items are a number. -/
def numberOfItems : Json :=
  .obj [("type", .str "object"),
    ("properties", .obj [("a", .obj [("type", .str "array"), ("items", .int 3)])])]

theorem load_refuses_at_items :
    ∃ steps u, "#/properties/a/items" = "#" ++ spell steps ∧
      numberOfItems.at? (placeOf steps) = some u ∧
      Offends (placeOf steps) u (.notASchema "int") ∧
      (pathSegments "#/properties/a/items" = "#" :: placeOf steps ∨
        ∃ before type after object, steps = before ++ .alternative type :: after ∧
          numberOfItems.at? (placeOf before) = some (.obj object) ∧ HasSeveralTypes object) := by
  have wf : numberOfItems.WellFormed := by
    simp [numberOfItems, Json.WellFormed, Json.FieldsWellFormed]
  have refused : load (.str "#/components/schemas/") "#" numberOfItems =
      .error (.load (.notASchema "int") "#/properties/a/items") := by
    rw [numberOfItems, load]
    rfl
  exact load_refuses_at wf (by decide) refused

/-- The choice of a type stands in the path of what offends below it, and no segment leads there. -/
theorem load_refuses_off_place :
    load (.str "#/components/schemas/") "#"
        (.obj [("type", .arr [.str "object", .str "string"]),
          ("properties", .obj [("a", .int 5)])]) =
      .error (.load (.notASchema "int") "#/type/object/properties/a") ∧
    (Json.obj [("type", .arr [.str "object", .str "string"]),
        ("properties", .obj [("a", .int 5)])]).at?
      (pathSegments "#/type/object/properties/a").tail = none := by
  constructor
  · rw [load]
    rfl
  · rfl

end Schema

end Schemata

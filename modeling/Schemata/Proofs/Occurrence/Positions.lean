import Schemata.Proofs.Occurrence.Additive

/-!
# Where required paths are found

A report flattens fields to paths and counts paths, so that fields at different places are one row
when their paths are the same text. What it calls required is therefore found in every sample, but
not always at one place in all of them: `a.b` may be a property of that name, or a property of a
property.

Legible places never share a path. So a path that is required is found at one place in all samples,
as soon as each sample has it at some legible place.

## Main results

* `required_at_place`: required paths are found at one place, or at places that are not legible.
* `required_without_place`: a path that is required, and found at no place in common.

## What is deliberately absent

Required properties of merged schemas are not concerned. They are decided on for each object by
itself, and there no paths are formed.
-/

namespace Schemata

/-! ### Required paths -/

/-- A path that is required is found in every sample, and at one place in all of them, unless one
sample has it at places only that are not legible. -/
theorem required_at_place {config : Config} {samples : List Schema} (hne : samples ≠ [])
    (names : ∀ s ∈ samples, ∀ t ∈ s.nodes, (Fields.names t.properties).Nodup)
    {r : OccurrenceReport} (h : analyzeSamples config (samples.map .node) = .ok r) {path : String}
    (hpath : path ∈ r.required) :
    (∀ s ∈ samples, s.HasPath path) ∧
      ((∃ place, Step.path place = path ∧ ∀ s ∈ samples, s.HasField place) ∨
        ∃ s ∈ samples, ∀ place, s.HasField place → Step.path place = path →
          ¬ Step.Legible place) := by
  have found : ∀ s ∈ samples, s.HasPath path := by
    rw [analyzeSamples_nodes] at h
    obtain ⟨-, rows, required, -⟩ := report_of_analyze h
    rw [required, rows] at hpath
    have all := (mem_requiredPaths_iff_forall (List.map_eq_nil_iff.not.mpr hne)).mp hpath
    intro s hs
    obtain ⟨t, ht, hlisted⟩ := all [s] (List.mem_map_of_mem hs)
    rw [List.mem_singleton.mp ht] at hlisted
    exact (Schema.mem_paths_iff_hasPath (names s hs)).mp hlisted
  refine ⟨found, ?_⟩
  by_cases legible : ∀ s ∈ samples, ∃ place, s.HasField place ∧ Step.path place = path ∧
      Step.Legible place
  · left
    obtain ⟨first, hfirst⟩ := List.exists_mem_of_ne_nil _ hne
    obtain ⟨place, -, hplace, hlegible⟩ := legible first hfirst
    refine ⟨place, hplace, fun s hs => ?_⟩
    obtain ⟨other, field, hother, hlegible'⟩ := legible s hs
    rwa [hlegible.path_injective hlegible' (hplace.trans hother.symm)]
  · right
    simp only [not_forall] at legible
    obtain ⟨s, hs, none⟩ := legible
    exact ⟨s, hs, fun place field heq hlegible => none ⟨place, field, heq, hlegible⟩⟩

/-- Two samples with a field inside of items, in one of them beside a property without a name. -/
def baskets : List Schema :=
  [.object [("items", .array (some (.object [("id", .string {}), ("", .empty)] [] none
      (.bool false))) {})] [] none (.bool false),
    .object [("note", .string {}),
      ("items", .array (some (.object [("id", .number {})] [] none (.bool false))) {})] [] none
      (.bool false)]

theorem required_at_place_baskets :
    ∃ r, analyzeSamples {} (baskets.map .node) = .ok r ∧ "items[].id" ∈ r.required ∧
      (∀ s ∈ baskets, s.HasPath "items[].id") ∧
      ((∃ place, Step.path place = "items[].id" ∧ ∀ s ∈ baskets, s.HasField place) ∨
        ∃ s ∈ baskets, ∀ place, s.HasField place → Step.path place = "items[].id" →
          ¬ Step.Legible place) := by
  obtain ⟨r, hr⟩ : ∃ r, analyzeSamples {} (baskets.map .node) = .ok r := ⟨_, rfl⟩
  have listed : "items[].id" ∈ r.required := by
    cases hr
    decide
  exact ⟨r, hr, listed, required_at_place (by decide) (by decide) hr listed⟩

/-- Two nestings with one path, and no place in common. -/
def nestings : List Schema :=
  [.object [("a.b", .empty)] [] none (.bool false),
    .object [("a", .object [("b", .empty)] [] none (.bool false))] [] none (.bool false)]

theorem required_without_place :
    ∃ r, analyzeSamples {} (nestings.map .node) = .ok r ∧ "a.b" ∈ r.required ∧
      ¬ ∃ place, Step.path place = "a.b" ∧ ∀ s ∈ nestings, s.HasField place := by
  refine ⟨_, rfl, by decide, ?_⟩
  rintro ⟨place, -, fields⟩
  obtain ⟨⟨steps, name, heq⟩, t, ht⟩ := fields _ List.mem_cons_self
  obtain ⟨-, t', ht'⟩ := fields _ (List.mem_cons_of_mem _ List.mem_cons_self)
  obtain ⟨first, rest, rfl⟩ : ∃ first rest, place = first :: rest :=
    List.exists_cons_of_ne_nil (heq ▸ List.append_ne_nil_of_right_ne_nil _ (List.cons_ne_nil _ _))
  obtain ⟨u, hu, -⟩ := Schema.walk_cons_eq_some_iff.mp ht
  obtain ⟨u', hu', -⟩ := Schema.walk_cons_eq_some_iff.mp ht'
  cases first with
  | items => cases hu
  | property first =>
    have dotted := Fields.mem_of_lookup_eq_some hu
    have nested := Fields.mem_of_lookup_eq_some hu'
    rw [Schema.properties, List.mem_singleton] at dotted nested
    have names : "a.b" = "a" :=
      (congrArg Prod.fst dotted).symm.trans (congrArg Prod.fst nested)
    exact absurd names (by decide)

end Schemata

import Schemata.Fields
import Mathlib.Data.List.Induction

/-!
# Tables of named values

A table in which no name repeats is a function from its names to values: looking a name up and
finding an entry are the same. Gathering turns any list of entries into such a table, with the
values of one name as its value.

## Main definitions

* `Fields.under`: the values that a list of entries holds under a name.

## Main results

* `Fields.mem_of_lookup_eq_some`, `Fields.lookup_eq_some_of_mem`: look-up is membership where no
  name repeats.
* `Fields.firstSeen_append`: what is first seen in two lists, one after the other.
* `Fields.nodup_names_gather`, `Fields.mem_gather_iff`: what gathering gives.
* `Fields.under_flatMap`: the values that several tables hold under a name, one look-up each.
-/

namespace Schemata

namespace Fields

variable {α β : Type}

/-! ### Look-up -/

theorem lookup_cons_ne {name key : String} {v : α} {rest : Fields α} (h : key ≠ name) :
    List.lookup key ((name, v) :: rest) = rest.lookup key := by
  rw [List.lookup_cons, beq_false_of_ne h]

theorem mem_of_lookup_eq_some {fields : Fields α} {name : String} {v : α}
    (h : fields.lookup name = some v) : (name, v) ∈ fields := by
  obtain ⟨before, after, rfl, -⟩ := List.lookup_eq_some_iff.mp h
  simp

theorem lookup_eq_some_of_mem {fields : Fields α} {name : String} {v : α}
    (nodup : (names fields).Nodup) (h : (name, v) ∈ fields) : fields.lookup name = some v := by
  induction fields with
  | nil => exact absurd h List.not_mem_nil
  | cons field rest ih =>
    obtain ⟨n, w⟩ := field
    rw [names, List.map_cons, List.nodup_cons] at nodup
    rcases List.mem_cons.mp h with heq | hrest
    · cases heq
      exact List.lookup_cons_self
    · have hmem : name ∈ rest.map Prod.fst := List.mem_map.mpr ⟨(name, v), hrest, rfl⟩
      have hne : name ≠ n := fun e => nodup.1 (e ▸ hmem)
      rw [lookup_cons_ne hne]
      exact ih nodup.2 hrest

theorem mem_names_iff {fields : Fields α} {name : String} :
    name ∈ names fields ↔ ∃ v, fields.lookup name = some v := by
  induction fields with
  | nil => simp [names]
  | cons field rest ih =>
    obtain ⟨n, w⟩ := field
    by_cases hn : name = n
    · subst hn
      simp [names]
    · rw [lookup_cons_ne hn, ← ih]
      simp [names, hn]

theorem has_iff {fields : Fields α} {name : String} :
    has fields name = true ↔ name ∈ names fields := by
  rw [has, Option.isSome_iff_exists, mem_names_iff]

theorem lookup_eq_none_iff {fields : Fields α} {name : String} :
    fields.lookup name = none ↔ name ∉ names fields := by
  rw [mem_names_iff, Option.eq_none_iff_forall_ne_some, not_exists]

/-- Look-up in the table of a function. -/
theorem lookup_map_names (f : String → α) (all : List String) (name : String) :
    (all.map fun n => (n, f n)).lookup name = if name ∈ all then some (f name) else none := by
  induction all with
  | nil => rfl
  | cons n rest ih =>
    by_cases hn : name = n
    · subst hn
      rw [List.map_cons, List.lookup_cons_self, if_pos List.mem_cons_self]
    · rw [List.map_cons, lookup_cons_ne hn, ih]
      simp [hn]

/-- Look-up among values that have all been taken through a function. -/
theorem lookup_map_values (f : α → β) (fields : Fields α) (name : String) :
    (fields.map fun field => (field.1, f field.2)).lookup name = (fields.lookup name).map f := by
  induction fields with
  | nil => rfl
  | cons field rest ih =>
    obtain ⟨n, v⟩ := field
    by_cases hn : name = n
    · subst hn
      rw [List.map_cons, List.lookup_cons_self, List.lookup_cons_self, Option.map_some]
    · rw [List.map_cons, lookup_cons_ne hn, lookup_cons_ne hn, ih]

/-! ### Inserting -/

theorem eq_or_mem_of_mem_insert {name : String} {v : α} {fields : Fields α} {field : String × α}
    (h : field ∈ insert name v fields) : field = (name, v) ∨ field ∈ fields := by
  induction fields with
  | nil => exact .inl (List.mem_singleton.mp h)
  | cons first rest ih =>
    obtain ⟨n, w⟩ := first
    rw [insert] at h
    split at h
    · next heq =>
      rcases List.mem_cons.mp h with rfl | h
      · exact .inl (by rw [heq])
      · exact .inr (List.mem_cons_of_mem _ h)
    · rcases List.mem_cons.mp h with rfl | h
      · exact .inr List.mem_cons_self
      · exact (ih h).imp_right (List.mem_cons_of_mem _)

theorem mem_names_insert_iff {name key : String} {v : α} {fields : Fields α} :
    key ∈ names (insert name v fields) ↔ key = name ∨ key ∈ names fields := by
  by_cases h : name ∈ names fields
  · rw [names_insert_of_mem v h]
    refine ⟨.inr, ?_⟩
    rintro (rfl | hk)
    · exact h
    · exact hk
  · rw [names_insert_of_notMem v h, List.mem_append, List.mem_singleton]
    exact or_comm

/-- A new name comes last. -/
theorem insert_of_notMem {name : String} {v : α} {fields : Fields α} (h : name ∉ names fields) :
    insert name v fields = fields ++ [(name, v)] := by
  induction fields with
  | nil => rfl
  | cons field rest ih =>
    obtain ⟨n, w⟩ := field
    rw [names, List.map_cons, List.mem_cons, not_or] at h
    rw [insert, if_neg (Ne.symm h.1), ih h.2, List.cons_append]

/-! ### Gathering -/

/-- The values that a list of entries holds under a name, in their order. -/
def under (name : String) (entries : List (String × α)) : List α :=
  entries.filterMap fun entry => if entry.1 = name then some entry.2 else none

theorem under_append (name : String) (entries others : List (String × α)) :
    under name (entries ++ others) = under name entries ++ under name others :=
  List.filterMap_append

theorem mem_under {name : String} {v : α} {entries : List (String × α)} :
    v ∈ under name entries ↔ (name, v) ∈ entries := by
  simp only [under, List.mem_filterMap, Prod.exists, Option.ite_none_right_eq_some,
    Option.some.injEq]
  constructor
  · rintro ⟨n, w, hm, rfl, rfl⟩
    exact hm
  · intro h
    exact ⟨name, v, h, rfl, rfl⟩

/-- In a table in which no name repeats there is at most one value under a name. -/
theorem under_eq_toList_lookup {fields : Fields α} (nodup : (names fields).Nodup) (name : String) :
    under name fields = (fields.lookup name).toList := by
  induction fields with
  | nil => rfl
  | cons field rest ih =>
    obtain ⟨n, v⟩ := field
    rw [names, List.map_cons, List.nodup_cons] at nodup
    have hrest := ih nodup.2
    by_cases hn : name = n
    · subst hn
      have none : rest.lookup name = none := lookup_eq_none_iff.mpr nodup.1
      rw [List.lookup_cons_self]
      rw [none] at hrest
      simpa [under] using hrest
    · rw [lookup_cons_ne hn, ← hrest]
      simp [under, Ne.symm hn]

private theorem mem_foldl_firstSeen {all seen : List String} {name : String} :
    name ∈ all.foldl (fun seen n => if n ∈ seen then seen else seen ++ [n]) seen ↔
      name ∈ seen ∨ name ∈ all := by
  induction all generalizing seen with
  | nil => simp
  | cons n rest ih =>
    rw [List.foldl_cons, ih]
    by_cases hn : n ∈ seen
    · simp only [hn, if_true, List.mem_cons]
      constructor
      · rintro (h | h)
        · exact .inl h
        · exact .inr (.inr h)
      · rintro (h | rfl | h)
        · exact .inl h
        · exact .inl hn
        · exact .inr h
    · simp only [hn, if_false, List.mem_append, List.mem_cons, List.not_mem_nil, or_false, or_assoc]

private theorem nodup_foldl_firstSeen {all seen : List String} (h : seen.Nodup) :
    (all.foldl (fun seen n => if n ∈ seen then seen else seen ++ [n]) seen).Nodup := by
  induction all generalizing seen with
  | nil => exact h
  | cons n rest ih =>
    rw [List.foldl_cons]
    apply ih
    by_cases hn : n ∈ seen
    · rwa [if_pos hn]
    · rw [if_neg hn]
      rw [List.nodup_append]
      refine ⟨h, by simp, ?_⟩
      intro a ha b hb e
      rw [List.mem_singleton.mp hb] at e
      exact hn (e ▸ ha)

theorem mem_firstSeen {all : List String} {name : String} : name ∈ firstSeen all ↔ name ∈ all := by
  rw [firstSeen, mem_foldl_firstSeen]
  simp

theorem firstSeen_append_singleton (all : List String) (name : String) :
    firstSeen (all ++ [name]) = if name ∈ all then firstSeen all else firstSeen all ++ [name] := by
  rw [firstSeen, List.foldl_append, List.foldl_cons, List.foldl_nil, ← firstSeen]
  simp only [mem_firstSeen]

/-- What is first seen in the second list is what the first one does not have. -/
theorem firstSeen_append (all others : List String) :
    firstSeen (all ++ others) = firstSeen all ++ (firstSeen others).filter (· ∉ firstSeen all) := by
  induction others using List.reverseRecOn with
  | nil =>
    rw [List.append_nil]
    exact (List.append_nil _).symm
  | append_singleton others name ih =>
    rw [← List.append_assoc, firstSeen_append_singleton, firstSeen_append_singleton, ih]
    by_cases later : name ∈ others
    · rw [if_pos (List.mem_append_right all later), if_pos later]
    · rw [if_neg later, List.filter_append]
      by_cases earlier : name ∈ all
      · simp [earlier, mem_firstSeen]
      · simp [earlier, later, mem_firstSeen]

theorem nodup_firstSeen (all : List String) : (firstSeen all).Nodup :=
  nodup_foldl_firstSeen List.nodup_nil

theorem names_gather (entries : List (String × α)) :
    names (gather entries) = firstSeen (names entries) := by
  simp [names, gather, Function.comp_def]

theorem nodup_names_gather (entries : List (String × α)) : (names (gather entries)).Nodup := by
  rw [names_gather]
  exact nodup_firstSeen _

theorem mem_gather_iff {entries : List (String × α)} {name : String} {group : List α} :
    (name, group) ∈ gather entries ↔ name ∈ names entries ∧ group = under name entries := by
  rw [gather, List.mem_map]
  constructor
  · rintro ⟨n, hn, heq⟩
    cases heq
    exact ⟨mem_firstSeen.mp hn, rfl⟩
  · rintro ⟨hn, rfl⟩
    exact ⟨name, mem_firstSeen.mpr hn, rfl⟩

/-- The values that several tables hold under a name: one from each table that has the name. -/
theorem under_flatMap {items : List β} {table : β → Fields α}
    (nodup : ∀ item ∈ items, (names (table item)).Nodup) (name : String) :
    under name (items.flatMap table) = items.filterMap fun item => (table item).lookup name := by
  induction items with
  | nil => rfl
  | cons item rest ih =>
    rw [List.forall_mem_cons] at nodup
    rw [List.flatMap_cons, under_append, ih nodup.2, under_eq_toList_lookup nodup.1,
      List.filterMap_cons]
    cases (table item).lookup name <;> rfl

/-- A name is found once for each item just when it is found in the table of each item. -/
theorem length_under_flatMap_eq_iff {items : List β} {table : β → Fields α}
    (nodup : ∀ item ∈ items, (names (table item)).Nodup) (name : String) :
    (under name (items.flatMap table)).length = items.length ↔
      ∀ item ∈ items, name ∈ names (table item) := by
  rw [under_flatMap nodup, List.filterMap_length_eq_length]
  simp only [Option.isSome_iff_exists, ← mem_names_iff]

end Fields

end Schemata

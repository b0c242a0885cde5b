/-!
# Named values in first-seen order

A table of named values is the list of its entries. A name keeps the place at which it was first
put; putting it again replaces the value.

## Main definitions

* `Fields.names`, `Fields.has`, `Fields.insert`, `Fields.ofEntries`; look-up is `List.lookup`.
* `Fields.gather`: the values of each name, names in first-seen order.

## Main results

* `Fields.names_insert_of_mem`, `Fields.names_insert_of_notMem`: what inserting does to the names.
* `Fields.lookup_insert`: what it does to look-up.
* `Fields.mem_of_mem_gather`: gathering invents no entry.
-/

namespace Schemata

abbrev Fields (α : Type) := List (String × α)

namespace Fields

variable {α : Type}

def names (fields : Fields α) : List String := fields.map Prod.fst

def has (fields : Fields α) (name : String) : Bool := (fields.lookup name).isSome

def insert (name : String) (value : α) : Fields α → Fields α
  | [] => [(name, value)]
  | (n, v) :: rest => if n = name then (n, value) :: rest else (n, v) :: insert name value rest

/-- The table of a list of entries in which names may repeat. -/
def ofEntries (entries : List (String × α)) : Fields α :=
  entries.foldl (fun fields (name, value) => insert name value fields) []

/-! ### Inserting -/

theorem names_insert_of_mem {name : String} (value : α) {fields : Fields α}
    (h : name ∈ names fields) : names (insert name value fields) = names fields := by
  induction fields with
  | nil => simp [names] at h
  | cons entry rest ih =>
    obtain ⟨n, v⟩ := entry
    by_cases hn : n = name
    · simp [insert, names, hn]
    · have hr : name ∈ names rest := by
        simpa [names, Ne.symm hn] using h
      simpa [insert, names, hn] using ih hr

theorem names_insert_of_notMem {name : String} (value : α) {fields : Fields α}
    (h : name ∉ names fields) : names (insert name value fields) = names fields ++ [name] := by
  induction fields with
  | nil => rfl
  | cons entry rest ih =>
    obtain ⟨n, v⟩ := entry
    have hn : n ≠ name := by
      intro e
      exact h (by simp [names, e])
    have hr : name ∉ names rest := by
      intro e
      exact h (by simpa [names] using Or.inr (by simpa [names] using e))
    simpa [insert, names, hn] using ih hr

theorem lookup_insert (name key : String) (value : α) (fields : Fields α) :
    (insert name value fields).lookup key
      = if key = name then some value else fields.lookup key := by
  have split (n : String) (v : α) (rest : Fields α) :
      List.lookup key ((n, v) :: rest) = if key = n then some v else rest.lookup key := by
    by_cases h : key = n <;> simp [List.lookup_cons, h, beq_eq_false_iff_ne.2]
  induction fields with
  | nil => simpa [insert] using split name value []
  | cons entry rest ih =>
    obtain ⟨n, v⟩ := entry
    by_cases hn : n = name
    · subst hn
      by_cases hk : key = n <;> simp [insert, split, hk]
    · by_cases hk : key = n
      · simp [insert, hn, hk]
      · simp [insert, split, hn, hk, ih]

/-! ### Gathering -/

/-- The distinct elements of a list, each at its first place. -/
def firstSeen (names : List String) : List String :=
  names.foldl (fun seen name => if name ∈ seen then seen else seen ++ [name]) []

/-- The values that a list of entries holds under each name. -/
def gather (entries : List (String × α)) : Fields (List α) :=
  (firstSeen (entries.map Prod.fst)).map fun name =>
    (name, entries.filterMap fun entry => if entry.1 = name then some entry.2 else none)

theorem mem_of_mem_gather {entries : List (String × α)} {name : String} {group : List α} {value : α}
    (h : (name, group) ∈ gather entries) (hv : value ∈ group) : (name, value) ∈ entries := by
  simp only [gather, List.mem_map, Prod.mk.injEq] at h
  obtain ⟨n, _, rfl, rfl⟩ := h
  simp only [List.mem_filterMap] at hv
  obtain ⟨⟨m, v⟩, hm, he⟩ := hv
  by_cases hmn : m = n
  · subst hmn
    simp only [if_true, Option.some.injEq] at he
    exact he ▸ hm
  · simp [hmn] at he

end Fields

end Schemata

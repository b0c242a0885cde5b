import Schemata.Proofs.Schema.Load
import Schemata.Samples.Snapshot

/-!
# Loading at another path

The path at which a value is loaded is only there for the faults. Where loading comes to a schema,
it comes to the same schema at every other path, and so does the loading of a snapshot. A value thus
loads as one schema or as none, wherever it is found.

## What is deliberately absent

Nothing is said about faults: they name the path, and so differ with it.

## Main definitions

* `Fault.Entails`: one computation comes to every result that another comes to.
* `Schema.Loads`, `Snapshot.Loads`: what a value loads as, at every path.

## Main results

* `Schema.loads_of_load`, `Snapshot.loads_of_load`: one path is enough.
* `Schema.loadAll_eq_ok_iff`, `Snapshot.loadAll_eq_ok_iff`: what lists of values load as.
-/

namespace Schemata

/-! ### Computations with the same results -/

/-- The second computation comes to every result that the first comes to; where the first has a
fault, nothing is said of the second. -/
def Fault.Entails {α : Type} (x y : Except Fault α) : Prop := ∀ a, x = .ok a → y = .ok a

namespace Fault.Entails

variable {α β : Type} {x y : Except Fault α}

theorem refl (x : Except Fault α) : Fault.Entails x x := fun _ h => h

theorem of_error {fault : Fault} (y : Except Fault α) : Fault.Entails (.error fault) y := nofun

theorem bind (h : Fault.Entails x y) {f g : α → Except Fault β}
    (next : ∀ a, Fault.Entails (f a) (g a)) : Fault.Entails (x >>= f) (y >>= g) := by
  intro b hb
  obtain ⟨a, ha, hb⟩ := Fault.bind_eq_ok_iff.mp hb
  exact Fault.bind_eq_ok_iff.mpr ⟨a, h a ha, next a b hb⟩

theorem map (h : Fault.Entails x y) (f : α → β) : Fault.Entails (f <$> x) (f <$> y) := by
  intro b hb
  obtain ⟨a, ha, rfl⟩ := Fault.map_eq_ok_iff.mp hb
  exact Fault.map_eq_ok_iff.mpr ⟨a, h a ha, rfl⟩

end Fault.Entails

namespace Schema

open Fault (Entails)

variable {refPrefix : Json} {fields : Fields Json}

/-! ### Nodes -/

theorem entails_loadReference (path path' : String) (v : Json) :
    Entails (loadReference refPrefix path v) (loadReference refPrefix path' v) := by
  rw [loadReference.eq_def, loadReference.eq_def]
  split
  · exact .of_error _
  · exact .refl _
  · exact .of_error _

/-- The schemas below a node are read alike at all paths. -/
structure Below.AnyPath (below : Below) : Prop where
  properties : ∀ path path', Entails (below.properties path) (below.properties path')
  additional : ∀ path path', Entails (below.additional path) (below.additional path')
  items : ∀ path path', Entails (below.items path) (below.items path')

section Nodes

variable {below : Below}

theorem entails_loadObject (any : below.AnyPath) (path path' : String) (nullable : Bool) :
    Entails (loadObject below fields path nullable) (loadObject below fields path' nullable) :=
  (any.properties path path').bind fun _ => (Entails.refl _).bind fun _ =>
    (any.additional path path').bind fun _ => .refl _

theorem entails_loadArray (any : below.AnyPath) (path path' : String) :
    Entails (loadArray below fields path) (loadArray below fields path') :=
  (any.items path path').bind fun _ => .refl _

theorem entails_loadType (any : below.AnyPath) (path path' : String) (type : Json)
    (nullable : Bool) :
    Entails (loadType below fields path type nullable)
      (loadType below fields path' type nullable) := by
  rw [loadType.eq_def, loadType.eq_def]
  split
  · exact entails_loadObject any path path' nullable
  · exact entails_loadArray any path path'
  all_goals exact .refl _

mutual

theorem entails_loadForm (any : below.AnyPath) (path path' : String) : (form : TypeForm) →
    Entails (loadForm below fields path form) (loadForm below fields path' form)
  | .single type besideNull => by
    rw [loadForm, loadForm]
    exact entails_loadType any path path' type _
  | .alternatives forms => by
    rw [loadForm, loadForm]
    exact (entails_loadForms any path path' forms).bind fun _ => .refl _

theorem entails_loadForms (any : below.AnyPath) (path path' : String) :
    (forms : List (String × TypeForm)) →
      Entails (loadForms below fields path forms) (loadForms below fields path' forms)
  | [] => .refl _
  | (place, form) :: rest => by
    rw [loadForms, loadForms]
    exact (entails_loadForm any _ _ form).bind fun _ =>
      (entails_loadForms any path path' rest).bind fun _ => .refl _

end

theorem entails_loadNode (any : below.AnyPath) (path path' : String) :
    Entails (loadNode below fields path) (loadNode below fields path') := by
  rw [loadNode, loadNode]
  split
  · exact entails_loadForm any path path' _
  split
  · exact entails_loadObject any path path' _
  · exact .refl _

end Nodes

/-! ### Values -/

/-- The value is loaded alike at all paths. -/
def AnyPath (refPrefix : Json) (v : Json) : Prop :=
  ∀ path path', Entails (load refPrefix path v) (load refPrefix path' v)

theorem entails_loadAll {items : List Json} (h : ∀ v ∈ items, AnyPath refPrefix v)
    (path path' : String) (i i' : Nat) :
    Entails (loadAll refPrefix path i items) (loadAll refPrefix path' i' items) := by
  induction items generalizing i i' with
  | nil => exact .refl _
  | cons v rest ih =>
    rw [List.forall_mem_cons] at h
    rw [loadAll, loadAll]
    exact (h.1 _ _).bind fun _ => (ih h.2 (i + 1) (i' + 1)).bind fun _ => .refl _

theorem entails_loadFields {inner : Fields Json} (h : ∀ field ∈ inner, AnyPath refPrefix field.2)
    (path path' : String) :
    Entails (loadFields refPrefix path inner) (loadFields refPrefix path' inner) := by
  induction inner with
  | nil => exact .refl _
  | cons field rest ih =>
    obtain ⟨name, v⟩ := field
    rw [List.forall_mem_cons] at h
    rw [loadFields, loadFields]
    exact (h.1 _ _).bind fun _ => (ih h.2).bind fun _ => .refl _

/-- The entries of an object, the items of the lists in them and the fields of the objects in them
are loaded alike at all paths. -/
def EntriesAnyPath (refPrefix : Json) (fields : Fields Json) : Prop :=
  ∀ field ∈ fields, AnyPath refPrefix field.2 ∧
    (∀ items, field.2 = .arr items → ∀ w ∈ items, AnyPath refPrefix w) ∧
      ∀ below, field.2 = .obj below → ∀ inner ∈ below, AnyPath refPrefix inner.2

namespace EntriesAnyPath

variable (entries : EntriesAnyPath refPrefix fields)

include entries

theorem loadMembers (path path' name : String) :
    Entails (loadMembers refPrefix path name fields) (loadMembers refPrefix path' name fields) := by
  rw [loadMembers_eq, loadMembers_eq]
  split
  · exact .refl _
  · next items hlookup =>
    have entry := Fields.mem_of_lookup_eq_some hlookup
    exact entails_loadAll ((entries _ entry).2.1 items rfl) path path' 0 0
  · exact .of_error _

theorem loadProperties (path path' : String) :
    Entails (loadProperties refPrefix path fields) (loadProperties refPrefix path' fields) := by
  rw [loadProperties_eq, loadProperties_eq]
  split
  · exact .refl _
  · next inner hlookup =>
    have entry := Fields.mem_of_lookup_eq_some hlookup
    exact entails_loadFields ((entries _ entry).2.2 inner rfl) path path'
  · split
    · exact .of_error _
    · exact .refl _

theorem loadAdditional (path path' : String) :
    Entails (loadAdditional refPrefix path fields) (loadAdditional refPrefix path' fields) := by
  rw [loadAdditional_eq, loadAdditional_eq]
  split
  · next inner hlookup =>
    have entry := Fields.mem_of_lookup_eq_some hlookup
    exact ((entries _ entry).1 path path').map some
  · exact .refl _

theorem loadItems (path path' : String) :
    Entails (loadItems refPrefix path fields) (loadItems refPrefix path' fields) := by
  rw [loadItems_eq, loadItems_eq]
  split
  · next v hlookup =>
    obtain ⟨w, hw, hgiven⟩ := Option.bind_eq_some_iff.mp hlookup
    obtain rfl := Json.eq_of_given? hgiven
    have entry := Fields.mem_of_lookup_eq_some hw
    exact ((entries _ entry).1 path path').map some
  · exact .refl _

end EntriesAnyPath

/-- The induction is along the places from which schemas are loaded; the paths are compared one step
further down each time. -/
theorem anyPath_load (refPrefix v : Json) : AnyPath refPrefix v := by
  induction v using loadInduction with
  | other v notObject =>
    intro path path' s h
    rw [load] at h
    · cases h
    · exact notObject
  | obj fields ih =>
    have entries : EntriesAnyPath refPrefix fields := ih
    intro path path'
    rw [load, load]
    split
    · exact entails_loadReference path path' _
    split
    · exact (entries.loadMembers _ _ _).bind fun _ => .refl _
    split
    · exact (entries.loadMembers _ _ _).bind fun _ => .refl _
    split
    · exact (entries.loadMembers _ _ _).bind fun _ => .refl _
    · exact entails_loadNode
        ⟨fun _ _ => entries.loadProperties _ _, fun _ _ => entries.loadAdditional _ _,
          fun _ _ => entries.loadItems _ _⟩ path path'

/-- The value loads as the schema, at whatever path. -/
def Loads (refPrefix v : Json) (s : Schema) : Prop := ∀ path, load refPrefix path v = .ok s

theorem loads_of_load {path : String} {v : Json} {s : Schema}
    (h : load refPrefix path v = .ok s) : Loads refPrefix v s :=
  fun path' => anyPath_load refPrefix v path path' s h

/-- A list of values loads as the schemas of the values, one after the other. -/
theorem loadAll_eq_ok_iff {path : String} {i : Nat} {items : List Json} {all : List Schema} :
    loadAll refPrefix path i items = .ok all ↔ List.Forall₂ (Loads refPrefix) items all := by
  have each : ∀ (i : Nat) v s, load refPrefix s!"{path}/{i}" v = .ok s ↔ Loads refPrefix v s :=
    fun _ _ _ => ⟨loads_of_load, fun h => h _⟩
  refine Fault.indexed_eq_ok_iff (fun _ => ?_) (fun i v rest => ?_) each
  · rw [loadAll]
  · rw [loadAll]

end Schema

/-! ### Snapshots -/

namespace Snapshot

open Fault (Entails)

variable {refPrefix : Json}

theorem entails_loadSide (location location' : String) (v : Json) :
    Entails (loadSide refPrefix location v) (loadSide refPrefix location' v) := by
  rw [loadSide, loadSide]
  split
  · exact .refl _
  · exact (Schema.anyPath_load refPrefix v location location').map some

theorem entails_load (location location' : String) (v : Json) :
    Entails (load refPrefix location v) (load refPrefix location' v) := by
  cases v with
  | obj fields =>
    exact (entails_loadSide _ _ _).bind fun _ => (entails_loadSide _ _ _).bind fun _ => .refl _
  | _ => exact .of_error _

/-- The value loads as the snapshot, at whatever path. -/
def Loads (refPrefix v : Json) (snapshot : Snapshot) : Prop :=
  ∀ location, load refPrefix location v = .ok snapshot

theorem loads_of_load {location : String} {v : Json} {snapshot : Snapshot}
    (h : load refPrefix location v = .ok snapshot) : Loads refPrefix v snapshot :=
  fun location' => entails_load location location' v snapshot h

theorem loadAll_eq_ok_iff {i : Nat} {items : List Json} {all : List Snapshot} :
    loadAll refPrefix i items = .ok all ↔ List.Forall₂ (Loads refPrefix) items all := by
  have each : ∀ (i : Nat) v s, load refPrefix s!"#/{i}" v = .ok s ↔ Loads refPrefix v s :=
    fun _ _ _ => ⟨loads_of_load, fun h => h _⟩
  refine Fault.indexed_eq_ok_iff (fun _ => ?_) (fun i v rest => ?_) each
  · rw [loadAll]
  · rw [loadAll]

end Snapshot

end Schemata

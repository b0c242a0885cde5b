import Schemata.Fault
import Mathlib.Data.List.Forall2

/-!
# Results that may be faults

How a computation came to a result: each of its steps did. How it came to a fault: the first step
that did not give a result has it.

## Main results

* `Fault.bind_eq_ok_iff`, `Fault.map_eq_ok_iff`: one step, and then another.
* `Fault.bind_eq_error_iff`: one step fails, or it does not and another does.
* `Fault.mapM_eq_ok_iff`, `Fault.indexed_eq_ok_iff`, `Fault.exists_of_mapM_eq_error`: a step for
  each element of a list.
-/

namespace Schemata

namespace Fault

variable {α β : Type}

theorem bind_eq_ok_iff {x : Except Fault α} {f : α → Except Fault β} {b : β} :
    (x >>= f) = .ok b ↔ ∃ a, x = .ok a ∧ f a = .ok b := by
  cases x with
  | error fault => simp [Bind.bind, Except.bind]
  | ok a => simp [Bind.bind, Except.bind]

theorem bind_eq_error_iff {x : Except Fault α} {f : α → Except Fault β} {fault : Fault} :
    (x >>= f) = .error fault ↔ x = .error fault ∨ ∃ a, x = .ok a ∧ f a = .error fault := by
  cases x with
  | error fault => simp [Bind.bind, Except.bind]
  | ok a => simp [Bind.bind, Except.bind]

theorem pure_eq_ok_iff {a b : α} : (pure a : Except Fault α) = .ok b ↔ a = b := by
  simp [pure, Except.pure]

theorem map_eq_ok_iff {x : Except Fault α} {f : α → β} {b : β} :
    (f <$> x) = .ok b ↔ ∃ a, x = .ok a ∧ f a = b := by
  cases x with
  | error fault => simp [Functor.map, Except.map]
  | ok a => simp [Functor.map, Except.map]

theorem map_eq_error_iff {x : Except Fault α} {f : α → β} {fault : Fault} :
    (f <$> x) = .error fault ↔ x = .error fault := by
  cases x with
  | error fault => simp [Functor.map, Except.map]
  | ok a => simp [Functor.map, Except.map]

theorem mapM_eq_ok_iff {f : α → Except Fault β} {xs : List α} {ys : List β} :
    xs.mapM f = .ok ys ↔ List.Forall₂ (fun x y => f x = .ok y) xs ys := by
  induction xs generalizing ys with
  | nil =>
    rw [List.mapM_nil, pure_eq_ok_iff, List.forall₂_nil_left_iff]
    exact eq_comm
  | cons x rest ih =>
    rw [List.mapM_cons, bind_eq_ok_iff, List.forall₂_cons_left_iff]
    constructor
    · rintro ⟨y, hy, h⟩
      obtain ⟨tail, htail, h⟩ := bind_eq_ok_iff.mp h
      exact ⟨y, tail, hy, ih.mp htail, (pure_eq_ok_iff.mp h).symm⟩
    · rintro ⟨y, tail, hy, htail, rfl⟩
      exact ⟨y, hy, bind_eq_ok_iff.mpr ⟨tail, ih.mpr htail, pure_eq_ok_iff.mpr rfl⟩⟩

/-- A step for each element of a list, which is told the index of the element but comes to the same
result at every index. -/
theorem indexed_eq_ok_iff {one : Nat → α → Except Fault β}
    {all : Nat → List α → Except Fault (List β)} (nil : ∀ i, all i [] = .ok [])
    (cons : ∀ i x rest, all i (x :: rest) = (do return (← one i x) :: (← all (i + 1) rest)))
    {P : α → β → Prop} (each : ∀ i x y, one i x = .ok y ↔ P x y) {i : Nat} {xs : List α}
    {ys : List β} : all i xs = .ok ys ↔ List.Forall₂ P xs ys := by
  induction xs generalizing i ys with
  | nil =>
    rw [nil, List.forall₂_nil_left_iff, Except.ok.injEq]
    exact eq_comm
  | cons x rest ih =>
    rw [cons, bind_eq_ok_iff, List.forall₂_cons_left_iff]
    constructor
    · rintro ⟨y, hy, h⟩
      obtain ⟨tail, htail, h⟩ := bind_eq_ok_iff.mp h
      exact ⟨y, tail, (each i x y).mp hy, ih.mp htail, (pure_eq_ok_iff.mp h).symm⟩
    · rintro ⟨y, tail, hy, htail, rfl⟩
      exact ⟨y, (each i x y).mpr hy, bind_eq_ok_iff.mpr ⟨tail, ih.mpr htail, rfl⟩⟩

/-- The fault of a step for one of the elements. -/
theorem exists_of_mapM_eq_error {f : α → Except Fault β} {xs : List α} {fault : Fault}
    (h : xs.mapM f = .error fault) : ∃ x ∈ xs, f x = .error fault := by
  induction xs with
  | nil => cases h
  | cons x rest ih =>
    rw [List.mapM_cons] at h
    rcases bind_eq_error_iff.mp h with h | ⟨y, -, h⟩
    · exact ⟨x, List.mem_cons_self, h⟩
    rcases bind_eq_error_iff.mp h with h | ⟨tail, -, h⟩
    · obtain ⟨x', hx', h⟩ := ih h
      exact ⟨x', List.mem_cons_of_mem _ hx', h⟩
    · cases h

end Fault

end Schemata

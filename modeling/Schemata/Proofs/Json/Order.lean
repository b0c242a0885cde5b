import Schemata.Json.Order
import Schemata.Samples.Merge
import Schemata.Proofs.Json.Same

/-!
# Numbers in order

Any two numbers can be compared, whatever they are written as; booleans count as numbers here. The
least and the greatest of a list of numbers are in the list and bound it.

## Main results

* `Json.exceeds?_of_numbers`: comparing two numbers is comparing their exact values.
* `leastOf_spec`, `greatestOf_spec`.
-/

namespace Schemata

namespace Json

theorem number?_of_isNumber {v : Json} (h : v.isNumber = true) : ∃ x, v.number? = some x := by
  cases v with
  | int n => exact ⟨_, rfl⟩
  | double d => exact ⟨_, rfl⟩
  | _ => exact absurd h Bool.false_ne_true

/-- What has the value of a number is one, unless it is a boolean. -/
theorem isNumber_of_number {v : Json} {x : Dyadic} (h : v.number? = some x)
    (plain : ∀ b, v ≠ .bool b) : v.isNumber = true := by
  cases v with
  | bool b => exact absurd rfl (plain b)
  | int n => rfl
  | double d => rfl
  | _ => cases h

theorem number?_of_integer {v : Json} {n : Int} (h : v.integer? = some n) :
    v.number? = some (Dyadic.ofInt n) := by
  cases v with
  | bool b => exact congrArg (fun m => some (Dyadic.ofInt m)) (Option.some.inj h)
  | int m => exact congrArg (fun m => some (Dyadic.ofInt m)) (Option.some.inj h)
  | _ => exact absurd h.symm (Option.some_ne_none n)

theorem exceeds?_of_numbers {a b : Json} {x y : Dyadic} (ha : a.number? = some x)
    (hb : b.number? = some y) : a.exceeds? b = some (decide (y < x)) := by
  have noText : ∀ s, a ≠ .str s := by
    rintro s rfl
    exact absurd ha.symm (Option.some_ne_none x)
  have plain : exceedsPlain? a b = some (decide (y < x)) := by
    rw [exceedsPlain?]
    · rw [ha, hb]
    · rintro s t rfl
      exact absurd rfl (noText s)
  cases a with
  | bool _ => exact plain
  | int _ => exact plain
  | double _ => exact plain
  | _ => exact absurd ha.symm (Option.some_ne_none x)

/-- One number is at most another just when it does not exceed it. -/
theorem exceeds?_eq_false_iff {a b : Json} {x y : Dyadic} (ha : a.number? = some x)
    (hb : b.number? = some y) : a.exceeds? b = some false ↔ x ≤ y := by
  rw [exceeds?_of_numbers ha hb, Option.some.injEq, decide_eq_false_iff_not, Dyadic.not_le]

theorem atMost?_of_numbers {a b : Json} {x y : Dyadic} (ha : a.number? = some x)
    (hb : b.number? = some y) : a.atMost? b = some (decide (x ≤ y)) := by
  rw [atMost?, exceeds?_of_numbers ha hb, Option.map_some, ← decide_not]
  simp only [Dyadic.not_le]

theorem ofInt_le_ofInt_iff {m n : Int} : Dyadic.ofInt m ≤ Dyadic.ofInt n ↔ m ≤ n := by
  rw [← Dyadic.toRat_le_toRat_iff]
  show (m : Dyadic).toRat ≤ (n : Dyadic).toRat ↔ m ≤ n
  rw [Dyadic.toRat_intCast, Dyadic.toRat_intCast, Rat.intCast_le_intCast]

/-- An integer is at most another value only if that is a number. -/
theorem number?_of_atMost? {n : Int} {b : Json} (h : (Json.int n).atMost? b = some true) :
    ∃ y, b.number? = some y ∧ Dyadic.ofInt n ≤ y := by
  rw [atMost?, Option.map_eq_some_iff] at h
  obtain ⟨exceeds, hexceeds, hnot⟩ := h
  rw [Bool.not_eq_true'] at hnot
  cases hb : b.number? with
  | none =>
    have incomparable : (Json.int n).exceeds? b = none := by
      rw [exceeds?, exceedsPlain?, hb]
      · rfl
      · rintro s t h
        cases h
    rw [incomparable] at hexceeds
    cases hexceeds
  | some y =>
    rw [hnot] at hexceeds
    exact ⟨y, rfl, (exceeds?_eq_false_iff rfl hb).mp hexceeds⟩

theorem exceeds?_of_integers {a b : Json} {m n : Int} (ha : a.integer? = some m)
    (hb : b.integer? = some n) : a.exceeds? b = some (decide (n < m)) := by
  have hlt : Dyadic.ofInt n < Dyadic.ofInt m ↔ n < m := by
    rw [← not_iff_not, Dyadic.not_le, ofInt_le_ofInt_iff, Int.not_lt]
  rw [exceeds?_of_numbers (number?_of_integer ha) (number?_of_integer hb)]
  simp only [hlt]

theorem atMost?_of_integers {a b : Json} {m n : Int} (ha : a.integer? = some m)
    (hb : b.integer? = some n) : a.atMost? b = some (decide (m ≤ n)) := by
  rw [atMost?, exceeds?_of_integers ha hb, Option.map_some, ← decide_not]
  simp only [Int.not_lt]

end Json

/-! ### The range of a list of numbers -/

open Json

/-- Picking one of two again and again, of which one is at most the other: what is picked in the end
is one of all, and at most each of them. -/
private theorem foldl_pick {α : Type} {P : α → Prop} {r : α → α → Prop} {pick : α → α → α}
    (refl : ∀ a, P a → r a a) (trans : ∀ a b c, P a → P b → P c → r a b → r b c → r a c)
    (picks : ∀ a b, P a → P b →
      (pick a b = a ∨ pick a b = b) ∧ r (pick a b) a ∧ r (pick a b) b)
    {v : α} {rest : List α} (h : ∀ w ∈ v :: rest, P w) :
    rest.foldl pick v ∈ v :: rest ∧ ∀ w ∈ v :: rest, r (rest.foldl pick v) w := by
  induction rest generalizing v with
  | nil =>
    refine ⟨List.mem_cons_self, fun w hw => ?_⟩
    rw [List.mem_singleton.mp hw]
    exact refl v (h v List.mem_cons_self)
  | cons u rest ih =>
    rw [List.forall_mem_cons, List.forall_mem_cons] at h
    obtain ⟨hv, hu, hrest⟩ := h
    obtain ⟨hor, hlev, hleu⟩ := picks v u hv hu
    have hpick : P (pick v u) := by
      rcases hor with e | e
      · rwa [e]
      · rwa [e]
    obtain ⟨hmem, hle⟩ := ih (List.forall_mem_cons.mpr ⟨hpick, hrest⟩)
    rw [List.foldl_cons]
    have hlast : P (rest.foldl pick (pick v u)) := by
      rcases List.mem_cons.mp hmem with e | hin
      · rwa [e]
      · exact hrest _ hin
    have hlow := hle (pick v u) List.mem_cons_self
    constructor
    · rcases List.mem_cons.mp hmem with e | hin
      · rw [e]
        rcases hor with e' | e'
        · rw [e']
          exact List.mem_cons_self
        · rw [e']
          exact List.mem_cons_of_mem _ List.mem_cons_self
      · exact List.mem_cons_of_mem _ (List.mem_cons_of_mem _ hin)
    · intro w hw
      rcases List.mem_cons.mp hw with rfl | hw
      · exact trans _ _ _ hlast hpick hv hlow hlev
      rcases List.mem_cons.mp hw with rfl | hw
      · exact trans _ _ _ hlast hpick hu hlow hleu
      · exact hle w (List.mem_cons_of_mem _ hw)

/-- A value that has an exact value as a number. -/
private def Numeric (v : Json) : Prop := ∃ x, v.number? = some x

private theorem atMost_refl {a : Json} (ha : Numeric a) : a.exceeds? a = some false := by
  obtain ⟨x, hx⟩ := ha
  exact (exceeds?_eq_false_iff hx hx).mpr (Dyadic.le_refl x)

private theorem atMost_trans {a b c : Json} (ha : Numeric a) (hb : Numeric b) (hc : Numeric c)
    (hab : a.exceeds? b = some false) (hbc : b.exceeds? c = some false) :
    a.exceeds? c = some false := by
  obtain ⟨x, hx⟩ := ha
  obtain ⟨y, hy⟩ := hb
  obtain ⟨z, hz⟩ := hc
  rw [exceeds?_eq_false_iff hx hy] at hab
  rw [exceeds?_eq_false_iff hy hz] at hbc
  exact (exceeds?_eq_false_iff hx hz).mpr (Dyadic.le_trans hab hbc)

private theorem atMost_of_exceeds {a b : Json} (ha : Numeric a) (hb : Numeric b)
    (h : a.exceeds? b = some true) : b.exceeds? a = some false := by
  obtain ⟨x, hx⟩ := ha
  obtain ⟨y, hy⟩ := hb
  rw [exceeds?_of_numbers hx hy, Option.some.injEq, decide_eq_true_iff] at h
  refine (exceeds?_eq_false_iff hy hx).mpr ?_
  exact (Dyadic.le_total y x).resolve_right fun hxy => Dyadic.not_le.mpr hxy h

private theorem atMost_of_not_exceeds {a b : Json} (ha : Numeric a) (hb : Numeric b)
    (h : a.exceeds? b ≠ some true) : a.exceeds? b = some false := by
  obtain ⟨x, hx⟩ := ha
  obtain ⟨y, hy⟩ := hb
  rw [exceeds?_of_numbers hx hy, Ne, Option.some.injEq, decide_eq_true_iff] at h
  exact (exceeds?_eq_false_iff hx hy).mpr (Dyadic.not_le.mp h)

/-- The least number is in the list and exceeds no number of it. -/
theorem leastOf_spec {v : Json} {rest : List Json}
    (h : ∀ w ∈ v :: rest, ∃ x, w.number? = some x) :
    leastOf v rest ∈ v :: rest ∧ ∀ w ∈ v :: rest, (leastOf v rest).exceeds? w = some false := by
  refine foldl_pick (P := Numeric) (r := fun a b => a.exceeds? b = some false)
    (fun a => atMost_refl) (fun a b c => atMost_trans) (fun a b ha hb => ?_) h
  by_cases hab : a.exceeds? b = some true
  · rw [if_pos hab]
    exact ⟨.inr rfl, atMost_of_exceeds ha hb hab, atMost_refl hb⟩
  · rw [if_neg hab]
    exact ⟨.inl rfl, atMost_refl ha, atMost_of_not_exceeds ha hb hab⟩

/-- The greatest number is in the list and exceeded by no number of it. -/
theorem greatestOf_spec {v : Json} {rest : List Json}
    (h : ∀ w ∈ v :: rest, ∃ x, w.number? = some x) :
    greatestOf v rest ∈ v :: rest ∧
      ∀ w ∈ v :: rest, w.exceeds? (greatestOf v rest) = some false := by
  refine foldl_pick (P := Numeric) (r := fun a b => b.exceeds? a = some false)
    (fun a => atMost_refl) (fun a b c ha hb hc hab hbc => atMost_trans hc hb ha hbc hab)
    (fun a b ha hb => ?_) h
  by_cases hba : b.exceeds? a = some true
  · rw [if_pos hba]
    exact ⟨.inr rfl, atMost_of_exceeds hb ha hba, atMost_refl hb⟩
  · rw [if_neg hba]
    exact ⟨.inl rfl, atMost_refl ha, atMost_of_not_exceeds hb ha hba⟩

end Schemata

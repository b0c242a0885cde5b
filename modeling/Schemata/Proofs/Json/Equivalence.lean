import Schemata.Proofs.Json.Same
import Mathlib.Data.List.Induction
import Mathlib.Data.List.Perm.Basic

/-!
# Values up to equality

On values in which no object repeats a name, equality is an equivalence. Which values a list holds,
up to equality, then depends neither on the order in which they come nor on which of several equal
values is kept.

## Main definitions

* `Json.Rearranged`: two lists hold equal values, in some order.
* `Json.Represents`: a list holds one of each of the values of another that are not equal.
* `Json.Equal`: two well-formed values are equal.

## Main results

* `Json.same_refl`, `Json.same_trans`: with `Json.same_symm`, equality is an equivalence.
* `Json.find?_distinct`: of equal values the first is kept when repeated values are left out.
* `Json.distinct_append`: the distinct values of two lists, one after the other.
* `Json.rearranged_of_covers`: lists without repeated values, of which each holds an equal of every
  value of the other, are rearranged.
* `Json.represents_distinct`, `Json.Represents.length_eq`: the distinct values of a list represent
  it, and how many represent it does not depend on the choice.
* `Json.truthy_eq_of_same`: equal values are given alike.
* `Json.forall₂_foldl_addNew`: repeated values are left out at the same places of equal lists.
-/

namespace Schemata

/-- In lists that are related one by one, each member on the left has a counterpart. -/
theorem exists_mem_of_forall₂ {α β : Type} {R : α → β → Prop} {xs : List α} {ys : List β}
    (h : List.Forall₂ R xs ys) {x : α} (hx : x ∈ xs) : ∃ y ∈ ys, R x y := by
  induction h with
  | nil => exact absurd hx List.not_mem_nil
  | @cons a b _ _ hab _ ih =>
    rcases List.mem_cons.mp hx with rfl | hx
    · exact ⟨b, List.mem_cons_self, hab⟩
    · obtain ⟨y, hy, hxy⟩ := ih hx
      exact ⟨y, List.mem_cons_of_mem _ hy, hxy⟩

theorem ofIntWithPrec_eq_zero_iff {n e : Int} : Dyadic.ofIntWithPrec n e = 0 ↔ n = 0 := by
  rw [Dyadic.ofIntWithPrec]
  split
  · next h => exact iff_of_true rfl h
  · next h => exact iff_of_false Dyadic.noConfusion h

namespace Json

/-! ### Equivalence -/

theorem same_refl {a : Json} (wf : a.WellFormed) : a.same a = true := by
  induction a using nestedInduction with
  | null => rfl
  | bool b => exact same_of_numbers rfl rfl
  | int n => exact same_of_numbers rfl rfl
  | double d => exact same_of_numbers rfl rfl
  | str s => exact same_str_iff.mpr rfl
  | arr items ih =>
    rw [wellFormed_arr_iff] at wf
    rw [same]
    induction items with
    | nil => rfl
    | cons v rest ihrest =>
      rw [List.forall_mem_cons] at ih wf
      rw [sameItems, ih.1 wf.1, ihrest ih.2 wf.2]
      rfl
  | obj fields ih =>
    rw [wellFormed_obj_iff] at wf
    rw [same, beq_self_eq_true, Bool.true_and, sameFields_iff]
    rintro ⟨name, v⟩ hf
    exact ⟨v, Fields.lookup_eq_some_of_mem wf.1 hf, ih _ hf (wf.2 _ hf)⟩

theorem sameItems_iff {items others : List Json} :
    sameItems items others = true ↔ List.Forall₂ (fun v w => v.same w = true) items others := by
  induction items generalizing others with
  | nil => cases others <;> simp [sameItems]
  | cons v rest ih =>
    cases others with
    | nil => simp [sameItems]
    | cons w others => rw [sameItems, Bool.and_eq_true, ih, List.forall₂_cons]

private theorem sameItems_trans {items others further : List Json}
    (trans : ∀ v ∈ items, ∀ w u, v.same w = true → w.same u = true → v.same u = true)
    (h : sameItems items others = true) (h' : sameItems others further = true) :
    sameItems items further = true := by
  rw [sameItems_iff] at h h' ⊢
  induction h generalizing further with
  | nil => exact h'
  | cons hv _ ih =>
    obtain ⟨u, tail, hu, htail, rfl⟩ := List.forall₂_cons_left_iff.mp h'
    rw [List.forall_mem_cons] at trans
    exact .cons (trans.1 _ _ hv hu) (ih trans.2 htail)

private theorem sameFields_trans {fields others further : List (String × Json)}
    (trans : ∀ field ∈ fields, ∀ w u, field.2.same w = true → w.same u = true →
      field.2.same u = true)
    (h : sameFields fields others = true) (h' : sameFields others further = true) :
    sameFields fields further = true := by
  rw [sameFields_iff] at h h' ⊢
  intro field hf
  obtain ⟨w, hw, hvw⟩ := h field hf
  obtain ⟨u, hu, hwu⟩ := h' _ (Fields.mem_of_lookup_eq_some hw)
  exact ⟨u, hu, trans field hf w u hvw hwu⟩

private theorem same_trans_of_number {a b c : Json} {x : Dyadic} (ha : a.number? = some x)
    (h : a.same b = true) (h' : b.same c = true) : a.same c = true :=
  same_of_numbers ha (number?_eq_of_same (number?_eq_of_same ha h) h')

theorem same_trans {a b c : Json} (h : a.same b = true) (h' : b.same c = true) :
    a.same c = true := by
  induction a using nestedInduction generalizing b c with
  | null => cases b <;> simp_all [same, isNull]
  | bool x => exact same_trans_of_number rfl h h'
  | int n => exact same_trans_of_number rfl h h'
  | double d => exact same_trans_of_number rfl h h'
  | str s =>
    obtain rfl := same_str_iff.mp h
    exact h'
  | arr items ih =>
    cases b with
    | arr others =>
      cases c with
      | arr further =>
        rw [same] at h h' ⊢
        exact sameItems_trans (fun v hv w u => ih v hv) h h'
      | _ => simp [same] at h'
    | _ => simp [same] at h
  | obj fields ih =>
    cases b with
    | obj others =>
      cases c with
      | obj further =>
        simp only [same, Bool.and_eq_true, beq_iff_eq] at h h' ⊢
        exact ⟨h.1.trans h'.1, sameFields_trans (fun field hf w u => ih field hf) h.2 h'.2⟩
      | _ => simp [same] at h'
    | _ => simp [same] at h

/-! ### The first of equal values -/

/-- Adding values one by one leaves the first equal of every value where it was. -/
theorem find?_foldl_addNew (v : Json) (seen values : List Json) :
    (values.foldl addNew seen).find? v.same = (seen ++ values).find? v.same := by
  induction values generalizing seen with
  | nil => rw [List.foldl_nil, List.append_nil]
  | cons w rest ih =>
    rw [List.foldl_cons, ih]
    cases hw : w.isIn seen with
    | false => rw [addNew_of_not_isIn hw, List.append_assoc, List.singleton_append]
    | true =>
      rw [addNew_of_isIn hw, List.find?_append, List.find?_append]
      by_cases hv : v.same w = true
      · -- an equal of `w` was seen, and equals `v` too
        obtain ⟨u, hu, hwu⟩ := isIn_iff.mp hw
        have found : (seen.find? v.same).isSome = true :=
          List.find?_isSome.mpr ⟨u, hu, same_trans hv hwu⟩
        obtain ⟨first, hfirst⟩ := Option.isSome_iff_exists.mp found
        rw [hfirst, Option.some_or, Option.some_or]
      · rw [List.find?_cons_of_neg hv]

theorem find?_distinct (v : Json) (values : List Json) :
    (distinct values).find? v.same = values.find? v.same :=
  find?_foldl_addNew v [] values

theorem isIn_eq_of_find? {v : Json} {values others : List Json}
    (h : values.find? v.same = others.find? v.same) : v.isIn values = v.isIn others := by
  rw [isIn, isIn, ← List.isSome_find?, h, List.isSome_find?]

/-- Adding values one by one is adding those that are new, each once. -/
theorem foldl_addNew_eq (seen values : List Json) :
    values.foldl addNew seen = seen ++ (distinct values).filter fun v => !v.isIn seen := by
  induction values using List.reverseRecOn with
  | nil => exact (List.append_nil seen).symm
  | append_singleton values v ih =>
    have known : v.isIn (values.foldl addNew seen) = (v.isIn seen || v.isIn values) :=
      (isIn_eq_of_find? (find?_foldl_addNew v seen values)).trans List.any_append
    have listed : v.isIn (distinct values) = v.isIn values := isIn_eq_of_find? (find?_distinct v _)
    have last : distinct (values ++ [v]) = addNew (distinct values) v := List.foldl_append
    rw [List.foldl_append, List.foldl_cons, List.foldl_nil, last, addNew, addNew, known, listed]
    cases v.isIn values with
    | true => simp [ih]
    | false => cases h : v.isIn seen <;> simp [ih, h]

theorem distinct_append (values others : List Json) :
    distinct (values ++ others) =
      distinct values ++ (distinct others).filter fun v => !v.isIn (distinct values) := by
  rw [distinct, List.foldl_append, foldl_addNew_eq]
  rfl

/-- In a list without repeated values, every value is its own first equal. -/
theorem find?_of_apart {values : List Json} (apart : Apart values) {v : Json} (hv : v ∈ values)
    (hrefl : v.same v = true) : values.find? v.same = some v := by
  induction values with
  | nil => exact absurd hv List.not_mem_nil
  | cons w rest ih =>
    obtain ⟨later, apart⟩ := List.pairwise_cons.mp apart
    rcases List.mem_cons.mp hv with rfl | hv
    · exact List.find?_cons_of_pos hrefl
    · rw [List.find?_cons_of_neg (by simp [later v hv])]
      exact ih apart hv

/-! ### Lists without repeated values -/

/-- The lists hold equal values, in some order. -/
def Rearranged (values others : List Json) : Prop :=
  ∃ ordered, ordered.Perm others ∧ sameItems values ordered = true

theorem Rearranged.length_eq {values others : List Json} (h : Rearranged values others) :
    values.length = others.length := by
  obtain ⟨ordered, perm, same⟩ := h
  rw [← perm.length_eq]
  exact (sameItems_iff.mp same).length_eq

theorem Rearranged.of_perm {values others values' others' : List Json}
    (h : Rearranged values others) (perm : values'.Perm values) (perm' : others.Perm others') :
    Rearranged values' others' := by
  obtain ⟨ordered, hordered, same⟩ := h
  obtain ⟨ordered', same', hperm⟩ := List.perm_comp_forall₂ perm (sameItems_iff.mp same)
  exact ⟨ordered', (hperm.trans hordered).trans perm', sameItems_iff.mpr same'⟩

/-- No two values of the list, in whichever order they are compared. -/
private theorem Apart.pairwise {values : List Json} (h : Apart values)
    (wf : ∀ v ∈ values, v.WellFormed) :
    values.Pairwise fun v w => v.same w = false ∧ w.same v = false := by
  refine h.imp_of_mem fun hv hw hs => ⟨?_, hs⟩
  by_contra hne
  rw [Bool.not_eq_false] at hne
  rw [same_symm (wf _ hv) (wf _ hw) hne] at hs
  cases hs

/-- The induction takes the first value out of one list and its equal out of the other; what is left
still covers each other, because nothing else equals the two. -/
theorem rearranged_of_covers {values others : List Json} (apart : Apart values)
    (apart' : Apart others) (wf : ∀ v ∈ values, v.WellFormed) (wf' : ∀ w ∈ others, w.WellFormed)
    (covers : ∀ v ∈ values, v.isIn others = true) (covered : ∀ w ∈ others, w.isIn values = true) :
    Rearranged values others := by
  have both := Apart.pairwise apart wf
  have both' := Apart.pairwise apart' wf'
  clear apart apart'
  simp only [isIn_iff] at covers covered
  induction values generalizing others with
  | nil =>
    have none : others = [] := List.eq_nil_iff_forall_not_mem.mpr fun w hw => by
      obtain ⟨v, hv, -⟩ := covered w hw
      exact List.not_mem_nil hv
    exact ⟨[], none ▸ .nil, rfl⟩
  | cons v rest ih =>
    obtain ⟨w, hw, hvw⟩ := covers v List.mem_cons_self
    obtain ⟨before, after, rfl⟩ := List.append_of_mem hw
    have perm : (before ++ w :: after).Perm (w :: (before ++ after)) := List.perm_middle
    rw [perm.pairwise_iff fun h => ⟨h.2, h.1⟩] at both'
    obtain ⟨apart, both⟩ := List.pairwise_cons.mp both
    obtain ⟨apart', both'⟩ := List.pairwise_cons.mp both'
    have hwv : w.same v = true := same_symm (wf v List.mem_cons_self) (wf' w hw) hvw
    have coversRest : ∀ u ∈ rest, ∃ x ∈ before ++ after, u.same x = true := by
      intro u hu
      obtain ⟨x, hx, hux⟩ := covers u (List.mem_cons_of_mem _ hu)
      rcases List.mem_cons.mp (perm.mem_iff.mp hx) with rfl | hx
      · exact absurd (same_trans hux hwv) (by simp [apart u hu])
      · exact ⟨x, hx, hux⟩
    have coveredRest : ∀ x ∈ before ++ after, ∃ u ∈ rest, x.same u = true := by
      intro x hx
      obtain ⟨u, hu, hxu⟩ := covered x (perm.mem_iff.mpr (List.mem_cons_of_mem _ hx))
      rcases List.mem_cons.mp hu with rfl | hu
      · exact absurd (same_trans hxu hvw) (by simp [apart' x hx])
      · exact ⟨u, hu, hxu⟩
    obtain ⟨ordered, hordered, hsame⟩ := ih (fun u hu => wf u (List.mem_cons_of_mem _ hu))
      (fun x hx => wf' x (perm.mem_iff.mpr (List.mem_cons_of_mem _ hx))) both both' coversRest
      coveredRest
    refine ⟨w :: ordered, (hordered.cons w).trans perm.symm, ?_⟩
    rw [sameItems, hvw, hsame]
    rfl

/-! ### Representatives -/

/-- The list holds values of the other, one of those that are equal to each other. -/
structure Represents (reps values : List Json) : Prop where
  mem : ∀ v ∈ reps, v ∈ values
  apart : Apart reps
  covers : ∀ v ∈ values, v.isIn reps = true

theorem represents_distinct {values : List Json} (wf : ∀ v ∈ values, v.WellFormed) :
    Represents (distinct values) values where
  mem _ := mem_of_mem_distinct
  apart := apart_distinct values
  covers v hv := isIn_distinct (same_refl (wf v hv)) hv

section Represents

variable {values reps others : List Json} (wf : ∀ v ∈ values, v.WellFormed)

include wf

theorem Represents.perm (h : Represents reps values) (perm : others.Perm reps) :
    Represents others values where
  mem v hv := h.mem v (perm.mem_iff.mp hv)
  apart := allDistinct_iff.mp (allDistinct_of_perm (fun v hv => wf v (h.mem v hv)) perm h.apart)
  covers v hv := by
    obtain ⟨w, hw, same⟩ := isIn_iff.mp (h.covers v hv)
    exact isIn_iff.mpr ⟨w, perm.mem_iff.mpr hw, same⟩

/-- How many values represent a list does not depend on which of equal values are chosen. -/
theorem Represents.length_eq (h : Represents reps values) (h' : Represents others values) :
    reps.length = others.length := by
  have rearranged : Rearranged reps others :=
    rearranged_of_covers h.apart h'.apart (fun v hv => wf v (h.mem v hv))
      (fun w hw => wf w (h'.mem w hw)) (fun v hv => h'.covers v (h.mem v hv))
      fun w hw => h.covers w (h'.mem w hw)
  exact rearranged.length_eq

end Represents

/-! ### Equal values -/

theorem isNull_eq_of_same {v w : Json} (h : v.same w = true) : v.isNull = w.isNull := by
  cases v <;> cases w <;> simp_all [same, isNull, number?]

theorem truthy_iff_of_number? {v : Json} {x : Dyadic} (h : v.number? = some x) :
    v.truthy = true ↔ x ≠ 0 := by
  cases v with
  | bool b =>
    obtain rfl := Option.some.inj h
    rw [Ne, Dyadic.ofInt, ofIntWithPrec_eq_zero_iff]
    cases b <;> simp [truthy]
  | int n =>
    obtain rfl := Option.some.inj h
    rw [Ne, Dyadic.ofInt, ofIntWithPrec_eq_zero_iff]
    simp [truthy]
  | double d =>
    obtain rfl := Option.some.inj h
    rw [Ne, Double.toDyadic, ofIntWithPrec_eq_zero_iff]
    simp only [truthy, Double.isZero, Bool.not_eq_true', beq_eq_false_iff_ne, not_iff_not]
    split <;> omega
  | _ => cases h

theorem truthy_eq_of_same {v w : Json} (h : v.same w = true) : v.truthy = w.truthy := by
  cases hv : v.number? with
  | some x =>
    rw [Bool.eq_iff_iff, truthy_iff_of_number? hv, truthy_iff_of_number? (number?_eq_of_same hv h)]
  | none =>
    cases v with
    | null => cases w <;> simp_all [same, isNull, truthy]
    | str text => rw [same_str_iff.mp h]
    | arr items =>
      cases w with
      | arr others =>
        rw [same] at h
        cases sameItems_iff.mp h <;> rfl
      | _ => simp [same] at h
    | obj fields =>
      cases w with
      | obj others =>
        simp only [same, Bool.and_eq_true, beq_iff_eq] at h
        rw [truthy, truthy, Bool.eq_iff_iff]
        simp [← List.length_eq_zero_iff, h.1]
      | _ => simp [same] at h
    | _ => cases hv

/-- Two well-formed values are equal. -/
structure Equal (v w : Json) : Prop where
  left : v.WellFormed
  right : w.WellFormed
  same : v.same w = true

theorem Equal.symm {v w : Json} (h : Equal v w) : Equal w v :=
  ⟨h.right, h.left, same_symm h.left h.right h.same⟩

theorem forall₂_equal {values others : List Json} (wf : ∀ v ∈ values, v.WellFormed)
    (wf' : ∀ w ∈ others, w.WellFormed) (h : sameItems values others = true) :
    List.Forall₂ Equal values others := by
  rw [sameItems_iff] at h
  induction h with
  | nil => exact .nil
  | cons same _ ih =>
    rw [List.forall_mem_cons] at wf wf'
    exact .cons ⟨wf.1, wf'.1, same⟩ (ih wf.2 wf'.2)

theorem isIn_of_equal {v w : Json} {values others : List Json} (h : Equal v w)
    (all : List.Forall₂ Equal values others) (hv : v.isIn values = true) :
    w.isIn others = true := by
  rw [isIn_iff] at hv ⊢
  obtain ⟨u, hu, same⟩ := hv
  obtain ⟨x, hx, hux⟩ := exists_mem_of_forall₂ all hu
  exact ⟨x, hx, same_trans (same_trans h.symm.same same) hux.same⟩

theorem forall₂_symm {values others : List Json} (h : List.Forall₂ Equal values others) :
    List.Forall₂ Equal others values := by
  refine List.Forall₂.flip (h.imp fun v w hvw => ?_)
  exact hvw.symm

theorem forall₂_addNew {v w : Json} {values others : List Json}
    (all : List.Forall₂ Equal values others) (h : Equal v w) :
    List.Forall₂ Equal (addNew values v) (addNew others w) := by
  have isIn_iff : v.isIn values = true ↔ w.isIn others = true :=
    ⟨isIn_of_equal h all, isIn_of_equal h.symm (forall₂_symm all)⟩
  cases hv : v.isIn values with
  | true => rwa [addNew_of_isIn hv, addNew_of_isIn (isIn_iff.mp hv)]
  | false =>
    have hw : w.isIn others = false := by
      rw [← Bool.not_eq_true, ← isIn_iff, hv]
      decide
    rw [addNew_of_not_isIn hv, addNew_of_not_isIn hw]
    exact List.rel_append all (.cons h .nil)

/-- Of equal lists the same places are kept. -/
theorem forall₂_foldl_addNew {seen seen' values values' : List Json}
    (hseen : List.Forall₂ Equal seen seen') (h : List.Forall₂ Equal values values') :
    List.Forall₂ Equal (values.foldl addNew seen) (values'.foldl addNew seen') := by
  have step : Relator.LiftFun (List.Forall₂ Equal)
      (Relator.LiftFun Equal (List.Forall₂ Equal)) addNew addNew :=
    fun _ _ all _ _ equal => forall₂_addNew all equal
  exact List.rel_foldl step hseen h

end Json

end Schemata

import Schemata.Json.Equality
import Schemata.Proofs.Fields
import Mathlib.Data.List.Perm.Subperm

/-!
# Equality of JSON values is symmetric

Equality looks up the fields of one object in the other, and so reads the two sides differently.
On values in which no object repeats a name this makes no difference. The consequence that the
merge needs is about lists: that no value occurs twice does not depend on the order of the values.

## Main definitions

* `Json.Apart`: no value of a list is equal to an earlier one.

## Main results

* `Json.nestedInduction`: induction on a value, with the values directly inside it.
* `Json.same_symm`: equality is symmetric on well-formed values.
* `Json.allDistinct_iff`, `Json.allDistinct_of_perm`: distinctness as a property of pairs, and that
  it survives a permutation.
* `Json.distinct_eq_self_iff`: removing repeated values changes nothing just when there are none.
-/

namespace Schemata

namespace Json

/-! ### Induction -/

/-- Induction on a value: what holds of the items of a list and of the values of an object's fields
has to be carried over to the list and to the object. -/
@[elab_as_elim]
theorem nestedInduction {P : Json → Prop} (null : P .null) (bool : ∀ b, P (.bool b))
    (int : ∀ n, P (.int n)) (double : ∀ d, P (.double d)) (str : ∀ s, P (.str s))
    (arr : ∀ items, (∀ v ∈ items, P v) → P (.arr items))
    (obj : ∀ fields, (∀ field ∈ fields, P field.2) → P (.obj fields)) (v : Json) : P v :=
  Json.rec (motive_1 := P) (motive_2 := fun items => ∀ v ∈ items, P v)
    (motive_3 := fun fields => ∀ field ∈ fields, P field.2) (motive_4 := fun field => P field.2)
    null bool int double str arr obj
    (fun _ h => absurd h List.not_mem_nil)
    (fun _ _ hv hrest => List.forall_mem_cons.mpr ⟨hv, hrest⟩)
    (fun _ h => absurd h List.not_mem_nil)
    (fun _ _ hf hrest => List.forall_mem_cons.mpr ⟨hf, hrest⟩)
    (fun _ _ hv => hv) v

/-! ### Well-formed values, by membership -/

theorem wellFormed_arr_iff {items : List Json} :
    (arr items).WellFormed ↔ ∀ v ∈ items, v.WellFormed := by
  rw [WellFormed]
  induction items with
  | nil => simp [AllWellFormed]
  | cons v rest ih => rw [AllWellFormed, ih, List.forall_mem_cons]

theorem wellFormed_obj_iff {fields : List (String × Json)} :
    (obj fields).WellFormed ↔
      (fields.map Prod.fst).Nodup ∧ ∀ field ∈ fields, field.2.WellFormed := by
  rw [WellFormed]
  refine and_congr_right fun _ => ?_
  clear * -
  induction fields with
  | nil => simp [FieldsWellFormed]
  | cons field rest ih => rw [FieldsWellFormed, ih, List.forall_mem_cons]

/-! ### Symmetry -/

theorem same_of_number {a b : Json} {x : Dyadic} (h : a.number? = some x) :
    a.same b = (b.number? == some x) := by
  cases a <;> simp_all [number?, same]

theorem number?_eq_of_same {a b : Json} {x : Dyadic} (h : a.number? = some x)
    (hs : a.same b = true) : b.number? = some x := by
  rw [same_of_number h] at hs
  simpa using hs

/-- Two numbers of one value are equal. -/
theorem same_of_numbers {a b : Json} {x : Dyadic} (ha : a.number? = some x)
    (hb : b.number? = some x) : a.same b = true := by
  rw [same_of_number ha, hb]
  exact beq_self_eq_true _

theorem isNull_of_number {a : Json} {x : Dyadic} (h : a.number? = some x) : a.isNull = false := by
  cases a with
  | null => cases h
  | _ => rfl

theorem same_str_iff {text : String} {b : Json} : (str text).same b = true ↔ b = str text := by
  cases b with
  | str s =>
    rw [same, beq_iff_eq, str.injEq]
    exact eq_comm
  | _ => simp [same]

theorem sameFields_iff {fields others : List (String × Json)} :
    sameFields fields others = true ↔
      ∀ field ∈ fields, ∃ w, others.lookup field.1 = some w ∧ field.2.same w = true := by
  induction fields with
  | nil => simp [sameFields]
  | cons field rest ih =>
    obtain ⟨name, v⟩ := field
    rw [sameFields, Bool.and_eq_true, ih, List.forall_mem_cons]
    refine and_congr_left fun _ => ?_
    cases others.lookup name <;> simp

/-- The one step of symmetry that needs well-formed values: where the names of two objects are as
many, and each name of the first is one of the second, they are the same names. -/
private theorem sameFields_symm {fields others : List (String × Json)}
    (nodup : (Fields.names fields).Nodup) (nodup' : (Fields.names others).Nodup)
    (length : fields.length = others.length)
    (symm : ∀ field ∈ fields, ∀ w, (field.1, w) ∈ others → field.2.same w = true →
      w.same field.2 = true)
    (h : sameFields fields others = true) : sameFields others fields = true := by
  rw [sameFields_iff] at h ⊢
  have sub : Fields.names fields ⊆ Fields.names others := by
    intro name hn
    obtain ⟨field, hf, rfl⟩ := List.mem_map.mp hn
    obtain ⟨w, hw, -⟩ := h field hf
    exact Fields.mem_names_iff.mpr ⟨w, hw⟩
  have perm := (List.subperm_of_subset nodup sub).perm_of_length_le (by simp [Fields.names, length])
  rintro ⟨name, w⟩ hw
  have hn : name ∈ Fields.names fields := perm.symm.subset (List.mem_map_of_mem hw)
  obtain ⟨v, hv⟩ := Fields.mem_names_iff.mp hn
  have hmem := Fields.mem_of_lookup_eq_some hv
  obtain ⟨w', hw', hs⟩ := h _ hmem
  have heq : w' = w := by
    rw [Fields.lookup_eq_some_of_mem nodup' hw] at hw'
    exact (Option.some.inj hw').symm
  exact ⟨v, hv, symm _ hmem _ hw (heq ▸ hs)⟩

private theorem sameItems_symm {items others : List Json}
    (symm : ∀ v ∈ items, ∀ w ∈ others, v.same w = true → w.same v = true)
    (h : sameItems items others = true) : sameItems others items = true := by
  induction items generalizing others with
  | nil => cases others <;> simp_all [sameItems]
  | cons v rest ih =>
    cases others with
    | nil => simp [sameItems] at h
    | cons w others =>
      rw [sameItems, Bool.and_eq_true] at h ⊢
      exact ⟨symm v List.mem_cons_self w List.mem_cons_self h.1,
        ih (fun a ha b hb => symm a (List.mem_cons_of_mem _ ha) b (List.mem_cons_of_mem _ hb)) h.2⟩

private theorem same_symm_of_number {a b : Json} {x : Dyadic} (ha : a.number? = some x)
    (h : a.same b = true) : b.same a = true :=
  same_of_numbers (number?_eq_of_same ha h) ha

theorem same_symm {a b : Json} (ha : a.WellFormed) (hb : b.WellFormed) (h : a.same b = true) :
    b.same a = true := by
  induction a using nestedInduction generalizing b with
  | null => cases b <;> simp_all [same, isNull]
  | bool x => exact same_symm_of_number rfl h
  | int n => exact same_symm_of_number rfl h
  | double d => exact same_symm_of_number rfl h
  | str s =>
    rw [same_str_iff] at h
    rw [h, same_str_iff]
  | arr items ih =>
    cases b with
    | arr others =>
      rw [wellFormed_arr_iff] at ha hb
      rw [same] at h ⊢
      exact sameItems_symm (fun v hv w hw => ih v hv (ha v hv) (hb w hw)) h
    | _ => simp [same] at h
  | obj fields ih =>
    cases b with
    | obj others =>
      rw [wellFormed_obj_iff] at ha hb
      simp only [same, Bool.and_eq_true, beq_iff_eq] at h ⊢
      refine ⟨h.1.symm, sameFields_symm ha.1 hb.1 h.1 (fun field hf w hw => ?_) h.2⟩
      exact ih field hf (ha.2 field hf) (hb.2 (field.1, w) hw)
    | _ => simp [same] at h

/-! ### Distinct values -/

theorem isIn_iff {v : Json} {values : List Json} :
    v.isIn values = true ↔ ∃ w ∈ values, v.same w = true := by
  rw [isIn, List.any_eq_true]

theorem addNew_of_isIn {values : List Json} {v : Json} (h : v.isIn values = true) :
    addNew values v = values := by
  rw [addNew, if_pos h]

theorem addNew_of_not_isIn {values : List Json} {v : Json} (h : v.isIn values = false) :
    addNew values v = values ++ [v] := by
  rw [addNew, if_neg (by simp [h])]

/-- What was there stays where it was. -/
theorem isPrefix_foldl_addNew (seen values : List Json) : seen <+: values.foldl addNew seen := by
  induction values generalizing seen with
  | nil => exact List.prefix_rfl
  | cons v rest ih =>
    cases h : v.isIn seen with
    | true => simpa [addNew_of_isIn h] using ih seen
    | false =>
      rw [List.foldl_cons, addNew_of_not_isIn h]
      exact (List.prefix_append seen [v]).trans (ih _)

theorem subset_foldl_addNew (seen values : List Json) : seen ⊆ values.foldl addNew seen :=
  (isPrefix_foldl_addNew seen values).subset

theorem mem_of_mem_foldl_addNew {seen values : List Json} {w : Json}
    (h : w ∈ values.foldl addNew seen) : w ∈ seen ∨ w ∈ values := by
  induction values generalizing seen with
  | nil => exact .inl h
  | cons v rest ih =>
    rcases ih h with h | h
    · cases hv : v.isIn seen with
      | true => exact .inl (addNew_of_isIn hv ▸ h)
      | false =>
        rw [addNew_of_not_isIn hv, List.mem_append, List.mem_singleton] at h
        rcases h with h | rfl
        · exact .inl h
        · exact .inr List.mem_cons_self
    · exact .inr (List.mem_cons_of_mem _ h)

/-- No value is lost: an equal one is in the result. -/
theorem isIn_foldl_addNew {seen values : List Json} {v : Json} (hrefl : v.same v = true)
    (h : v.isIn seen = true ∨ v ∈ values) : v.isIn (values.foldl addNew seen) = true := by
  induction values generalizing seen with
  | nil => exact h.resolve_right List.not_mem_nil
  | cons w rest ih =>
    have kept : v.isIn seen = true → v.isIn (addNew seen w) = true := by
      intro hv
      obtain ⟨u, hu, hs⟩ := isIn_iff.mp hv
      exact isIn_iff.mpr ⟨u, subset_foldl_addNew seen [w] hu, hs⟩
    apply ih
    rcases h with h | h
    · exact .inl (kept h)
    rcases List.mem_cons.mp h with rfl | h
    · left
      cases hv : v.isIn seen with
      | true => exact kept hv
      | false =>
        rw [addNew_of_not_isIn hv, isIn_iff]
        exact ⟨v, by simp, hrefl⟩
    · exact .inr h

theorem mem_of_mem_distinct {values : List Json} {w : Json} (h : w ∈ distinct values) :
    w ∈ values :=
  (mem_of_mem_foldl_addNew h).resolve_left List.not_mem_nil

theorem head?_distinct (values : List Json) : (distinct values).head? = values.head? := by
  cases values with
  | nil => rfl
  | cons v rest =>
    obtain ⟨added, kept⟩ : [v] <+: distinct (v :: rest) := isPrefix_foldl_addNew [v] rest
    rw [← kept]
    rfl

theorem distinct_eq_nil_iff {values : List Json} : distinct values = [] ↔ values = [] := by
  rw [← List.head?_eq_none_iff, head?_distinct, List.head?_eq_none_iff]

theorem distinct_ne_nil {values : List Json} (h : values ≠ []) : distinct values ≠ [] :=
  mt distinct_eq_nil_iff.mp h

theorem isIn_distinct {values : List Json} {v : Json} (hrefl : v.same v = true) (h : v ∈ values) :
    v.isIn (distinct values) = true :=
  isIn_foldl_addNew hrefl (.inr h)

/-! ### Distinctness, pair by pair -/

/-- Of two values of the list, the later is not equal to the earlier. -/
def Apart (values : List Json) : Prop :=
  values.Pairwise fun earlier later => later.same earlier = false

theorem apart_foldl_addNew {seen : List Json} (values : List Json) (h : Apart seen) :
    Apart (values.foldl addNew seen) := by
  induction values generalizing seen with
  | nil => exact h
  | cons v rest ih =>
    apply ih
    cases hv : v.isIn seen with
    | true => rwa [addNew_of_isIn hv]
    | false =>
      rw [addNew_of_not_isIn hv, Apart, List.pairwise_append]
      refine ⟨h, List.pairwise_singleton _ _, fun w hw u hu => ?_⟩
      rw [List.mem_singleton.mp hu]
      simpa using (List.any_eq_false.mp hv) w hw

theorem apart_distinct (values : List Json) : Apart (distinct values) :=
  apart_foldl_addNew values List.Pairwise.nil

private theorem foldl_addNew_eq_append {seen values : List Json} (h : Apart (seen ++ values)) :
    values.foldl addNew seen = seen ++ values := by
  induction values generalizing seen with
  | nil => simp
  | cons v rest ih =>
    have hv : v.isIn seen = false := by
      rw [isIn, List.any_eq_false]
      intro w hw
      rw [Apart, List.pairwise_append] at h
      simpa using h.2.2 w hw v List.mem_cons_self
    rw [List.foldl_cons, addNew_of_not_isIn hv, ih (by simpa using h)]
    simp

theorem distinct_eq_self_iff {values : List Json} : distinct values = values ↔ Apart values := by
  constructor
  · intro h
    rw [← h]
    exact apart_distinct values
  · intro h
    have hnil : Apart ([] ++ values) := h
    exact foldl_addNew_eq_append hnil

theorem foldl_addNew_sublist (seen values : List Json) :
    (values.foldl addNew seen).Sublist (seen ++ values) := by
  induction values generalizing seen with
  | nil => simp
  | cons v rest ih =>
    cases hv : v.isIn seen with
    | true =>
      rw [List.foldl_cons, addNew_of_isIn hv]
      exact (ih seen).trans ((List.sublist_cons_self v rest).append_left seen)
    | false =>
      rw [List.foldl_cons, addNew_of_not_isIn hv]
      simpa using ih (seen ++ [v])

theorem distinct_sublist (values : List Json) : (distinct values).Sublist values :=
  foldl_addNew_sublist [] values

theorem allDistinct_iff {values : List Json} : allDistinct values = true ↔ Apart values := by
  rw [allDistinct, beq_iff_eq, ← distinct_eq_self_iff]
  constructor
  · exact (distinct_sublist values).eq_of_length
  · exact congrArg List.length

/-- The order of the values does not matter for whether one of them occurs twice. -/
theorem allDistinct_of_perm {values others : List Json} (wf : ∀ v ∈ values, v.WellFormed)
    (perm : others.Perm values) (h : Apart values) : allDistinct others = true := by
  rw [allDistinct_iff]
  have both : values.Pairwise fun a b => b.same a = false ∧ a.same b = false := by
    refine h.imp_of_mem fun ha hb hs => ⟨hs, ?_⟩
    by_contra hne
    rw [Bool.not_eq_false] at hne
    rw [same_symm (wf _ ha) (wf _ hb) hne] at hs
    exact Bool.noConfusion hs
  exact ((perm.pairwise_iff fun hab => ⟨hab.2, hab.1⟩).mpr both).imp And.left

end Json

end Schemata

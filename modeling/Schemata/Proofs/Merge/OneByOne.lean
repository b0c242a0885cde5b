import Schemata.Proofs.Merge.StringValues

/-!
# Merging strings one by one

Samples can be merged as they come in, each with what was merged of those before it. What was merged
then has to stand for all earlier samples: at first it is the only sample, then it may be a string
with the one example that was seen so far, and in the end it is a closed set. As long as a closed
set has room for all examples, nothing is lost on the way, and each step gives what merging all
samples up to it gives.

## Main definitions

* `StringFacets.Observed`: a string that was seen, with an example and no closed set.
* `Config.ClosesEarly`: two values are enough for a closed set.
* `Carries`: a string stands for the strings that were seen before.
* `mergeOneByOne`: merging samples in a row.

## Main results

* `mergeStrings_congr`: on which parts of strings their merging depends.
* `exists_merge_carries`: what strings are merged into stands for them.
* `merge_concat`: merging one more string with it is merging all of them.
* `getLast?_foldSamples`: a run over samples ends with what they are merged into one by one.
* `mergeOneByOne_strings`: one by one and all at once are the same.

## What is deliberately absent

Nothing is said of more values than a closed set has room for. They are given up for a single
example then, and what was merged no longer stands for the samples before.
-/

namespace Schemata

/-- A string that was seen: its example is a text, and so is its format, if it has one. -/
structure StringFacets.Observed (f : StringFacets) : Prop where
  exemplar : ∃ text, f.exemplar = .str text
  enum : f.enum = none
  format : f.format = .null ∨ ∃ text, f.format = .str text

/-- A closed set has one or two values at least, and `greatest` values at most. -/
structure Config.ClosesEarly (config : Config) (greatest : Int) : Prop where
  one : Json.atMost? (.int 1) config.enumMinValues = some true
  two : config.enumMinValues.atMost? (.int 2) = some true
  max : config.enumMaxValues.integer? = some greatest

theorem Config.ClosesEarly.admitsEnum {config : Config} {greatest : Int}
    (limits : config.ClosesEarly greatest) {count : Nat} (within : (count : Int) ≤ greatest) :
    ∃ admitted, config.admitsEnum count = .ok admitted ∧ (2 ≤ count → admitted = true) := by
  obtain ⟨least, hleast, -⟩ := Json.number?_of_atMost? limits.one
  have early : least ≤ Dyadic.ofInt 2 := by
    have two := limits.two
    rw [Json.atMost?_of_numbers hleast rfl] at two
    exact of_decide_eq_true (Option.some.inj two)
  have upper : Json.atMost? (.int count) config.enumMaxValues = some true := by
    rw [Json.atMost?_of_integers rfl limits.max, decide_eq_true within]
  refine ⟨decide (least ≤ Dyadic.ofInt count), ?_, fun two => decide_eq_true ?_⟩
  · rw [Config.admitsEnum, Json.atMost?_of_numbers hleast rfl, upper]
    cases decide (least ≤ Dyadic.ofInt count) <;> rfl
  · exact Dyadic.le_trans early (Json.ofInt_le_ofInt_iff.mpr (Int.ofNat_le.mpr two))

/-! ### Texts

Texts are equal only when they are the same, so that a closed set of texts is determined by its
members. -/

theorem length_distinct_le_append (values more : List Json) :
    (Json.distinct values).length ≤ (Json.distinct (values ++ more)).length := by
  rw [Json.distinct, Json.distinct, List.foldl_append]
  exact (Json.isPrefix_foldl_addNew _ _).length_le

section Texts

variable {values others : List Json} (texts : ∀ v ∈ values, ∃ text, v = .str text)

include texts

theorem mem_distinct_of_texts {v : Json} : v ∈ Json.distinct values ↔ v ∈ values := by
  refine ⟨Json.mem_of_mem_distinct, fun hv => ?_⟩
  obtain ⟨text, rfl⟩ := texts v hv
  obtain ⟨w, hw, same⟩ := Json.isIn_iff.mp (Json.isIn_distinct (Json.same_str_iff.mpr rfl) hv)
  rwa [← Json.same_str_iff.mp same]

theorem nodup_distinct_of_texts : (Json.distinct values).Nodup := by
  refine (Json.apart_distinct values).imp_of_mem fun {v w} hv _ apart equal => ?_
  obtain ⟨text, rfl⟩ := texts v (Json.mem_of_mem_distinct hv)
  rw [← equal, Json.same_str_iff.mpr rfl] at apart
  cases apart

theorem perm_distinct_of_texts (mem : ∀ v, v ∈ others ↔ v ∈ values) :
    (Json.distinct others).Perm (Json.distinct values) := by
  have texts' : ∀ v ∈ others, ∃ text, v = .str text := fun v hv => texts v ((mem v).mp hv)
  refine (List.perm_ext_iff_of_nodup (nodup_distinct_of_texts texts')
    (nodup_distinct_of_texts texts)).mpr fun v => ?_
  rw [mem_distinct_of_texts texts', mem_distinct_of_texts texts, mem]

theorem sortBySpelling_eq_of_perm (perm : others.Perm values) :
    sortBySpelling others = sortBySpelling values := by
  refine List.Perm.eq_of_pairwise (fun v w hv hw hvw hwv => ?_) (pairwise_sortBySpelling others)
    (pairwise_sortBySpelling values)
    (((sortBySpelling_perm others).trans perm).trans (sortBySpelling_perm values).symm)
  obtain ⟨a, rfl⟩ := texts v (perm.mem_iff.mp ((sortBySpelling_perm others).mem_iff.mp hv))
  obtain ⟨b, rfl⟩ := texts w ((sortBySpelling_perm values).mem_iff.mp hw)
  exact congrArg Json.str (String.le_antisymm hvw hwv)

/-- Texts of which no two are apart are all the first of them. -/
theorem eq_headD_of_distinct (few : (Json.distinct values).length ≤ 1) {v : Json}
    (hv : v ∈ values) : v = values.headD .null := by
  have hv' := (mem_distinct_of_texts texts).mpr hv
  rw [List.headD_eq_head?_getD, ← Json.head?_distinct]
  match Json.distinct values, few, hv' with
  | [w], _, hv' => exact List.mem_singleton.mp hv'

end Texts

/-! ### Formats -/

theorem commonFormat_cons {first : Schema} {rest : List Schema}
    (plain : ∀ s ∈ first :: rest, ¬ Schema.Nested s.format) :
    commonFormat (first :: rest) =
      .ok (if rest.all fun s => first.format.same s.format then first.format else .null) := by
  cases h : commonFormat (first :: rest) with
  | error fault =>
    obtain ⟨-, s, hs, nested⟩ := commonFormat_eq_error_iff.mp h
    exact absurd nested (plain s hs)
  | ok format =>
    rw [commonFormat] at h
    split at h
    · cases h
    · change Except.ok (if (rest.map Schema.format).all first.format.same then first.format
        else .null) = Except.ok format at h
      rw [List.all_map] at h
      exact h.symm

theorem commonFormat_concat {seen : List Schema} {acc s : Schema} (hne : seen ≠ [])
    (plain : ∀ t ∈ seen ++ [s], ¬ Schema.Nested t.format)
    (h : commonFormat seen = .ok acc.format) :
    commonFormat [acc, s] = commonFormat (seen ++ [s]) := by
  obtain ⟨first, rest, rfl⟩ := List.exists_cons_of_ne_nil hne
  rw [commonFormat_cons fun t ht => plain t (List.mem_append_left _ ht), Except.ok.injEq] at h
  have both : ∀ t ∈ [acc, s], ¬ Schema.Nested t.format := by
    refine List.forall_mem_cons.mpr ⟨?_, fun t ht => plain t (List.mem_append_right _ ht)⟩
    rw [← h]
    split
    · exact plain first List.mem_cons_self
    · exact fun nested => nested.elim nofun nofun
  rw [List.cons_append] at plain ⊢
  rw [commonFormat_cons both, commonFormat_cons plain, ← h, List.all_append]
  cases rest.all fun t => first.format.same t.format with
  | true => rfl
  | false => exact congrArg Except.ok (ite_self Json.null)

/-! ### Observed strings -/

theorem StringFacets.Observed.soundNode {f : StringFacets} (h : f.Observed) :
    (Schema.string f).SoundNode := by
  obtain ⟨text, heq⟩ := h.exemplar
  refine ⟨nofun, List.nodup_nil, ?_, fun values closed => ?_⟩
  · show f.exemplar.WellFormed
    rw [heq]
    trivial
  · cases h.enum.symm.trans closed

theorem StringFacets.Observed.not_nested {f : StringFacets} (h : f.Observed) :
    ¬ Schema.Nested f.format := by
  rcases h.format with heq | ⟨text, heq⟩
  · rw [heq]
    exact fun nested => nested.elim nofun nofun
  · rw [heq]
    exact fun nested => nested.elim nofun nofun

section Observed

variable {seen : List StringFacets} (observed : ∀ f ∈ seen, f.Observed)

include observed

theorem text_of_mem_exemplars : ∀ v ∈ seen.map StringFacets.exemplar, ∃ text, v = .str text := by
  intro v hv
  obtain ⟨f, hf, rfl⟩ := List.mem_map.mp hv
  exact (observed f hf).exemplar

theorem stringValues_of_observed :
    stringValues (seen.map .string) = seen.map StringFacets.exemplar := by
  have opened : ((seen.map Schema.string).flatMap fun s => s.enum.getD []) = [] := by
    refine List.flatMap_eq_nil_iff.mpr (List.forall_mem_map.mpr fun f hf => ?_)
    show f.enum.getD [] = []
    rw [(observed f hf).enum, Option.getD_none]
  have given : ∀ v ∈ seen.map StringFacets.exemplar, (!v.isNull) = true := by
    intro v hv
    obtain ⟨text, rfl⟩ := text_of_mem_exemplars observed v hv
    rfl
  have exemplars : (seen.map Schema.string).map Schema.exemplar = seen.map StringFacets.exemplar :=
    List.map_map
  rw [stringValues, opened, List.append_nil, exemplars, List.filter_eq_self.mpr given]

theorem firstExample_of_observed :
    firstExample (seen.map .string) = (seen.map StringFacets.exemplar).headD .null := by
  cases seen with
  | nil => rfl
  | cons f rest =>
    obtain ⟨text, heq⟩ := (observed f List.mem_cons_self).exemplar
    show ((f.exemplar :: _).find? _).getD .null = f.exemplar
    rw [heq]
    rfl

theorem plain_of_observed : ∀ t ∈ seen.map Schema.string, ¬ Schema.Nested t.format :=
  List.forall_mem_map.mpr fun f hf => (observed f hf).not_nested

theorem exists_commonFormat_of_observed (hne : seen ≠ []) :
    ∃ format, commonFormat (seen.map .string) = .ok format := by
  have plain := plain_of_observed observed
  obtain ⟨f, rest, rfl⟩ := List.exists_cons_of_ne_nil hne
  exact ⟨_, commonFormat_cons plain⟩

end Observed

/-! ### Merged strings -/

/-- Strings are merged into the same when they have the same texts, and the same first example if
these are too few for a closed set. -/
theorem mergeStrings_congr {config : Config} {samples others : List Schema}
    (texts : ∀ v ∈ stringValues samples, ∃ text, v = .str text)
    (mem : ∀ v, v ∈ stringValues others ↔ v ∈ stringValues samples)
    (opened : config.admitsEnum (candidateValues samples).length = .ok false →
      firstExample others = firstExample samples) (format : Json) (nullable : Bool) :
    mergeStrings config others format nullable = mergeStrings config samples format nullable := by
  have perm : (candidateValues others).Perm (candidateValues samples) := by
    rw [candidateValues_eq, candidateValues_eq]
    exact perm_distinct_of_texts texts mem
  have sorted :
      sortBySpelling (candidateValues others) = sortBySpelling (candidateValues samples) :=
    sortBySpelling_eq_of_perm (fun v hv => texts v (mem_stringValues hv)) perm
  rw [mergeStrings, mergeStrings, perm.length_eq, sorted, headD_observedValues,
    headD_observedValues]
  cases admitted : config.admitsEnum (candidateValues samples).length with
  | error fault => rfl
  | ok closed =>
    cases closed with
    | true => rfl
    | false => rw [opened admitted]

/-- A string stands for strings that were seen before it: it has their format and all of their
texts. Their first example is kept until there is a closed set. -/
structure Carries (config : Config) (seen : List StringFacets) (acc : StringFacets) : Prop where
  format : commonFormat (seen.map .string) = .ok acc.format
  nullable : acc.nullable.truthy = seen.any fun f => f.nullable.truthy
  values : ∀ v, v ∈ stringValues [.string acc] ↔ v ∈ seen.map StringFacets.exemplar
  exemplar : acc.exemplar = firstExample (seen.map .string) ∨
    acc.exemplar = .null ∧
      config.admitsEnum (Json.distinct (seen.map StringFacets.exemplar)).length = .ok true

theorem mem_stringValues_append (samples others : List Schema) {v : Json} :
    v ∈ stringValues (samples ++ others) ↔ v ∈ stringValues samples ∨ v ∈ stringValues others := by
  simp only [mem_stringValues_iff, List.mem_append, or_and_right, exists_or]

theorem merge_of_strings {config : Config} {samples : List Schema} (several : 2 ≤ samples.length)
    (strings : ∀ s ∈ samples, s.kind = .string) {format : Json}
    (common : commonFormat samples = .ok format) :
    merge config samples =
      mergeStrings config samples format (samples.any fun s => s.nullable.truthy) := by
  rw [merge_of_values several rfl strings, mergePrimitives, common]
  rfl

section Carries

variable {config : Config} {greatest : Int} (limits : config.ClosesEarly greatest)
  {seen : List StringFacets}

theorem kind_of_strings : ∀ s ∈ seen.map Schema.string, s.kind = .string :=
  List.forall_mem_map.mpr fun _ _ => rfl

theorem any_nullable_strings : ((seen.map Schema.string).any fun s => s.nullable.truthy) =
    seen.any fun f => f.nullable.truthy :=
  List.any_map

/-- A single string has an example, and is kept as it is, bounds and all. -/
theorem merge_single {f : StringFacets} (h : f.Observed) :
    merge config [.string f] = .ok (.string f) := by
  obtain ⟨text, heq⟩ := h.exemplar
  have kept : (Schema.string f).enrich = .string f := by
    rw [Schema.enrich, Schema.enrichLeaf, Schema.exemplar, heq]
    rfl
  rw [merge_singleton, finish, kept]
  split
  · rfl
  · rfl

theorem Carries.single {f : StringFacets} (h : f.Observed) : Carries config [f] f := by
  have observed : ∀ g ∈ [f], g.Observed := List.forall_mem_singleton.mpr h
  refine ⟨?_, (Bool.or_false _).symm, fun v => ?_, .inl ?_⟩
  · exact commonFormat_cons (List.forall_mem_singleton.mpr h.not_nested)
  · rw [← stringValues_of_observed observed, List.map_singleton]
  · exact (firstExample_of_observed observed).symm

theorem Carries.closed {values : List Json} {format : Json}
    (common : commonFormat (seen.map .string) = .ok format)
    (mem : ∀ v, v ∈ values ↔ v ∈ seen.map StringFacets.exemplar)
    (admitted : config.admitsEnum (Json.distinct (seen.map StringFacets.exemplar)).length =
      .ok true) :
    Carries config seen { format := format, enum := some values,
                          nullable := .bool (seen.any fun f => f.nullable.truthy) } := by
  refine ⟨common, rfl, fun v => ?_, .inr ⟨rfl, admitted⟩⟩
  rw [← mem, stringValues]
  simp [Schema.exemplar, Schema.enum, Json.isNull]

theorem Carries.opened {format : Json} (observed : ∀ f ∈ seen, f.Observed)
    (common : commonFormat (seen.map .string) = .ok format)
    (few : (Json.distinct (seen.map StringFacets.exemplar)).length ≤ 1) (hne : seen ≠ []) :
    Carries config seen { format := format, exemplar := firstExample (seen.map .string),
                          nullable := .bool (seen.any fun f => f.nullable.truthy) } := by
  have texts := text_of_mem_exemplars observed
  have alike : ∀ v ∈ seen.map StringFacets.exemplar, v = firstExample (seen.map .string) := by
    intro v hv
    rw [firstExample_of_observed observed]
    exact eq_headD_of_distinct texts few hv
  obtain ⟨f, hf⟩ := List.exists_mem_of_ne_nil _ hne
  have hexemplar : f.exemplar ∈ seen.map StringFacets.exemplar := List.mem_map_of_mem hf
  have first := alike _ hexemplar
  obtain ⟨text, heq⟩ := texts _ hexemplar
  refine ⟨common, rfl, fun v => ?_, .inl rfl⟩
  rw [← first, heq]
  constructor
  · intro hv
    obtain rfl : v = .str text := List.mem_singleton.mp hv
    rwa [heq] at hexemplar
  · intro hv
    rw [alike v hv, ← first, heq]
    exact List.mem_singleton_self _

include limits

theorem exists_merge_carries_of_several (observed : ∀ f ∈ seen, f.Observed)
    (several : 2 ≤ seen.length)
    (within : ((Json.distinct (seen.map StringFacets.exemplar)).length : Int) ≤ greatest) :
    ∃ acc, merge config (seen.map .string) = .ok (.string acc) ∧ Carries config seen acc := by
  have hne : seen ≠ [] := List.ne_nil_of_length_pos (by omega)
  have two : 2 ≤ (seen.map Schema.string).length := by rwa [List.length_map]
  have texts := text_of_mem_exemplars observed
  have candidates : candidateValues (seen.map .string) =
      Json.distinct (seen.map StringFacets.exemplar) := by
    rw [candidateValues_eq, stringValues_of_observed observed]
  obtain ⟨format, common⟩ := exists_commonFormat_of_observed observed hne
  obtain ⟨admitted, hadmitted, many⟩ := limits.admitsEnum within
  rw [merge_of_strings two kind_of_strings common, mergeStrings, candidates, hadmitted,
    any_nullable_strings, headD_observedValues]
  cases admitted with
  | true =>
    have sound : ∀ s ∈ seen.map Schema.string, s.SoundNode :=
      List.forall_mem_map.mpr fun f hf => (observed f hf).soundNode
    have nonempty : candidateValues (seen.map .string) ≠ [] := by
      rw [candidates]
      exact Json.distinct_ne_nil (List.map_eq_nil_iff.not.mpr hne)
    obtain ⟨s, hs⟩ := exists_closedNode sound nonempty format (seen.any fun f => f.nullable.truthy)
    rw [candidates] at hs
    obtain rfl := (StringFacets.node_eq_ok_iff.mp hs).1
    refine ⟨_, hs, .closed common (fun v => ?_) hadmitted⟩
    rw [(sortBySpelling_perm _).mem_iff, mem_distinct_of_texts texts]
  | false =>
    have few : (Json.distinct (seen.map StringFacets.exemplar)).length ≤ 1 := by
      by_contra more
      cases many (by omega)
    exact ⟨_, rfl, .opened observed common few hne⟩

/-- Strings are merged into one that stands for them. -/
theorem exists_merge_carries (observed : ∀ f ∈ seen, f.Observed) (hne : seen ≠ [])
    (within : ((Json.distinct (seen.map StringFacets.exemplar)).length : Int) ≤ greatest) :
    ∃ acc, merge config (seen.map .string) = .ok (.string acc) ∧ Carries config seen acc := by
  match seen, observed, hne, within with
  | [f], observed, _, _ =>
    have hf := observed f List.mem_cons_self
    exact ⟨f, merge_single hf, .single hf⟩
  | first :: second :: others, observed, _, within =>
    exact exists_merge_carries_of_several limits observed (by simp) within

/-- A string that stands for others has their first example, as long as one more makes no closed
set. -/
theorem Carries.exemplar_of_refused {acc f : StringFacets} (carries : Carries config seen acc)
    (hne : seen ≠ [])
    (within : ((Json.distinct ((seen ++ [f]).map StringFacets.exemplar)).length : Int) ≤ greatest)
    (refused : config.admitsEnum (Json.distinct ((seen ++ [f]).map StringFacets.exemplar)).length =
      .ok false) : acc.exemplar = firstExample (seen.map .string) := by
  refine carries.exemplar.resolve_right ?_
  rintro ⟨-, admitted⟩
  obtain ⟨closed, hclosed, two⟩ := limits.admitsEnum within
  have nonempty : 0 < (Json.distinct (seen.map StringFacets.exemplar)).length :=
    List.length_pos_iff.mpr (Json.distinct_ne_nil (List.map_eq_nil_iff.not.mpr hne))
  have fewer : (Json.distinct (seen.map StringFacets.exemplar)).length ≤
      (Json.distinct ((seen ++ [f]).map StringFacets.exemplar)).length := by
    rw [List.map_append]
    exact length_distinct_le_append _ _
  have few : (Json.distinct ((seen ++ [f]).map StringFacets.exemplar)).length ≤ 1 := by
    by_contra many
    rw [two (by omega), refused] at hclosed
    cases hclosed
  rw [show (Json.distinct (seen.map StringFacets.exemplar)).length =
    (Json.distinct ((seen ++ [f]).map StringFacets.exemplar)).length by omega, refused] at admitted
  cases admitted

/-- Merging one more string with one that stands for strings is merging all of them. -/
theorem merge_concat {acc f : StringFacets} (carries : Carries config seen acc)
    (observed : ∀ g ∈ seen ++ [f], g.Observed) (hne : seen ≠ [])
    (within : ((Json.distinct ((seen ++ [f]).map StringFacets.exemplar)).length : Int) ≤ greatest) :
    merge config [.string acc, .string f] = merge config ((seen ++ [f]).map .string) := by
  have earlier : ∀ g ∈ seen, g.Observed := fun g hg => observed g (List.mem_append_left _ hg)
  have several : 2 ≤ ((seen ++ [f]).map Schema.string).length := by
    have := List.length_pos_iff.mpr hne
    rw [List.length_map, List.length_append, List.length_singleton]
    omega
  have both : ∀ s ∈ [Schema.string acc, .string f], s.kind = .string :=
    List.forall_mem_cons.mpr ⟨rfl, List.forall_mem_singleton.mpr rfl⟩
  obtain ⟨format, common⟩ :=
    exists_commonFormat_of_observed observed (List.append_ne_nil_of_left_ne_nil hne [f])
  have common' : commonFormat [.string acc, .string f] = .ok format := by
    have plain := plain_of_observed observed
    rw [List.map_append, List.map_singleton] at plain common
    rw [← common]
    exact commonFormat_concat (List.map_eq_nil_iff.not.mpr hne) plain carries.format
  have nullable : ([Schema.string acc, .string f].any fun s => s.nullable.truthy) =
      ((seen ++ [f]).map Schema.string).any fun s => s.nullable.truthy := by
    rw [any_nullable_strings, List.any_append, ← carries.nullable]
    rfl
  have two : 2 ≤ [Schema.string acc, .string f].length := Nat.le_refl 2
  rw [merge_of_strings two both common', merge_of_strings several kind_of_strings common, nullable]
  refine mergeStrings_congr ?_ (fun v => ?_) (fun refused => ?_) format _
  · rw [stringValues_of_observed observed]
    exact text_of_mem_exemplars observed
  · rw [stringValues_of_observed observed, List.map_append, List.mem_append, ← carries.values,
      ← stringValues_of_observed (List.forall_mem_singleton.mpr
        (observed f (List.mem_append_right _ List.mem_cons_self)))]
    exact mem_stringValues_append [.string acc] [.string f]
  · rw [candidateValues_eq, stringValues_of_observed observed] at refused
    -- Without a closed set there is one text, and no step so far has dropped it.
    have kept := carries.exemplar_of_refused limits hne within refused
    obtain ⟨g, rest, rfl⟩ := List.exists_cons_of_ne_nil hne
    obtain ⟨text, heq⟩ := (observed g List.mem_cons_self).exemplar
    rw [firstExample_of_observed earlier, List.map_cons, List.headD_cons, heq] at kept
    rw [firstExample_of_observed observed, List.cons_append, List.map_cons, List.headD_cons, heq,
      firstExample, List.map_cons, Schema.exemplar, kept]
    rfl

/-- Merging strings one by one into one that stands for those before them is merging all. -/
theorem foldlM_merge_strings {acc : StringFacets}
    (merged : merge config (seen.map .string) = .ok (.string acc))
    (carries : Carries config seen acc) (hne : seen ≠ []) {rest : List StringFacets}
    (observed : ∀ g ∈ seen ++ rest, g.Observed)
    (within : ((Json.distinct ((seen ++ rest).map StringFacets.exemplar)).length : Int) ≤
      greatest) :
    (rest.map Schema.string).foldlM (fun acc s => merge config [acc, s]) (.string acc) =
      merge config ((seen ++ rest).map .string) := by
  induction rest generalizing seen acc with
  | nil =>
    rw [List.append_nil, merged]
    rfl
  | cons f rest ih =>
    rw [List.append_cons] at observed within ⊢
    have further : seen ++ [f] ≠ [] := List.append_ne_nil_of_left_ne_nil hne [f]
    have observed' : ∀ g ∈ seen ++ [f], g.Observed :=
      fun g hg => observed g (List.mem_append_left _ hg)
    have within' : ((Json.distinct ((seen ++ [f]).map StringFacets.exemplar)).length : Int) ≤
        greatest := by
      rw [List.map_append] at within
      exact Int.le_trans (Int.ofNat_le.mpr (length_distinct_le_append _ _)) within
    obtain ⟨next, hnext, carries'⟩ := exists_merge_carries limits observed' further within'
    have step := merge_concat limits carries observed' hne within'
    rw [List.map_cons, List.foldlM_cons, step, hnext]
    exact ih hnext carries' further observed within

end Carries

/-! ### Runs -/

/-- What samples are merged into one by one, each with what was merged of those before it. -/
def mergeOneByOne (config : Config) (first : Schema) (rest : List Schema) :
    Except Fault Schema := do
  rest.foldlM (fun acc s => merge config [acc, s]) (← merge config [first])

theorem foldSamplesFrom_cons {config : Config} {before : Option Schema} {s m : Schema}
    (h : merge config (before.toList ++ [s]) = .ok m) (rest : List (Except Fault Sample)) :
    foldSamplesFrom config before (.ok (.node s) :: rest) =
      .ok m :: foldSamplesFrom config (some m) rest := by
  have merged : (Except.ok (Sample.node s) >>= fun sample =>
      mergeSamples config ((before.map Sample.node).toList ++ [sample])) = .ok m := by
    rw [← h]
    cases before with
    | none => rfl
    | some acc => rfl
  rw [foldSamplesFrom, merged]

theorem getLast?_foldSamplesFrom {config : Config} {acc m : Schema} {rest : List Schema}
    (h : rest.foldlM (fun acc s => merge config [acc, s]) acc = .ok m) :
    (.ok acc :: foldSamplesFrom config (some acc) (rest.map fun s => .ok (.node s))).getLast? =
      some (.ok m) := by
  induction rest generalizing acc with
  | nil =>
    cases h
    rfl
  | cons s rest ih =>
    rw [List.foldlM_cons] at h
    obtain ⟨next, hnext, h⟩ := Fault.bind_eq_ok_iff.mp h
    rw [List.map_cons, foldSamplesFrom_cons hnext, List.getLast?_cons_cons]
    exact ih h

/-- A run over samples ends with what they are merged into one by one. -/
theorem getLast?_foldSamples {config : Config} {first m : Schema} {rest : List Schema}
    (h : mergeOneByOne config first rest = .ok m) :
    (foldSamples config ((first :: rest).map fun s => .ok (.node s))).getLast? = some (.ok m) := by
  obtain ⟨acc, hacc, h⟩ := Fault.bind_eq_ok_iff.mp h
  rw [foldSamples, List.map_cons, foldSamplesFrom_cons hacc]
  exact getLast?_foldSamplesFrom h

/-- Strings can be merged one by one: as long as a closed set has room for all of them, the outcome
is that of merging all at once. -/
theorem mergeOneByOne_strings {config : Config} {greatest : Int}
    (limits : config.ClosesEarly greatest) {first : StringFacets} {rest : List StringFacets}
    (observed : ∀ f ∈ first :: rest, f.Observed)
    (within : ((Json.distinct ((first :: rest).map StringFacets.exemplar)).length : Int) ≤
      greatest) :
    ∃ m, merge config ((first :: rest).map .string) = .ok m ∧
      mergeOneByOne config (.string first) (rest.map .string) = .ok m ∧
      (foldSamples config ((first :: rest).map fun f => .ok (.node (.string f)))).getLast? =
        some (.ok m) := by
  have one : ∀ f ∈ [first], f.Observed :=
    List.forall_mem_singleton.mpr (observed first List.mem_cons_self)
  have hne : [first] ≠ [] := List.cons_ne_nil _ _
  have within' : ((Json.distinct ([first].map StringFacets.exemplar)).length : Int) ≤ greatest :=
    Int.le_trans (Int.ofNat_le.mpr (length_distinct_le_append _ _)) within
  obtain ⟨acc, hacc, carries⟩ := exists_merge_carries limits one hne within'
  obtain ⟨m, hm, -⟩ := exists_merge_carries limits observed (List.cons_ne_nil _ _) within
  have run : mergeOneByOne config (.string first) (rest.map .string) = .ok (.string m) := by
    rw [← hm]
    refine (congrArg (· >>= _) hacc).trans ?_
    exact foldlM_merge_strings limits hacc carries hne observed within
  refine ⟨_, hm, run, ?_⟩
  have last := getLast?_foldSamples run
  rwa [← List.map_cons, List.map_map] at last

/-- Two strings with one value, the first with a bound, and a third with another and no format. -/
def words : List StringFacets :=
  [{ exemplar := .str "red", format := .str "name", minLength := .int 1 },
    { exemplar := .str "red", format := .str "name", nullable := .bool true },
    { exemplar := .str "blue" }]

theorem mergeOneByOne_strings_words :
    ∃ m, merge {} (words.map .string) = .ok m ∧
      mergeOneByOne {} (.string { exemplar := .str "red", format := .str "name",
                                  minLength := .int 1 })
        [.string { exemplar := .str "red", format := .str "name", nullable := .bool true },
          .string { exemplar := .str "blue" }] = .ok m ∧
      (foldSamples {} (words.map fun f => .ok (.node (.string f)))).getLast? = some (.ok m) := by
  have limits : Config.ClosesEarly {} 10 := ⟨by decide, by decide, rfl⟩
  have observed : ∀ f ∈ words, f.Observed := by
    rw [words]
    refine List.forall_mem_cons.mpr ⟨⟨⟨_, rfl⟩, rfl, .inr ⟨_, rfl⟩⟩,
      List.forall_mem_cons.mpr ⟨⟨⟨_, rfl⟩, rfl, .inr ⟨_, rfl⟩⟩, List.forall_mem_singleton.mpr ?_⟩⟩
    exact ⟨⟨_, rfl⟩, rfl, .inl rfl⟩
  exact mergeOneByOne_strings limits observed (by decide)

end Schemata

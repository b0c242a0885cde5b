import Schemata.Proofs.Merge.Ranges
import Schemata.Proofs.Schema.Conforms

/-!
# Merging forbids nothing that was observed

A value that one of the samples bears witness to, and allows itself, is allowed by what the samples
are merged into.

## Main definitions

* `Schema.PlainNumbers`: no example of a number is a boolean.

## Main results

* `conforms_of_merges`: the rules of merging forbid nothing that was observed.
* `merge_conforms_of_observed`: merging gives a result, and the result forbids nothing that was
  observed.

## Implementation notes

Of two equal examples merging keeps the first, and leaves booleans out of the range of numbers. An
example `1` that comes after `true` is therefore in no range, so that examples of numbers must not
be booleans here.
-/

namespace Schemata

namespace Schema

def PlainNumbers (s : Schema) : Prop :=
  ∀ t ∈ s.nodes, ∀ facets, t = .number facets → ∀ b, facets.exemplar ≠ .bool b

end Schema

theorem within_null (v : Json) : Within .null .null v := by
  constructor
  · exact Option.some_ne_none true ∘ Eq.symm
  · cases v <;> simp [Json.exceeds?, Json.exceedsPlain?, Json.number?]

/-! ### Plain values -/

variable {config : Config} {samples : List Schema} {s m : Schema} {v : Json}

theorem truthy_any_nullable (hs : s ∈ samples) (h : s.nullable.truthy = true) :
    (Json.bool (samples.any fun s => s.nullable.truthy)).truthy = true :=
  List.any_eq_true.mpr ⟨s, hs, h⟩

/-- An observed text is among the candidates for the closed set. -/
theorem isIn_candidateValues_of_observed {text : String} {f : StringFacets}
    (hs : .string f ∈ samples) (observed : Observed (.str text) (.string f)) :
    (Json.str text).isIn (candidateValues samples) = true := by
  have mem : Json.str text ∈ stringValues samples := by
    refine mem_stringValues_iff.mpr ⟨_, hs, ?_⟩
    cases observed with
    | exemplar equal => exact .inl ⟨Json.same_str_iff.mp equal, rfl⟩
    | member enum mem =>
      obtain ⟨w, hw, hsame⟩ := Json.isIn_iff.mp mem
      obtain rfl := Json.same_str_iff.mp hsame
      exact .inr ⟨_, enum, hw⟩
  exact isIn_candidateValues mem (Json.same_str_iff.mpr rfl)

theorem conforms_mergeStrings {text : String} {f : StringFacets} {format : Json} {nullable : Bool}
    (h : mergeStrings config samples format nullable = .ok m) (hs : .string f ∈ samples)
    (observed : Observed (.str text) (.string f)) : Conforms (.str text) m := by
  rcases mergeStrings_cases h with ⟨-, rfl⟩ | ⟨-, rfl⟩
  · refine .string (fun values hvalues => ?_) (within_null _)
    obtain rfl := Option.some.inj hvalues
    obtain ⟨w, hw, hsame⟩ := Json.isIn_iff.mp (isIn_candidateValues_of_observed hs observed)
    exact Json.isIn_iff.mpr ⟨w, (sortBySpelling_perm _).mem_iff.mpr hw, hsame⟩
  · exact .string (fun values hvalues => absurd hvalues.symm (Option.some_ne_none values))
      (within_null _)

theorem within_of_spans {values : Json → Prop} {low high w : Json} (h : Spans values low high)
    (hw : values w) {x : Dyadic} (hwx : w.number? = some x) (hx : v.number? = some x) :
    Within low high v := by
  cases h with
  | nothing none => exact absurd hw (none w)
  | range _ _ within =>
    obtain ⟨⟨l, y, hl, hy, above⟩, ⟨z, h, hz, hh, below⟩⟩ := within w hw
    obtain rfl := Option.some.inj (hwx.symm.trans hy)
    obtain rfl := Option.some.inj (hwx.symm.trans hz)
    constructor
    · rw [(Json.exceeds?_eq_false_iff hl hx).mpr above]
      decide
    · rw [(Json.exceeds?_eq_false_iff hx hh).mpr below]
      decide

/-- An observed number lies in the range of the examples, as no example is a boolean. -/
theorem within_numericRange {f : NumberFacets} (hs : .number f ∈ samples)
    (kinds : ∀ t ∈ samples, ∃ g : NumberFacets, t = .number g ∧ ∀ b, g.exemplar ≠ .bool b)
    (number : v.isNumber = true) (equal : v.same f.exemplar = true) :
    Within (numericRange (observedValues samples)).1
      (numericRange (observedValues samples)).2 v := by
  obtain ⟨x, hx⟩ := Json.number?_of_isNumber number
  have he : f.exemplar.number? = some x := Json.number?_eq_of_same hx equal
  have plain : ∀ t ∈ samples, ∀ b, t.exemplar ≠ .bool b := by
    intro t ht
    obtain ⟨g, rfl, plain⟩ := kinds t ht
    exact plain
  have mem : f.exemplar ∈ numericExamples samples :=
    List.mem_filter.mpr ⟨List.mem_map_of_mem hs, Json.isNumber_of_number he (plain _ hs)⟩
  exact within_of_spans (spans_observedValues samples) ⟨mem, not_hidden_of_plain plain⟩ he hx

theorem conforms_mergePrimitives {kind : Kind} (primitive : kind.isPrimitive = true)
    (kinds : ∀ t ∈ samples, t.kind = kind) (plain : ∀ t ∈ samples, t.PlainNumbers)
    (h : mergePrimitives config kind samples = .ok m) (hs : s ∈ samples)
    (observed : Observed v s) (conforms : Conforms v s) : Conforms v m := by
  obtain ⟨format, -, h⟩ := mergePrimitives_cases primitive h
  rcases h with ⟨rfl, hm⟩ | ⟨rfl, rfl⟩ | ⟨hnumber, rfl⟩
  · obtain ⟨f, rfl⟩ := Schema.eq_string_of_kind (kinds s hs)
    cases conforms with
    | null nullable =>
      rcases mergeStrings_cases hm with ⟨-, rfl⟩ | ⟨-, rfl⟩
      · exact .null (truthy_any_nullable hs nullable)
      · exact .null (truthy_any_nullable hs nullable)
    | string member length => exact conforms_mergeStrings hm hs observed
  · obtain ⟨f, rfl⟩ := Schema.eq_boolean_of_kind (kinds s hs)
    cases conforms with
    | null nullable => exact .null (truthy_any_nullable hs nullable)
    | boolean => exact .boolean
  · have numbers : ∀ t ∈ samples, ∃ g : NumberFacets, t = .number g ∧
        ∀ b, g.exemplar ≠ .bool b := by
      intro t ht
      rw [← kinds t ht] at hnumber
      obtain ⟨g, rfl, -⟩ := Schema.eq_number_of_kind hnumber
      exact ⟨g, rfl, plain _ ht _ (Schema.self_mem_nodes _) g rfl⟩
    have hkind := kinds s hs
    rw [← hkind] at hnumber
    obtain ⟨f, rfl, hinteger⟩ := Schema.eq_number_of_kind hnumber
    cases conforms with
    | null nullable => exact .null (truthy_any_nullable hs nullable)
    | number number whole range =>
      have equal : v.same f.exemplar = true := by
        cases observed with
        | null => cases number
        | number _ equal => exact equal
      refine .number number (fun hi => whole ?_) (within_numericRange hs numbers number equal)
      rw [hinteger, hkind]
      exact of_decide_eq_true hi

/-! ### All kinds -/

theorem conforms_of_finish {t : Schema} (h : finish config s = .ok t) (conforms : Conforms v s) :
    Conforms v t := by
  rcases eq_of_finish h with rfl | rfl
  · exact conforms
  · exact conforms_enrich conforms

/-- The induction is on the rules; the sample and the value change with the place in the trees. -/
theorem conforms_of_merges (h : Merges config samples m)
    (names : ∀ s ∈ samples, ∀ t ∈ s.nodes, (Fields.names t.properties).Nodup)
    (plain : ∀ s ∈ samples, s.PlainNumbers) (hs : s ∈ samples) (observed : Observed v s)
    (conforms : Conforms v s) : Conforms v m := by
  induction h generalizing s v with
  | nothing => exact absurd hs List.not_mem_nil
  | alone finished =>
    obtain rfl := List.mem_singleton.mp hs
    exact conforms_of_finish finished conforms
  | apart several kinds unlike finished =>
    obtain ⟨t, ht, hfinish⟩ := exists_mem_of_finishAll finished hs
    exact .oneOf ht (conforms_of_finish hfinish conforms)
  | @objects samples properties additional several kinds groups _ _ _ ih _ =>
    have nodup : ∀ t ∈ samples, (Fields.names t.properties).Nodup := fun t ht =>
      names t ht t (Schema.self_mem_nodes t)
    obtain ⟨own, _, _, _, rfl⟩ := Schema.eq_object_of_kind (kinds s hs)
    cases conforms with
    | null nullable => exact .null (truthy_any_nullable hs nullable)
    | object present known further =>
      cases observed with
      | object keys values =>
      refine .object (fun name hname => ?_) (fun name w t hw ht => ?_) (fun name w t hw hn _ => ?_)
      · have all := (mem_requiredNames_iff_forall (List.ne_nil_of_mem hs) nodup).mp hname
        exact (keys name).mpr (all _ hs)
      · have hname : name ∈ Fields.names own :=
          (keys name).mp (Fields.mem_names_iff.mpr ⟨w, hw⟩)
        obtain ⟨below, hb⟩ := Fields.mem_names_iff.mp hname
        have member : below ∈ propertyGroup name samples :=
          mem_propertyGroup_iff.mpr ⟨_, hs, Fields.mem_of_lookup_eq_some hb⟩
        exact ih name t ht (forall_nodes_propertyGroup names name)
          (forall_nodes_propertyGroup plain name) member (values name w below hw hb)
          (known name w below hw hb)
      · -- a field of the value is a property of its sample, and so of the merged object
        rw [Fields.lookup_eq_none_iff, groups, mem_names_propertyGroups_iff] at hn
        exact absurd ⟨_, hs, (keys name).mp (Fields.mem_names_iff.mpr ⟨w, hw⟩)⟩ hn
  | @arrays samples items several kinds _ _ ih =>
    obtain ⟨own, f, rfl⟩ := Schema.eq_array_of_kind (kinds s hs)
    cases conforms with
    | null nullable => cases nullable
    | array count unique each =>
      refine .array (within_null _) (fun h => absurd h Bool.false_ne_true) fun t ht w hw => ?_
      cases observed with
      | bare => exact absurd hw List.not_mem_nil
      | @array below _ _ witnessed =>
        have member : below ∈ samples.filterMap Schema.items :=
          List.mem_filterMap.mpr ⟨_, hs, rfl⟩
        exact ih t ht (forall_nodes_items names) (forall_nodes_items plain) member
          (witnessed w hw) (each below rfl w hw)
  | values several primitive kinds merged =>
    exact conforms_mergePrimitives primitive kinds plain merged hs observed conforms

/-- Merging gives a result that allows whatever a sample bears witness to, and allows itself. -/
theorem merge_conforms_of_observed {config : Config} {least greatest : Int}
    (limits : config.EnumLimits least greatest) {samples : List Schema}
    (wf : ∀ s ∈ samples, s.WellFormed) (formats : ∀ s ∈ samples, s.PlainFormats)
    (plain : ∀ s ∈ samples, s.PlainNumbers) :
    ∃ m, merge config samples = .ok m ∧
      ∀ s ∈ samples, ∀ v, Observed v s → Conforms v s → Conforms v m := by
  obtain ⟨m, hm⟩ := exists_merge limits wf formats
  refine ⟨m, hm, fun s hs v observed conforms => ?_⟩
  exact conforms_of_merges (merges_of_merge hm) (fun t ht u hu => (wf t ht u hu).names) plain hs
    observed conforms

theorem merge_conforms_of_observed_people :
    ∃ m, merge {} people = .ok m ∧ Conforms (.obj [("name", .str "ann")]) m := by
  have limits : Config.EnumLimits {} 2 10 := ⟨rfl, rfl, by decide⟩
  obtain ⟨m, hm, covers⟩ := merge_conforms_of_observed limits wellFormed_people
    plainFormats_people
    (by simp [people, Schema.PlainNumbers, Schema.nodes, Schema.nodesOfFields,
      Schema.nodesOfOption])
  refine ⟨m, hm, covers _ List.mem_cons_self _ ?_ ?_⟩
  · refine .object (fun name => Iff.rfl) fun name v s hv hs => ?_
    cases List.mem_singleton.mp (Fields.mem_of_lookup_eq_some hv)
    cases hs
    exact .exemplar rfl
  · refine .object (fun name => id) (fun name v s hv hs => ?_) fun _ _ _ _ _ h => ?_
    · cases List.mem_singleton.mp (Fields.mem_of_lookup_eq_some hv)
      cases hs
      exact .string (fun _ h => absurd h.symm (Option.some_ne_none _)) (within_null _)
    · cases h

/-- What a sample bears witness to but forbids itself stays forbidden. An example that equals an
earlier one is lost with it when that one is a boolean, and formats that are lists are refused. -/
theorem merge_excludes_observed :
    (merge {} [.string { enum := some [.str "a"], minLength := .int 5 }] =
        .ok (.string { enum := some [.str "a"], minLength := .int 5 }) ∧
      Observed (.str "a") (.string { enum := some [.str "a"], minLength := .int 5 }) ∧
      ¬ Conforms (.str "a") (.string { enum := some [.str "a"], minLength := .int 5 })) ∧
    (merge {} [.number { integer := .bool true, exemplar := .bool true },
        .number { integer := .bool true, exemplar := .int 1 },
        .number { integer := .bool true, exemplar := .int 5 }] =
        .ok (.number { integer := .bool true, exemplar := .bool true, minimum := .int 5,
                       maximum := .int 5 }) ∧
      Observed (.int 1) (.number { integer := .bool true, exemplar := .int 1 }) ∧
      Conforms (.int 1) (.number { integer := .bool true, exemplar := .int 1 }) ∧
      ¬ Conforms (.int 1) (.number { integer := .bool true, exemplar := .bool true,
                                     minimum := .int 5, maximum := .int 5 })) ∧
    merge {} [.string { format := .arr [] }, .string { format := .arr [] }] =
      .error .illTyped := by
  refine ⟨⟨merge_singleton _ _, .member rfl (by decide), fun h => ?_⟩,
    ⟨?_, .number rfl (by decide), .number rfl (fun _ => ⟨1, rfl⟩) (within_null _), fun h => ?_⟩, ?_⟩
  · cases h with
    | string member length => exact length.1 (by decide)
  · rw [merge_cons_cons]
    rfl
  · cases h with
    | number number whole range => exact range.1 (by decide)
  · rw [merge_cons_cons]
    rfl

end Schemata

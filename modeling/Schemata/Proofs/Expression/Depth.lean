import Schemata.Proofs.Expression.Total

/-!
# The limit of depth

A reading that goes deeper than the limit is cut off there, with a warning. Where there is no such
warning the limit was never met, and a deeper one gives the same reading. Every step down shortens
the text, so that a limit that is not less than its length is never met at all.

## Main results

* `Warning.isDepthExceeded_of_message`: no other warning is worded like this one.
* `Parser.read_of_deeper`: a reading without the warning stays as it is under a deeper limit.
* `Parser.uncut_read`: a text is read without the warning when the limit leaves room for its length.
* `Parser.answer_of_deeper`: both, for answers.
-/

namespace Schemata

/-! ### Warnings -/

namespace Warning

def isDepthExceeded : Warning → Bool
  | .depthExceeded _ => true
  | _ => false

/-- What a warning begins with. -/
def initial : Warning → Char
  | .depthExceeded _ => 'M'
  | .blank => 'E'
  | .nullabilityDropped _ | .nullMembersDropped _ => 'N'
  | .unrecognized _ | .modifierDropped .. | .selectionDropped .. => 'U'
  | .argumentsDropped .. => 'G'

private theorem head?_append {a b : String} {c : Char} (h : a.toList.head? = some c) :
    (a ++ b).toList.head? = some c := by
  rw [String.toList_append, List.head?_append, h]
  rfl

theorem head?_message (w : Warning) : w.message.toList.head? = some w.initial := by
  cases w with
  | blank => decide
  | depthExceeded => exact head?_append (c := 'M') (head?_append (by decide))
  | nullabilityDropped => exact head?_append (c := 'N') (head?_append (by decide))
  | nullMembersDropped => exact head?_append (c := 'N') (by decide)
  | unrecognized => exact head?_append (c := 'U') (by decide)
  | modifierDropped => exact head?_append (c := 'U') (head?_append (by decide))
  | selectionDropped => exact head?_append (c := 'U') (head?_append (by decide))
  | argumentsDropped => exact head?_append (c := 'G') (head?_append (by decide))

/-- No other warning is worded like this one. -/
theorem isDepthExceeded_of_message {w : Warning} {limit : Json}
    (h : w.message = (depthExceeded limit).message) : w.isDepthExceeded = true := by
  have same : w.initial = 'M' := by
    rw [← Option.some.injEq, ← head?_message, h]
    exact head?_message (depthExceeded limit)
  cases w with
  | depthExceeded => rfl
  | _ => simp [initial] at same

end Warning

namespace Form

variable {form : Form} {w : Warning}

theorem not_isDepthExceeded_of_before {expr : List Char} (h : w ∈ form.warningsBefore expr) :
    w.isDepthExceeded = false := by
  cases form with
  | oneOf members nullable =>
    cases nullable with
    | true => cases List.mem_singleton.mp h; rfl
    | false => cases h
  | blank | modified | selected | generic | unrecognized => cases List.mem_singleton.mp h; rfl
  | _ => cases h

theorem not_isDepthExceeded_of_after {inner : List Schema} (h : w ∈ form.warningsAfter inner) :
    w.isDepthExceeded = false := by
  cases form with
  | single member nullable =>
    rw [warningsAfter] at h
    split at h
    · cases List.mem_singleton.mp h
      rfl
    · cases h
  | _ => cases h

end Form

/-! ### Readings -/

namespace Reading

/-- Nothing of the text was cut off. -/
def Uncut (r : Reading) : Prop := ∀ w ∈ r.warnings, w.isDepthExceeded = false

end Reading

namespace Parser

variable {p q : Parser}

theorem tooDeep_eq {limit : Int} (limited : p.maxDepth.integer? = some limit) (depth : Nat) :
    p.tooDeep depth = decide (limit < depth) := by
  have compare : Json.exceeds? (.int depth) p.maxDepth = some (decide (limit < depth)) :=
    Json.exceeds?_of_integers rfl limited
  rw [tooDeep, compare]
  cases decide (limit < (depth : Int)) <;> rfl

/-- Whatever is cut off is cut off in a part. -/
theorem mem_warnings_assemble {w : Warning} (cut : w.isDepthExceeded = true) {expr : List Char}
    {form : Form} {inner : List Reading} :
    w ∈ (assemble expr form inner).warnings ↔ ∃ r ∈ inner, w ∈ r.warnings := by
  have before : w ∉ form.warningsBefore expr := fun h =>
    absurd cut (by simp [Form.not_isDepthExceeded_of_before h])
  have after : w ∉ form.warningsAfter (inner.map Reading.schema) := fun h =>
    absurd cut (by simp [Form.not_isDepthExceeded_of_after h])
  rw [assemble]
  simp [before, after]

theorem uncut_assemble {expr : List Char} {form : Form} {inner : List Reading} :
    (assemble expr form inner).Uncut ↔ ∀ r ∈ inner, r.Uncut := by
  constructor
  · intro h r hr w hw
    by_contra cut
    rw [Bool.not_eq_false] at cut
    rw [h w ((mem_warnings_assemble cut).mpr ⟨r, hr, hw⟩)] at cut
    cases cut
  · intro h w hw
    by_contra cut
    rw [Bool.not_eq_false] at cut
    obtain ⟨r, hr, hw⟩ := (mem_warnings_assemble cut).mp hw
    rw [h r hr w hw] at cut
    cases cut

/-- The limit that a warning of a cut names is that of the parser. -/
theorem limit_of_mem_warnings {limit : Json} {depth : Nat} {text : List Char}
    (h : .depthExceeded limit ∈ (p.read depth text).warnings) : limit = p.maxDepth := by
  induction hn : (strip text).length using Nat.strongRecOn generalizing depth text with
  | _ n ih =>
    subst hn
    rw [read_eq] at h
    split at h
    · cases List.mem_singleton.mp h
      rfl
    · obtain ⟨r, hr, h⟩ := (mem_warnings_assemble rfl).mp h
      obtain ⟨component, hc, rfl⟩ := List.mem_map.mp hr
      exact ih _ (Form.length_lt_of_mem_components hc) h rfl

/-- Two parsers that know the same names read alike what the first of them does not cut off, when
the second cuts off no earlier. -/
theorem read_of_deeper (known : q.overrides = p.overrides)
    (deeper : ∀ depth, q.tooDeep depth = true → p.tooDeep depth = true) {depth : Nat}
    {text : List Char} (uncut : (p.read depth text).Uncut) :
    q.read depth text = p.read depth text := by
  induction hn : (strip text).length using Nat.strongRecOn generalizing depth text with
  | _ n ih =>
    subst hn
    rw [read_eq] at uncut
    rw [read_eq, read_eq]
    split at uncut
    · exact absurd (uncut _ (List.mem_singleton.mpr rfl)) Bool.noConfusion
    · next shallow =>
      rw [if_neg shallow, if_neg (mt (deeper depth) shallow), known]
      dsimp only at uncut ⊢
      congr 1
      refine List.map_congr_left fun component hc => ?_
      refine ih _ (Form.length_lt_of_mem_components hc) ?_ rfl
      exact uncut_assemble.mp uncut _ (List.mem_map_of_mem hc)

/-- The text gets shorter with every step down, so that depth and length together do not grow. -/
theorem uncut_read {limit : Int} (limited : p.maxDepth.integer? = some limit) {depth : Nat}
    {text : List Char} (room : (depth + (strip text).length : Int) ≤ limit) :
    (p.read depth text).Uncut := by
  induction hn : (strip text).length using Nat.strongRecOn generalizing depth text with
  | _ n ih =>
    subst hn
    have shallow : p.tooDeep depth = false := by
      rw [tooDeep_eq limited]
      exact decide_eq_false (by omega)
    rw [read_eq, shallow, if_neg Bool.false_ne_true]
    refine uncut_assemble.mpr fun r hr => ?_
    obtain ⟨component, hc, rfl⟩ := List.mem_map.mp hr
    have shorter := Form.length_lt_of_mem_components hc
    exact ih _ shorter (by omega) rfl

/-! ### Answers -/

/-- The warning of a cut names the limit of the parser, and no other warning has its wording. -/
theorem uncut_of_messages {depth : Nat} {text : List Char}
    (silent : ∀ w ∈ (p.read depth text).warnings,
      w.message ≠ (Warning.depthExceeded p.maxDepth).message) : (p.read depth text).Uncut := by
  intro w hw
  cases w with
  | depthExceeded limit =>
    rw [limit_of_mem_warnings hw] at hw
    exact absurd rfl (silent _ hw)
  | _ => rfl

/-- An answer without the warning of a cut is the answer under any deeper limit, and under a limit
that the text is no longer than there is no such warning. -/
theorem answer_of_deeper {refPrefix : String}
    (loaded : ∀ entry ∈ p.overrides, ∃ path v, Schema.load (.str refPrefix) path v = .ok entry.2)
    (known : q.overrides = p.overrides) {least most : Int}
    (limited : p.maxDepth.integer? = some least) (limited' : q.maxDepth.integer? = some most)
    (le : least ≤ most) (text : String) :
    ∃ answer, p.answer text = .ok answer ∧
      ((∀ w ∈ answer.warnings,
          w.message ≠ "Maximum type depth (" ++ p.maxDepth.display ++ ") exceeded") →
        q.answer text = .ok answer) ∧
      ((strip text.toList).length ≤ least → ∀ w ∈ answer.warnings,
        w.message ≠ "Maximum type depth (" ++ p.maxDepth.display ++ ") exceeded") := by
  obtain ⟨regular, accepted⟩ :=
    regular_and_refused_read (regular_of_loaded loaded) 0 (strip text.toList)
  obtain ⟨tenths, hconfidence⟩ := exists_confidence (Form.kind_ne_abstract regular)
  refine ⟨_, answer_of_confidence (number?_of_integer_limit limited) accepted hconfidence,
    fun silent => ?_, fun short w hw same => ?_⟩
  · have deeper : ∀ depth, q.tooDeep depth = true → p.tooDeep depth = true := by
      intro depth
      rw [tooDeep_eq limited, tooDeep_eq limited', decide_eq_true_iff, decide_eq_true_iff]
      omega
    have same := read_of_deeper known deeper (uncut_of_messages silent)
    rw [← same] at accepted hconfidence ⊢
    exact answer_of_confidence (number?_of_integer_limit limited') accepted hconfidence
  · have uncut : (p.read 0 (strip text.toList)).Uncut := by
      refine uncut_read limited ?_
      rw [strip_strip]
      omega
    have cut := Warning.isDepthExceeded_of_message same
    rw [uncut w hw] at cut
    cases cut

/-- A name in a set in a union is two levels down: a limit of one cuts it off, and under a limit of
two it is read as under any deeper one. -/
theorem answer_of_deeper_set :
    ∃ cut answer, (knowingId (.int 1)).answer "Set<Id> | Date" = .ok cut ∧
      cut.warnings.map Warning.message = ["Maximum type depth (1) exceeded"] ∧
        (knowingId (.int 2)).answer "Set<Id> | Date" = .ok answer ∧ answer.warnings = [] ∧
          (knowingId (.int 1000)).answer "Set<Id> | Date" = .ok answer := by
  have messages : ((knowingId (.int 1)).answer "Set<Id> | Date").toOption.map
      (fun answer => answer.warnings.map Warning.message) =
        some ["Maximum type depth (1) exceeded"] := by decide +kernel
  have silence : ((knowingId (.int 2)).answer "Set<Id> | Date").toOption.map
      (fun answer => answer.warnings.length) = some 0 := by decide +kernel
  obtain ⟨cut, hcut, -⟩ := answer_of_deeper (loaded_knowingId (.int 1)) rfl rfl rfl
    (by decide) "Set<Id> | Date"
  obtain ⟨answer, hanswer, deeper, -⟩ := answer_of_deeper (q := knowingId (.int 1000))
    (loaded_knowingId (.int 2)) rfl rfl rfl (by decide) "Set<Id> | Date"
  rw [hcut] at messages
  rw [hanswer] at silence
  have quiet : answer.warnings = [] := List.length_eq_zero_iff.mp (Option.some.inj silence)
  refine ⟨cut, answer, hcut, Option.some.inj messages, hanswer, quiet, deeper fun w hw => ?_⟩
  rw [quiet] at hw
  cases hw

end Parser

end Schemata

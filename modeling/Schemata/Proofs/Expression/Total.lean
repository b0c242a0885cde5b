import Schemata.Proofs.Expression.Regular
import Schemata.Proofs.Schema.Checked
import Schemata.Proofs.Schema.Load

/-!
# Every text has a reading

Reading goes from an expression to the expressions inside its form. These are shorter, so that it
ends on every text, however deep the limit lets it go.

The schemas of forms are put together without the checks of nodes, as none of these can fail. Here
reading is done once more with the checks, each where a node is made, and comes to the same schemas.

## Main definitions

* `Form.build`, `Parser.build`: the schema of a form and of a text, with all checks.

## Main results

* `Form.build_eq_ok`: no check fails while a form is put together.
* `Parser.build_eq_ok`: nor while a text is read.
* `Parser.reads_every_text`: every text is answered.

## Implementation notes

That reading is a function of its text rests on the same lengths, by
`Form.length_lt_of_mem_components`; the limit of depth has no part in it.
-/

namespace Schemata

variable {refPrefix : String}

/-! ### Reading with all checks -/

namespace Schema

/-- The node marked as nullable, and made again for it, if nodes of its kind have the mark; a node
of no kind cannot be asked for its kind. -/
def markNullable (s : Schema) : Except Fault Schema :=
  if s.kind = .abstract then .error .noKind
  else match s.withNullable? with
    | some marked => marked.checked
    | none => .ok s

end Schema

namespace Form

/-- Forms that stand for a schema that is there make no node. -/
def build (form : Form) (inner : List Schema) : Except Fault Schema :=
  match form with
  | .known s => .ok s
  | .inner _ | .modified .. | .selected .. => .ok (inner.headD .empty)
  | .single _ nullable =>
    if nullable then (inner.headD .empty).markNullable else .ok (inner.headD .empty)
  | form => (form.schema inner).checked

end Form

namespace Parser

def build (p : Parser) (depth : Nat) (text : List Char) : Except Fault Schema :=
  if p.tooDeep depth then Schema.anyObject.checked
  else do
    let form := Form.of p.overrides (strip text)
    let inner ← form.components.attach.mapM fun component => build p (depth + 1) component.val
    form.build inner
termination_by (strip text).length
decreasing_by exact Form.length_lt_of_mem_components component.property

theorem build_eq (p : Parser) (depth : Nat) (text : List Char) :
    p.build depth text =
      if p.tooDeep depth then Schema.anyObject.checked
      else (do
        let form := Form.of p.overrides (strip text)
        let inner ← form.components.mapM (p.build (depth + 1))
        form.build inner) := by
  rw [build]
  simp

end Parser

/-! ### No check fails -/

theorem Schema.markNullable_eq_ok {s : Schema} (h : s.Regular refPrefix) :
    s.markNullable = .ok (s.withNullable?.getD s) := by
  have regular := Form.regular_withNullable h
  rw [markNullable, if_neg (Form.kind_ne_abstract h)]
  cases marked : s.withNullable? with
  | none => rfl
  | some t =>
    rw [marked] at regular
    exact regular.checked

theorem Form.build_eq_ok {form : Form} (sound : form.Sound refPrefix) {inner : List Schema}
    (h : ∀ s ∈ inner, s.Regular refPrefix) : form.build inner = .ok (form.schema inner) := by
  have made := (regular_schema sound h).checked
  cases form with
  | known | inner | modified | selected => rfl
  | single member nullable =>
    cases nullable with
    | false => rfl
    | true => exact Schema.markNullable_eq_ok (regular_headD h)
  | _ => exact made

namespace Parser

variable {p : Parser}

/-- The induction is on the length of the text; the schemas of the components are regular, and so
pass the checks of the node that is made of them. -/
theorem build_eq_ok (hp : p.Regular refPrefix) (depth : Nat) (text : List Char) :
    p.build depth text = .ok (p.read depth text).schema := by
  induction hn : (strip text).length using Nat.strongRecOn generalizing depth text with
  | _ n ih =>
    subst hn
    rw [build_eq, read_eq]
    split
    · exact (Schema.regular_anyObject refPrefix).checked
    · have inner : (Form.of p.overrides (strip text)).components.mapM (p.build (depth + 1)) =
          .ok (((Form.of p.overrides (strip text)).components.map (p.read (depth + 1))).map
            Reading.schema) := by
        rw [Fault.mapM_eq_ok_iff, List.map_map, List.forall₂_map_right_iff, List.forall₂_same]
        exact fun component hc =>
          ih _ (Form.length_lt_of_mem_components hc) (depth + 1) component rfl
      dsimp only
      rw [inner]
      refine Form.build_eq_ok (Form.sound_of hp _) fun s hs => ?_
      obtain ⟨r, hr, rfl⟩ := List.mem_map.mp hs
      obtain ⟨component, -, rfl⟩ := List.mem_map.mp hr
      exact (regular_and_refused_read hp (depth + 1) component).1

/-! ### Answers -/

theorem regular_of_loaded
    (loaded : ∀ entry ∈ p.overrides, ∃ path v,
      Schema.load (.str refPrefix) path v = .ok entry.2) : p.Regular refPrefix := by
  intro entry hentry
  obtain ⟨path, v, h⟩ := loaded entry hentry
  exact Schema.regular_of_load h

theorem number?_of_integer_limit {limit : Int} (limited : p.maxDepth.integer? = some limit) :
    p.maxDepth.number?.isSome = true := by
  rw [Json.number?_of_integer limited]
  rfl

/-- Every text is answered, whatever a session remembers. What reading goes down to is shorter, for
any limit of depth, and none of the nodes that it makes fails its checks. -/
theorem reads_every_text {limit : Int} (limited : p.maxDepth.integer? = some limit)
    (loaded : ∀ entry ∈ p.overrides, ∃ path v,
      Schema.load (.str refPrefix) path v = .ok entry.2) :
    (∀ text cache, ∃ answer, (p.answerIn text cache).1 = .ok answer) ∧
      (∀ text, ∀ component ∈ (Form.of p.overrides (strip text)).components,
        (strip component).length < (strip text).length) ∧
      ∀ depth text, p.build depth text = .ok (p.read depth text).schema := by
  have regular := regular_of_loaded loaded
  refine ⟨fun text cache => ?_, fun text component => Form.length_lt_of_mem_components,
    build_eq_ok regular⟩
  rw [answerIn]
  cases cache.lookup (cacheKey text) with
  | some s => exact ⟨_, rfl⟩
  | none =>
    obtain ⟨known, accepted⟩ := regular_and_refused_read regular 0 (cacheKey text).toList
    obtain ⟨tenths, hconfidence⟩ := exists_confidence (Form.kind_ne_abstract known)
    dsimp only
    rw [parse_of_accepted (number?_of_integer_limit limited) accepted]
    exact ⟨_, ofReading_of_confidence hconfidence⟩

/-- A parser that has the name `Id` from a document. -/
def knowingId (limit : Json) : Parser := ⟨[("Id", .string { format := .str "uuid" })], limit⟩

theorem loaded_knowingId (limit : Json) : ∀ entry ∈ (knowingId limit).overrides, ∃ path v,
    Schema.load (.str "#/") path v = .ok entry.2 := by
  refine List.forall_mem_singleton.mpr
    ⟨"type_overrides/Id", .obj [("type", .str "string"), ("format", .str "uuid")], ?_⟩
  rw [Schema.load]
  rfl

/-- Brackets that are never closed, under a limit that is never reached; and a name that is marked
as nullable, which makes its node again. -/
theorem reads_every_text_unclosed :
    (knowingId (.int 1000000)).maxDepth.integer? = some 1000000 ∧
      (∃ answer,
        ((knowingId (.int 1000000)).answerIn "[Id | \x7b a?: Set<Id; (" []).1 = .ok answer) ∧
        ∃ s, (knowingId (.int 1000000)).build 0 "null | Id".toList = .ok s ∧
          s.nullable.truthy = true := by
  obtain ⟨answered, -, built⟩ :=
    reads_every_text (p := knowingId (.int 1000000)) rfl (loaded_knowingId _)
  exact ⟨rfl, answered _ _, _, built 0 _, by decide +kernel⟩

end Parser

end Schemata

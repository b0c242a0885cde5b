import Schemata.Proofs.Expression.Cuts
import Schemata.Proofs.Expression.Memory
import Schemata.Proofs.Expression.ReadPrint

/-!
# Overrides in unions

An override decides what its text stands for wherever that text is an expression of its own. The
members of a union are expressions of their own, but for `null` and `undefined`: a union drops these
two by their names, before anything is read. A union of a name and an override is therefore read as
the reference and the override, unless the override is one of the two; its schema is then lost, and
what is left is the reference, with a warning.

## What is deliberately absent

Nothing is asked of the brackets and quotes of the override. They come after the only bar, so that
none of them can hide it.

## Main definitions

* `Parser.JoinsOverride`: a name and an override, joined to a union.

## Main results

* `splitTop_pair`: a bar that is met at top level parts what is around it.
* `Form.ofUnion_pair`: a union of two members, the first of which is neither dropped nor a literal.
* `Parser.JoinsOverride.read`: the reading of a union of a name and an override.
* `Parser.override_in_union`: the answer to it, in a new session and in any other.
-/

namespace Schemata

/-! ### Unions of two members -/

section Pair

variable {d : Char} {x y : List Char}

/-- Behind the first delimiter there is no other one. -/
theorem splitTop_pair (hd : isStructural d = false) (blank : isBlank d = false)
    (first : Part (· ≠ d) x) (second : Trimmed y) (last : d ∉ y) :
    splitTop [d] (x ++ [' ', d, ' '] ++ y) = [x, y] := by
  have arranged : x ++ [' ', d, ' '] ++ y = (x ++ [' ']) ++ d :: (' ' :: y) := by simp
  have space : ∀ c ∈ [' '], isBlank c = true := List.forall_mem_singleton.mpr rfl
  have before : Balanced (· ≠ d) (x ++ [' ']) := first.balanced.append (.of_blanks blank space)
  have none : ¬ StandsAtTop d .start (' ' :: y) := by
    rintro ⟨front, back, heq, -⟩
    have hmem : d ∈ ' ' :: y := heq ▸ List.mem_append_right _ List.mem_cons_self
    rcases List.mem_cons.mp hmem with rfl | hmem
    · exact absurd blank (by decide)
    · exact last hmem
  have stripped : strip (x ++ [' ']) = x ∧ strip (' ' :: y) = y := by
    have blanks : ∀ c ∈ [], isBlank c = true := nofun
    constructor
    · exact first.trimmed.strip_padded blanks space
    · have padded := second.strip_padded space blanks
      rwa [List.append_nil] at padded
  rw [arranged, splitTop_eq, before.segments_cut hd, segments_of_not_standsAtTop hd none,
    nonblankParts_cons, nonblankParts_cons, stripped.1, stripped.2, if_neg first.trimmed.ne_nil,
    if_neg second.ne_nil]
  rfl

end Pair

namespace Form

theorem ofUnion_pair {x y : List Char} (literal : isLiteral x = false)
    (named : isNullName x = false) :
    ofUnion [x, y] = if isNullName y then .single x true else .oneOf [x, y] false := by
  have mixed : [x, y].all isLiteral = false := by
    rw [List.all_cons, literal, Bool.false_and]
  rw [ofUnion, mixed, Bool.and_false, if_neg Bool.false_ne_true]
  cases dropped : isNullName y with
  | true => simp [named, dropped]
  | false => simp [named, dropped]

variable {overrides : Fields Schema} {name key : String}

/-- The form of a union of a name and a text that has no bar in it. -/
theorem of_union_pair (identifier : isIdentifier name.toList = true)
    (free : name ∉ Fields.names primitives) (trimmed : Trimmed key.toList)
    (whole : '|' ∉ key.toList) (new : name ++ " | " ++ key ∉ Fields.names overrides) :
    Form.of overrides (name ++ " | " ++ key).toList =
      if isNullName key.toList then .single name.toList true
      else .oneOf [name.toList, key.toList] false := by
  have bar : '|' ∈ (name ++ " | " ++ key).toList := by simp
  have unprimitive : name ++ " | " ++ key ∉ Fields.names primitives := by
    intro known
    have letter := (isAlpha_of_mem_primitives known).2 _ bar
    cases letter
  rw [← String.ofList_toList (s := name ++ " | " ++ key)] at new unprimitive
  have part : Part (· ≠ '|') name.toList :=
    (part_of_isIdentifier identifier).mono fun _ hc => hc.2.1
  have parts : splitTop ['|'] (name ++ " | " ++ key).toList = [name.toList, key.toList] := by
    rw [String.toList_append, String.toList_append]
    exact splitTop_pair (by decide) (by decide) part trimmed whole
  have cut : hasTop ['|'] (name ++ " | " ++ key).toList = true := by
    refine hasTop_eq_true ?_
    rw [parts]
    exact Nat.le_refl 2
  have unwrapped : isWrapped '(' ')' (name ++ " | " ++ key).toList = false := by
    obtain ⟨c, rest, hname⟩ := List.exists_cons_of_ne_nil part.trimmed.ne_nil
    have plain := plain_of_isIdentifier identifier c (hname ▸ List.mem_cons_self)
    rw [String.toList_append, String.toList_append, hname]
    exact (unwrapped_of_head (isStructural_eq_false_iff.mp plain.1).1 _).1
  rw [of_unnamed (List.ne_nil_of_mem bar) new unprimitive, ofText, unwrapped,
    if_neg Bool.false_ne_true, cut, if_pos rfl, parts,
    ofUnion_pair (isLiteral_of_isIdentifier identifier) (isNullName_of_free free)]

end Form

/-! ### Readings -/

namespace Parser

variable {p : Parser} {name key : String} {s : Schema}

/-- Whatever a session was asked for before, its answer to a text has the schema of a new one. -/
theorem exists_answer_after (sound : p.Sound) {text : String} {new : Answer}
    (hnew : p.answer text = .ok new) (requests : List Request) :
    ∃ again, (p.answerIn text (p.cacheAfter requests)).1 = .ok again ∧
      again.schema = new.schema := by
  obtain ⟨s, answers⟩ := recalls_text sound text
  obtain ⟨fresh, rfl, hfresh⟩ := answers []
  obtain ⟨again, schema, hagain⟩ := answers (heard requests)
  have same : fresh = new := by
    have first := answerIn_nil sound text
    rw [← memory_nil p, hfresh, hnew] at first
    exact Except.ok.inj first
  rw [cacheAfter_eq sound, hagain]
  exact ⟨again, rfl, same ▸ schema⟩

/-- A name without a schema of its own and an override, which joined by a bar make no override. -/
structure JoinsOverride (p : Parser) (name key : String) (s : Schema) : Prop where
  override : p.overrides.lookup key = some s
  nonblank : key ≠ ""
  stripped : strip key.toList = key.toList
  whole : '|' ∉ key.toList
  identifier : isIdentifier name.toList = true
  new : name ∉ Fields.names p.overrides
  free : name ∉ Fields.names primitives
  union : name ++ " | " ++ key ∉ Fields.names p.overrides

namespace JoinsOverride

theorem trimmed_key (h : p.JoinsOverride name key s) : Trimmed key.toList :=
  .of_strip_eq (String.toList_eq_nil_iff.not.mpr h.nonblank) h.stripped

theorem trimmed_name (h : p.JoinsOverride name key s) : Trimmed name.toList :=
  (part_of_isIdentifier h.identifier).trimmed

theorem trimmed (h : p.JoinsOverride name key s) : Trimmed (name ++ " | " ++ key).toList := by
  rw [String.toList_append, String.toList_append]
  exact h.trimmed_name.append _ h.trimmed_key

theorem read_name (h : p.JoinsOverride name key s) (shallow : p.tooDeep 1 = false) :
    p.read 1 name.toList = ⟨.ref (.str name), [], false⟩ := by
  rw [read_of_form shallow h.trimmed_name (Form.of_reference h.identifier h.new h.free), assemble,
    Form.schema, String.ofList_toList]
  rfl

theorem read_key (h : p.JoinsOverride name key s) (shallow : p.tooDeep 1 = false) :
    p.read 1 key.toList = ⟨s, [], false⟩ := by
  have known : Form.of p.overrides key.toList = .known s := by
    refine Form.of_override h.trimmed_key.ne_nil ?_
    rw [String.ofList_toList]
    exact h.override
  rw [read_of_form shallow h.trimmed_key known]
  rfl

/-- The override is looked up only after the members to be dropped are gone. -/
theorem read (h : p.JoinsOverride name key s) (shallow : ∀ depth ≤ 1, p.tooDeep depth = false) :
    p.read 0 (name ++ " | " ++ key).toList =
      if Form.isNullName key.toList then
        ⟨.ref (.str name), [.nullabilityDropped name.toList], false⟩
      else ⟨.oneOf [.ref (.str name), s], [], false⟩ := by
  have first := h.read_name (shallow 1 (Nat.le_refl 1))
  have second := h.read_key (shallow 1 (Nat.le_refl 1))
  have form := Form.of_union_pair h.identifier h.free h.trimmed_key h.whole h.union
  rw [read_of_form (shallow 0 (Nat.zero_le 1)) h.trimmed form]
  cases Form.isNullName key.toList with
  | true =>
    rw [if_pos rfl, if_pos rfl, Form.components, List.map_singleton, first]
    rfl
  | false =>
    rw [if_neg Bool.false_ne_true, if_neg Bool.false_ne_true, Form.components, List.map_cons,
      List.map_singleton, first, second]
    rfl

theorem answer (h : p.JoinsOverride name key s)
    (deep : (Json.int 1).atMost? p.maxDepth = some true) :
    p.answer (name ++ " | " ++ key) = .ok (if Form.isNullName key.toList then
        ⟨.ref (.str name), 7, [.nullabilityDropped name.toList]⟩
      else ⟨.oneOf [.ref (.str name), s], 10, []⟩) := by
  have limited : p.maxDepth.number?.isSome = true := by
    obtain ⟨y, hy, -⟩ := Json.number?_of_atMost? deep
    exact Option.isSome_iff_exists.mpr ⟨y, hy⟩
  have shallow : ∀ depth ≤ 1, p.tooDeep depth = false := fun _ => tooDeep_of_atMost? deep
  have read := h.read shallow
  rw [← h.trimmed.strip_eq] at read
  have tenths : (p.read 0 (strip (name ++ " | " ++ key).toList)).confidence =
      .ok (if Form.isNullName key.toList then 7 else 10) := by
    rw [read]
    cases Form.isNullName key.toList <;> rfl
  have accepted : (p.read 0 (strip (name ++ " | " ++ key).toList)).refused = false := by
    rw [read]
    cases Form.isNullName key.toList <;> rfl
  rw [answer_of_confidence limited accepted tenths, read]
  cases Form.isNullName key.toList <;> rfl

end JoinsOverride

/-- A union of a name and an override is answered with the reference and the override, in every
session, unless the override is one of the names that a union drops; then only the reference is
left, with a warning. -/
theorem override_in_union (joins : p.JoinsOverride name key s)
    (deep : (Json.int 1).atMost? p.maxDepth = some true) :
    ∃ answer, p.answer (name ++ " | " ++ key) = .ok answer ∧
      (key ≠ "null" → key ≠ "undefined" → answer = ⟨.oneOf [.ref (.str name), s], 10, []⟩) ∧
      (key = "null" ∨ key = "undefined" →
        answer = ⟨.ref (.str name), 7, [.nullabilityDropped name.toList]⟩) ∧
      (p.Sound → ∀ requests, ∃ again,
        (p.answerIn (name ++ " | " ++ key) (p.cacheAfter requests)).1 = .ok again ∧
          again.schema = answer.schema) := by
  have answered := joins.answer deep
  refine ⟨_, answered, fun null undefined => ?_, fun dropped => ?_, fun sound requests => ?_⟩
  · have kept : Form.isNullName key.toList = false := by
      rw [Form.isNullName_toList, beq_eq_false_iff_ne.mpr null, beq_eq_false_iff_ne.mpr undefined,
        Bool.or_false]
    rw [kept, if_neg Bool.false_ne_true]
  · have lost : Form.isNullName key.toList = true := by
      rw [Form.isNullName_toList, Bool.or_eq_true, beq_iff_eq, beq_iff_eq]
      exact dropped
    rw [lost, if_pos rfl]
  · exact exists_answer_after sound answered requests

/-- A parser that has a generic from a document. Its limit would cut off what is in the brackets. -/
def knowingIds : Parser :=
  ⟨[("Set<Id>", .array (some (.string { format := .str "uuid" })) { unique := .bool true })],
    .int 1⟩

theorem override_in_union_knowingIds :
    knowingIds.JoinsOverride "User" "Set<Id>"
        (.array (some (.string { format := .str "uuid" })) { unique := .bool true }) ∧
      knowingIds.Sound ∧ (Json.int 1).atMost? knowingIds.maxDepth = some true ∧
      ∃ answer, answer = ⟨.oneOf [.ref (.str "User"), .array
          (some (.string { format := .str "uuid" })) { unique := .bool true }], 10, []⟩ ∧
        knowingIds.answer "User | Set<Id>" = .ok answer ∧
        ∃ again, (knowingIds.answerIn "User | Set<Id>"
            (knowingIds.cacheAfter [.parse " User | Set<Id> "])).1 = .ok again ∧
          again.schema = answer.schema := by
  have joins : knowingIds.JoinsOverride "User" "Set<Id>"
      (.array (some (.string { format := .str "uuid" })) { unique := .bool true }) :=
    { override := rfl
      nonblank := by decide
      stripped := by decide
      whole := by decide
      identifier := by decide
      new := by decide
      free := by decide
      union := by decide }
  have sound : knowingIds.Sound := ⟨rfl, List.forall_mem_singleton.mpr Kind.noConfusion⟩
  have deep : (Json.int 1).atMost? knowingIds.maxDepth = some true :=
    (Json.atMost?_of_integers rfl rfl).trans (congrArg some (by decide))
  obtain ⟨answer, answered, kept, -, sessions⟩ := override_in_union joins deep
  exact ⟨joins, sound, deep, answer, kept (by decide) (by decide), answered,
    sessions sound [.parse " User | Set<Id> "]⟩

/-- A parser that has the name `null` from a document, for the integers. -/
def knowingNull : Parser := ⟨[("null", .number { integer := .bool true })], .int 10⟩

/-- Here `null` names the integers, and the union has lost them. -/
theorem override_lost_from_union :
    loadOverrides (.str "#/") [("null", .raw (.obj [("type", .str "integer")]))] =
        .ok knowingNull.overrides ∧
      knowingNull.JoinsOverride "A" "null" (.number { integer := .bool true }) ∧
      knowingNull.answer "A | null" =
        .ok ⟨.ref (.str "A"), 7, [.nullabilityDropped "A".toList]⟩ := by
  have loaded : loadOverrides (.str "#/") [("null", .raw (.obj [("type", .str "integer")]))] =
      .ok knowingNull.overrides := by
    rw [loadOverrides, Sample.load, Schema.load]
    rfl
  have joins : knowingNull.JoinsOverride "A" "null" (.number { integer := .bool true }) :=
    { override := rfl
      nonblank := by decide
      stripped := by decide
      whole := by decide
      identifier := by decide
      new := by decide
      free := by decide
      union := by decide }
  have deep : (Json.int 1).atMost? knowingNull.maxDepth = some true :=
    (Json.atMost?_of_integers rfl rfl).trans (congrArg some (by decide))
  exact ⟨loaded, joins, joins.answer deep⟩

end Parser

end Schemata

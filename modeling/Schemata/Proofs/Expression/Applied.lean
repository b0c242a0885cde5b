import Schemata.Proofs.Expression.Memory
import Schemata.Proofs.Expression.Nullable
import Schemata.Proofs.Expression.ReadPrint

/-!
# Generics with arguments of any text

Brackets behind a text and the generics `Array` and `ReadonlyArray` around it spell the same list,
also where the text is malformed: it only has to be closed, and nothing may cut it. The generics of
the grammar read as many arguments as they have a use for. Further ones are passed over, and the
answer is the one that there would be without them; no warning tells that they were there.

## What is deliberately absent

Of the overrides nothing is assumed but that the whole of either spelling is none of them. They are
looked up without the blanks around an expression, so that it is the stripped spelling that may not
be an override. What the element or an argument is read as does not matter: it may be an override,
cut off by the limit of depth, or not recognised at all.

## Main definitions

* `Form.Carries`: the forms that are made of one expression and report nothing of their own.
* `Takes`: how many arguments a generic of the grammar has a use for.

## Main results

* `Parser.read_of_carries`: a form that carries an expression passes on what is read of it.
* `Parser.list_spellings_agree`: the spellings of a list are answered alike.
* `Parser.answer_of_surplus`: surplus arguments do not show in the answer.
-/

namespace Schemata

open TypeExpr

/-! ### Forms of one expression -/

namespace Form

/-- The form is made of one expression, and has nothing to report of its own. -/
inductive Carries (x : List Char) : Form → Prop
  | inner : Carries x (.inner x)
  | list (unique : Bool) : Carries x (.list x unique)
  | dictionary : Carries x (.dictionary x)

/-- The reading of a form, given that of the expression that it carries. -/
def carry (form : Form) (r : Reading) : Reading := ⟨form.schema [r.schema], r.warnings, r.refused⟩

variable {x : List Char} {form : Form}

theorem Carries.components_eq (h : Carries x form) : form.components = [x] := by
  cases h <;> rfl

theorem Carries.assemble_eq (h : Carries x form) (expr : List Char) (r : Reading) :
    Parser.assemble expr form [r] = form.carry r := by
  cases h <;> simp [Parser.assemble, carry, warningsBefore, warningsAfter, refuses]

end Form

namespace Parser

variable {p : Parser}

/-- The text of the whole expression has no part in the reading. -/
theorem read_of_carries {depth : Nat} (shallow : p.tooDeep depth = false) {text x : List Char}
    (trimmed : Trimmed text) {form : Form} (hform : Form.of p.overrides text = form)
    (carries : Form.Carries x form) : p.read depth text = form.carry (p.read (depth + 1) x) := by
  rw [read_of_form shallow trimmed hform, carries.components_eq]
  exact carries.assemble_eq text _

theorem answer_congr {text other : String} (h : p.read 0 text.toList = p.read 0 other.toList) :
    p.answer text = p.answer other := by
  rw [answer, answer, parse, parse, read_strip, read_strip, h]

/-- The answer to an expression, apart from its confidence. -/
theorem exists_answer_reading (sound : p.Sound) (text : String) :
    ∃ answer, p.answer text = .ok answer ∧ answer.schema = (p.read 0 text.toList).schema ∧
      answer.warnings = (p.read 0 text.toList).warnings := by
  obtain ⟨known, accepted⟩ := kind_and_refused_read sound 0 (strip text.toList)
  obtain ⟨tenths, hconfidence⟩ := exists_confidence known
  refine ⟨_, answer_of_confidence sound.limited accepted hconfidence, ?_, ?_⟩
  · rw [read_strip]
  · rw [read_strip]

end Parser

/-! ### Two spellings of a list -/

namespace Form

variable {overrides : Fields Schema} {element : List Char}

/-- Without the blanks around it, a text with brackets behind it begins where the text begins, but
may have blanks before the brackets. -/
theorem exists_strip_brackets (nonblank : strip element ≠ []) :
    ∃ x, strip (element ++ ['[', ']']) = x ++ ['[', ']'] ∧ strip x = strip element ∧
      ∀ d, StandsAtTop d .start x → StandsAtTop d .start element := by
  obtain ⟨front, back, htext, hfront, hback⟩ := exists_padding element
  have trimmed : Trimmed (strip element) := .of_strip_eq nonblank (strip_strip element)
  have brackets : Trimmed ['[', ']'] := .of_ends [] rfl rfl
  refine ⟨strip element ++ back, ?_, ?_, ?_⟩
  · have padded := (trimmed.append back brackets).strip_padded hfront (List.forall_mem_nil _)
    have arranged : element ++ ['[', ']'] =
        front ++ (strip element ++ back ++ ['[', ']']) ++ [] := by
      rw [List.append_nil, ← List.append_assoc, ← List.append_assoc, ← htext]
    rw [arranged]
    exact padded
  · exact trimmed.strip_padded (List.forall_mem_nil _) hback
  · rintro d ⟨before, after, heq, top⟩
    refine ⟨front ++ before, after, ?_, ?_⟩
    · rw [htext, List.append_assoc, heq, List.append_assoc]
    · rwa [Scan.after_append, Scan.start_after_of_blanks hfront]

theorem of_strip_brackets (nonblank : strip element ≠ [])
    (whole : ∀ d ∈ ['|', '&'], ¬ StandsAtTop d .start element)
    (new : String.ofList (strip (element ++ ['[', ']'])) ∉ Fields.names overrides) :
    ∃ x, strip x = strip element ∧
      Form.of overrides (strip (element ++ ['[', ']'])) = .list x false := by
  obtain ⟨x, hx, same, stands⟩ := exists_strip_brackets nonblank
  rw [hx] at new
  refine ⟨x, same, ?_⟩
  rw [hx]
  refine of_brackets (by rwa [same]) ?_ new
  intro d hd top
  exact whole d hd (stands d top)

theorem of_listGeneric {generic : Wrapper} (list : generic ∈ [Wrapper.array, .readonlyArray])
    (argument : Argument element)
    (new : String.ofList (application generic.name [element]) ∉ Fields.names overrides) :
    Form.of overrides (application generic.name [element]) = .list (strip element) false := by
  rw [of_applied generic.isIdentifier_name new (List.forall_mem_singleton.mpr argument)]
  rcases List.mem_pair.mp list with rfl | rfl
  · rfl
  · rfl

end Form

namespace Parser

variable {p : Parser} {element : String}

theorem toList_application (base element : String) :
    (base ++ "<" ++ element ++ ">").toList = application base [element.toList] := by
  simp [application, List.intercalate_singleton]

/-- Where the limit allows for it, either spelling of a list is read as its element is. -/
theorem read_brackets (argument : Argument element.toList)
    (whole : ∀ d ∈ ['|', '&'], ¬ StandsAtTop d .start element.toList)
    (new : cacheKey (element ++ "[]") ∉ Fields.names p.overrides) (shallow : p.tooDeep 0 = false) :
    p.read 0 (element ++ "[]").toList =
      (Form.list element.toList false).carry (p.read 1 element.toList) := by
  have spelled : (element ++ "[]").toList = element.toList ++ ['[', ']'] := String.toList_append
  rw [cacheKey, spelled] at new
  obtain ⟨x, same, form⟩ := Form.of_strip_brackets argument.nonblank whole new
  have nonempty : strip (element.toList ++ ['[', ']']) ≠ [] := by
    intro blank
    have bracket : '[' ∈ element.toList ++ ['[', ']'] :=
      List.mem_append_right _ List.mem_cons_self
    exact absurd (strip_eq_nil_iff.mp blank _ bracket) (by decide)
  have trimmed := Trimmed.of_strip_eq nonempty (strip_strip _)
  rw [spelled, ← read_strip, read_of_carries shallow trimmed form (.list false), ← read_strip p 1 x,
    same, read_strip]
  rfl

theorem read_listGeneric {generic : Wrapper} (list : generic ∈ [Wrapper.array, .readonlyArray])
    (argument : Argument element.toList)
    (new : generic.name ++ "<" ++ element ++ ">" ∉ Fields.names p.overrides)
    (shallow : p.tooDeep 0 = false) :
    p.read 0 (generic.name ++ "<" ++ element ++ ">").toList =
      (Form.list element.toList false).carry (p.read 1 element.toList) := by
  rw [← String.ofList_toList (s := generic.name ++ "<" ++ element ++ ">"), toList_application]
    at new
  have form := Form.of_listGeneric list argument new
  have trimmed : Trimmed (application generic.name [element.toList]) :=
    trimmed_application generic.isIdentifier_name
  rw [toList_application, read_of_carries shallow trimmed form (.list false), read_strip]
  rfl

/-- Brackets behind a text and the generics of lists around it are answered alike, whatever closed
text it is that nothing cuts: with the list of what the text is read as, and with the warnings about
that. -/
theorem list_spellings_agree (nonblank : strip element.toList ≠ [])
    (enclosable : Enclosable element.toList)
    (whole : ∀ d ∈ [',', '|', '&'], ¬ StandsAtTop d .start element.toList)
    (new : cacheKey (element ++ "[]") ∉ Fields.names p.overrides) :
    (∀ generic ∈ [Wrapper.array, .readonlyArray],
      generic.name ++ "<" ++ element ++ ">" ∉ Fields.names p.overrides →
        p.answer (generic.name ++ "<" ++ element ++ ">") = p.answer (element ++ "[]")) ∧
    (p.Sound → ∃ answer, p.answer (element ++ "[]") = .ok answer ∧
      (p.tooDeep 0 = false →
        answer.schema = .array (some (p.read 1 element.toList).schema) {} ∧
          answer.warnings = (p.read 1 element.toList).warnings)) := by
  have argument : Argument element.toList := ⟨nonblank, enclosable, whole _ List.mem_cons_self⟩
  have undivided : ∀ d ∈ ['|', '&'], ¬ StandsAtTop d .start element.toList := by
    intro d hd
    exact whole d (List.mem_cons_of_mem _ hd)
  constructor
  · intro generic list newGeneric
    refine answer_congr ?_
    cases deep : p.tooDeep 0 with
    | true => rw [read_eq, read_eq, deep, if_pos rfl, if_pos rfl]
    | false =>
      rw [read_listGeneric list argument newGeneric deep, read_brackets argument undivided new deep]
  · intro sound
    obtain ⟨answer, hanswer, schema, warnings⟩ := exists_answer_reading sound (element ++ "[]")
    refine ⟨answer, hanswer, fun shallow => ?_⟩
    rw [read_brackets argument undivided new shallow] at schema warnings
    exact ⟨schema, warnings⟩

theorem not_standsAtTop_of_hasTop {text : List Char} (nonblank : strip text ≠ [])
    (comma : hasTop [','] text = false) (bar : hasTop ['|'] text = false)
    (ampersand : hasTop ['&'] text = false) :
    ∀ d ∈ [',', '|', '&'], ¬ StandsAtTop d .start text := by
  simp only [List.forall_mem_cons, List.not_mem_nil, false_imp_iff, implies_true, and_true]
  rw [← hasTop_iff rfl rfl nonblank, ← hasTop_iff rfl rfl nonblank, ← hasTop_iff rfl rfl nonblank,
    comma, bar, ampersand]
  exact ⟨Bool.false_ne_true, Bool.false_ne_true, Bool.false_ne_true⟩

/-- Of a pair with a bracket in quotes and a mark behind it, neither is anything that is recognised;
`Id` is an override, but not where it stands in the pair. -/
theorem list_spellings_agree_pair :
    (∀ generic ∈ [Wrapper.array, .readonlyArray],
      (knowingId (.int 10)).answer (generic.name ++ "<" ++ " Pair<'>', Id>? " ++ ">") =
        (knowingId (.int 10)).answer (" Pair<'>', Id>? " ++ "[]")) ∧
      ∃ answer, (knowingId (.int 10)).answer (" Pair<'>', Id>? " ++ "[]") = .ok answer := by
  have nonblank : strip " Pair<'>', Id>? ".toList ≠ [] := by decide
  have whole := not_standsAtTop_of_hasTop nonblank (by decide +kernel) (by decide +kernel)
    (by decide +kernel)
  have new : cacheKey (" Pair<'>', Id>? " ++ "[]") ∉
      Fields.names (knowingId (.int 10)).overrides := by decide
  have sound : (knowingId (.int 10)).Sound := ⟨rfl, List.forall_mem_singleton.mpr Kind.noConfusion⟩
  obtain ⟨agree, answered⟩ := list_spellings_agree nonblank (by decide) whole new
  obtain ⟨answer, hanswer, -⟩ := answered sound
  refine ⟨fun generic list => agree generic list ?_, answer, hanswer⟩
  rcases List.mem_pair.mp list with rfl | rfl
  · decide
  · decide

/-- A parser that knows one text as an integer. -/
def knowingInteger (text : String) : Parser :=
  ⟨[(text, .number { integer := .bool true })], .int 10⟩

/-- The stripped spelling is an override, and is found with blanks around it; and a text with one
generic around it is an override, which the other generic and the brackets do not find. -/
theorem list_spellings_differ :
    (strip " A".toList ≠ [] ∧ Enclosable " A".toList ∧
      (∀ d ∈ [',', '|', '&'], ¬ StandsAtTop d .start " A".toList) ∧
      " A[]" ∉ Fields.names (knowingInteger "A[]").overrides ∧
      "Array< A>" ∉ Fields.names (knowingInteger "A[]").overrides ∧
      (knowingInteger "A[]").answer " A[]" ≠ (knowingInteger "A[]").answer "Array< A>") ∧
    strip "A".toList ≠ [] ∧ Enclosable "A".toList ∧
      (∀ d ∈ [',', '|', '&'], ¬ StandsAtTop d .start "A".toList) ∧
      "A[]" ∉ Fields.names (knowingInteger "ReadonlyArray<A>").overrides ∧
      "Array<A>" ∉ Fields.names (knowingInteger "ReadonlyArray<A>").overrides ∧
      (knowingInteger "ReadonlyArray<A>").answer "A[]" ≠
        (knowingInteger "ReadonlyArray<A>").answer "ReadonlyArray<A>" := by
  have integers : ∀ r : Except Fault Answer, r.toOption.map (·.schema.kind) = some .integer →
      ∀ r', r'.toOption.map (·.schema.kind) = some .array → r' ≠ r := by
    rintro r integer r' array rfl
    rw [integer] at array
    cases array
  constructor
  · have nonblank : strip " A".toList ≠ [] := by decide
    exact ⟨nonblank, by decide,
      not_standsAtTop_of_hasTop nonblank (by decide +kernel) (by decide +kernel)
        (by decide +kernel), by decide, by decide,
      (integers _ (by decide +kernel) _ (by decide +kernel)).symm⟩
  · have nonblank : strip "A".toList ≠ [] := by decide
    exact ⟨nonblank, by decide,
      not_standsAtTop_of_hasTop nonblank (by decide +kernel) (by decide +kernel)
        (by decide +kernel), by decide, by decide,
      integers _ (by decide +kernel) _ (by decide +kernel)⟩

end Parser

/-! ### Surplus arguments -/

/-- How many arguments a generic of the grammar has a use for. -/
inductive Takes : String → Nat → Prop
  | one (generic : Wrapper) : Takes generic.name 1
  | two (generic : Dictionary) : Takes generic.name 2

theorem Takes.isIdentifier {base : String} {n : Nat} (takes : Takes base n) :
    isIdentifier base.toList = true := by
  cases takes with
  | one generic => exact generic.isIdentifier_name
  | two generic => exact generic.isIdentifier_name

/-- The form of a generic carries the last argument that it has a use for. -/
theorem Form.carries_of_takes {base : String} {front : List (List Char)}
    (takes : Takes base (front.length + 1)) (last : List Char) :
    ∃ form, Form.Carries (strip last) form ∧ ∀ surplus,
      (∀ x ∈ front ++ last :: surplus, Argument x) →
        Form.of [] (application base (front ++ last :: surplus)) = form := by
  generalize hn : front.length + 1 = n at takes
  cases takes with
  | one generic =>
    obtain rfl : front = [] := List.length_eq_zero_iff.mp (by omega)
    refine ⟨ofApplication generic.name.toList (strip last) [], ?_, fun surplus h => ?_⟩
    · cases generic with
      | promise | awaited | response => exact .inner
      | array | readonlyArray => exact .list false
      | set | readonlySet => exact .list true
    · rw [List.nil_append, of_applied generic.isIdentifier_name List.not_mem_nil h]
      cases generic <;> rfl
  | two generic =>
    obtain ⟨key, rfl⟩ : ∃ key, front = [key] := List.length_eq_one_iff.mp (by omega)
    refine ⟨.dictionary (strip last), .dictionary, fun surplus h => ?_⟩
    rw [List.cons_append, List.nil_append] at h ⊢
    rw [of_applied generic.isIdentifier_name List.not_mem_nil h]
    cases generic <;> rfl

namespace Parser

variable {p : Parser}

/-- A generic of the grammar with more arguments than it has a use for is answered as without them,
and the only warnings are those about the last argument that it takes: none says that arguments have
been dropped. -/
theorem answer_of_surplus (fresh : p.overrides = []) {limit : Int}
    (limited : p.maxDepth.integer? = some limit) (deep : 0 ≤ limit) {base : String}
    {front : List (List Char)} {last : List Char} {surplus : List (List Char)}
    (takes : Takes base (front.length + 1)) (h : ∀ x ∈ front ++ last :: surplus, Argument x) :
    ∃ answer, p.answer (String.ofList (application base (front ++ last :: surplus))) = .ok answer ∧
      p.answer (String.ofList (application base (front ++ [last]))) = .ok answer ∧
      answer.warnings = (p.read 1 last).warnings := by
  have shallow : p.tooDeep 0 = false := by
    rw [tooDeep_eq limited]
    exact decide_eq_false (by omega)
  have sound : p.Sound := .of_fresh fresh (number?_of_integer_limit limited)
  obtain ⟨form, carries, forms⟩ := Form.carries_of_takes takes last
  rw [← fresh] at forms
  have read : ∀ more, (∀ x ∈ front ++ last :: more, Argument x) →
      p.read 0 (String.ofList (application base (front ++ last :: more))).toList =
        form.carry (p.read 1 last) := by
    intro more hmore
    rw [String.toList_ofList,
      read_of_carries shallow (trimmed_application takes.isIdentifier) (forms more hmore) carries,
      read_strip]
  have taken : ∀ x ∈ front ++ [last], Argument x := by
    intro x hx
    refine h x ?_
    rw [List.mem_append, List.mem_singleton] at hx
    rw [List.mem_append, List.mem_cons]
    exact hx.imp_right .inl
  obtain ⟨answer, hanswer, -, warnings⟩ := exists_answer_reading sound
    (String.ofList (application base (front ++ last :: surplus)))
  refine ⟨answer, hanswer, ?_, ?_⟩
  · rw [← hanswer]
    exact answer_congr ((read [] taken).trans (read surplus h).symm)
  · rw [warnings, read surplus h]
    rfl

/-- A set of a literal with a bracket in it is all that counts for the map. -/
theorem answer_of_surplus_map :
    Takes "Map" 2 ∧ (∀ x ∈ ["string".toList, " Set<'>'>".toList, "A | B".toList], Argument x) ∧
      ∃ answer,
        (⟨[], .int 10⟩ : Parser).answer "Map<string,  Set<'>'>, A | B>" = .ok answer ∧
          (⟨[], .int 10⟩ : Parser).answer "Map<string,  Set<'>'>>" = .ok answer := by
  have arguments : ∀ x ∈ ["string".toList] ++ " Set<'>'>".toList :: ["A | B".toList],
      Argument x := by decide +kernel
  have takes : Takes "Map" (["string".toList].length + 1) := .two .map
  obtain ⟨answer, surplus, taken, -⟩ :=
    answer_of_surplus (p := ⟨[], .int 10⟩) rfl rfl (by decide) takes arguments
  exact ⟨takes, arguments, answer, surplus, taken⟩

theorem exists_of_quiet {r : Except Fault Answer}
    (h : r.toOption.map (·.warnings.length) = some 0) :
    ∃ answer, r = .ok answer ∧ answer.warnings = [] := by
  cases r with
  | error fault => cases h
  | ok answer => exact ⟨answer, rfl, List.length_eq_zero_iff.mp (Option.some.inj h)⟩

/-- A second argument of a generic of one, and a third of a generic of two, go unreported. -/
theorem surplus_unreported :
    (Takes "Promise" 1 ∧ (∀ x ∈ ["A".toList, "B".toList], Argument x) ∧
      ∃ answer, (⟨[], .int 10⟩ : Parser).answer "Promise<A, B>" = .ok answer ∧
        answer.warnings = []) ∧
    Takes "Record" 2 ∧ (∀ x ∈ ["string".toList, "A".toList, "B".toList], Argument x) ∧
      ∃ answer, (⟨[], .int 10⟩ : Parser).answer "Record<string, A, B>" = .ok answer ∧
        answer.warnings = [] :=
  ⟨⟨.one .promise, by decide +kernel, exists_of_quiet (by decide +kernel)⟩,
    .two .record, by decide +kernel, exists_of_quiet (by decide +kernel)⟩

end Parser

end Schemata

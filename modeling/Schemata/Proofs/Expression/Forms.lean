import Schemata.Proofs.Expression.Arguments

/-!
# The forms of printed expressions

The tests for the form of an expression overlap: a list may begin with the bracket of a tuple, a
union may begin and end with parentheses, a literal may hold any delimiter. For the printed
expressions, the test that holds first is the one that is meant.

## Main results

* `Form.splitTop_join`: a joined text has its members as parts.
* `Form.of_applied`: a generic has its arguments as parts.
* `Form.of_enclose`: parentheses stand for what is in them.
-/

namespace Schemata

open TypeExpr

variable {expr rest : List Char}

/-! ### Single tests -/

section Tests

/-- A delimiter between two blanks, as in unions and intersections. -/
theorem Separates.spaced {d : Char} (structural : isStructural d = false)
    (blank : isBlank d = false) : Separates d [' '] [' '] :=
  ⟨structural, blank, List.forall_mem_singleton.mpr rfl, List.forall_mem_singleton.mpr rfl⟩

/-- A delimiter before a blank, as in lists. -/
theorem Separates.listed {d : Char} (structural : isStructural d = false)
    (blank : isBlank d = false) : Separates d [] [' '] :=
  ⟨structural, blank, List.forall_mem_nil _, List.forall_mem_singleton.mpr rfl⟩

/-- A text that is not divided is cut neither as a union nor as an intersection. -/
theorem Part.hasTop_of_undivided (h : Part Undivided expr) :
    hasTop ['|'] expr = false ∧ hasTop ['&'] expr = false :=
  ⟨(h.mono fun _ hc => hc.2.1).hasTop_eq_false, (h.mono fun _ hc => hc.2.2).hasTop_eq_false⟩

/-- A text that does not begin with a bracket is not wrapped. -/
theorem unwrapped_of_head {d : Char} (hd : isOpening d = false) (rest : List Char) :
    isWrapped '(' ')' (d :: rest) = false ∧ isWrapped '{' '}' (d :: rest) = false ∧
      isWrapped '[' ']' (d :: rest) = false := by
  refine ⟨isWrapped_of_head ?_, isWrapped_of_head ?_, isWrapped_of_head ?_⟩
  all_goals
    rintro rfl
    exact Bool.false_ne_true (hd.symm.trans rfl)

theorem element?_of_last (h : expr.getLast? ≠ some ']') : Form.element? expr = none := by
  have other : "[]".toList.isSuffixOf expr = false := by
    rw [Bool.eq_false_iff]
    intro hsuffix
    obtain ⟨front, rfl⟩ := List.isSuffixOf_iff_suffix.mp hsuffix
    exact h List.getLast?_append
  rw [Form.element?, other, Bool.false_and, if_neg Bool.false_ne_true]

theorem element?_brackets {element : List Char} (nonblank : strip element ≠ []) :
    Form.element? (element ++ ['[', ']']) = some element := by
  have suffix : "[]".toList.isSuffixOf (element ++ ['[', ']']) = true :=
    List.isSuffixOf_iff_suffix.mpr (List.suffix_append _ _)
  have front : (element ++ ['[', ']']).dropLast.dropLast = element := by
    simp
  rw [Form.element?, suffix, front, List.isEmpty_eq_false_iff.mpr nonblank]
  rfl

/-- Brackets behind a text do not bring a delimiter to its top level. -/
theorem hasTop_brackets {d : Char} (hd : isStructural d = false) (visible : isBlank d = false)
    (outside : d ∉ ['[', ']']) {element : List Char} (whole : ¬ StandsAtTop d .start element) :
    hasTop [d] (element ++ ['[', ']']) = false := by
  have bracket : '[' ∈ element ++ ['[', ']'] := List.mem_append_right _ List.mem_cons_self
  have behind : strip (element ++ ['[', ']']) ≠ [] := by
    intro blank
    exact absurd (strip_eq_nil_iff.mp blank _ bracket) (by decide)
  rw [Bool.eq_false_iff, Ne, hasTop_iff hd visible behind]
  rintro ⟨before, after, heq, top⟩
  obtain ⟨rest, rfl⟩ := exists_before_of_notMem heq outside
  exact whole ⟨before, rest, rfl, top⟩

/-- The brackets of a tuple are not those of a list. -/
theorem element?_bracketed {inner : List Char} (hne : inner ≠ [])
    (balanced : Balanced (fun _ => True) inner) :
    Form.element? ('[' :: (inner ++ [']'])) = none := by
  have other : "[]".toList.isSuffixOf ('[' :: (inner ++ [']'])) = false := by
    rw [Bool.eq_false_iff]
    intro h
    obtain ⟨front, hfront⟩ := List.isSuffixOf_iff_suffix.mp h
    have last : (front ++ ['[']).getLast? = ('[' :: inner).getLast? := by
      have shorter := congrArg List.dropLast hfront
      rw [← List.cons_append, List.dropLast_concat] at shorter
      rw [← shorter]
      simp
    rw [List.getLast?_concat, List.getLast?_cons_of_ne_nil hne] at last
    exact Bool.false_ne_true ((balanced.isOpening_getLast last.symm).symm.trans rfl)
  rw [Form.element?, other, Bool.false_and, if_neg Bool.false_ne_true]

theorem isLiteral_of_head {c : Char} (hc : isQuote c = false) : isLiteral (c :: rest) = false := by
  simp only [isQuote, Bool.or_eq_false_iff] at hc
  rw [isLiteral, hc.1.1, hc.1.2, Bool.or_false, Bool.false_and]

theorem isLiteral_of_last {front : List Char} {c : Char} (hc : isQuote c = false) :
    isLiteral (front ++ [c]) = false := by
  simp only [isQuote, Bool.or_eq_false_iff] at hc
  cases front with
  | nil => rw [List.nil_append, isLiteral, hc.1.1, hc.1.2]; rfl
  | cons d front =>
    rw [List.cons_append, isLiteral, List.getLast?_concat, Bool.and_eq_false_iff]
    by_cases hd : d = c
    · rw [hd, hc.1.1, hc.1.2]
      exact .inl rfl
    · exact .inr (beq_eq_false_iff_ne.mpr fun h => hd (Option.some.inj h).symm)

theorem isLiteral_of_isIdentifier {text : List Char} (identifier : isIdentifier text = true) :
    isLiteral text = false := by
  obtain ⟨c, rest, rfl⟩ := List.exists_cons_of_ne_nil (Form.ne_nil_of_isIdentifier identifier)
  have plain := plain_of_isIdentifier identifier c List.mem_cons_self
  exact isLiteral_of_head (isStructural_eq_false_iff.mp plain.1).2.2

theorem isLiteral_quoted {value : List Char} : isLiteral ('\'' :: (value ++ ['\''])) = true := by
  rw [isLiteral, List.getLast?_concat]
  rfl

end Tests

/-! ### Forms -/

namespace Form

/-- A text that is no name with a schema of its own. -/
theorem of_unnamed {overrides : Fields Schema} (hne : expr ≠ [])
    (new : String.ofList expr ∉ Fields.names overrides)
    (free : String.ofList expr ∉ Fields.names primitives) :
    Form.of overrides expr = ofText expr := by
  rw [Form.of, List.isEmpty_eq_false_iff.mpr hne, if_neg Bool.false_ne_true,
    Fields.lookup_eq_none_iff.mpr new, Fields.lookup_eq_none_iff.mpr free]
  rfl

theorem of_eq_ofText {c : Char} (hc : c ∈ expr) (other : c.isAlpha = false) :
    Form.of [] expr = ofText expr :=
  of_unnamed (List.ne_nil_of_mem hc) List.not_mem_nil
    (Fields.lookup_eq_none_iff.mp (lookup_primitives_eq_none hc other))

/-- An override is looked at before everything else. -/
theorem of_override {overrides : Fields Schema} {s : Schema} (hne : expr ≠ [])
    (override : overrides.lookup (String.ofList expr) = some s) :
    Form.of overrides expr = .known s := by
  rw [Form.of, List.isEmpty_eq_false_iff.mpr hne, if_neg Bool.false_ne_true, override]
  rfl

theorem of_primitive {name : String} (known : name ∈ Fields.names primitives) :
    Form.of [] name.toList = .known ((primitives.lookup name).getD .empty) := by
  have nonempty : name.toList.isEmpty = false :=
    List.isEmpty_eq_false_iff.mpr (isAlpha_of_mem_primitives known).1
  rw [Form.of, nonempty, if_neg Bool.false_ne_true, String.ofList_toList]
  cases h : primitives.lookup name with
  | none => exact absurd known (Fields.lookup_eq_none_iff.mp h)
  | some s => rfl

theorem of_enclose {inner : List Char} {ok : Char → Prop} (balanced : Balanced ok inner) :
    Form.of [] ('(' :: (inner ++ [')'])) = .inner inner := by
  rw [of_eq_ofText List.mem_cons_self rfl, ofText, if_pos (isWrapped_bracketed rfl rfl balanced),
    interior_bracketed]

/-! ### Names and literals -/

theorem application?_of_head {c : Char} (blank : isBlank c = false) (bracket : c ≠ '<')
    (start : isNameStart c = false) : application? (c :: rest) = none := by
  obtain ⟨more, hmore⟩ := exists_strip_cons blank (rest.takeWhile (· ≠ '<'))
  have anonymous : isIdentifier (strip ((c :: rest).takeWhile (· ≠ '<'))) = false := by
    have taken : (c :: rest).takeWhile (· ≠ '<') = c :: rest.takeWhile (· ≠ '<') :=
      List.takeWhile_cons_of_pos (decide_eq_true bracket)
    rw [taken, hmore, isIdentifier, isIdentifierFrom, if_pos rfl, start, Bool.false_and]
  rw [application?, anonymous, Bool.false_and]
  rfl

/-- A dotted name ends where the first bracket opens. -/
theorem notBracket_of_isIdentifier (identifier : isIdentifier expr = true) :
    ∀ c ∈ expr, decide (c ≠ '<') = true := by
  intro c hc
  refine decide_eq_true ?_
  rintro rfl
  exact absurd (plain_of_isIdentifier identifier _ hc).1 (by decide)

theorem application?_of_isIdentifier (identifier : isIdentifier expr = true) :
    application? expr = none := by
  have dropped : (expr ++ []).dropWhile (· ≠ '<') = [] :=
    List.dropWhile_append_of_pos (notBracket_of_isIdentifier identifier)
  rw [List.append_nil] at dropped
  have unwrapped : isWrapped '<' '>' [] = false := rfl
  rw [application?, dropped, unwrapped, Bool.and_false]
  rfl

theorem ofText_reference (identifier : isIdentifier expr = true) :
    ofText expr = .reference expr := by
  obtain ⟨union, intersection⟩ := (part_of_isIdentifier identifier).hasTop_of_undivided
  have element : element? expr = none := by
    refine element?_of_last fun last => ?_
    exact absurd (plain_of_isIdentifier identifier _ (List.mem_of_getLast? last)).1 (by decide)
  have application := application?_of_isIdentifier identifier
  obtain ⟨c, rest, rfl⟩ := List.exists_cons_of_ne_nil (ne_nil_of_isIdentifier identifier)
  obtain ⟨opening, -, quote⟩ := isStructural_eq_false_iff.mp
    (plain_of_isIdentifier identifier c List.mem_cons_self).1
  obtain ⟨paren, brace, bracket⟩ := unwrapped_of_head opening rest
  rw [ofText]
  simp only [paren, union, intersection, element, brace, bracket, application,
    isLiteral_of_head quote, identifier, Bool.false_eq_true, if_false, if_true]

theorem of_reference {overrides : Fields Schema} {name : String}
    (identifier : isIdentifier name.toList = true) (new : name ∉ Fields.names overrides)
    (free : name ∉ Fields.names primitives) :
    Form.of overrides name.toList = .reference name.toList := by
  rw [← String.ofList_toList (s := name)] at new free
  rw [of_unnamed (ne_nil_of_isIdentifier identifier) new free, ofText_reference identifier]

theorem of_literal {value : List Char} (unquoted : '\'' ∉ value) :
    Form.of [] ('\'' :: (value ++ ['\''])) = .literals [value] := by
  have part : Part Undivided ('\'' :: (value ++ ['\''])) := .quoted rfl unquoted
  obtain ⟨union, intersection⟩ := part.hasTop_of_undivided
  have element : element? ('\'' :: (value ++ ['\''])) = none := by
    refine element?_of_last ?_
    rw [← List.cons_append, List.getLast?_concat]
    decide
  have application : application? ('\'' :: (value ++ ['\''])) = none :=
    application?_of_head rfl (by decide) rfl
  obtain ⟨paren, brace, bracket⟩ := unwrapped_of_head (d := '\'') rfl (value ++ ['\''])
  rw [of_eq_ofText List.mem_cons_self rfl, ofText]
  simp only [paren, union, intersection, element, brace, bracket, application, isLiteral_quoted,
    Bool.false_eq_true, if_false, if_true, interior_bracketed]

/-! ### Lists, tuples and objects -/

/-- Brackets behind a text that is neither a union nor an intersection make a list of it, as long as
no override has the text of the whole. -/
theorem of_brackets {overrides : Fields Schema} {element : List Char}
    (nonblank : strip element ≠ []) (whole : ∀ d ∈ ['|', '&'], ¬ StandsAtTop d .start element)
    (new : String.ofList (element ++ ['[', ']']) ∉ Fields.names overrides) :
    Form.of overrides (element ++ ['[', ']']) = .list element false := by
  have bracket : ']' ∈ element ++ ['[', ']'] := List.mem_append_right _ (by decide)
  have free := Fields.lookup_eq_none_iff.mp (lookup_primitives_eq_none bracket rfl)
  have unwrapped : isWrapped '(' ')' (element ++ ['[', ']']) = false := by
    have ends : element ++ ['[', ']'] = (element ++ ['[']) ++ [']'] := by
      rw [List.append_assoc]
      rfl
    rw [ends]
    exact isWrapped_of_last (by decide)
  have union := hasTop_brackets (d := '|') rfl rfl (by decide) (whole _ (by decide))
  have intersection := hasTop_brackets (d := '&') rfl rfl (by decide) (whole _ (by decide))
  rw [of_unnamed (List.ne_nil_of_mem bracket) new free, ofText]
  simp only [unwrapped, union, intersection, element?_brackets nonblank, Bool.false_eq_true,
    if_false]

theorem of_list {element : List Char} (part : Part Undivided element) :
    Form.of [] (element ++ ['[', ']']) = .list element false := by
  refine of_brackets ?_ ?_ List.not_mem_nil
  · rw [part.trimmed.strip_eq]
    exact part.trimmed.ne_nil
  · simp only [List.forall_mem_cons, List.not_mem_nil, false_imp_iff, implies_true, and_true]
    exact ⟨(part.mono fun _ hc => hc.2.1).not_standsAtTop rfl,
      (part.mono fun _ hc => hc.2.2).not_standsAtTop rfl⟩

/-- The texts of a list are found between its commas. -/
theorem splitTop_list {all : List (List Char)} (hne : all ≠ []) (h : ∀ x ∈ all, Part Unlisted x) :
    splitTop [','] ([',', ' '].intercalate all) = all :=
  splitTop_intercalate (.listed (d := ',') rfl rfl) hne fun x hx => (h x hx).mono fun _ hc => hc.1

theorem balanced_list {all : List (List Char)} (h : ∀ x ∈ all, Part Unlisted x) :
    Balanced (fun _ => True) ([',', ' '].intercalate all) :=
  .intercalate (.of_all rfl) fun x hx => (h x hx).balanced.any

theorem of_tuple {elements : List (List Char)} (hne : elements ≠ [])
    (h : ∀ x ∈ elements, Part Unlisted x) :
    Form.of [] ('[' :: ([',', ' '].intercalate elements ++ [']'])) = .tuple elements := by
  have inside := balanced_list h
  have nonempty := (Trimmed.intercalate [',', ' '] hne fun x hx => (h x hx).trimmed).ne_nil
  have whole : Part Undivided ('[' :: ([',', ' '].intercalate elements ++ [']'])) :=
    .bracketed rfl rfl inside
  obtain ⟨union, intersection⟩ := whole.hasTop_of_undivided
  rw [of_eq_ofText List.mem_cons_self rfl, ofText]
  simp only [isWrapped_of_head (show '[' ≠ '(' by decide),
    isWrapped_of_head (show '[' ≠ '{' by decide), union, intersection,
    element?_bracketed nonempty inside, isWrapped_bracketed (o := '[') (c := ']') rfl rfl inside,
    interior_bracketed, splitTop_list hne h, Bool.false_eq_true, if_false, if_true]

/-- The members of an object literal are found between its semicolons; none of them is a list. -/
theorem membersOf_braces {members : List (List Char)} (hne : members ≠ [])
    (h : ∀ x ∈ members, Part Unlisted x) :
    membersOf ('{' :: ([' '] ++ [';', ' '].intercalate members ++ [' '] ++ ['}'])) =
      members.filterMap Member.read? := by
  have cut : splitTop [';'] ([' '] ++ [';', ' '].intercalate members ++ [' ']) = members :=
    splitTop_padded (.listed (d := ';') rfl rfl) (List.forall_mem_singleton.mpr rfl)
      (List.forall_mem_singleton.mpr rfl) hne fun x hx => (h x hx).mono fun _ hc => hc.2
  have single : ∀ x ∈ members, splitTop [','] x = [x] := fun x hx =>
    ((h x hx).mono fun _ hc => hc.1).splitTop_eq_singleton
  rw [membersOf, interior_bracketed, cut, List.flatMap_congr single, List.flatMap_singleton']

theorem of_object {members : List (List Char)} (hne : members ≠ [])
    (h : ∀ x ∈ members, Part Unlisted x) :
    Form.of [] ('{' :: ([' '] ++ [';', ' '].intercalate members ++ [' '] ++ ['}'])) =
      .object (members.filterMap Member.read?) := by
  have blank : Balanced (fun _ => True) [' '] := .of_all rfl
  have joined : Balanced (fun _ => True) ([';', ' '].intercalate members) :=
    .intercalate (.of_all rfl) fun x hx => (h x hx).balanced.any
  have inside := (blank.append joined).append blank
  have whole : Part Undivided
      ('{' :: ([' '] ++ [';', ' '].intercalate members ++ [' '] ++ ['}'])) :=
    .bracketed rfl rfl inside
  obtain ⟨union, intersection⟩ := whole.hasTop_of_undivided
  have element : element? ('{' :: ([' '] ++ [';', ' '].intercalate members ++ [' '] ++ ['}'])) =
      none := by
    refine element?_of_last ?_
    rw [← List.cons_append, List.getLast?_concat]
    decide
  rw [of_eq_ofText List.mem_cons_self rfl, ofText, membersOf_braces hne h]
  simp only [isWrapped_of_head (show '{' ≠ '(' by decide), union, intersection, element,
    isWrapped_bracketed (o := '{') (c := '}') rfl rfl inside, Bool.false_eq_true, if_false, if_true]

/-! ### Generics -/

theorem application?_applied {base : String} (identifier : isIdentifier base.toList = true)
    {first : List Char} {others : List (List Char)} (h : ∀ x ∈ first :: others, Argument x) :
    application? (application base (first :: others)) =
      some (base.toList, strip first, others.map strip) := by
  have names := notBracket_of_isIdentifier identifier
  rw [application?, application, List.takeWhile_append_of_pos names,
    List.dropWhile_append_of_pos names, List.takeWhile_cons_of_neg (by decide),
    List.dropWhile_cons_of_neg (by decide), List.append_nil,
    (part_of_isIdentifier identifier).trimmed.strip_eq, identifier, isWrapped_arguments h,
    interior_bracketed, splitTop_arguments h]
  rfl

/-- A generic has its arguments as parts, as long as no override has the text of the whole. -/
theorem of_applied {overrides : Fields Schema} {base : String}
    (identifier : isIdentifier base.toList = true) {first : List Char} {others : List (List Char)}
    (new : String.ofList (application base (first :: others)) ∉ Fields.names overrides)
    (h : ∀ x ∈ first :: others, Argument x) :
    Form.of overrides (application base (first :: others)) =
      ofApplication base.toList (strip first) (others.map strip) := by
  have union : hasTop ['|'] (application base (first :: others)) = false :=
    hasTop_applied identifier (by decide) h
  have intersection : hasTop ['&'] (application base (first :: others)) = false :=
    hasTop_applied identifier (by decide) h
  have element : element? (application base (first :: others)) = none := by
    refine element?_of_last ?_
    rw [application, ← List.cons_append, ← List.append_assoc, List.getLast?_concat]
    decide
  have bracket : '<' ∈ application base (first :: others) :=
    List.mem_append_right _ List.mem_cons_self
  obtain ⟨d, rest, hbase⟩ := List.exists_cons_of_ne_nil (ne_nil_of_isIdentifier identifier)
  have plain := plain_of_isIdentifier identifier d (by rw [hbase]; exact List.mem_cons_self)
  have begins : application base (first :: others) =
      d :: (rest ++ '<' :: ([',', ' '].intercalate (first :: others) ++ ['>'])) := by
    rw [application, hbase, List.cons_append]
  obtain ⟨paren, brace, square⟩ := begins ▸
    unwrapped_of_head (isStructural_eq_false_iff.mp plain.1).1 _
  have free := Fields.lookup_eq_none_iff.mp (lookup_primitives_eq_none bracket rfl)
  rw [of_unnamed (List.ne_nil_of_mem bracket) new free, ofText]
  simp only [paren, union, intersection, element, brace, square,
    application?_applied identifier h, Bool.false_eq_true, if_false]

/-- Arguments that are trimmed are found as they stand. -/
theorem of_application {base : String} (identifier : isIdentifier base.toList = true)
    {first : List Char} {others : List (List Char)}
    (h : ∀ x ∈ first :: others, Part Unlisted x) :
    Form.of [] (application base (first :: others)) =
      ofApplication base.toList first others := by
  have stripped : ∀ x ∈ first :: others, strip x = x := fun x hx => (h x hx).trimmed.strip_eq
  rw [List.forall_mem_cons] at stripped
  have same : others.map strip = others.map id := List.map_congr_left stripped.2
  rw [of_applied identifier List.not_mem_nil fun x hx => .of_part (h x hx) fun _ hc => hc.1,
    stripped.1, same, List.map_id]

/-! ### Unions and intersections -/

/-- The joined texts are found between the delimiters, and parentheses around the first of them or
the last one do not count as wrapping the whole. -/
theorem splitTop_join {d : Char} (hd : isStructural d = false) (blank : isBlank d = false)
    {all : List (List Char)} (two : 2 ≤ all.length) (h : ∀ x ∈ all, Part (· ≠ d) x) :
    splitTop [d] ([' ', d, ' '].intercalate all) = all ∧
      hasTop [d] ([' ', d, ' '].intercalate all) = true ∧
      isWrapped '(' ')' ([' ', d, ' '].intercalate all) = false ∧
      d ∈ [' ', d, ' '].intercalate all := by
  obtain ⟨x, y, rest, rfl⟩ : ∃ x y rest, all = x :: y :: rest := by
    match all, two with
    | x :: y :: rest, _ => exact ⟨x, y, rest, rfl⟩
  have cut : splitTop [d] ([' ', d, ' '].intercalate (x :: y :: rest)) = x :: y :: rest :=
    splitTop_intercalate (.spaced hd blank) (List.cons_ne_nil _ _) h
  refine ⟨cut, hasTop_eq_true (by rw [cut]; exact two), ?_, ?_⟩
  · obtain ⟨balanced, trimmed⟩ := h x List.mem_cons_self
    rw [List.intercalate_cons_cons, List.append_assoc]
    exact isWrapped_append rfl balanced trimmed.ne_nil (List.cons_ne_nil _ _)
  · rw [List.intercalate_cons_cons, List.append_assoc]
    exact List.mem_append_right _ (.tail _ List.mem_cons_self)

theorem of_union {members : List (List Char)} (two : 2 ≤ members.length)
    (h : ∀ x ∈ members, Part Undivided x) :
    Form.of [] ([' ', '|', ' '].intercalate members) = ofUnion members := by
  obtain ⟨cut, union, unwrapped, bar⟩ := splitTop_join (d := '|') rfl rfl two fun x hx =>
    (h x hx).mono fun _ hc => hc.2.1
  rw [of_eq_ofText bar rfl, ofText, unwrapped, union, cut]
  rfl

theorem of_intersection {parts : List (List Char)} (two : 2 ≤ parts.length)
    (h : ∀ x ∈ parts, Part Undivided x) :
    Form.of [] ([' ', '&', ' '].intercalate parts) = .allOf parts := by
  obtain ⟨cut, intersection, unwrapped, ampersand⟩ := splitTop_join (d := '&') rfl rfl two
    fun x hx => (h x hx).mono fun _ hc => hc.2.2
  have whole : Part (· ≠ '|') ([' ', '&', ' '].intercalate parts) := by
    refine .intercalate (.of_all rfl) ?_ fun x hx => (h x hx).mono fun _ hc => hc.2.1
    rintro rfl
    exact absurd two (by decide)
  rw [of_eq_ofText ampersand rfl, ofText, unwrapped, whole.hasTop_eq_false, intersection, cut]
  rfl

end Form

/-! ### Members of a union -/

namespace TypeExpr

/-- No expression stands inside the expression. -/
def isAtom : TypeExpr → Bool
  | .primitive _ | .named _ | .literal _ => true
  | _ => false

/-- What is put together of other expressions ends with a bracket. -/
theorem exists_closing_printMember {t : TypeExpr} (h : t.isAtom = false) :
    ∃ front c, t.printMember = front ++ [c] ∧ isClosing c = true := by
  cases t with
  | primitive | named | literal => cases h
  | array element =>
    exact ⟨enclose element.isJoined element.print ++ ['['], ']',
      by rw [List.append_assoc]; rfl, rfl⟩
  | union members => exact ⟨'(' :: (TypeExpr.union members).print, ')', rfl, rfl⟩
  | intersection parts => exact ⟨'(' :: (TypeExpr.intersection parts).print, ')', rfl, rfl⟩
  | object fields => exact ⟨'{' :: _, '}', rfl, rfl⟩
  | tuple elements => exact ⟨'[' :: _, ']', rfl, rfl⟩
  | wrapped generic argument =>
    exact ⟨generic.name.toList ++ '<' :: [',', ' '].intercalate [argument.print], '>',
      by rw [List.append_assoc]; rfl, rfl⟩
  | dictionary generic key value =>
    exact ⟨generic.name.toList ++ '<' :: [',', ' '].intercalate [key.print, value.print], '>',
      by rw [List.append_assoc]; rfl, rfl⟩

end TypeExpr

/-- Among the members of a union, the literals are known by their quotes. -/
theorem isLiteral_printMember {t : TypeExpr} (h : Grammatical t) :
    isLiteral t.printMember = t.literal?.isSome := by
  cases atom : t.isAtom with
  | false =>
    obtain ⟨front, c, hprint, closing⟩ := exists_closing_printMember atom
    rw [hprint, isLiteral_of_last (isQuote_of_isClosing closing)]
    cases t with
    | literal => cases atom
    | _ => rfl
  | true =>
    cases h with
    | primitive known => exact isLiteral_of_isIdentifier (isIdentifier_of_mem_primitives known)
    | named identifier _ => exact isLiteral_of_isIdentifier identifier
    | literal _ => exact isLiteral_quoted
    | _ => cases atom

namespace Form

theorem isNullName_toList (name : String) :
    isNullName name.toList = (name == "null" || name == "undefined") := by
  have same : ∀ other : String, (name.toList == other.toList) = (name == other) := by
    intro other
    rw [Bool.eq_iff_iff, beq_iff_eq, beq_iff_eq, String.toList_inj]
  rw [isNullName, same, same]

theorem isNullName_of_free {name : String} (free : name ∉ Fields.names primitives) :
    isNullName name.toList = false := by
  rw [isNullName_toList, Bool.or_eq_false_iff, beq_eq_false_iff_ne, beq_eq_false_iff_ne]
  constructor
  all_goals
    rintro rfl
    exact free (by decide)

theorem isNullName_of_mem {text : List Char} {c : Char} (hc : c ∈ text)
    (other : c.isAlpha = false) : isNullName text = false := by
  have letters : (∀ c ∈ "null".toList, c.isAlpha = true) ∧
      ∀ c ∈ "undefined".toList, c.isAlpha = true :=
    ⟨List.all_eq_true.mp (by decide), List.all_eq_true.mp (by decide)⟩
  rw [isNullName, Bool.or_eq_false_iff, beq_eq_false_iff_ne, beq_eq_false_iff_ne]
  constructor
  · rintro rfl
    exact Bool.false_ne_true (other.symm.trans (letters.1 c hc))
  · rintro rfl
    exact Bool.false_ne_true (other.symm.trans (letters.2 c hc))

/-- Among the members of a union, those without a value are known by their names. -/
theorem isNullName_printMember {t : TypeExpr} (h : Grammatical t) :
    isNullName t.printMember = t.isNull := by
  cases atom : t.isAtom with
  | false =>
    obtain ⟨front, c, hprint, closing⟩ := exists_closing_printMember atom
    have bracket : c ∈ t.printMember := by
      rw [hprint]
      exact List.mem_append_right _ List.mem_cons_self
    rw [isNullName_of_mem bracket (isAlpha_of_isClosing closing)]
    cases t with
    | primitive => cases atom
    | _ => rfl
  | true =>
    cases h with
    | primitive known => exact isNullName_toList _
    | named _ free => exact isNullName_of_free free
    | literal _ => exact isNullName_of_mem (c := '\'') List.mem_cons_self rfl
    | _ => cases atom

end Form

end Schemata

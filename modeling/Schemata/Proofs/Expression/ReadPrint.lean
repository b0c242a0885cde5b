import Schemata.Proofs.Expression.Forms
import Schemata.Proofs.Json.Order

/-!
# Reading printed expressions

A parser without overrides reads a printed tree back: the schema of the text is the one that the
tree stands for. The limit of depth has to allow for the tree; the length of the text is enough,
since every expression inside another one is shorter.

## Main definitions

* `Parser.Reads`: a text is read as a schema, wherever the limit allows for its length.

## Main results

* `Parser.reads_of_form`: a text is read as its form says, if the texts in the form are read.
* `Parser.reads_print`: a printed tree is read as the schema of the tree.
* `answer_print`: and that is what a new session answers with.
-/

namespace Schemata

open TypeExpr

/-! ### Schemas of forms -/

namespace Form

theorem addMember_property {name : String} {optional : Bool} {type : List Char} {s : Schema}
    {properties : Fields Schema} {required : List String} {additional : Option Schema}
    (new : name ∉ Fields.names properties) (unlisted : name ∉ required) :
    addMember (properties, required, additional) (.property name optional type, s) =
      (properties ++ [(name, s)], if optional then required else required ++ [name],
        additional) := by
  have absent : required.contains name = false := by simpa using unlisted
  rw [addMember, Fields.insert_of_notMem new, absent, Bool.or_false]

/-- The schema of an object literal whose names are distinct has its members in their order. -/
theorem objectOf_distinct {fields : List (Key × TypeExpr)}
    (distinct : (fields.map (·.1.name)).Nodup) :
    objectOf (fields.map fun field =>
      (Member.property field.1.name field.1.optional field.2.print, field.2.denote)) =
      .object (denoteFields fields) ((fields.filter (!·.1.optional)).map (·.1.name)) none
        (.bool false) := by
  have added : ∀ (properties : Fields Schema) (required : List String),
      (∀ name ∈ fields.map (·.1.name), name ∉ Fields.names properties ∧ name ∉ required) →
      (fields.map fun field => (Member.property field.1.name field.1.optional field.2.print,
        field.2.denote)).foldl addMember (properties, required, none) =
        (properties ++ denoteFields fields,
          required ++ (fields.filter (!·.1.optional)).map (·.1.name), none) := by
    induction fields with
    | nil =>
      intro properties required _
      simp only [denoteFields, List.filter_nil, List.map_nil, List.foldl_nil, List.append_nil]
    | cons field rest ih =>
      obtain ⟨key, t⟩ := field
      rw [List.map_cons, List.nodup_cons] at distinct
      intro properties required fresh
      rw [List.map_cons, List.forall_mem_cons] at fresh
      obtain ⟨⟨new, unlisted⟩, others⟩ := fresh
      have apart : ∀ name ∈ rest.map (·.1.name), name ≠ key.name := fun name hn h =>
        distinct.1 (h ▸ hn)
      rw [List.map_cons, List.foldl_cons, addMember_property new unlisted,
        ih distinct.2 _ _ fun name hn => ⟨?_, ?_⟩]
      · rw [denoteFields, List.append_assoc, List.singleton_append]
        cases hopt : key.optional <;> simp [hopt]
      · simpa [Fields.names, apart name hn] using (others name hn).1
      · split
        · exact (others name hn).2
        · simpa [apart name hn] using (others name hn).2
  rw [objectOf, added [] [] fun name _ => ⟨List.not_mem_nil, List.not_mem_nil⟩]
  rfl

theorem ofApplication_wrapper (generic : Wrapper) (argument : List Char) :
    (ofApplication generic.name.toList argument []).components = [argument] ∧
      ∀ s, (ofApplication generic.name.toList argument []).schema [s] = generic.apply s := by
  cases generic <;> exact ⟨rfl, fun _ => rfl⟩

theorem ofApplication_dictionary (generic : Dictionary) (key value : List Char) :
    ofApplication generic.name.toList key [value] = .dictionary value := by
  cases generic <;> rfl

/-- The values of a union of literals are those of its members. -/
theorem map_interior_printMember {members : List TypeExpr}
    (h : members.all (fun t => t.literal?.isSome) = true) :
    (members.map printMember).map interior = (members.filterMap literal?).map String.toList := by
  induction members with
  | nil => rfl
  | cons t rest ih =>
    rw [List.all_cons, Bool.and_eq_true] at h
    cases t with
    | literal value =>
      have inside : interior (TypeExpr.literal value).printMember = value.toList :=
        interior_bracketed
      rw [List.map_cons, List.map_cons, inside, ih h.2]
      rfl
    | _ => exact absurd h.1 Bool.false_ne_true

theorem literalsOf_toList (values : List String) :
    literalsOf (values.map String.toList) =
      .string { enum := some (Json.distinct (values.map .str)) } := by
  have spelled : (values.map String.toList).map (fun v => Json.str (String.ofList v)) =
      values.map .str := by
    rw [List.map_map]
    exact List.map_congr_left fun v _ => congrArg Json.str String.ofList_toList
  rw [literalsOf, spelled]

theorem all_isLiteral_printMember {members : List TypeExpr}
    (inside : ∀ t ∈ members, Grammatical t) :
    (members.map printMember).all isLiteral = members.all fun t => t.literal?.isSome := by
  rw [List.all_map, Bool.eq_iff_iff, List.all_eq_true, List.all_eq_true]
  refine forall₂_congr fun t ht => ?_
  rw [Function.comp_apply, isLiteral_printMember (inside t ht)]

theorem ofUnion_literals {members : List TypeExpr} (inside : ∀ t ∈ members, Grammatical t)
    (hne : members ≠ []) (literals : members.all (fun t => t.literal?.isSome) = true) :
    ofUnion (members.map printMember) =
      .literals ((members.filterMap literal?).map String.toList) := by
  have nonempty : (members.map printMember).isEmpty = false := by simpa using hne
  rw [ofUnion, nonempty, all_isLiteral_printMember inside, literals,
    map_interior_printMember literals]
  rfl

theorem filter_isNullName_printMember {members : List TypeExpr}
    (inside : ∀ t ∈ members, Grammatical t) :
    (members.map printMember).filter (!isNullName ·) =
      (members.filter (!·.isNull)).map printMember := by
  rw [List.filter_map]
  refine congrArg (List.map printMember) (List.filter_congr fun t ht => ?_)
  rw [Function.comp_apply, isNullName_printMember (inside t ht)]

end Form

/-! ### Reading -/

namespace Parser

variable {p : Parser} {limit : Nat}

/-- A text without blanks around it is read as the schema, at every depth at which the limit allows
for its length. -/
structure Reads (p : Parser) (limit : Nat) (text : List Char) (s : Schema) : Prop where
  trimmed : Trimmed text
  schema_read : ∀ depth, depth + text.length ≤ limit → (p.read depth text).schema = s

/-- The parser has no overrides, and allows for a depth. -/
structure Admits (p : Parser) (limit : Nat) : Prop where
  overrides : p.overrides = []
  shallow : ∀ depth ≤ limit, p.tooDeep depth = false

/-- Where the limit allows for it, an expression is read as its form says. -/
theorem read_of_form {depth : Nat} (shallow : p.tooDeep depth = false) {text : List Char}
    (trimmed : Trimmed text) {form : Form} (hform : Form.of p.overrides text = form) :
    p.read depth text = assemble text form (form.components.map (p.read (depth + 1))) := by
  rw [read_eq, shallow, if_neg Bool.false_ne_true, trimmed.strip_eq, hform]

/-- The texts in a form are one level deeper, and shorter by at least one character. -/
theorem reads_of_form (admits : p.Admits limit) {text : List Char} (trimmed : Trimmed text)
    {form : Form} (hform : Form.of [] text = form) {schemas : List Schema}
    (below : List.Forall₂ (p.Reads limit) form.components schemas) :
    p.Reads limit text (form.schema schemas) := by
  refine ⟨trimmed, fun depth hdepth => ?_⟩
  have shallow := admits.shallow depth (by omega)
  have shorter : ∀ x ∈ form.components, Trimmed x → x.length < text.length := by
    intro x hx hx'
    rw [← hform, ← trimmed.strip_eq] at hx
    have h := Form.length_lt_of_mem_components hx
    rwa [hx'.strip_eq, trimmed.strip_eq] at h
  have inner : (form.components.map (p.read (depth + 1))).map Reading.schema = schemas := by
    generalize form.components = texts at shorter below
    induction below with
    | nil => rfl
    | @cons x s xs ss reads _ ih =>
      rw [List.forall_mem_cons] at shorter
      have length := shorter.1 reads.trimmed
      rw [List.map_cons, List.map_cons, reads.schema_read (depth + 1) (by omega)]
      exact congrArg (s :: ·) (ih shorter.2)
  rw [← admits.overrides] at hform
  rw [read_of_form shallow trimmed hform, assemble]
  dsimp only
  rw [inner]

theorem Reads.map {α : Type} {all : List α} {text : α → List Char} {schema : α → Schema}
    (h : ∀ a ∈ all, p.Reads limit (text a) (schema a)) :
    List.Forall₂ (p.Reads limit) (all.map text) (all.map schema) := by
  rw [List.forall₂_map_left_iff, List.forall₂_map_right_iff, List.forall₂_same]
  exact h

/-- An expression inside another one is read like the expression alone, one level deeper if it
stands in parentheses. -/
theorem Reads.member (admits : p.Admits limit) {t : TypeExpr} (h : Grammatical t)
    (reads : p.Reads limit t.print t.denote) : p.Reads limit t.printMember t.denote := by
  rw [printMember, enclose]
  split
  · exact reads_of_form admits (.of_ends _ rfl rfl) (Form.of_enclose h.part_print.balanced)
      (.cons reads .nil)
  · exact reads

theorem reads_union (admits : p.Admits limit) {members : List TypeExpr} (two : 2 ≤ members.length)
    (inside : ∀ t ∈ members, Grammatical t)
    (below : ∀ t ∈ members, p.Reads limit t.printMember t.denote) :
    p.Reads limit (TypeExpr.union members).print (TypeExpr.union members).denote := by
  have form : Form.of [] (TypeExpr.union members).print =
      Form.ofUnion (members.map printMember) := by
    rw [print, printMembers_eq_map]
    refine Form.of_union (by rwa [List.length_map]) fun x hx => ?_
    obtain ⟨t, ht, rfl⟩ := List.mem_map.mp hx
    exact (inside t ht).part_member
  have trimmed := (Grammatical.union two inside).part_print.trimmed
  rw [denote]
  split
  · next literals =>
    have hne : members ≠ [] := by
      rintro rfl
      exact absurd two (by decide)
    rw [Form.ofUnion_literals inside hne literals] at form
    rw [← Form.literalsOf_toList]
    exact reads_of_form admits trimmed form .nil
  · next mixed =>
    have literals := Form.all_isLiteral_printMember inside
    rw [Bool.eq_false_iff.mpr mixed] at literals
    rw [Form.ofUnion, literals, Bool.and_false, if_neg Bool.false_ne_true,
      Form.filter_isNullName_printMember inside] at form
    rw [denoteKept_eq_map]
    have reads : ∀ t ∈ members.filter (!·.isNull), p.Reads limit t.printMember t.denote :=
      fun t ht => below t (List.mem_filter.mp ht).1
    generalize members.filter (!·.isNull) = kept at form reads
    rcases kept with - | ⟨t, - | ⟨t', rest⟩⟩
    · exact reads_of_form admits trimmed form .nil
    · -- There are two members at least, so that one that is left alone has lost another.
      have nullable :
          (([t].map printMember).length != (members.map printMember).length) = true := by
        rw [bne_iff_ne, List.length_map, List.length_map, List.length_singleton]
        omega
      have single : Form.of [] (TypeExpr.union members).print = .single t.printMember true :=
        form.trans (congrArg (Form.single t.printMember) nullable)
      exact reads_of_form admits trimmed single (Reads.map reads)
    · exact reads_of_form admits trimmed form (Reads.map reads)

theorem reads_object (admits : p.Admits limit) {fields : List (Key × TypeExpr)}
    (nonempty : fields ≠ []) (distinct : (fields.map (·.1.name)).Nodup)
    (readable : ∀ field ∈ fields, field.1.Readable) (inside : ∀ field ∈ fields, Grammatical field.2)
    (below : ∀ field ∈ fields, p.Reads limit field.2.print field.2.denote) :
    p.Reads limit (TypeExpr.object fields).print (TypeExpr.object fields).denote := by
  have read : ∀ field ∈ fields, Member.read? (field.1.print field.2.print) =
      some (.property field.1.name field.1.optional field.2.print) := fun field hf =>
    Key.read?_print (readable field hf) (inside field hf).part_print.trimmed
  have form : Form.of [] (TypeExpr.object fields).print =
      .object (fields.map fun field =>
        .property field.1.name field.1.optional field.2.print) := by
    rw [print, printFields_eq_map, Form.of_object (by simpa using nonempty) fun x hx => ?_]
    · have spelled : fields.filterMap (Member.read? ∘ fun field => field.1.print field.2.print) =
          fields.filterMap fun field =>
            some (.property field.1.name field.1.optional field.2.print) :=
        List.filterMap_congr read
      rw [List.filterMap_map, spelled, List.filterMap_eq_map']
    · obtain ⟨field, hf, rfl⟩ := List.mem_map.mp hx
      exact Key.part_print (readable field hf) (inside field hf).part_print
  have types : (Form.object (fields.map fun field =>
      .property field.1.name field.1.optional field.2.print)).components =
      fields.map fun field => field.2.print := by
    rw [Form.components, List.map_map]
    rfl
  have reads := reads_of_form admits
    (Grammatical.object nonempty distinct readable inside).part_print.trimmed form
    (types ▸ Reads.map below)
  rwa [Form.schema, List.zip_map', Form.objectOf_distinct distinct] at reads

/-- The induction is on the tree: what is inside a printed expression is printed as well. -/
theorem reads_print (admits : p.Admits limit) {t : TypeExpr} (h : Grammatical t) :
    p.Reads limit t.print t.denote := by
  induction h with
  | primitive known =>
    have trimmed := (Grammatical.primitive known).part_print.trimmed
    exact reads_of_form admits trimmed (Form.of_primitive known) .nil
  | named identifier free =>
    have trimmed := (Grammatical.named identifier free).part_print.trimmed
    have reads := reads_of_form admits trimmed
      (Form.of_reference identifier List.not_mem_nil free) .nil
    rwa [Form.schema, String.ofList_toList] at reads
  | literal unquoted =>
    have trimmed := (Grammatical.literal unquoted).part_print.trimmed
    have reads := reads_of_form admits trimmed (Form.of_literal unquoted) .nil
    rwa [Form.schema, Form.literalsOf, List.map_singleton, String.ofList_toList] at reads
  | array inside ih =>
    have whole := Grammatical.array inside
    exact reads_of_form admits whole.part_print.trimmed
      (Form.of_list inside.part_member) (.cons (ih.member admits inside) .nil)
  | union two inside ih =>
    exact reads_union admits two inside fun t ht => (ih t ht).member admits (inside t ht)
  | @intersection parts two inside ih =>
    have form : Form.of [] (TypeExpr.intersection parts).print =
        .allOf (parts.map printMember) := by
      rw [print, printMembers_eq_map]
      refine Form.of_intersection (by rwa [List.length_map]) fun x hx => ?_
      obtain ⟨t, ht, rfl⟩ := List.mem_map.mp hx
      exact (inside t ht).part_member
    have trimmed := (Grammatical.intersection two inside).part_print.trimmed
    rw [denote, denoteAll_eq_map]
    exact reads_of_form admits trimmed form
      (Reads.map fun t ht => (ih t ht).member admits (inside t ht))
  | object nonempty distinct readable inside ih =>
    exact reads_object admits nonempty distinct readable inside ih
  | @tuple elements nonempty inside ih =>
    have form : Form.of [] (TypeExpr.tuple elements).print = .tuple (elements.map print) := by
      rw [print, printAll_eq_map]
      refine Form.of_tuple (by simpa using nonempty) fun x hx => ?_
      obtain ⟨t, ht, rfl⟩ := List.mem_map.mp hx
      exact (inside t ht).part_print
    have trimmed := (Grammatical.tuple nonempty inside).part_print.trimmed
    have reads := reads_of_form admits trimmed form (Reads.map ih)
    have elementsLeft : (elements.map denote).isEmpty = false := by simpa using nonempty
    rwa [Form.schema, Form.tupleOf, elementsLeft, if_neg Bool.false_ne_true, List.length_map,
      ← denoteAll_eq_map] at reads
  | @wrapped generic argument inside ih =>
    have form := Form.of_application generic.isIdentifier_name
      (List.forall_mem_singleton.mpr inside.part_print)
    have trimmed := (Grammatical.wrapped generic inside).part_print.trimmed
    obtain ⟨components, schema⟩ := Form.ofApplication_wrapper generic argument.print
    rw [denote, ← schema]
    refine reads_of_form admits trimmed form ?_
    rw [components]
    exact .cons ih .nil
  | dictionary generic first second ihFirst ihSecond =>
    have form := Form.of_application generic.isIdentifier_name
      (List.forall_mem_cons.mpr
        ⟨first.part_print, List.forall_mem_singleton.mpr second.part_print⟩)
    have trimmed := (Grammatical.dictionary generic first second).part_print.trimmed
    rw [Form.ofApplication_dictionary] at form
    exact reads_of_form admits trimmed form (.cons ihSecond .nil)

/-! ### Answers -/

/-- The answer of a new session is that of a session which remembers nothing. -/
theorem answer_eq_answerIn (p : Parser) (text : String) :
    p.answer text = (p.answerIn text []).1 := by
  rw [answer, answerIn, cacheKey, String.toList_ofList]
  dsimp only [List.lookup_nil]
  cases p.parse (strip text.toList) <;> rfl

theorem tooDeep_of_atMost? (deep : (Json.int limit).atMost? p.maxDepth = some true) {depth : Nat}
    (hdepth : depth ≤ limit) : p.tooDeep depth = false := by
  obtain ⟨y, hy, hle⟩ := Json.number?_of_atMost? deep
  have below : Dyadic.ofInt depth ≤ Dyadic.ofInt limit := by
    rw [Json.ofInt_le_ofInt_iff]
    exact Int.ofNat_le.mpr hdepth
  have shallow : (Json.int depth).exceeds? p.maxDepth = some false :=
    (Json.exceeds?_eq_false_iff rfl hy).mpr (Dyadic.le_trans below hle)
  rw [tooDeep, shallow]
  rfl

end Parser

/-- A new session answers a printed tree with the schema of the tree. -/
theorem answer_print {p : Parser} (overrides : p.overrides = []) {t : TypeExpr} (h : Grammatical t)
    (deep : (Json.int t.print.length).atMost? p.maxDepth = some true) :
    ∃ answer, (p.answerIn (String.ofList t.print) []).1 = .ok answer ∧
      answer.schema = t.denote := by
  have admits : p.Admits t.print.length := ⟨overrides, fun _ => Parser.tooDeep_of_atMost? deep⟩
  have reads := Parser.reads_print admits h
  have regular : p.Regular "" := by
    rw [Parser.Regular, overrides]
    exact fun entry h => absurd h List.not_mem_nil
  obtain ⟨y, hy, -⟩ := Json.number?_of_atMost? deep
  obtain ⟨answer, answered, schema⟩ := Parser.exists_answer regular
    (Option.isSome_iff_exists.mpr ⟨y, hy⟩) (String.ofList t.print)
  rw [Parser.answer_eq_answerIn] at answered
  rw [String.toList_ofList, reads.trimmed.strip_eq, reads.schema_read 0 (by omega)] at schema
  exact ⟨answer, answered, schema⟩

/-- A tree in which lists, unions, generics, a tuple and literals stand inside each other. -/
def account : TypeExpr :=
  .object
    [ (⟨"id", false, false⟩, .primitive "number"),
      (⟨"first seen", true, true⟩, .union [.primitive "Date", .primitive "null"]),
      (⟨"groups", false, true⟩,
        .array (.union [.named "api.Group", .wrapped .set (.literal "a | b")])),
      (⟨"pair", false, false⟩,
        .tuple [.dictionary .record (.primitive "string") (.primitive "any"), .literal "x"]) ]

theorem grammatical_account : Grammatical account := by
  have bare : ∀ (name : String) (optional : Bool), name.toList ≠ [] →
      name.toList.all isNameChar = true → Key.Readable ⟨name, false, optional⟩ :=
    fun _ _ hne names => ⟨hne, List.all_eq_true.mp names⟩
  have quoted : ∀ (name : String) (optional : Bool), '\'' ∉ name.toList →
      Key.Readable ⟨name, true, optional⟩ := fun _ _ unquoted => unquoted
  refine .object (by decide) (by decide) ?_ ?_
  · simp only [List.forall_mem_cons, List.not_mem_nil, false_imp_iff, implies_true, and_true]
    exact ⟨bare "id" false (by decide) (by decide), quoted "first seen" true (by decide),
      bare "groups" true (by decide) (by decide), bare "pair" false (by decide) (by decide)⟩
  · simp only [List.forall_mem_cons, List.not_mem_nil, false_imp_iff, implies_true, and_true]
    refine ⟨.primitive (by decide), .union (by decide) ?_, .array (.union (by decide) ?_),
      .tuple (by decide) ?_⟩
    all_goals
      simp only [List.forall_mem_cons, List.not_mem_nil, false_imp_iff, implies_true, and_true]
    · exact ⟨.primitive (by decide), .primitive (by decide)⟩
    · exact ⟨.named (by decide) (by decide), .wrapped .set (.literal (by decide))⟩
    · exact ⟨.dictionary .record (.primitive (by decide)) (.primitive (by decide)),
        .literal (by decide)⟩

theorem answer_print_account :
    String.ofList account.print =
        "\x7b id: number; 'first seen'?: Date | null; groups?: (api.Group | Set<'a | b'>)[]; " ++
          "pair: [Record<string, any>, 'x'] \x7d" ∧
      ∃ answer,
        ((⟨[], .int 200⟩ : Parser).answerIn (String.ofList account.print) []).1 = .ok answer ∧
          answer.schema = account.denote :=
  ⟨by decide, answer_print rfl grammatical_account
    ((Json.atMost?_of_integers rfl rfl).trans (congrArg some (by decide)))⟩

end Schemata

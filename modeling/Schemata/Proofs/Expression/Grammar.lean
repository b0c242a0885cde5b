import Schemata.Proofs.Expression.Names

/-!
# The grammar of type expressions

Type expressions as trees, the text that spells a tree, and the schema that a tree stands for. Where
one expression stands inside another, only unions and intersections need parentheses around them.

## Main definitions

* `TypeExpr`: the trees.
* `TypeExpr.print`: the text of a tree.
* `TypeExpr.denote`: the schema of a tree, by recursion on it.
* `Grammatical`: the trees that the grammar knows.

## Main results

* `Grammatical.part_print`: a printed tree can stand between the delimiters of a list.
* `Grammatical.part_member`: as a member, it can stand between any delimiters.
-/

namespace Schemata

/-- The generics of one argument that the grammar knows. -/
inductive Wrapper where
  | array
  | readonlyArray
  | set
  | readonlySet
  | promise
  | awaited
  | response
  deriving DecidableEq, Repr

/-- The generics of two arguments that the grammar knows. -/
inductive Dictionary where
  | record
  | map
  deriving DecidableEq, Repr

inductive TypeExpr where
  | primitive (name : String)
  | named (name : String)
  | literal (value : String)
  | array (element : TypeExpr)
  | union (members : List TypeExpr)
  | intersection (parts : List TypeExpr)
  | object (fields : List (Key × TypeExpr))
  | tuple (elements : List TypeExpr)
  | wrapped (generic : Wrapper) (argument : TypeExpr)
  | dictionary (generic : Dictionary) (key value : TypeExpr)

namespace Wrapper

def name : Wrapper → String
  | .array => "Array"
  | .readonlyArray => "ReadonlyArray"
  | .set => "Set"
  | .readonlySet => "ReadonlySet"
  | .promise => "Promise"
  | .awaited => "Awaited"
  | .response => "Response"

/-- What the generic makes of the schema of its argument. -/
def apply : Wrapper → Schema → Schema
  | .array, s | .readonlyArray, s => .array (some s) { unique := .bool false }
  | .set, s | .readonlySet, s => .array (some s) { unique := .bool true }
  | .promise, s | .awaited, s | .response, s => s

end Wrapper

def Dictionary.name : Dictionary → String
  | .record => "Record"
  | .map => "Map"

namespace TypeExpr

/-! ### Printing -/

/-- Members of the expression stand at its top level. -/
def isJoined : TypeExpr → Bool
  | .union _ | .intersection _ => true
  | _ => false

/-- The text of an expression, where it stands as the element of a list or as a member. -/
def enclose (joined : Bool) (text : List Char) : List Char :=
  if joined then '(' :: (text ++ [')']) else text

/-- A generic with its arguments. -/
def application (base : String) (arguments : List (List Char)) : List Char :=
  base.toList ++ '<' :: ([',', ' '].intercalate arguments ++ ['>'])

mutual

def print : TypeExpr → List Char
  | .primitive name => name.toList
  | .named name => name.toList
  | .literal value => '\'' :: (value.toList ++ ['\''])
  | .array element => enclose element.isJoined element.print ++ ['[', ']']
  | .union members => [' ', '|', ' '].intercalate (printMembers members)
  | .intersection parts => [' ', '&', ' '].intercalate (printMembers parts)
  | .object fields =>
    '{' :: ([' '] ++ [';', ' '].intercalate (printFields fields) ++ [' '] ++ ['}'])
  | .tuple elements => '[' :: ([',', ' '].intercalate (printAll elements) ++ [']'])
  | .wrapped generic argument => application generic.name [argument.print]
  | .dictionary generic key value => application generic.name [key.print, value.print]

def printAll : List TypeExpr → List (List Char)
  | [] => []
  | t :: rest => t.print :: printAll rest

def printMembers : List TypeExpr → List (List Char)
  | [] => []
  | t :: rest => enclose t.isJoined t.print :: printMembers rest

def printFields : List (Key × TypeExpr) → List (List Char)
  | [] => []
  | (key, t) :: rest => key.print t.print :: printFields rest

end

/-- The text of an expression that stands inside another one. -/
def printMember (t : TypeExpr) : List Char := enclose t.isJoined t.print

theorem printAll_eq_map (ts : List TypeExpr) : printAll ts = ts.map print := by
  induction ts with
  | nil => rfl
  | cons t rest ih => rw [printAll, ih, List.map_cons]

theorem printMembers_eq_map (ts : List TypeExpr) : printMembers ts = ts.map printMember := by
  induction ts with
  | nil => rfl
  | cons t rest ih => rw [printMembers, ih, List.map_cons, printMember]

theorem printFields_eq_map (fields : List (Key × TypeExpr)) :
    printFields fields = fields.map fun field => field.1.print field.2.print := by
  induction fields with
  | nil => rfl
  | cons field rest ih => rw [printFields, ih, List.map_cons]

/-! ### Schemas -/

def literal? : TypeExpr → Option String
  | .literal value => some value
  | _ => none

/-- The expression only says that a union may have no value. -/
def isNull : TypeExpr → Bool
  | .primitive name => name == "null" || name == "undefined"
  | _ => false

/-- The schema of a union of two or more members, given those of the members that are not null: with
one of them left, the others say that it is nullable. -/
def unionOf : List Schema → Schema
  | [] => nullOnly
  | [s] => s.withNullable?.getD s
  | variants => .oneOf variants

mutual

def denote : TypeExpr → Schema
  | .primitive name => (primitives.lookup name).getD .empty
  | .named name => .ref (.str name)
  | .literal value => .string { enum := some [.str value] }
  | .array element => .array (some element.denote) {}
  | .union members =>
    if members.all fun t => t.literal?.isSome then
      .string { enum := some (Json.distinct ((members.filterMap literal?).map .str)) }
    else unionOf (denoteKept members)
  | .intersection parts => .allOf (denoteAll parts)
  | .object fields =>
    .object (denoteFields fields) ((fields.filter (!·.1.optional)).map (·.1.name)) none
      (.bool false)
  | .tuple elements =>
    .array (some (.oneOf (denoteAll elements)))
      { minItems := .int elements.length, maxItems := .int elements.length }
  | .wrapped generic argument => generic.apply argument.denote
  | .dictionary _ _ value => .object [] [] (some value.denote) (.bool false)

def denoteAll : List TypeExpr → List Schema
  | [] => []
  | t :: rest => t.denote :: denoteAll rest

/-- The schemas of the members of a union that are not null. -/
def denoteKept : List TypeExpr → List Schema
  | [] => []
  | t :: rest => if t.isNull then denoteKept rest else t.denote :: denoteKept rest

def denoteFields : List (Key × TypeExpr) → List (String × Schema)
  | [] => []
  | (key, t) :: rest => (key.name, t.denote) :: denoteFields rest

end

theorem denoteAll_eq_map (ts : List TypeExpr) : denoteAll ts = ts.map denote := by
  induction ts with
  | nil => rfl
  | cons t rest ih => rw [denoteAll, ih, List.map_cons]

theorem denoteKept_eq_map (ts : List TypeExpr) :
    denoteKept ts = (ts.filter (!·.isNull)).map denote := by
  induction ts with
  | nil => rfl
  | cons t rest ih =>
    rw [denoteKept, ih]
    cases h : t.isNull <;> simp [h]

end TypeExpr

/-! ### Grammatical trees -/

inductive Grammatical : TypeExpr → Prop
  | primitive {name : String} (known : name ∈ Fields.names primitives) :
      Grammatical (.primitive name)
  | named {name : String} (identifier : isIdentifier name.toList = true)
      (free : name ∉ Fields.names primitives) : Grammatical (.named name)
  | literal {value : String} (unquoted : '\'' ∉ value.toList) : Grammatical (.literal value)
  | array {element : TypeExpr} (inside : Grammatical element) : Grammatical (.array element)
  | union {members : List TypeExpr} (two : 2 ≤ members.length)
      (inside : ∀ t ∈ members, Grammatical t) : Grammatical (.union members)
  | intersection {parts : List TypeExpr} (two : 2 ≤ parts.length)
      (inside : ∀ t ∈ parts, Grammatical t) : Grammatical (.intersection parts)
  | object {fields : List (Key × TypeExpr)} (nonempty : fields ≠ [])
      (distinct : (fields.map (·.1.name)).Nodup) (readable : ∀ field ∈ fields, field.1.Readable)
      (inside : ∀ field ∈ fields, Grammatical field.2) : Grammatical (.object fields)
  | tuple {elements : List TypeExpr} (nonempty : elements ≠ [])
      (inside : ∀ t ∈ elements, Grammatical t) : Grammatical (.tuple elements)
  | wrapped (generic : Wrapper) {argument : TypeExpr} (inside : Grammatical argument) :
      Grammatical (.wrapped generic argument)
  | dictionary (generic : Dictionary) {key value : TypeExpr} (first : Grammatical key)
      (second : Grammatical value) : Grammatical (.dictionary generic key value)

/-! ### Generic names -/

theorem Wrapper.isIdentifier_name (generic : Wrapper) :
    isIdentifier generic.name.toList = true := by
  cases generic <;> decide

theorem Dictionary.isIdentifier_name (generic : Dictionary) :
    isIdentifier generic.name.toList = true := by
  cases generic <;> decide

namespace TypeExpr

variable {t : TypeExpr} {text : List Char}

/-- The characters that an expression may have at top level: unions and intersections are cut at
their own delimiters. -/
def Outside (t : TypeExpr) : Char → Prop := if t.isJoined then Unlisted else Undivided

theorem part_enclose (h : Part t.Outside text) : Part Undivided (enclose t.isJoined text) := by
  rw [Outside] at h
  rw [enclose]
  split
  · exact .bracketed rfl rfl h.balanced
  · next alone => rwa [if_neg alone] at h

theorem unlisted_of_outside {c : Char} (h : t.Outside c) : Unlisted c := by
  rw [Outside] at h
  split at h
  · exact h
  · exact h.1

/-- A generic can stand anywhere as soon as its arguments can stand in a list. -/
theorem part_application {base : String} (identifier : isIdentifier base.toList = true)
    {arguments : List (List Char)} (h : ∀ x ∈ arguments, Part Unlisted x) :
    Part Undivided (application base arguments) := by
  have name := part_of_isIdentifier identifier
  have inside : Balanced (fun _ => True) ([',', ' '].intercalate arguments) :=
    .intercalate (.of_all rfl) fun x hx => (h x hx).balanced.any
  have last : Trimmed ['>'] := .singleton rfl
  have arranged : application base arguments =
      base.toList ++ ('<' :: [',', ' '].intercalate arguments) ++ ['>'] := by
    rw [application, List.append_assoc]
    rfl
  refine ⟨name.balanced.append (inside.wrap rfl rfl), ?_⟩
  rw [arranged]
  exact name.trimmed.append _ last

/-- Members that are joined by a delimiter of their own can stand in a list. -/
theorem part_join {d : Char} (separator : Balanced Unlisted [' ', d, ' '])
    {members : List TypeExpr} (two : 2 ≤ members.length)
    (h : ∀ t ∈ members, Part t.Outside t.print) :
    Part Unlisted ([' ', d, ' '].intercalate (printMembers members)) := by
  rw [printMembers_eq_map]
  refine .intercalate separator ?_ fun x hx => ?_
  · intro hnil
    rw [List.map_eq_nil_iff.mp hnil] at two
    exact absurd two (by decide)
  · obtain ⟨t, ht, rfl⟩ := List.mem_map.mp hx
    exact (part_enclose (h t ht)).mono fun _ hc => hc.1

end TypeExpr

namespace Grammatical

open TypeExpr

/-- What an expression is cut at stands at its top level only if it is joined there. -/
theorem part_outside {t : TypeExpr} (h : Grammatical t) : Part t.Outside t.print := by
  induction h with
  | primitive known => exact part_of_isIdentifier (isIdentifier_of_mem_primitives known)
  | named identifier _ => exact part_of_isIdentifier identifier
  | literal unquoted => exact .quoted rfl unquoted
  | @array element _ ih =>
    have enclosed := part_enclose ih
    have brackets : Balanced Undivided ['[', ']'] := .bracketed rfl rfl .nil .nil
    have last : Trimmed [']'] := .singleton rfl
    have trimmed := enclosed.trimmed.append ['['] last
    rw [List.append_assoc] at trimmed
    exact ⟨enclosed.balanced.append brackets, trimmed⟩
  | union two _ ih => exact part_join (.of_all rfl) two ih
  | intersection two _ ih => exact part_join (.of_all rfl) two ih
  | @object fields _ _ readable _ ih =>
    have blank : Balanced (fun _ => True) [' '] := .of_all rfl
    have members : Balanced (fun _ => True) ([';', ' '].intercalate (printFields fields)) := by
      rw [printFields_eq_map]
      refine .intercalate (.of_all rfl) fun x hx => ?_
      obtain ⟨field, hf, rfl⟩ := List.mem_map.mp hx
      have type := (ih field hf).balanced.mono fun _ => unlisted_of_outside
      exact (Key.balanced_print (readable field hf) type).any
    exact .bracketed rfl rfl ((blank.append members).append blank)
  | @tuple elements _ _ ih =>
    have inside : Balanced (fun _ => True) ([',', ' '].intercalate (printAll elements)) := by
      rw [printAll_eq_map]
      refine .intercalate (.of_all rfl) fun x hx => ?_
      obtain ⟨t, ht, rfl⟩ := List.mem_map.mp hx
      exact (ih t ht).balanced.any
    exact .bracketed rfl rfl inside
  | wrapped generic _ ih =>
    refine part_application generic.isIdentifier_name ?_
    exact List.forall_mem_singleton.mpr (ih.mono fun _ => unlisted_of_outside)
  | dictionary generic _ _ ihKey ihValue =>
    refine part_application generic.isIdentifier_name ?_
    exact List.forall_mem_cons.mpr ⟨ihKey.mono fun _ => unlisted_of_outside,
      List.forall_mem_singleton.mpr (ihValue.mono fun _ => unlisted_of_outside)⟩

theorem part_print {t : TypeExpr} (h : Grammatical t) : Part Unlisted t.print :=
  h.part_outside.mono fun _ => unlisted_of_outside

theorem part_member {t : TypeExpr} (h : Grammatical t) : Part Undivided t.printMember :=
  part_enclose h.part_outside

end Grammatical

end Schemata

import Schemata.Expression.Segments
import Schemata.Expression.Member
import Schemata.Schema.Basic
import Schemata.Fields

/-!
# The outermost form of a type expression

What an expression is, seen from outside: a known name, a text in parentheses, a union, a list, and
so on, together with the texts inside it that are expressions themselves. The tests overlap, and the
first that holds decides.

## Main definitions

* `primitives`: the names that need no definition.
* `Form`: the forms.
* `Form.of`: the form of an expression without blanks around it.
* `Form.components`: the expressions inside a form.

## Main results

* `Form.length_lt_of_mem_components`: every component is shorter than the expression. Reading an
  expression therefore ends, whatever its text.
-/

namespace Schemata

def dateTime : Schema := .string { format := .str "date-time" }

/-- The type that has `null` as its only value. -/
def nullOnly : Schema := .string { nullable := .bool true }

def primitives : Fields Schema :=
  [ ("string", .string {}),
    ("number", .number {}),
    ("boolean", .boolean {}),
    ("Date", dateTime),
    ("null", nullOnly),
    ("undefined", .string {}),
    ("symbol", .string {}),
    ("any", .empty),
    ("unknown", .empty),
    ("void", .empty),
    ("never", .empty),
    ("object", .anyObject),
    ("bigint", .number { integer := .bool true, format := .str "int64" }) ]

inductive Form where
  | blank
  /-- A name with a schema of its own. -/
  | known (schema : Schema)
  /-- Stands for the expression inside it. -/
  | inner (text : List Char)
  | list (element : List Char) (unique : Bool)
  /-- A union of literals, or a literal. -/
  | literals (values : List (List Char))
  /-- A union without members other than `null` and `undefined`. -/
  | null
  /-- A union with one other member; the flag says that some were dropped. -/
  | single (member : List Char) (nullable : Bool)
  | oneOf (members : List (List Char)) (nullable : Bool)
  | allOf (parts : List (List Char))
  | object (members : List Member)
  | tuple (elements : List (List Char))
  | dictionary (value : List Char)
  /-- A generic that changes how the properties of its argument count. -/
  | modified (base argument : List Char)
  /-- A generic that selects properties of its first argument. -/
  | selected (base first : List Char) (arguments : List (List Char))
  | generic (base : List Char) (arguments : List (List Char))
  | reference (name : List Char)
  | unrecognized

namespace Form

def components : Form → List (List Char)
  | .inner text => [text]
  | .list element _ => [element]
  | .single member _ => [member]
  | .oneOf members _ => members
  | .allOf parts => parts
  | .object members => members.map Member.type
  | .tuple elements => elements
  | .dictionary value => [value]
  | .modified _ argument => [argument]
  | .selected _ first _ => [first]
  | .blank | .known _ | .literals _ | .null | .generic .. | .reference _ | .unrecognized => []

/-! ### Unions -/

def isNullName (text : List Char) : Bool :=
  text == "null".toList || text == "undefined".toList

def ofUnion (members : List (List Char)) : Form :=
  if !members.isEmpty && members.all isLiteral then .literals (members.map interior)
  else
    let kept := members.filter (!isNullName ·)
    let nullable := kept.length != members.length
    match kept with
    | [] => .null
    | [member] => .single member nullable
    | kept => .oneOf kept nullable

/-! ### Generics -/

/-- The base name and the arguments of `Base<A, B>`; there is at least one argument. -/
def application? (expr : List Char) : Option (List Char × List Char × List (List Char)) :=
  let base := strip (expr.takeWhile (· ≠ '<'))
  let rest := expr.dropWhile (· ≠ '<')
  if isIdentifier base && isWrapped '<' '>' rest then
    match splitTop [','] (interior rest) with
    | [] => none
    | first :: others => some (base, first, others)
  else none

def ofApplication (base first : List Char) (others : List (List Char)) : Form :=
  match String.ofList base, others with
  | "Promise", _ | "Awaited", _ | "Response", _ => .inner first
  | "Record", second :: _ | "Map", second :: _ => .dictionary second
  | "Set", _ | "ReadonlySet", _ => .list first true
  | "Array", _ | "ReadonlyArray", _ => .list first false
  | "Partial", _ | "Required", _ | "Readonly", _ => .modified base first
  | "Pick", _ | "Omit", _ => .selected base first (first :: others)
  | _, _ => .generic base (first :: others)

/-! ### Expressions -/

/-- The element of `T[]`. -/
def element? (expr : List Char) : Option (List Char) :=
  if "[]".toList.isSuffixOf expr && !(strip (expr.dropLast.dropLast)).isEmpty then
    some expr.dropLast.dropLast
  else none

/-- The members between the braces of an object literal, cut at semicolons and then at commas;
texts that spell no member are passed over. -/
def membersOf (expr : List Char) : List Member :=
  ((splitTop [';'] (interior expr)).flatMap (splitTop [','])).filterMap Member.read?

/-- The form of an expression that is neither blank nor a known name. -/
def ofText (expr : List Char) : Form :=
  if isWrapped '(' ')' expr then .inner (interior expr)
  else if hasTop ['|'] expr then ofUnion (splitTop ['|'] expr)
  else if hasTop ['&'] expr then .allOf (splitTop ['&'] expr)
  else match element? expr with
    | some element => .list element false
    | none =>
      if isWrapped '{' '}' expr then .object (membersOf expr)
      else if isWrapped '[' ']' expr then .tuple (splitTop [','] (interior expr))
      else match application? expr with
        | some (base, first, others) => ofApplication base first others
        | none =>
          if isLiteral expr then .literals [interior expr]
          else if isIdentifier expr then .reference expr
          else .unrecognized

/-- The form of an expression; `overrides` come before the primitive names. -/
def of (overrides : Fields Schema) (expr : List Char) : Form :=
  if expr.isEmpty then .blank
  else match overrides.lookup (String.ofList expr) <|> primitives.lookup (String.ofList expr) with
    | some schema => .known schema
    | none => ofText expr

/-! ### Components are shorter -/

theorem mem_of_mem_components_ofUnion {members : List (List Char)} {x : List Char}
    (h : x ∈ (ofUnion members).components) : x ∈ members := by
  unfold ofUnion at h
  split at h
  · simp [components] at h
  · have sub : ∀ y ∈ members.filter (!isNullName ·), y ∈ members := fun y hy =>
      (List.mem_filter.1 hy).1
    revert h sub
    generalize members.filter (!isNullName ·) = kept
    intro h sub
    match kept with
    | [] => simp [components] at h
    | [m] => exact sub x (by simpa [components] using h)
    | a :: b :: rest => exact sub x (by simpa [components] using h)

private theorem length_lt_of_application {expr base first : List Char}
    {others : List (List Char)} (h : application? expr = some (base, first, others)) :
    ∀ x ∈ first :: others, x.length < expr.length := by
  simp only [application?] at h
  split at h
  · next hw =>
    split at h
    · cases h
    · next f os hs =>
      cases h
      intro x hx
      have hx' : x ∈ splitTop [','] (interior (expr.dropWhile (· ≠ '<'))) := hs ▸ hx
      have l₁ := length_le_of_mem_splitTop hx'
      have l₂ := length_interior_lt (Bool.and_eq_true_iff.1 hw).2
      have l₃ := length_dropWhile_le (fun c => decide (c ≠ '<')) expr
      omega
  · cases h

theorem mem_of_mem_components_ofApplication {base first x : List Char}
    {others : List (List Char)} (h : x ∈ (ofApplication base first others).components) :
    x ∈ first :: others := by
  unfold ofApplication at h
  split at h <;> simp_all [components]

private theorem length_lt_of_element {expr element : List Char}
    (h : element? expr = some element) : element.length < expr.length := by
  unfold element? at h
  split at h
  · next hs =>
    cases h
    have suffix := List.isSuffixOf_iff_suffix.1 (Bool.and_eq_true_iff.1 hs).1
    have := suffix.length_le
    simp only [List.length_dropLast]
    have two : "[]".toList.length = 2 := rfl
    omega
  · cases h

private theorem length_lt_of_member {expr : List Char} {m : Member}
    (hw : isWrapped '{' '}' expr = true) (h : m ∈ membersOf expr) :
    m.type.length < expr.length := by
  simp only [membersOf, List.mem_filterMap, List.mem_flatMap] at h
  obtain ⟨text, ⟨part, hp, ht⟩, hm⟩ := h
  have l₁ := Member.length_type_le hm
  have l₂ := length_le_of_mem_splitTop ht
  have l₃ := length_le_of_mem_splitTop hp
  have l₄ := length_interior_lt hw
  omega

private theorem length_lt_of_mem_components_ofText {expr x : List Char} (hs : strip expr ≠ [])
    (h : x ∈ (ofText expr).components) : x.length < expr.length := by
  unfold ofText at h
  split at h
  · next hw =>
    rw [List.mem_singleton.1 h]
    exact length_interior_lt hw
  split at h
  · next ht => exact length_lt_of_mem_splitTop ht hs (mem_of_mem_components_ofUnion h)
  split at h
  · next ht => exact length_lt_of_mem_splitTop ht hs h
  split at h
  · next he =>
    rw [List.mem_singleton.1 h]
    exact length_lt_of_element he
  split at h
  · next hw =>
    obtain ⟨m, hm, rfl⟩ := List.mem_map.1 h
    exact length_lt_of_member hw hm
  split at h
  · next hw =>
    exact Nat.lt_of_le_of_lt (length_le_of_mem_splitTop h) (length_interior_lt hw)
  split at h
  · next ha => exact length_lt_of_application ha x (mem_of_mem_components_ofApplication h)
  · split at h
    · simp [components] at h
    · split at h <;> simp [components] at h

theorem length_lt_of_mem_components {overrides : Fields Schema} {text x : List Char}
    (h : x ∈ (Form.of overrides (strip text)).components) :
    (strip x).length < (strip text).length := by
  refine Nat.lt_of_le_of_lt (length_strip_le x) ?_
  unfold Form.of at h
  split at h
  · simp [components] at h
  · next hs =>
    split at h
    · simp [components] at h
    · refine length_lt_of_mem_components_ofText ?_ h
      rw [strip_strip]
      simpa using hs

end Form

end Schemata

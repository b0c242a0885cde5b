import Schemata.Expression.Name
import Schemata.Text.Blank

/-!
# Members of an object literal

A member is a property, `name: T` or `name?: T`, or an index signature, `[key: string]: T`; either
may be marked `readonly`. The name of a property is made of name characters or stands between
quotes; the question mark follows it at once.

## Main definitions

* `Member`: what a member says.
* `Member.read?`: the member that a text spells.

## Main results

* `Member.length_type_le`: the type of a member is part of its text.
-/

namespace Schemata

inductive Member where
  | property (name : String) (optional : Bool) (type : List Char)
  | index (type : List Char)
  deriving DecidableEq, Repr

namespace Member

def type : Member → List Char
  | .property _ _ type => type
  | .index type => type

/-- The text behind `word`, if it starts with it. -/
def behindWord? (word : String) (text : List Char) : Option (List Char) :=
  if word.toList.isPrefixOf text then some (text.drop word.length) else none

/-- The text behind the mark `readonly` and the blanks that have to follow it. -/
def behindReadonly? (text : List Char) : Option (List Char) :=
  match behindWord? "readonly" text with
  | some (c :: rest) => if isBlank c then some (stripStart rest) else none
  | _ => none

/-- The text behind `c`, after blanks. -/
def behindChar? (c : Char) (text : List Char) : Option (List Char) :=
  match stripStart text with
  | d :: rest => if d = c then some rest else none
  | [] => none

/-- The type behind a colon. -/
def typeBehindColon? (text : List Char) : Option (List Char) :=
  match behindChar? ':' text with
  | some rest => if (stripStart rest).isEmpty then none else some (stripStart rest)
  | none => none

/-- The name of a property, and what follows it. -/
def readName? (text : List Char) : Option (List Char × List Char) :=
  match text with
  | [] => none
  | c :: rest =>
    if c = '\'' ∨ c = '"' then
      match rest.dropWhile (· ≠ c) with
      | _ :: after => some (rest.takeWhile (· ≠ c), after)
      | [] => none
    else if isNameChar c then some (text.takeWhile isNameChar, text.dropWhile isNameChar)
    else none

/-- The question mark of an optional property, and what follows it. -/
def readOptional (text : List Char) : Bool × List Char :=
  match text with
  | '?' :: rest => (true, rest)
  | _ => (false, text)

def readProperty? (text : List Char) : Option Member := do
  let (name, rest) ← readName? text
  let (optional, rest) := readOptional rest
  let type ← typeBehindColon? rest
  return .property (String.ofList name) optional type

/-- The text behind the word that an index signature calls its keys. -/
def behindKey? (text : List Char) : Option (List Char) :=
  if (text.takeWhile isWordChar).isEmpty then none else some (text.dropWhile isWordChar)

def readIndex? (text : List Char) : Option Member := do
  match text with
  | '[' :: rest =>
    let rest ← behindKey? (stripStart rest)
    let rest ← behindChar? ':' rest
    let rest := stripStart rest
    let rest ← behindWord? "string" rest <|> behindWord? "number" rest
    let rest ← behindChar? ']' rest
    return .index (← typeBehindColon? rest)
  | _ => none

/-- The texts that a member can be read from: the one behind `readonly`, then the whole; a property
may be called `readonly`. -/
def bodies (text : List Char) : List (List Char) := (behindReadonly? text).toList ++ [text]

def read? (text : List Char) : Option Member :=
  (bodies text).findSome? readProperty? <|> (bodies text).findSome? readIndex?

/-! ### Lengths -/

private theorem length_stripStart_le (text : List Char) :
    (stripStart text).length ≤ text.length :=
  length_dropWhile_le _ _

private theorem length_behindWord_le {word : String} {text rest : List Char}
    (h : behindWord? word text = some rest) : rest.length ≤ text.length := by
  unfold behindWord? at h
  split at h
  · cases h
    simp only [List.length_drop]
    omega
  · cases h

private theorem length_behindReadonly_le {text rest : List Char}
    (h : behindReadonly? text = some rest) : rest.length ≤ text.length := by
  unfold behindReadonly? at h
  split at h
  · next c tail hw =>
    split at h
    · cases h
      have := length_behindWord_le hw
      have := length_stripStart_le tail
      simp only [List.length_cons] at *
      omega
    · cases h
  · cases h

private theorem length_behindChar_le {c : Char} {text rest : List Char}
    (h : behindChar? c text = some rest) : rest.length ≤ text.length := by
  unfold behindChar? at h
  split at h
  · next d tail ht =>
    split at h
    · cases h
      have := length_stripStart_le text
      rw [ht] at this
      simp only [List.length_cons] at this
      omega
    · cases h
  · cases h

private theorem length_typeBehindColon_le {text type : List Char}
    (h : typeBehindColon? text = some type) : type.length ≤ text.length := by
  unfold typeBehindColon? at h
  split at h
  · next rest hr =>
    split at h
    · cases h
    · cases h
      exact Nat.le_trans (length_stripStart_le _) (length_behindChar_le hr)
  · cases h

private theorem length_readName_le {text name rest : List Char}
    (h : readName? text = some (name, rest)) : rest.length ≤ text.length := by
  unfold readName? at h
  split at h
  · cases h
  · next c tail =>
    split at h
    · split at h
      · next d after hd =>
        cases h
        have := length_dropWhile_le (fun x => decide (x ≠ c)) tail
        rw [hd] at this
        simp only [List.length_cons] at *
        omega
      · cases h
    · split at h
      · cases h
        exact length_dropWhile_le _ _
      · cases h

private theorem length_readOptional_le (text : List Char) :
    (readOptional text).2.length ≤ text.length := by
  unfold readOptional
  split
  · simp
  · exact Nat.le_refl _

private theorem length_type_readProperty {text : List Char} {m : Member}
    (h : readProperty? text = some m) : m.type.length ≤ text.length := by
  simp only [readProperty?, Option.bind_eq_bind, Option.bind_eq_some_iff, Option.pure_def,
    Option.some.injEq, Prod.exists] at h
  obtain ⟨name, rest, hn, type, ht, rfl⟩ := h
  exact Nat.le_trans (length_typeBehindColon_le ht)
    (Nat.le_trans (length_readOptional_le rest) (length_readName_le hn))

private theorem length_behindKey_le {text rest : List Char} (h : behindKey? text = some rest) :
    rest.length ≤ text.length := by
  unfold behindKey? at h
  split at h
  · cases h
  · cases h
    exact length_dropWhile_le _ _

private theorem length_type_readIndex {text : List Char} {m : Member}
    (h : readIndex? text = some m) : m.type.length ≤ text.length := by
  unfold readIndex? at h
  split at h
  · next tail =>
    simp only [Option.bind_eq_bind, Option.bind_eq_some_iff, Option.pure_def, Option.some.injEq,
      Option.orElse_eq_orElse] at h
    obtain ⟨r₀, h₀, r₁, h₁, r₂, h₂, r₃, h₃, type, ht, rfl⟩ := h
    have l₀ := length_behindKey_le h₀
    have l₁ := length_behindChar_le h₁
    have l₂ : r₂.length ≤ (stripStart r₁).length := by
      rcases Option.or_eq_some_iff.1 (by simpa [Option.orElse_eq_or] using h₂) with h | ⟨-, h⟩
      · exact length_behindWord_le h
      · exact length_behindWord_le h
    have l₃ := length_behindChar_le h₃
    have l₄ := length_typeBehindColon_le ht
    have s₁ := length_stripStart_le r₁
    have s₀ := length_stripStart_le tail
    simp only [Member.type, List.length_cons]
    omega
  · cases h

private theorem length_body_le {text body : List Char} (h : body ∈ bodies text) :
    body.length ≤ text.length := by
  rcases List.mem_append.1 h with h | h
  · exact length_behindReadonly_le (Option.mem_toList.1 h)
  · exact Nat.le_of_eq (congrArg List.length (List.mem_singleton.1 h))

theorem length_type_le {text : List Char} {m : Member} (h : read? text = some m) :
    m.type.length ≤ text.length := by
  rw [read?, Option.orElse_eq_orElse, Option.orElse_eq_or] at h
  rcases Option.or_eq_some_iff.1 h with h | ⟨-, h⟩
  · obtain ⟨body, hb, hm⟩ := List.exists_of_findSome?_eq_some h
    exact Nat.le_trans (length_type_readProperty hm) (length_body_le hb)
  · obtain ⟨body, hb, hm⟩ := List.exists_of_findSome?_eq_some h
    exact Nat.le_trans (length_type_readIndex hm) (length_body_le hb)

end Member

end Schemata

import Schemata.Proofs.Expression.Balanced
import Schemata.Proofs.Expression.Regular
import Schemata.Proofs.Fields

/-!
# Names in type expressions

A name has no bracket, no quote, no blank and no delimiter in it. What a member of an object literal
spells can therefore be read off: its name ends at the question mark or at the colon.

## Main definitions

* `Unlisted`, `Undivided`: the characters at which no list is cut, and at which nothing is.
* `Key`: the name of a property, as an object literal spells it.
* `Key.Readable`: a name without quotes is made of name characters, one with quotes has no quote in
  it.

## Main results

* `isNameChar_or_dot_of_isIdentifier`: the characters of a dotted name.
* `lookup_primitives_eq_none`: the primitive names are made of letters.
* `Key.read?_print`: a member is read as it was written.
-/

namespace Schemata

/-! ### Name characters -/

section Characters

variable {c d : Char}

theorem ne_of_isNameChar (hc : isNameChar c = true) (hd : isNameChar d = false) : c ≠ d := by
  rintro rfl
  exact Bool.false_ne_true (hd.symm.trans hc)

theorem isStructural_of_isNameChar (hc : isNameChar c = true) : isStructural c = false := by
  have all : ∀ c ∈ structuralChars, (!isNameChar c) = true := List.all_eq_true.mp (by decide)
  rw [Bool.eq_false_iff]
  intro hs
  have other : isNameChar c = false := by simpa using all c (mem_structuralChars hs)
  exact Bool.false_ne_true (other.symm.trans hc)

/-- The code points of the blanks. -/
def blankCodes : List Nat :=
  List.range' 0x9 5 ++ List.range' 0x1c 5 ++ [0x85, 0xa0, 0x1680] ++ List.range' 0x2000 11
    ++ [0x2028, 0x2029, 0x202f, 0x205f, 0x3000]

theorem mem_blankCodes (hc : isBlank c = true) : c.toNat ∈ blankCodes := by
  simp only [isBlank, Bool.or_eq_true, Bool.and_eq_true, decide_eq_true_eq, beq_iff_eq] at hc
  simp only [blankCodes, List.mem_append, List.mem_range'_1, List.mem_cons, List.not_mem_nil,
    or_false]
  generalize c.toNat = n at hc ⊢
  omega

theorem isBlank_of_isNameChar (hc : isNameChar c = true) : isBlank c = false := by
  have blanks : ∀ n ∈ blankCodes, isNameChar (Char.ofNat n) = false := by decide +kernel
  cases hb : isBlank c with
  | false => rfl
  | true =>
    have other := blanks _ (mem_blankCodes hb)
    rw [Char.ofNat_toNat, hc] at other
    exact absurd other.symm Bool.false_ne_true

theorem isWordChar_of_isAlpha (hc : c.isAlpha = true) : isWordChar c = true := by
  have ascii : c.val < 128 := by
    change (decide (c.val ≥ 65 ∧ c.val ≤ 90) || (c.val ≥ 97 && c.val ≤ 122)) = true at hc
    rw [Bool.or_eq_true, Bool.and_eq_true, decide_eq_true_eq, decide_eq_true_eq,
      decide_eq_true_eq] at hc
    rcases hc with ⟨-, upper⟩ | ⟨-, lower⟩
    · exact UInt32.lt_of_le_of_lt upper (by decide)
    · exact UInt32.lt_of_le_of_lt lower (by decide)
  rw [isWordChar, if_pos ascii, Char.isAlphanum, hc, Bool.true_or, Bool.true_or]

theorem isNameChar_of_isNameStart (hc : isNameStart c = true) : isNameChar c = true := by
  simp only [isNameStart, Bool.or_eq_true, beq_iff_eq] at hc
  rcases hc with (hc | rfl) | rfl
  · rw [isNameChar, isWordChar_of_isAlpha hc, Bool.true_or]
  · decide
  · decide

end Characters

/-! ### Delimiters -/

/-- No list is cut at the character. -/
def Unlisted (c : Char) : Prop := c ≠ ',' ∧ c ≠ ';'

/-- Neither a list nor a union nor an intersection is cut at the character. -/
def Undivided (c : Char) : Prop := Unlisted c ∧ c ≠ '|' ∧ c ≠ '&'

instance (c : Char) : Decidable (Unlisted c) := inferInstanceAs (Decidable (_ ∧ _))

instance (c : Char) : Decidable (Undivided c) := inferInstanceAs (Decidable (_ ∧ _))

theorem undivided_of_isNameChar {c : Char} (hc : isNameChar c = true) : Undivided c :=
  ⟨⟨ne_of_isNameChar hc rfl, ne_of_isNameChar hc rfl⟩, ne_of_isNameChar hc rfl,
    ne_of_isNameChar hc rfl⟩

/-! ### Dotted names -/

theorem isNameChar_or_dot_of_isIdentifierFrom {fresh : Bool} {text : List Char}
    (h : isIdentifierFrom fresh text = true) : ∀ c ∈ text, isNameChar c = true ∨ c = '.' := by
  induction text generalizing fresh with
  | nil => exact fun _ hc => absurd hc List.not_mem_nil
  | cons d rest ih =>
    rw [isIdentifierFrom] at h
    rw [List.forall_mem_cons]
    split at h
    · obtain ⟨hd, hrest⟩ := Bool.and_eq_true_iff.mp h
      exact ⟨.inl (isNameChar_of_isNameStart hd), ih hrest⟩
    split at h
    · next hd => exact ⟨.inr (eq_of_beq hd), ih h⟩
    · obtain ⟨hd, hrest⟩ := Bool.and_eq_true_iff.mp h
      exact ⟨.inl hd, ih hrest⟩

theorem isNameChar_or_dot_of_isIdentifier {text : List Char} (h : isIdentifier text = true) :
    ∀ c ∈ text, isNameChar c = true ∨ c = '.' :=
  isNameChar_or_dot_of_isIdentifierFrom h

/-- No character of a dotted name is special to a scan, blank, a delimiter or a bracket. -/
theorem plain_of_isIdentifier {text : List Char} (h : isIdentifier text = true) :
    ∀ c ∈ text, isStructural c = false ∧ isBlank c = false ∧ Undivided c := by
  intro c hc
  rcases isNameChar_or_dot_of_isIdentifier h c hc with hc | rfl
  · exact ⟨isStructural_of_isNameChar hc, isBlank_of_isNameChar hc, undivided_of_isNameChar hc⟩
  · decide

theorem part_of_isIdentifier {text : List Char} (h : isIdentifier text = true) :
    Part Undivided text := by
  have plain := plain_of_isIdentifier h
  exact ⟨.of_forall fun c hc => ⟨(plain c hc).1, (plain c hc).2.2⟩,
    .of_forall (Form.ne_nil_of_isIdentifier h) fun c hc => (plain c hc).2.1⟩

/-! ### Primitive names -/

theorem isAlpha_of_mem_primitives {name : String} (h : name ∈ Fields.names primitives) :
    name.toList ≠ [] ∧ ∀ c ∈ name.toList, c.isAlpha = true := by
  have all : ∀ name ∈ Fields.names primitives,
      name.toList ≠ [] ∧ name.toList.all Char.isAlpha = true := by decide
  exact ⟨(all name h).1, List.all_eq_true.mp (all name h).2⟩

theorem isIdentifier_of_mem_primitives {name : String} (h : name ∈ Fields.names primitives) :
    isIdentifier name.toList = true := by
  have all : ∀ name ∈ Fields.names primitives, isIdentifier name.toList = true := by decide
  exact all name h

theorem lookup_primitives_eq_none {text : List Char} {c : Char} (hc : c ∈ text)
    (other : c.isAlpha = false) : primitives.lookup (String.ofList text) = none := by
  rw [Fields.lookup_eq_none_iff]
  intro h
  have letter := (isAlpha_of_mem_primitives h).2 c (by rwa [String.toList_ofList])
  exact Bool.false_ne_true (other.symm.trans letter)

/-! ### Keys -/

/-- The name of a property, as an object literal spells it. -/
structure Key where
  name : String
  /-- The name stands between quotes. -/
  quoted : Bool
  /-- A question mark follows the name. -/
  optional : Bool
  deriving DecidableEq, Repr

namespace Key

def spelling (key : Key) : List Char :=
  if key.quoted then '\'' :: (key.name.toList ++ ['\'']) else key.name.toList

def mark (key : Key) : List Char := if key.optional then ['?'] else []

/-- A member of an object literal, with the text of its type. -/
def print (key : Key) (type : List Char) : List Char :=
  key.spelling ++ key.mark ++ ':' :: ' ' :: type

def Readable (key : Key) : Prop :=
  if key.quoted then '\'' ∉ key.name.toList
  else key.name.toList ≠ [] ∧ ∀ c ∈ key.name.toList, isNameChar c = true

variable {key : Key} {type rest : List Char}

theorem balanced_print (readable : key.Readable) (balanced : Balanced Unlisted type) :
    Balanced Unlisted (key.print type) := by
  have behind : Balanced Unlisted (key.mark ++ ':' :: ' ' :: type) := by
    have colon : Balanced Unlisted (':' :: ' ' :: type) :=
      .plain rfl (by decide) (.plain rfl (by decide) balanced)
    rw [mark]
    split
    · exact .plain rfl (by decide) colon
    · exact colon
  rw [print, spelling, List.append_assoc]
  rw [Readable] at readable
  split at readable
  · next quoted =>
    rw [if_pos quoted, List.cons_append, List.append_assoc]
    exact .quoted rfl readable behind
  · next bare =>
    rw [if_neg bare]
    refine Balanced.append (.of_forall fun c hc => ?_) behind
    have name := readable.2 c hc
    exact ⟨isStructural_of_isNameChar name, (undivided_of_isNameChar name).1⟩

theorem trimmed_print (readable : key.Readable) (trimmed : Trimmed type) :
    Trimmed (key.print type) := by
  have first : Trimmed key.spelling := by
    rw [spelling]
    rw [Readable] at readable
    split at readable
    · next quoted =>
      rw [if_pos quoted]
      exact .of_ends _ rfl rfl
    · next bare =>
      rw [if_neg bare]
      exact .of_forall readable.1 fun c hc => isBlank_of_isNameChar (readable.2 c hc)
  have arranged : key.print type = key.spelling ++ (key.mark ++ [':', ' ']) ++ type := by
    rw [print, List.append_assoc, List.append_assoc, List.append_assoc]
    rfl
  rw [arranged]
  exact first.append _ trimmed

theorem part_print (readable : key.Readable) (part : Part Unlisted type) :
    Part Unlisted (key.print type) :=
  ⟨balanced_print readable part.balanced, trimmed_print readable part.trimmed⟩

/-! ### Reading members -/

theorem isNameChar_of_head_mark {c : Char}
    (hc : (key.mark ++ ':' :: ' ' :: type).head? = some c) :
    isNameChar c = false ∧ isBlank c = false := by
  rw [mark] at hc
  split at hc
  all_goals
    cases hc
    decide

theorem readName?_spelling (readable : key.Readable)
    (hrest : ∀ c, rest.head? = some c → isNameChar c = false) :
    Member.readName? (key.spelling ++ rest) = some (key.name.toList, rest) := by
  rw [spelling]
  rw [Readable] at readable
  split at readable
  · next quoted =>
    have inside : ∀ c ∈ key.name.toList, decide (c ≠ '\'') = true := fun c hc =>
      decide_eq_true fun h => readable (h ▸ hc)
    rw [if_pos quoted, List.cons_append, List.append_assoc, List.singleton_append,
      Member.readName?, if_pos (.inl rfl), List.dropWhile_append_of_pos inside,
      List.takeWhile_append_of_pos inside]
    simp
  · next bare =>
    obtain ⟨hne, names⟩ := readable
    obtain ⟨c, tail, hname⟩ := List.exists_cons_of_ne_nil hne
    have hc : isNameChar c = true := names c (by rw [hname]; exact List.mem_cons_self)
    have unquoted : ¬(c = '\'' ∨ c = '"') := by
      rintro (rfl | rfl) <;> exact absurd hc (by decide)
    have ends : rest.takeWhile isNameChar = [] ∧ rest.dropWhile isNameChar = rest := by
      cases rest with
      | nil => exact ⟨rfl, rfl⟩
      | cons d rest => simp [hrest d rfl]
    rw [if_neg bare]
    have whole : Member.readName? (key.name.toList ++ rest) =
        some ((key.name.toList ++ rest).takeWhile isNameChar,
          (key.name.toList ++ rest).dropWhile isNameChar) := by
      rw [hname, List.cons_append, Member.readName?, if_neg unquoted, if_pos hc]
    rw [whole, List.takeWhile_append_of_pos names, List.dropWhile_append_of_pos names, ends.1,
      ends.2, List.append_nil]

/-- A bare name ends at a question mark or at a colon: no blank follows name characters that a
member begins with. -/
theorem isBlank_eq_false_of_print_eq (readable : key.Readable) {word more : List Char} {c : Char}
    (hne : word ≠ []) (names : ∀ c ∈ word, isNameChar c = true)
    (h : word ++ c :: more = key.print type) : isBlank c = false := by
  cases hc : isNameChar c with
  | true => exact isBlank_of_isNameChar hc
  | false =>
    rw [Readable] at readable
    split at readable
    · next quoted =>
      obtain ⟨d, tail, rfl⟩ := List.exists_cons_of_ne_nil hne
      rw [print, spelling, if_pos quoted] at h
      have first : d = '\'' := (List.cons.inj h).1
      have name := names d List.mem_cons_self
      rw [first] at name
      exact absurd name (by decide)
    · next bare =>
      rw [print, spelling, if_neg bare, List.append_assoc] at h
      have cut := congrArg (List.dropWhile isNameChar) h
      rw [List.dropWhile_append_of_pos names, List.dropWhile_append_of_pos readable.2,
        List.dropWhile_cons_of_neg (Bool.eq_false_iff.mp hc),
        dropWhile_eq_self_of_head fun c hc => (isNameChar_of_head_mark hc).1] at cut
      exact (isNameChar_of_head_mark (congrArg List.head? cut).symm).2

theorem behindReadonly?_print (readable : key.Readable) :
    Member.behindReadonly? (key.print type) = none := by
  rw [Member.behindReadonly?]
  split
  · next c rest hword =>
    rw [Member.behindWord?] at hword
    split at hword
    · next hprefix =>
      obtain ⟨more, hmore⟩ := List.isPrefixOf_iff_prefix.mp hprefix
      have dropped : (key.print type).drop "readonly".length = more := by
        rw [← hmore]
        exact List.drop_left
      rw [dropped] at hword
      rw [Option.some.inj hword] at hmore
      have word : ∀ c ∈ "readonly".toList, isNameChar c = true := List.all_eq_true.mp (by decide)
      rw [isBlank_eq_false_of_print_eq readable (by decide) word hmore, if_neg Bool.false_ne_true]
    · cases hword
  · rfl

theorem typeBehindColon?_cons (trimmed : Trimmed type) :
    Member.typeBehindColon? (':' :: ' ' :: type) = some type := by
  have start : stripStart type = type := dropWhile_eq_self_of_head trimmed.head
  have colon : Member.behindChar? ':' (':' :: ' ' :: type) = some (' ' :: type) := rfl
  have blank : stripStart (' ' :: type) = stripStart type := rfl
  rw [Member.typeBehindColon?, colon]
  dsimp only
  rw [blank, start, if_neg]
  rw [List.isEmpty_iff]
  exact trimmed.ne_nil

theorem readOptional_mark :
    Member.readOptional (key.mark ++ ':' :: ' ' :: type) = (key.optional, ':' :: ' ' :: type) := by
  rw [mark]
  cases key.optional <;> rfl

theorem readProperty?_print (readable : key.Readable) (trimmed : Trimmed type) :
    Member.readProperty? (key.print type) = some (.property key.name key.optional type) := by
  have name := readName?_spelling readable
    fun c (hc : (key.mark ++ ':' :: ' ' :: type).head? = some c) => (isNameChar_of_head_mark hc).1
  rw [Member.readProperty?, print, List.append_assoc, name]
  simp only [Option.bind_eq_bind, Option.bind_some, readOptional_mark,
    typeBehindColon?_cons trimmed, String.ofList_toList]
  rfl

theorem read?_print (readable : key.Readable) (trimmed : Trimmed type) :
    Member.read? (key.print type) = some (.property key.name key.optional type) := by
  rw [Member.read?, Member.bodies, behindReadonly?_print readable]
  simp only [Option.toList_none, List.nil_append, List.findSome?_cons, List.findSome?_nil,
    readProperty?_print readable trimmed]
  rfl

end Key

end Schemata

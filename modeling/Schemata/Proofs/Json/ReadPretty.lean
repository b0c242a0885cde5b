import Schemata.Proofs.Json.Numeral
import Schemata.Proofs.Json.Same

/-!
# Reading what was written over lines

A value that is written over lines, with characters beyond ASCII left as they are, is read as this
value. The reader takes a value off the front of a text and leaves the rest. It stops where it
should because of what follows a value that stands in a list or an object: a comma or a line break,
with which no numeral goes on. It starts where it should because no value is written with a blank or
a closing bracket in front.

## Main definitions

* `Json.Follows`: what can follow a written value.
* `Json.Opens`, `Json.Begins`: the characters with which written values begin.

## Main results

* `Json.readString_plain`: a text is read to its closing quote.
* `Json.readValue_prettyText`: a value is read off the front of a text.
* `Json.read_pretty`: a well-formed value that was written over lines is read again.

## What is deliberately absent

The spelling in ASCII, in which a character can take two escapes, is not read back here, and neither
is the form on one line.
-/

namespace Schemata

namespace Json

/-! ### Texts -/

theorem hexUnit?_append {digits : List Char} {unit : Nat} (h : hexUnit? digits = some (unit, []))
    (rest : List Char) : hexUnit? (digits ++ rest) = some (unit, rest) := by
  match digits with
  | a :: b :: c :: d :: more =>
    simp only [hexUnit?, Option.bind_eq_bind, Option.bind_eq_some_iff, Option.pure_def,
      Option.some.injEq, Prod.mk.injEq, List.cons_append] at h ⊢
    obtain ⟨w, hw, x, hx, y, hy, z, hz, value, rfl⟩ := h
    exact ⟨w, hw, x, hx, y, hy, z, hz, value, rfl⟩
  | [] | [_] | [_, _] | [_, _, _] => cases h

theorem hexUnit?_hexadecimal : ∀ n < 0x20, hexUnit? (hexadecimal 4 n) = some (n, []) := by
  decide

theorem readUnicode_control {n : Nat} (h : n < 0x20) {rest : List Char} (hne : rest ≠ []) :
    readUnicode (hexadecimal 4 n ++ rest) = .ok (Char.ofNat n, rest) := by
  have digits := hexUnit?_append (hexUnit?_hexadecimal n h) rest
  have noPair : isHighSurrogate n = false := by
    rw [isHighSurrogate, decide_eq_false (by omega), Bool.false_and]
  have noHalf : isLowSurrogate n = false := by
    rw [isLowSurrogate, decide_eq_false (by omega), Bool.false_and]
  obtain ⟨c, tail, rfl⟩ := List.exists_cons_of_ne_nil hne
  rw [readUnicode, digits]
  dsimp only
  rw [noPair, charOfUnit, noPair, noHalf]
  rfl

/-- Each character is read as it was written, unless nothing follows. -/
theorem readText_char (c : Char) (start : List Char) (fuel : Nat) {rest : List Char}
    (hne : rest ≠ []) :
    readText start (fuel + 1) (Spelling.plain.char c ++ rest) =
      (do let (cs, rest) ← readText start fuel rest; return (c :: cs, rest)) := by
  rw [Spelling.char]
  split
  · next special =>
    rcases special with rfl | rfl
    · rfl
    · rfl
  split
  · next h => subst h; rfl
  split
  · next h => subst h; rfl
  split
  · next h => subst h; rfl
  split
  · next h => subst h; rfl
  split
  · next h => subst h; rfl
  split
  · next control =>
    have small : c.toNat < 0x10000 := Nat.lt_trans control (by decide)
    have escaped : Spelling.escape c = '\\' :: 'u' :: hexadecimal 4 c.toNat := by
      rw [Spelling.escape, if_pos small]
      rfl
    rw [escaped, List.cons_append, List.cons_append, readText, readUnicode_control control hne,
      Char.ofNat_toNat]
    rfl
  · next quoted _ _ _ _ _ visible =>
    rw [if_neg (by simp [Spelling.plain]), if_neg (by simp [Spelling.plain])]
    obtain ⟨quote, backslash⟩ := not_or.mp quoted
    rw [List.singleton_append, readText, if_neg visible]
    · exact quote
    · exact fun h _ => backslash h
    · exact fun _ h _ => backslash h
    · exact fun _ _ h _ => backslash h

theorem plain_char_ne_nil (c : Char) : Spelling.plain.char c ≠ [] := by
  have escaped : Spelling.escape c ≠ [] := by
    rw [Spelling.escape]
    split
    · exact List.cons_ne_nil _ _
    · exact List.cons_ne_nil _ _
  rw [Spelling.char]
  iterate 6
    split
    · exact List.cons_ne_nil _ _
  iterate 3
    split
    · exact escaped
  exact List.cons_ne_nil _ _

theorem readText_plain (cs start rest : List Char) {fuel : Nat}
    (enough : (cs.flatMap Spelling.plain.char).length < fuel) :
    readText start fuel (cs.flatMap Spelling.plain.char ++ '"' :: rest) = .ok (cs, rest) := by
  induction cs generalizing fuel with
  | nil =>
    obtain ⟨fuel, rfl⟩ := Nat.exists_eq_succ_of_ne_zero (Nat.ne_of_gt enough)
    rfl
  | cons c cs ih =>
    rw [List.flatMap_cons, List.length_append] at enough
    obtain ⟨fuel, rfl⟩ := Nat.exists_eq_succ_of_ne_zero (Nat.ne_zero_of_lt enough)
    have taken : 0 < (Spelling.plain.char c).length :=
      List.length_pos_of_ne_nil (plain_char_ne_nil c)
    rw [List.flatMap_cons, List.append_assoc, readText_char c start fuel (by simp),
      ih (by omega)]
    rfl

/-- A text is read to its closing quote. -/
theorem readString_plain (s : String) (rest : List Char) :
    readString (s.toList.flatMap Spelling.plain.char ++ '"' :: rest) = .ok (s, rest) := by
  have enough : (s.toList.flatMap Spelling.plain.char).length <
      (s.toList.flatMap Spelling.plain.char ++ '"' :: rest).length + 1 := by
    rw [List.length_append]
    omega
  rw [readString, readText_plain s.toList _ rest enough]
  exact congrArg (fun s => Except.ok (s, rest)) String.ofList_toList

/-! ### What stands around a value -/

/-- What can follow a value that is written over lines. -/
def Follows (rest : List Char) : Prop := ∀ c ∈ rest.head?, c = ',' ∨ c = '\n'

theorem Follows.ends {rest : List Char} (h : Follows rest) : Ends rest := by
  intro c hc
  rcases h c hc with rfl | rfl
  · decide
  · decide

theorem follows_nil : Follows [] := nofun

theorem follows_comma (rest : List Char) : Follows (',' :: rest) := by
  rintro _ ⟨⟩
  exact .inl rfl

theorem follows_lineBreak (level : Nat) (rest : List Char) : Follows (lineBreak level ++ rest) := by
  rintro _ ⟨⟩
  exact .inr rfl

/-- The characters with which written values begin. -/
def Opens (c : Char) : Prop := c ∈ ['[', '{', '"', 'n', 't', 'f', '-'] ∨ isDigit c = true

instance (c : Char) : Decidable (Opens c) := inferInstanceAs (Decidable (_ ∨ _))

/-- The text begins as a written value does. -/
def Begins (text : List Char) : Prop := ∃ c rest, text = c :: rest ∧ Opens c

theorem Opens.ne {c d : Char} (h : Opens c) (hd : ¬ Opens d) : c ≠ d := by
  rintro rfl
  exact hd h

theorem skipBlanks_of_not_blank {c : Char} (h : ¬ (c = ' ' ∨ c = '\t' ∨ c = '\n' ∨ c = '\r'))
    (rest : List Char) : skipBlanks (c :: rest) = c :: rest :=
  List.dropWhile_cons_of_neg (by simpa using h)

theorem skipBlanks_of_opens {c : Char} (h : Opens c) (rest : List Char) :
    skipBlanks (c :: rest) = c :: rest := by
  refine skipBlanks_of_not_blank ?_ rest
  rintro (rfl | rfl | rfl | rfl)
  all_goals exact absurd h (by decide)

theorem skipBlanks_lineBreak (level : Nat) (rest : List Char) :
    skipBlanks (lineBreak level ++ rest) = skipBlanks rest := by
  refine List.dropWhile_append_of_pos fun c hc => ?_
  rcases List.mem_cons.mp hc with rfl | hc
  · decide
  · rw [List.eq_of_mem_replicate hc]
    decide

/-! ### How written values begin -/

theorem exists_head_of_spells {text : List Char} {v : Json} (h : Numeral.Spells text v) :
    ∃ c rest, text = c :: rest ∧ (c = '-' ∨ isDigit c = true) := by
  obtain ⟨n, sound, rfl, -⟩ := h
  obtain ⟨c, tail, hwhole⟩ := sound.exists_whole
  rw [Numeral.text, Numeral.sign, hwhole]
  split
  · exact ⟨_, _, rfl, .inl rfl⟩
  · exact ⟨_, _, rfl, .inr (sound.whole c (hwhole ▸ List.mem_cons_self))⟩

theorem begins_of_spells {text : List Char} {v : Json} (h : Numeral.Spells text v) :
    Begins text := by
  obtain ⟨c, rest, heq, rfl | digit⟩ := exists_head_of_spells h
  · exact ⟨_, rest, heq, by decide⟩
  · exact ⟨c, rest, heq, .inr digit⟩

theorem exists_cons_block (opening closing : Char) (level : Nat) (parts : List (List Char)) :
    ∃ rest, block opening closing level parts = opening :: rest := by
  rw [block]
  split
  · exact ⟨_, rfl⟩
  · exact ⟨_, rfl⟩

theorem begins_prettyText (spelling : Spelling) (level : Nat) (v : Json) :
    Begins (prettyText spelling level v) := by
  cases v with
  | null => exact ⟨_, _, by rw [prettyText]; rfl, by decide⟩
  | bool b =>
    rw [prettyText]
    cases b with
    | false => exact ⟨_, _, rfl, by decide⟩
    | true => exact ⟨_, _, rfl, by decide⟩
  | int n =>
    rw [prettyText]
    exact begins_of_spells (spells_int n)
  | double d =>
    rw [prettyText]
    exact begins_of_spells d.spells_toText
  | str s => exact ⟨_, _, by rw [prettyText]; rfl, by decide⟩
  | arr items =>
    obtain ⟨rest, h⟩ := exists_cons_block '[' ']' level (prettyItems spelling (level + 1) items)
    exact ⟨_, rest, by rw [prettyText, h], by decide⟩
  | obj fields =>
    obtain ⟨rest, h⟩ := exists_cons_block '{' '}' level (prettyFields spelling (level + 1) fields)
    exact ⟨_, rest, by rw [prettyText, h], by decide⟩

/-! ### Single values -/

theorem readValue_of_spells {text : List Char} {v : Json} (h : Numeral.Spells text v)
    {rest : List Char} (ends : Ends rest) (fuel : Nat) :
    readValue (fuel + 1) (text ++ rest) = .ok (v, rest) := by
  obtain ⟨c, tail, heq, head⟩ := exists_head_of_spells h
  obtain ⟨n, sound, rfl, rfl⟩ := h
  have number : readValue (fuel + 1) (n.text ++ rest) = readNumber (n.text ++ rest) := by
    have other : ∀ d more, ¬ (d = '-' ∨ isDigit d = true) → c :: (tail ++ rest) ≠ d :: more := by
      rintro d more hd heq
      exact hd ((List.cons.inj heq).1 ▸ head)
    rw [heq, List.cons_append, readValue]
    all_goals exact fun _ => other _ _ (by decide)
  rw [number, readNumber_numeral sound ends]

/-- Wherever the value stands, it is read off the front of a text, with fuel for twice its
characters. -/
def ReadsBack (v : Json) : Prop :=
  ∀ level fuel rest, Follows rest → 2 * (prettyText .plain level v).length ≤ fuel + 2 →
    readValue (fuel + 1) (prettyText .plain level v ++ rest) = .ok (v, rest)

theorem readsBack_null : ReadsBack .null := by
  intro level fuel rest _ _
  rw [prettyText]
  rfl

theorem readsBack_bool (b : Bool) : ReadsBack (.bool b) := by
  intro level fuel rest _ _
  rw [prettyText]
  cases b with
  | false => rfl
  | true => rfl

theorem readsBack_int (n : Int) : ReadsBack (.int n) := by
  intro level fuel rest follows _
  rw [prettyText]
  exact readValue_of_spells (spells_int n) follows.ends fuel

theorem readsBack_double (d : Double) : ReadsBack (.double d) := by
  intro level fuel rest follows _
  rw [prettyText]
  exact readValue_of_spells d.spells_toText follows.ends fuel

theorem text_append (s : String) (rest : List Char) :
    Spelling.plain.text s ++ rest =
      '"' :: (s.toList.flatMap Spelling.plain.char ++ '"' :: rest) := by
  simp [Spelling.text]

theorem readsBack_str (s : String) : ReadsBack (.str s) := by
  intro level fuel rest _ _
  rw [prettyText, scalarText, text_append, readValue, readString_plain]
  rfl

/-! ### Parts on lines of their own -/

theorem joined_cons_cons (separator first second : List Char) (rest : List (List Char)) :
    joined separator (first :: second :: rest) =
      first ++ separator ++ joined separator (second :: rest) := rfl

theorem exists_joined_cons (separator first : List Char) (rest : List (List Char)) :
    ∃ more, joined separator (first :: rest) = first ++ more := by
  cases rest with
  | nil => exact ⟨[], (List.append_nil first).symm⟩
  | cons second rest => exact ⟨_, List.append_assoc _ _ _⟩

theorem Begins.joined {separator first : List Char} (h : Begins first)
    (rest : List (List Char)) : Begins (joined separator (first :: rest)) := by
  obtain ⟨c, tail, rfl, opens⟩ := h
  obtain ⟨more, joins⟩ := exists_joined_cons separator (c :: tail) rest
  exact ⟨c, _, joins, opens⟩

theorem skipBlanks_lineBreak_append {text : List Char} (h : Begins text) (level : Nat)
    (rest : List Char) :
    skipBlanks (lineBreak level ++ (text ++ rest)) = text ++ rest := by
  obtain ⟨c, tail, rfl, opens⟩ := h
  rw [skipBlanks_lineBreak, List.cons_append, skipBlanks_of_opens opens]

theorem block_of_parts (opening closing : Char) (level : Nat) {parts : List (List Char)}
    (hne : parts ≠ []) (rest : List Char) :
    block opening closing level parts ++ rest =
      opening :: (lineBreak (level + 1) ++ (joined (',' :: lineBreak (level + 1)) parts ++
        (lineBreak level ++ closing :: rest))) := by
  rw [block, if_neg (by simpa using hne)]
  simp

theorem length_prettyText_pos (level : Nat) (v : Json) :
    0 < (prettyText .plain level v).length := by
  obtain ⟨c, tail, head, -⟩ := begins_prettyText .plain level v
  rw [head]
  exact Nat.succ_pos _

/-! ### Lists -/

section Items

variable {fuel : Nat} {text rest after last : List Char} {v : Json} {items : List Json}

theorem readItems_last (first : readValue fuel text = .ok (v, rest))
    (closes : skipBlanks rest = ']' :: after) :
    readItems (fuel + 1) text = .ok ([v], after) := by
  rw [readItems, first]
  dsimp only [bind, Except.bind]
  rw [closes]
  rfl

theorem readItems_cons (first : readValue fuel text = .ok (v, rest))
    (goesOn : skipBlanks rest = ',' :: after)
    (others : readItems fuel (skipBlanks after) = .ok (items, last)) :
    readItems (fuel + 1) text = .ok (v :: items, last) := by
  rw [readItems, first]
  dsimp only [bind, Except.bind]
  rw [goesOn]
  show (readItems fuel (skipBlanks after) >>= fun _ => _) = _
  rw [others]
  rfl

theorem readValue_items {c : Char} (begins : skipBlanks text = c :: rest) (open_ : c ≠ ']')
    (read : readItems fuel (c :: rest) = .ok (items, last)) :
    readValue (fuel + 1) ('[' :: text) = .ok (.arr items, last) := by
  rw [readValue, begins]
  split
  · next heq => exact absurd (List.cons.inj heq).1 open_
  · rw [read]
    rfl

end Items

theorem readItems_joined {items : List Json} (hne : items ≠ []) (reads : ∀ v ∈ items, ReadsBack v)
    (level closing : Nat) (rest : List Char) (fuel : Nat)
    (enough : 2 * (joined (',' :: lineBreak level) (prettyItems .plain level items)).length
      ≤ fuel) :
    readItems fuel (joined (',' :: lineBreak level) (prettyItems .plain level items) ++
      (lineBreak closing ++ ']' :: rest)) = .ok (items, rest) := by
  induction items generalizing fuel with
  | nil => exact absurd rfl hne
  | cons v others ih =>
    rw [List.forall_mem_cons] at reads
    have positive := length_prettyText_pos level v
    cases others with
    | nil =>
      have single : joined (',' :: lineBreak level) (prettyItems .plain level [v]) =
          prettyText .plain level v := by
        simp [prettyItems, joined]
      rw [single] at enough ⊢
      obtain ⟨fuel, rfl⟩ := Nat.exists_eq_add_of_le' (show 2 ≤ fuel by omega)
      refine readItems_last (reads.1 level fuel _ (follows_lineBreak closing _) enough) ?_
      rw [skipBlanks_lineBreak, skipBlanks_of_not_blank (by decide)]
    | cons w others =>
      have several : joined (',' :: lineBreak level) (prettyItems .plain level (v :: w :: others)) =
          prettyText .plain level v ++ (',' :: lineBreak level) ++
            joined (',' :: lineBreak level) (prettyItems .plain level (w :: others)) := by
        simp only [prettyItems, joined_cons_cons]
      rw [several] at enough ⊢
      rw [List.length_append, List.length_append] at enough
      obtain ⟨fuel, rfl⟩ := Nat.exists_eq_add_of_le' (show 2 ≤ fuel by omega)
      have next := ih (List.cons_ne_nil _ _) reads.2 (fuel + 1) (by omega)
      have begins : Begins (joined (',' :: lineBreak level)
          (prettyItems .plain level (w :: others))) := by
        rw [prettyItems]
        exact (begins_prettyText .plain level w).joined _
      rw [List.append_assoc, List.append_assoc, List.cons_append]
      refine readItems_cons (reads.1 level fuel _ (follows_comma _) (by omega))
        (skipBlanks_of_not_blank (by decide) _) ?_
      rw [skipBlanks_lineBreak_append begins, next]

theorem readsBack_arr {items : List Json} (reads : ∀ v ∈ items, ReadsBack v) :
    ReadsBack (.arr items) := by
  intro level fuel rest _ enough
  rw [prettyText] at enough ⊢
  cases items with
  | nil =>
    rw [prettyItems]
    rfl
  | cons v others =>
    have hne : prettyItems .plain (level + 1) (v :: others) ≠ [] := by
      rw [prettyItems]
      exact List.cons_ne_nil _ _
    obtain ⟨c, tail, joins, opens⟩ : Begins (joined (',' :: lineBreak (level + 1))
        (prettyItems .plain (level + 1) (v :: others))) := by
      rw [prettyItems]
      exact (begins_prettyText .plain (level + 1) v).joined _
    have length := congrArg List.length (block_of_parts '[' ']' level hne [])
    simp only [List.length_append, List.length_cons, List.length_nil] at length
    have read := readItems_joined (List.cons_ne_nil v others) reads (level + 1) level rest
      fuel (by omega)
    rw [block_of_parts '[' ']' level hne]
    rw [joins, List.cons_append] at read ⊢
    refine readValue_items ?_ (opens.ne (by decide)) read
    rw [skipBlanks_lineBreak, skipBlanks_of_opens opens]

/-! ### Objects -/

section Fields

variable {fuel : Nat} {text rest value behind after last : List Char} {name : String} {v : Json}
  {before fields : List (String × Json)}

theorem readFields_last (named : readString text = .ok (name, rest))
    (colon : skipBlanks rest = ':' :: value)
    (first : readValue fuel (skipBlanks value) = .ok (v, behind))
    (closes : skipBlanks behind = '}' :: after) :
    readFields (fuel + 1) before ('"' :: text) = .ok (Fields.insert name v before, after) := by
  rw [readFields, named]
  dsimp only [bind, Except.bind]
  rw [colon]
  show (readValue fuel (skipBlanks value) >>= fun _ => _) = _
  rw [first]
  dsimp only [bind, Except.bind]
  rw [closes]
  rfl

theorem readFields_cons (named : readString text = .ok (name, rest))
    (colon : skipBlanks rest = ':' :: value)
    (first : readValue fuel (skipBlanks value) = .ok (v, behind))
    (goesOn : skipBlanks behind = ',' :: after)
    (others : readFields fuel (Fields.insert name v before) (skipBlanks after) =
      .ok (fields, last)) :
    readFields (fuel + 1) before ('"' :: text) = .ok (fields, last) := by
  rw [readFields, named]
  dsimp only [bind, Except.bind]
  rw [colon]
  show (readValue fuel (skipBlanks value) >>= fun _ => _) = _
  rw [first]
  dsimp only [bind, Except.bind]
  rw [goesOn]
  exact others

theorem readValue_fields (begins : skipBlanks text = '"' :: rest)
    (read : readFields fuel [] ('"' :: rest) = .ok (fields, last)) :
    readValue (fuel + 1) ('{' :: text) = .ok (.obj fields, last) := by
  rw [readValue, begins]
  show (readFields fuel [] ('"' :: rest) >>= fun _ => _) = _
  rw [read]
  rfl

end Fields

theorem prettyField_append (level : Nat) (name : String) (v : Json) (rest : List Char) :
    Spelling.plain.text name ++ [':', ' '] ++ prettyText .plain level v ++ rest =
      '"' :: (name.toList.flatMap Spelling.plain.char ++
        '"' :: ':' :: ' ' :: (prettyText .plain level v ++ rest)) := by
  simp [Spelling.text]

theorem skipBlanks_blank_prettyText (level : Nat) (v : Json) (rest : List Char) :
    skipBlanks (' ' :: (prettyText .plain level v ++ rest)) =
      prettyText .plain level v ++ rest := by
  obtain ⟨c, tail, head, opens⟩ := begins_prettyText .plain level v
  rw [head]
  exact skipBlanks_of_opens opens _

/-- The fields are put behind those that were read before. -/
theorem readFields_joined {fields : List (String × Json)} (hne : fields ≠ [])
    (reads : ∀ field ∈ fields, ReadsBack field.2) (level closing : Nat) (rest : List Char)
    (before : Fields Json) (nodup : (Fields.names (before ++ fields)).Nodup) (fuel : Nat)
    (enough : 2 * (joined (',' :: lineBreak level) (prettyFields .plain level fields)).length
      ≤ fuel) :
    readFields fuel before (joined (',' :: lineBreak level) (prettyFields .plain level fields) ++
      (lineBreak closing ++ '}' :: rest)) = .ok (before ++ fields, rest) := by
  induction fields generalizing before fuel with
  | nil => exact absurd rfl hne
  | cons field others ih =>
    obtain ⟨name, v⟩ := field
    obtain ⟨value, reads⟩ := List.forall_mem_cons.mp reads
    have value : ReadsBack v := value
    have positive := length_prettyText_pos level v
    have new : name ∉ Fields.names before := by
      rw [Fields.names, List.map_append, List.nodup_append] at nodup
      exact fun h => nodup.2.2 name h name List.mem_cons_self rfl
    have inserted : Fields.insert name v before = before ++ [(name, v)] :=
      Fields.insert_of_notMem new
    cases others with
    | nil =>
      have single : joined (',' :: lineBreak level) (prettyFields .plain level [(name, v)]) =
          Spelling.plain.text name ++ [':', ' '] ++ prettyText .plain level v := by
        simp [prettyFields, joined]
      rw [single, List.length_append] at enough
      rw [single, prettyField_append]
      obtain ⟨fuel, rfl⟩ := Nat.exists_eq_add_of_le' (show 2 ≤ fuel by omega)
      have read := value level fuel _ (follows_lineBreak closing ('}' :: rest)) (by omega)
      rw [← skipBlanks_blank_prettyText level v] at read
      rw [← inserted]
      refine readFields_last (readString_plain name _) (skipBlanks_of_not_blank (by decide) _) read
        ?_
      rw [skipBlanks_lineBreak, skipBlanks_of_not_blank (by decide)]
    | cons other others =>
      have several : joined (',' :: lineBreak level)
          (prettyFields .plain level ((name, v) :: other :: others)) =
          Spelling.plain.text name ++ [':', ' '] ++ prettyText .plain level v ++
            (',' :: lineBreak level) ++
              joined (',' :: lineBreak level) (prettyFields .plain level (other :: others)) := by
        obtain ⟨_, _⟩ := other
        simp only [prettyFields, joined_cons_cons]
      rw [several, List.length_append, List.length_append, List.length_append] at enough
      rw [several, List.append_assoc, List.append_assoc, prettyField_append, List.cons_append]
      obtain ⟨fuel, rfl⟩ := Nat.exists_eq_add_of_le' (show 2 ≤ fuel by omega)
      have read := value level fuel _ (follows_comma (lineBreak level ++
        (joined (',' :: lineBreak level) (prettyFields .plain level (other :: others)) ++
          (lineBreak closing ++ '}' :: rest)))) (by omega)
      rw [← skipBlanks_blank_prettyText level v] at read
      have begins : Begins (joined (',' :: lineBreak level)
          (prettyFields .plain level (other :: others))) := by
        obtain ⟨_, _⟩ := other
        rw [prettyFields]
        exact Begins.joined ⟨_, _, rfl, by decide⟩ _
      refine readFields_cons (readString_plain name _) (skipBlanks_of_not_blank (by decide) _) read
        (skipBlanks_of_not_blank (by decide) _) ?_
      rw [skipBlanks_lineBreak_append begins, inserted,
        ih (List.cons_ne_nil _ _) reads _ (by simpa using nodup) _ (by omega)]
      simp

theorem readsBack_obj {fields : List (String × Json)} (nodup : (Fields.names fields).Nodup)
    (reads : ∀ field ∈ fields, ReadsBack field.2) : ReadsBack (.obj fields) := by
  intro level fuel rest _ enough
  rw [prettyText] at enough ⊢
  cases fields with
  | nil =>
    rw [prettyFields]
    rfl
  | cons field others =>
    have hne : prettyFields .plain (level + 1) (field :: others) ≠ [] := by
      rw [prettyFields]
      exact List.cons_ne_nil _ _
    obtain ⟨tail, joins⟩ : ∃ tail, joined (',' :: lineBreak (level + 1))
        (prettyFields .plain (level + 1) (field :: others)) = '"' :: tail := by
      rw [prettyFields]
      obtain ⟨more, joins⟩ := exists_joined_cons (',' :: lineBreak (level + 1)) _ _
      exact ⟨_, joins⟩
    have length := congrArg List.length (block_of_parts '{' '}' level hne [])
    simp only [List.length_append, List.length_cons, List.length_nil] at length
    have read := readFields_joined (List.cons_ne_nil field others) reads (level + 1) level rest
      [] nodup fuel (by omega)
    rw [block_of_parts '{' '}' level hne]
    rw [joins, List.cons_append] at read ⊢
    refine readValue_fields ?_ read
    rw [skipBlanks_lineBreak, skipBlanks_of_opens (by decide)]

/-! ### Whole texts -/

theorem readsBack {v : Json} (wf : v.WellFormed) : ReadsBack v := by
  induction v using nestedInduction with
  | null => exact readsBack_null
  | bool b => exact readsBack_bool b
  | int n => exact readsBack_int n
  | double d => exact readsBack_double d
  | str s => exact readsBack_str s
  | arr items ih =>
    rw [wellFormed_arr_iff] at wf
    exact readsBack_arr fun v hv => ih v hv (wf v hv)
  | obj fields ih =>
    rw [wellFormed_obj_iff] at wf
    exact readsBack_obj wf.1 fun field hf => ih field hf (wf.2 field hf)

/-- A well-formed value that was written over lines is read again. -/
theorem read_pretty {v : Json} (wf : v.WellFormed) : read (pretty .plain v) = .ok v := by
  obtain ⟨c, tail, head, opens⟩ := begins_prettyText .plain 0 v
  have all : readValue (2 * (prettyText .plain 0 v).length + 1) (prettyText .plain 0 v) =
      .ok (v, []) := by
    have value := readsBack wf 0 (2 * (prettyText .plain 0 v).length) [] follows_nil (by omega)
    rwa [List.append_nil] at value
  have noMark : (prettyText .plain 0 v).head? ≠ some '\ufeff' := by
    rw [head]
    exact fun h => opens.ne (by decide) (Option.some.inj h)
  have skip : skipBlanks (prettyText .plain 0 v) = prettyText .plain 0 v := by
    rw [head, skipBlanks_of_opens opens]
  have readAll : readAll (prettyText .plain 0 v) = .ok v := by
    rw [readAll, if_neg noMark, skip]
    show (readValue _ _ >>= fun _ => _) = _
    rw [all]
    rfl
  rw [read, pretty, String.toList_ofList, readAll]

end Json

end Schemata

import Schemata.CommandLine.Run

/-!
# Printing written values

Control sequences are left out of what is printed. A value that is written as JSON has none: each
control character in a text or in a name is escaped, and nothing else that is written has any.
Spread over lines it has line breaks beside visible characters, but does not end in one, so that
printing adds exactly one line break.

## Main definitions

* `IsVisible`: a character that is no control character.

## Main results

* `visible_hexadecimal`, `visible_toText`: numbers are written in visible characters.
* `Json.visible_scalarText`: so are values that are no list and no object, in every spelling.
* `Json.visibleOrBreak_prettyText`, `Json.getLast?_prettyText_ne`: lists and objects over lines.
* `CommandLine.printed_pretty`: what is printed of a value.
-/

namespace Schemata

/-- No control character. Those behind the ASCII characters are not told apart from others. -/
def IsVisible (c : Char) : Prop := 0x20 ≤ c.toNat

instance (c : Char) : Decidable (IsVisible c) := inferInstanceAs (Decidable (_ ≤ _))

theorem visible_of_all {cs : List Char} (h : cs.all (IsVisible ·) = true) : ∀ c ∈ cs, IsVisible c :=
  fun c hc => of_decide_eq_true (List.all_eq_true.mp h c hc)

/-! ### Numbers -/

theorem visible_of_isDigit {c : Char} (h : c.isDigit = true) : IsVisible c := by
  rw [Char.isDigit, Bool.and_eq_true] at h
  have least : (0x30 : UInt32) ≤ c.val := of_decide_eq_true h.1
  exact Nat.le_trans (by decide) (UInt32.le_iff_toNat_le.mp least)

theorem visible_digitChar : ∀ digit < 16, IsVisible (Nat.digitChar digit) := by decide

/-- The induction is on the number, which loses its last digit. -/
theorem visible_toDigits (n : Nat) : ∀ c ∈ Nat.toDigits 16 n, IsVisible c := by
  induction n using Nat.strongRecOn with
  | ind n ih =>
    rw [Nat.toDigits_eq_if (by decide)]
    split
    · next small => exact List.forall_mem_singleton.mpr (visible_digitChar n small)
    · have less : n / 16 < n := by omega
      have last := visible_digitChar (n % 16) (Nat.mod_lt n (by decide))
      exact List.forall_mem_append.mpr ⟨ih _ less, List.forall_mem_singleton.mpr last⟩

theorem visible_hexadecimal (width n : Nat) : ∀ c ∈ hexadecimal width n, IsVisible c := by
  refine List.forall_mem_append.mpr ⟨fun c hc => ?_, visible_toDigits n⟩
  rw [(List.mem_replicate.mp hc).2]
  decide

theorem visible_toString_nat (n : Nat) : ∀ c ∈ (toString n).toList, IsVisible c := by
  intro c hc
  have digits : (toString n).toList = Nat.toDigits 10 n := String.toList_ofList
  rw [digits] at hc
  exact visible_of_isDigit (Nat.isDigit_of_mem_toDigits (by decide) (by decide) hc)

theorem visible_toString_int : (n : Int) → ∀ c ∈ (toString n).toList, IsVisible c
  | .ofNat n => visible_toString_nat n
  | .negSucc n => by
    have signed : toString (Int.negSucc n) = "-" ++ toString (n + 1) := rfl
    rw [signed, String.toList_append]
    exact List.forall_mem_append.mpr ⟨visible_of_all (by decide), visible_toString_nat (n + 1)⟩

theorem visible_toText (d : Double) : ∀ c ∈ d.toText.toList, IsVisible c := by
  intro c hc
  have numeral := Double.numeral_of_toText d c hc
  simp only [Double.isNumeral, Bool.or_eq_true, beq_iff_eq] at numeral
  rcases numeral with (((digit | rfl) | rfl) | rfl) | rfl
  · exact visible_of_isDigit digit
  all_goals decide

namespace Json

variable (spelling : Spelling)

/-! ### Texts -/

theorem Spelling.visible_unitEscape (unit : Nat) : ∀ c ∈ unitEscape unit, IsVisible c :=
  List.forall_mem_append.mpr ⟨visible_of_all (by decide), visible_hexadecimal 4 unit⟩

theorem Spelling.visible_escape (c : Char) : ∀ d ∈ escape c, IsVisible d := by
  rw [escape]
  split
  · exact visible_unitEscape _
  · exact List.forall_mem_append.mpr ⟨visible_unitEscape _, visible_unitEscape _⟩

/-- Seven characters have escapes of their own, among them the line break and the tab; every other
control character has the escape of its code. -/
theorem Spelling.visible_char (c : Char) : ∀ d ∈ spelling.char c, IsVisible d := by
  rw [Spelling.char]
  split
  · next special =>
    refine List.forall_mem_cons.mpr ⟨by decide, List.forall_mem_singleton.mpr ?_⟩
    rcases special with rfl | rfl
    · decide
    · decide
  iterate 5
    split
    · exact visible_of_all (by decide)
  split
  · exact visible_escape c
  · next noControl =>
    split
    · exact visible_escape c
    split
    · exact visible_escape c
    · exact List.forall_mem_singleton.mpr (Nat.le_of_not_lt noControl)

theorem Spelling.visible_text (s : String) : ∀ c ∈ spelling.text s, IsVisible c := by
  have quote : ∀ c ∈ ['"'], IsVisible c := visible_of_all (by decide)
  refine List.forall_mem_append.mpr ⟨List.forall_mem_append.mpr ⟨quote, ?_⟩, quote⟩
  intro d hd
  obtain ⟨c, -, hd⟩ := List.mem_flatMap.mp hd
  exact spelling.visible_char c d hd

theorem visible_scalarText (v : Json) : ∀ c ∈ scalarText spelling v, IsVisible c := by
  cases v with
  | null =>
    rw [scalarText]
    exact visible_of_all (by decide)
  | bool b =>
    rw [scalarText]
    cases b with
    | false => exact visible_of_all (by decide)
    | true => exact visible_of_all (by decide)
  | int n => exact visible_toString_int n
  | double d => exact visible_toText d
  | str s => exact spelling.visible_text s
  | arr items => exact fun c hc => absurd hc List.not_mem_nil
  | obj fields => exact fun c hc => absurd hc List.not_mem_nil

/-! ### Lines -/

/-- A character of a text of several lines. -/
def IsVisibleOrBreak (c : Char) : Prop := c = '\n' ∨ IsVisible c

section Lines

variable {spelling : Spelling}

theorem visibleOrBreak_lineBreak (level : Nat) : ∀ c ∈ lineBreak level, IsVisibleOrBreak c := by
  refine List.forall_mem_cons.mpr ⟨.inl rfl, fun c hc => .inr ?_⟩
  rw [(List.mem_replicate.mp hc).2]
  decide

theorem visibleOrBreak_joined {separator : List Char}
    (between : ∀ c ∈ separator, IsVisibleOrBreak c) {parts : List (List Char)}
    (h : ∀ part ∈ parts, ∀ c ∈ part, IsVisibleOrBreak c) :
    ∀ c ∈ joined separator parts, IsVisibleOrBreak c := by
  fun_induction joined separator parts with
  | case1 => exact fun c hc => absurd hc List.not_mem_nil
  | case2 part => exact h part List.mem_cons_self
  | case3 part rest _ ih =>
    obtain ⟨first, others⟩ := List.forall_mem_cons.mp h
    exact List.forall_mem_append.mpr ⟨List.forall_mem_append.mpr ⟨first, between⟩, ih others⟩

theorem visibleOrBreak_block {opening closing : Char} (before : IsVisible opening)
    (behind : IsVisible closing) (level : Nat) {parts : List (List Char)}
    (h : ∀ part ∈ parts, ∀ c ∈ part, IsVisibleOrBreak c) :
    ∀ c ∈ block opening closing level parts, IsVisibleOrBreak c := by
  have separator : ∀ c ∈ ',' :: lineBreak (level + 1), IsVisibleOrBreak c :=
    List.forall_mem_cons.mpr ⟨.inr (by decide), visibleOrBreak_lineBreak _⟩
  rw [block]
  split
  · exact List.forall_mem_cons.mpr ⟨.inr before, List.forall_mem_singleton.mpr (.inr behind)⟩
  · simp only [List.forall_mem_append, List.forall_mem_singleton]
    exact ⟨⟨⟨⟨.inr before, visibleOrBreak_lineBreak _⟩, visibleOrBreak_joined separator h⟩,
      visibleOrBreak_lineBreak _⟩, .inr behind⟩

theorem getLast?_block (opening closing : Char) (level : Nat) (parts : List (List Char)) :
    (block opening closing level parts).getLast? = some closing := by
  rw [block]
  split
  · rfl
  · rw [List.getLast?_append]
    rfl

mutual

theorem visibleOrBreak_prettyText (level : Nat) :
    (v : Json) → ∀ c ∈ prettyText spelling level v, IsVisibleOrBreak c
  | .arr items => by
    rw [prettyText]
    exact visibleOrBreak_block (by decide) (by decide) level
      (visibleOrBreak_prettyItems (level + 1) items)
  | .obj fields => by
    rw [prettyText]
    exact visibleOrBreak_block (by decide) (by decide) level
      (visibleOrBreak_prettyFields (level + 1) fields)
  | .null | .bool _ | .int _ | .double _ | .str _ => by
    rw [prettyText]
    exact fun c hc => .inr (visible_scalarText spelling _ c hc)

theorem visibleOrBreak_prettyItems (level : Nat) :
    (items : List Json) → ∀ part ∈ prettyItems spelling level items, ∀ c ∈ part, IsVisibleOrBreak c
  | [] => by
    rw [prettyItems]
    exact fun part hpart => absurd hpart List.not_mem_nil
  | v :: rest => by
    rw [prettyItems]
    exact List.forall_mem_cons.mpr
      ⟨visibleOrBreak_prettyText level v, visibleOrBreak_prettyItems level rest⟩

theorem visibleOrBreak_prettyFields (level : Nat) : (fields : List (String × Json)) →
    ∀ part ∈ prettyFields spelling level fields, ∀ c ∈ part, IsVisibleOrBreak c
  | [] => by
    rw [prettyFields]
    exact fun part hpart => absurd hpart List.not_mem_nil
  | (name, v) :: rest => by
    have colon : ∀ c ∈ [':', ' '], IsVisible c := visible_of_all (by decide)
    rw [prettyFields]
    refine List.forall_mem_cons.mpr ⟨?_, visibleOrBreak_prettyFields level rest⟩
    refine List.forall_mem_append.mpr ⟨fun c hc => .inr ?_, visibleOrBreak_prettyText level v⟩
    exact List.forall_mem_append.mpr ⟨spelling.visible_text name, colon⟩ c hc

end

theorem getLast?_prettyText_ne (level : Nat) (v : Json) :
    (prettyText spelling level v).getLast? ≠ some '\n' := by
  have scalar : ∀ v, (scalarText spelling v).getLast? ≠ some '\n' := fun v h =>
    absurd (visible_scalarText spelling v _ (List.mem_of_getLast? h)) (by decide)
  cases v with
  | arr items =>
    rw [prettyText, getLast?_block]
    decide
  | obj fields =>
    rw [prettyText, getLast?_block]
    decide
  | _ =>
    rw [prettyText]
    exact scalar _

end Lines

end Json

namespace CommandLine

/-- A value is printed as it is written, with a line break at the end. -/
theorem printed_pretty (spelling : Json.Spelling) (v : Json) :
    printed (endedLine (Json.pretty spelling v)) = Json.pretty spelling v ++ "\n" := by
  have characters : (Json.pretty spelling v).toList = Json.prettyText spelling 0 v :=
    String.toList_ofList
  have ended : endedLine (Json.pretty spelling v) = Json.pretty spelling v ++ "\n" := by
    rw [endedLine, characters, if_neg (Json.getLast?_prettyText_ne 0 v)]
  have noEscape : ∀ c ∈ (Json.pretty spelling v ++ "\n").toList, c ≠ '\x1b' := by
    rw [String.toList_append, characters]
    refine List.forall_mem_append.mpr ⟨fun c hc => ?_, List.forall_mem_singleton.mpr (by decide)⟩
    rcases Json.visibleOrBreak_prettyText 0 v c hc with rfl | visible
    · decide
    · rintro rfl
      exact absurd visible (by decide)
  rw [ended, printed, plain_eq_self noEscape, String.ofList_toList]

end CommandLine

end Schemata

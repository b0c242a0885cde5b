import Schemata.Proofs.Expression.Cuts
import Schemata.Proofs.Expression.Regular

/-!
# Expressions inside an expression

Reading goes from an expression to the expressions inside its form, and from these further down.
Each of them is a stretch of the text: it is cut out, and nothing is put into it. A word that does
not occur in a text thus occurs in no expression inside it.

## Main definitions

* `ExpressionIn`: the expressions that reading a text can come to.

## Main results

* `Member.suffix_of_read?`: the type of a member stands at the end of its text.
* `infix_of_mem_splitTop`: the parts of a text are stretches of it.
* `Form.infix_of_mem_components`: so are the components of its form.
* `ExpressionIn.isInfix`: so are all expressions inside it.
-/

namespace Schemata

/-! ### Members of object literals -/

namespace Member

variable {text rest : List Char}

theorem suffix_of_behindWord? {word : String} (h : behindWord? word text = some rest) :
    rest <:+ text := by
  rw [behindWord?] at h
  split at h
  · cases h
    exact List.drop_suffix _ _
  · cases h

theorem suffix_of_behindReadonly? (h : behindReadonly? text = some rest) : rest <:+ text := by
  rw [behindReadonly?] at h
  split at h
  · next c tail hword =>
    split at h
    · cases h
      have behind : c :: tail <:+ text := suffix_of_behindWord? hword
      exact (List.dropWhile_suffix _).trans ((List.suffix_cons c tail).trans behind)
    · cases h
  · cases h

theorem suffix_of_behindChar? {c : Char} (h : behindChar? c text = some rest) : rest <:+ text := by
  rw [behindChar?] at h
  split at h
  · next d tail hstart =>
    split at h
    · cases h
      have start : d :: rest <:+ text := hstart ▸ List.dropWhile_suffix _
      exact (List.suffix_cons d rest).trans start
    · cases h
  · cases h

theorem suffix_of_typeBehindColon? (h : typeBehindColon? text = some rest) : rest <:+ text := by
  rw [typeBehindColon?] at h
  split at h
  · next tail hcolon =>
    split at h
    · cases h
    · cases h
      exact (List.dropWhile_suffix _).trans (suffix_of_behindChar? hcolon)
  · cases h

theorem suffix_of_readName? {name : List Char} (h : readName? text = some (name, rest)) :
    rest <:+ text := by
  rw [readName?.eq_def] at h
  split at h
  · cases h
  · next c tail =>
    split at h
    · split at h
      · next d after hafter =>
        cases h
        have quoted : d :: rest <:+ tail := hafter ▸ List.dropWhile_suffix _
        exact ((List.suffix_cons d rest).trans quoted).trans (List.suffix_cons c tail)
      · cases h
    · split at h
      · cases h
        exact List.dropWhile_suffix _
      · cases h

theorem suffix_readOptional (text : List Char) : (readOptional text).2 <:+ text := by
  rw [readOptional.eq_def]
  split
  · exact List.suffix_cons _ _
  · exact List.suffix_refl _

theorem suffix_of_readProperty? {m : Member} (h : readProperty? text = some m) :
    m.type <:+ text := by
  simp only [readProperty?, Option.bind_eq_bind, Option.bind_eq_some_iff, Option.pure_def,
    Option.some.injEq, Prod.exists] at h
  obtain ⟨name, rest, hname, type, htype, rfl⟩ := h
  have behind := suffix_of_typeBehindColon? htype
  exact behind.trans ((suffix_readOptional rest).trans (suffix_of_readName? hname))

theorem suffix_of_behindKey? (h : behindKey? text = some rest) : rest <:+ text := by
  rw [behindKey?] at h
  split at h
  · cases h
  · cases h
    exact List.dropWhile_suffix _

theorem suffix_of_readIndex? {m : Member} (h : readIndex? text = some m) : m.type <:+ text := by
  rw [readIndex?.eq_def] at h
  split at h
  · next tail =>
    simp only [Option.bind_eq_bind, Option.bind_eq_some_iff, Option.pure_def, Option.some.injEq,
      Option.orElse_eq_orElse, Option.orElse_eq_or, Option.or_eq_some_iff] at h
    obtain ⟨key, hkey, colon, hcolon, word, hword, bracket, hbracket, type, htype, rfl⟩ := h
    have behindWord : word <:+ stripStart colon := by
      rcases hword with hword | ⟨-, hword⟩ <;> exact suffix_of_behindWord? hword
    have behindColon : word <:+ key :=
      (behindWord.trans (List.dropWhile_suffix _)).trans (suffix_of_behindChar? hcolon)
    have behindKey : key <:+ tail := (suffix_of_behindKey? hkey).trans (List.dropWhile_suffix _)
    have behind : type <:+ word :=
      (suffix_of_typeBehindColon? htype).trans (suffix_of_behindChar? hbracket)
    exact (behind.trans (behindColon.trans behindKey)).trans (List.suffix_cons _ _)
  · cases h

theorem suffix_of_mem_bodies {body : List Char} (h : body ∈ bodies text) : body <:+ text := by
  rcases List.mem_append.mp h with h | h
  · exact suffix_of_behindReadonly? (Option.mem_toList.mp h)
  · obtain rfl := List.mem_singleton.mp h
    exact List.suffix_refl _

theorem suffix_of_read? {m : Member} (h : read? text = some m) : m.type <:+ text := by
  rw [read?, Option.orElse_eq_orElse, Option.orElse_eq_or] at h
  rcases Option.or_eq_some_iff.mp h with h | ⟨-, h⟩
  · obtain ⟨body, hbody, hm⟩ := List.exists_of_findSome?_eq_some h
    exact (suffix_of_readProperty? hm).trans (suffix_of_mem_bodies hbody)
  · obtain ⟨body, hbody, hm⟩ := List.exists_of_findSome?_eq_some h
    exact (suffix_of_readIndex? hm).trans (suffix_of_mem_bodies hbody)

end Member

/-! ### Parts of a text -/

theorem infix_strip (text : List Char) : strip text <:+: text := by
  obtain ⟨front, back, htext, -, -⟩ := exists_padding text
  exact ⟨front, back, htext.symm⟩

theorem infix_interior (text : List Char) : interior text <:+: text :=
  (List.dropLast_prefix _).isInfix.trans (List.tail_suffix text).isInfix

theorem Cuts.infix_of_mem {delimiter : List Char} {s : Scan} {parts : List (List Char)}
    {text : List Char} (h : Cuts delimiter s parts text) {part : List Char} (hpart : part ∈ parts) :
    part <:+: text := by
  induction h with
  | last =>
    obtain rfl := List.mem_singleton.mp hpart
    exact List.infix_refl _
  | @cut s first rest parts uncut top _ ih =>
    rcases List.mem_cons.mp hpart with rfl | hpart
    · exact (List.prefix_append part _).isInfix
    · have behind : rest <:+ first ++ (delimiter ++ rest) :=
        (List.suffix_append delimiter rest).trans (List.suffix_append first _)
      exact (ih hpart).trans behind.isInfix

theorem infix_of_mem_splitTop {d : Char} (hd : isStructural d = false) {text part : List Char}
    (h : part ∈ splitTop [d] text) : part <:+: text := by
  rw [splitTop_eq, mem_nonblankParts_iff] at h
  obtain ⟨segment, hsegment, rfl, -⟩ := h
  exact (infix_strip segment).trans ((cuts_segments hd [] .start text).infix_of_mem hsegment)

/-! ### Components of a form -/

namespace Form

variable {expr x : List Char}

theorem infix_of_application {base first : List Char} {others : List (List Char)}
    (h : application? expr = some (base, first, others)) : ∀ x ∈ first :: others, x <:+: expr := by
  simp only [application?] at h
  split at h
  · split at h
    · cases h
    · next f os hsplit =>
      cases h
      intro x hx
      rw [← hsplit] at hx
      have brackets : expr.dropWhile (fun c => decide (c ≠ '<')) <:+: expr :=
        (List.dropWhile_suffix _).isInfix
      exact (infix_of_mem_splitTop (by decide) hx).trans ((infix_interior _).trans brackets)
  · cases h

theorem infix_of_element {element : List Char} (h : element? expr = some element) :
    element <:+: expr := by
  rw [element?] at h
  split at h
  · cases h
    exact ((List.dropLast_prefix _).trans (List.dropLast_prefix _)).isInfix
  · cases h

theorem infix_of_mem_membersOf {m : Member} (h : m ∈ membersOf expr) : m.type <:+: expr := by
  simp only [membersOf, List.mem_filterMap, List.mem_flatMap] at h
  obtain ⟨text, ⟨part, hpart, htext⟩, hm⟩ := h
  have inner : part <:+: interior expr := infix_of_mem_splitTop (by decide) hpart
  have outer : text <:+: part := infix_of_mem_splitTop (by decide) htext
  exact ((Member.suffix_of_read? hm).isInfix.trans outer).trans (inner.trans (infix_interior _))

theorem infix_of_mem_components_ofText (h : x ∈ (ofText expr).components) : x <:+: expr := by
  rw [ofText] at h
  split at h
  · rw [List.mem_singleton.mp h]
    exact infix_interior expr
  split at h
  · exact infix_of_mem_splitTop (by decide) (mem_of_mem_components_ofUnion h)
  split at h
  · exact infix_of_mem_splitTop (d := '&') (by decide) h
  split at h
  · next helement =>
    rw [List.mem_singleton.mp h]
    exact infix_of_element helement
  split at h
  · obtain ⟨m, hm, rfl⟩ := List.mem_map.mp h
    exact infix_of_mem_membersOf hm
  split at h
  · exact (infix_of_mem_splitTop (d := ',') (by decide) h).trans (infix_interior expr)
  split at h
  · next happlication =>
    exact infix_of_application happlication x (mem_of_mem_components_ofApplication h)
  · split at h
    · exact absurd h List.not_mem_nil
    · split at h <;> exact absurd h List.not_mem_nil

theorem infix_of_mem_components {overrides : Fields Schema}
    (h : x ∈ (Form.of overrides expr).components) : x <:+: expr := by
  rcases of_cases overrides expr with hblank | ⟨_, _, hknown, -⟩ | htext
  · rw [hblank] at h
    exact absurd h List.not_mem_nil
  · rw [hknown] at h
    exact absurd h List.not_mem_nil
  · rw [htext] at h
    exact infix_of_mem_components_ofText h

end Form

/-! ### All the way down -/

/-- The expressions inside a text, itself among them. -/
inductive ExpressionIn (overrides : Fields Schema) (text : List Char) : List Char → Prop
  | whole : ExpressionIn overrides text text
  | component {expr x : List Char} (within : ExpressionIn overrides text expr)
      (mem : x ∈ (Form.of overrides (strip expr)).components) : ExpressionIn overrides text x

theorem ExpressionIn.isInfix {overrides : Fields Schema} {text expr : List Char}
    (h : ExpressionIn overrides text expr) : expr <:+: text := by
  induction h with
  | whole => exact List.infix_refl text
  | @component expr x _ mem ih =>
    exact (Form.infix_of_mem_components mem).trans ((infix_strip expr).trans ih)

end Schemata

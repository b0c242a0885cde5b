import Schemata.Report
import Schemata.Proofs.CommandLine.Printed
import Schemata.Proofs.Json.ReadPretty
import Schemata.Proofs.Schema.WellFormedDocument
import Mathlib.Data.List.Chain

/-!
# The blocks of a report

The JSON forms of merged schemas stand in a report between fences, in lines of their own. Whoever
reads the report line by line takes what follows an opening fence, up to the first line that is
exactly a fence, and reads it as JSON. What the samples held cannot break this: a text in a JSON
form takes one line and stands between quotes, and what comes first in a line of JSON is never a
backquote.

## Main definitions

* `Report.jsonBlocks`: the blocks of JSON among lines, each with its heading.
* `Json.Unfenced`: no line of the text begins with a backquote.

## Main results

* `Json.unfenced_prettyText`: no line of a value begins with a backquote.
* `Report.lines_render`: the lines of a report.
* `Report.jsonBlocks_sections`: the blocks among the lines of sections are the written values.
* `Report.blocks_read_back`: the blocks of a report on loaded schemas are read as their JSON forms.

## What is deliberately absent

The report has no table of occurrences here. The rows of one hold paths, which are not escaped, so
that a line of it can be anything.
-/

namespace Schemata

namespace Json

/-! ### Lines of JSON -/

/-- Behind a line break there is no backquote, and neither is there one at the start. -/
def Unfenced (text : List Char) : Prop :=
  List.IsChain (fun a b => a = '\n' → b ≠ '\x60') ('\n' :: text)

theorem unfenced_nil : Unfenced [] := .singleton _

theorem Unfenced.append {text rest : List Char} (h : Unfenced text) (h' : Unfenced rest) :
    Unfenced (text ++ rest) := by
  obtain ⟨head, chain⟩ := List.isChain_cons.mp h'
  exact List.IsChain.append h chain fun _ _ c hc _ => head c hc rfl

theorem unfenced_cons {c : Char} {rest : List Char} (hc : c ≠ '\x60') (h : Unfenced rest) :
    Unfenced (c :: rest) := by
  have single : Unfenced [c] := by
    refine List.isChain_cons.mpr ⟨?_, .singleton _⟩
    rintro _ ⟨⟩ -
    exact hc
  exact single.append h

/-- In a text without line breaks only the first character begins a line. -/
theorem unfenced_of_visible {c : Char} {rest : List Char} (hc : c ≠ '\x60')
    (visible : ∀ d ∈ c :: rest, IsVisible d) : Unfenced (c :: rest) := by
  have chain : ∀ text : List Char, (∀ d ∈ text, IsVisible d) →
      List.IsChain (fun a b => a = '\n' → b ≠ '\x60') text := by
    intro text
    induction text with
    | nil => exact fun _ => .nil
    | cons d text ih =>
      intro h
      rw [List.forall_mem_cons] at h
      refine List.isChain_cons.mpr ⟨?_, ih h.2⟩
      rintro _ _ rfl
      exact absurd h.1 (by decide)
  refine List.isChain_cons.mpr ⟨?_, chain _ visible⟩
  rintro _ ⟨⟩ -
  exact hc

theorem unfenced_lineBreak (level : Nat) : Unfenced (lineBreak level) := by
  have blanks : ∀ n, Unfenced (List.replicate n ' ') := by
    intro n
    induction n with
    | zero => exact unfenced_nil
    | succ n ih => exact unfenced_cons (by decide) ih
  exact unfenced_cons (by decide) (blanks _)

theorem unfenced_joined {separator : List Char} (between : Unfenced separator)
    {parts : List (List Char)} (h : ∀ part ∈ parts, Unfenced part) :
    Unfenced (joined separator parts) := by
  fun_induction joined separator parts with
  | case1 => exact unfenced_nil
  | case2 part => exact h part List.mem_cons_self
  | case3 part rest _ ih =>
    rw [List.forall_mem_cons] at h
    exact (h.1.append between).append (ih h.2)

theorem unfenced_block {opening closing : Char} (before : opening ≠ '\x60')
    (behind : closing ≠ '\x60') (level : Nat) {parts : List (List Char)}
    (h : ∀ part ∈ parts, Unfenced part) : Unfenced (block opening closing level parts) := by
  have first : Unfenced [opening] := unfenced_cons before unfenced_nil
  have last : Unfenced [closing] := unfenced_cons behind unfenced_nil
  have separator : Unfenced (',' :: lineBreak (level + 1)) :=
    unfenced_cons (by decide) (unfenced_lineBreak _)
  rw [block]
  split
  · exact first.append last
  · exact (((first.append (unfenced_lineBreak _)).append (unfenced_joined separator h)).append
      (unfenced_lineBreak _)).append last

theorem unfenced_text (spelling : Spelling) (s : String) : Unfenced (spelling.text s) :=
  unfenced_of_visible (by decide) (spelling.visible_text s)

variable {spelling : Spelling}

theorem unfenced_scalarText {level : Nat} {v : Json}
    (scalar : prettyText spelling level v = scalarText spelling v) :
    Unfenced (prettyText spelling level v) := by
  obtain ⟨c, rest, head, opens⟩ := begins_prettyText spelling level v
  have visible := visible_scalarText spelling v
  rw [← scalar, head] at visible
  rw [head]
  exact unfenced_of_visible (opens.ne (by decide)) visible

mutual

theorem unfenced_prettyText (level : Nat) :
    (v : Json) → Unfenced (prettyText spelling level v)
  | .arr items => by
    rw [prettyText]
    exact unfenced_block (by decide) (by decide) level (unfenced_prettyItems (level + 1) items)
  | .obj fields => by
    rw [prettyText]
    exact unfenced_block (by decide) (by decide) level (unfenced_prettyFields (level + 1) fields)
  | .null | .bool _ | .int _ | .double _ | .str _ => unfenced_scalarText (by rw [prettyText])

theorem unfenced_prettyItems (level : Nat) :
    (items : List Json) → ∀ part ∈ prettyItems spelling level items, Unfenced part
  | [] => by
    rw [prettyItems]
    exact fun part hpart => absurd hpart List.not_mem_nil
  | v :: rest => by
    rw [prettyItems]
    exact List.forall_mem_cons.mpr ⟨unfenced_prettyText level v, unfenced_prettyItems level rest⟩

theorem unfenced_prettyFields (level : Nat) :
    (fields : List (String × Json)) → ∀ part ∈ prettyFields spelling level fields, Unfenced part
  | [] => by
    rw [prettyFields]
    exact fun part hpart => absurd hpart List.not_mem_nil
  | (name, v) :: rest => by
    have colon : Unfenced [':', ' '] :=
      unfenced_cons (by decide) (unfenced_cons (by decide) unfenced_nil)
    rw [prettyFields]
    exact List.forall_mem_cons.mpr
      ⟨((unfenced_text spelling name).append colon).append (unfenced_prettyText level v),
        unfenced_prettyFields level rest⟩

end

/-- The first line begins where the text does, every other behind a line break. -/
theorem head?_line_of_unfenced {text : List Char} (h : Unfenced text) :
    ∀ line ∈ text.splitOn '\n', line.head? ≠ some '\x60' := by
  -- of a text that goes on in a line, only the lines after the first are told something
  have lines : ∀ (text : List Char) (c : Char),
      List.IsChain (fun a b => a = '\n' → b ≠ '\x60') (c :: text) →
        ∃ first others, text.splitOn '\n' = first :: others ∧
          (c = '\n' → first.head? ≠ some '\x60') ∧ ∀ line ∈ others, line.head? ≠ some '\x60' := by
    intro text
    induction text with
    | nil =>
      intro c _
      exact ⟨[], [], rfl, nofun, fun _ h => absurd h List.not_mem_nil⟩
    | cons d text ih =>
      intro c chain
      obtain ⟨here, chain⟩ := List.isChain_cons_cons.mp chain
      obtain ⟨first, others, split, begins, rest⟩ := ih d chain
      rw [List.splitOn_cons_eq_if_modifyHead, split]
      by_cases lineBreak : d = '\n'
      · refine ⟨[], first :: others, by rw [if_pos (beq_iff_eq.mpr lineBreak)], nofun, ?_⟩
        exact List.forall_mem_cons.mpr ⟨begins lineBreak, rest⟩
      · refine ⟨d :: first, others, ?_, fun hc heq => here hc (Option.some.inj heq), rest⟩
        rw [if_neg (by simpa using lineBreak)]
        rfl
  obtain ⟨first, others, split, begins, rest⟩ := lines text '\n' h
  rw [split]
  exact List.forall_mem_cons.mpr ⟨begins rfl, rest⟩

end Json

namespace Report

/-! ### Blocks -/

def heading (title : String) : String := "## Merged " ++ title ++ " schema"

def opening : List Char := "\x60\x60\x60json".toList

def fence : List Char := "\x60\x60\x60".toList

def lines (text : String) : List (List Char) := text.toList.splitOn '\n'

def ofLines (lines : List (List Char)) : String := String.ofList (['\n'].intercalate lines)

/-- The blocks of JSON among lines. A block has a heading, an empty line, an opening fence, and the
lines from there to the first that is exactly a fence; these lines are its text. A block that is not
closed is none. -/
def jsonBlocks : List (List Char) → List (String × String)
  | title :: blank :: start :: rest =>
    if blank = [] ∧ start = opening then
      match _h : rest.dropWhile (· ≠ fence) with
      | [] => []
      | _ :: after =>
        (String.ofList title, ofLines (rest.takeWhile (· ≠ fence))) :: jsonBlocks after
    else jsonBlocks (blank :: start :: rest)
  | _ => []
termination_by lines => lines.length
decreasing_by
  · have shorter := (List.dropWhile_sublist (l := rest) (· ≠ fence)).length_le
    rw [_h] at shorter
    simp only [List.length_cons] at shorter ⊢
    omega
  · simp

/-- A line that no opening fence follows is passed over. -/
theorem jsonBlocks_cons {line : List Char} {rest : List (List Char)}
    (h : ∀ after, rest ≠ [] :: opening :: after) : jsonBlocks (line :: rest) = jsonBlocks rest := by
  match rest with
  | blank :: start :: after =>
    rw [jsonBlocks, if_neg]
    rintro ⟨rfl, rfl⟩
    exact h after rfl
  | [] | [_] => simp [jsonBlocks]

theorem jsonBlocks_block (title : List Char) {body : List (List Char)}
    (inside : ∀ line ∈ body, line ≠ fence) (after : List (List Char)) :
    jsonBlocks (title :: [] :: opening :: (body ++ fence :: after)) =
      (String.ofList title, ofLines body) :: jsonBlocks after := by
  have other : ∀ line ∈ body, decide (line ≠ fence) = true :=
    fun line hline => decide_eq_true (inside line hline)
  have taken : (body ++ fence :: after).takeWhile (· ≠ fence) = body := by
    rw [List.takeWhile_append_of_pos other, List.takeWhile_cons_of_neg (by simp), List.append_nil]
  have dropped : (body ++ fence :: after).dropWhile (· ≠ fence) = fence :: after := by
    rw [List.dropWhile_append_of_pos other, List.dropWhile_cons_of_neg (by simp)]
  rw [jsonBlocks, if_pos ⟨rfl, rfl⟩, taken]
  split
  · next none => cases dropped.symm.trans none
  · next some => rw [(List.cons.inj (dropped.symm.trans some)).2]

/-! ### The lines of a report -/

/-- The lines of a section; the first ends the line before. -/
def sectionLines (title : String) (document : Json) : List (List Char) :=
  [] :: (heading title).toList :: [] :: opening :: (lines (Json.pretty .plain document) ++ [fence])

def sectionsLines (merged : List (String × Json)) : List (List Char) :=
  merged.flatMap (fun entry => sectionLines entry.1 entry.2) ++ [[]]

theorem lines_append (text rest : String) :
    lines (text ++ "\n" ++ rest) = lines text ++ lines rest := by
  have characters : (text ++ "\n" ++ rest).toList = text.toList ++ '\n' :: rest.toList := by
    rw [String.toList_append, String.toList_append, List.append_assoc]
    rfl
  rw [lines, characters, List.splitOn_append_cons_self]
  rfl

theorem lines_single {text : String} (unbroken : '\n' ∉ text.toList) :
    lines text = [text.toList] :=
  List.splitOn_eq_singleton unbroken

theorem toList_append_append (first second third : String) :
    (first ++ second ++ third).toList = first.toList ++ second.toList ++ third.toList := by
  rw [String.toList_append, String.toList_append]

theorem lines_between {first middle last : String} (before : '\n' ∉ first.toList)
    (inside : '\n' ∉ middle.toList) (behind : '\n' ∉ last.toList) :
    lines (first ++ middle ++ last) = [(first ++ middle ++ last).toList] := by
  refine lines_single ?_
  rw [toList_append_append, List.mem_append, List.mem_append, not_or, not_or]
  exact ⟨⟨before, inside⟩, behind⟩

theorem sectionText_append (title : String) (document : Json) (rest : String) :
    sectionText title document ++ rest =
      "" ++ "\n" ++ (heading title ++ "\n" ++ ("" ++ "\n" ++ ("\x60\x60\x60json" ++ "\n" ++
        (Json.pretty .plain document ++ "\n" ++ ("\x60\x60\x60" ++ "\n" ++ rest))))) := by
  have head : ("\n## Merged " : String) = "" ++ "\n" ++ "## Merged " := by decide
  have middle : (" schema\n\n\x60\x60\x60json\n" : String) =
      " schema" ++ "\n" ++ ("" ++ "\n" ++ ("\x60\x60\x60json" ++ "\n")) := by decide
  have foot : ("\n\x60\x60\x60\n" : String) = "\n" ++ ("\x60\x60\x60" ++ "\n") := by decide
  show "\n## Merged " ++ title ++ " schema\n\n\x60\x60\x60json\n" ++ Json.pretty .plain document
    ++ "\n\x60\x60\x60\n" ++ rest = _
  rw [head, middle, foot, heading]
  simp only [String.append_assoc]

theorem lines_sectionText {title : String} (unbroken : '\n' ∉ title.toList) (document : Json)
    (rest : String) :
    lines (sectionText title document ++ rest) = sectionLines title document ++ lines rest := by
  have title : lines (heading title) = [(heading title).toList] :=
    lines_between (by decide) unbroken (by decide)
  have empty : lines "" = [[]] := rfl
  have start : lines "\x60\x60\x60json" = [opening] := lines_single (by decide)
  have stop : lines "\x60\x60\x60" = [fence] := lines_single (by decide)
  rw [sectionText_append, lines_append, empty, lines_append, title, lines_append, empty,
    lines_append, start, lines_append, lines_append, stop, sectionLines]
  simp only [List.nil_append, List.cons_append, List.append_assoc]

theorem lines_sectionsText {merged : List (String × Json)}
    (titles : ∀ entry ∈ merged, '\n' ∉ entry.1.toList) :
    lines (String.join (merged.map fun (title, document) => sectionText title document)) =
      sectionsLines merged := by
  induction merged with
  | nil => rfl
  | cons entry rest ih =>
    rw [List.forall_mem_cons] at titles
    rw [List.map_cons, String.join_cons, lines_sectionText titles.1, ih titles.2, sectionsLines,
      sectionsLines, List.flatMap_cons, List.append_assoc]

/-- The command that made the report. -/
def madeBy (commandLine : String) : String := "Generated by: \x60" ++ commandLine ++ "\x60"

-- stated, as the equation that is generated for the definition takes seconds
theorem madeBy_eq (commandLine : String) :
    madeBy commandLine = "Generated by: \x60" ++ commandLine ++ "\x60" := rfl

theorem render_eq (commandLine : String) (merged : List (String × Json)) :
    render { commandLine := commandLine, merged := merged } =
      "# Schema inference report" ++ "\n" ++ ("" ++ "\n" ++ (madeBy commandLine ++ "\n" ++
        String.join (merged.map fun (title, document) => sectionText title document))) := by
  have head : ("# Schema inference report\n\nGenerated by: \x60" : String) =
      "# Schema inference report" ++ "\n" ++ ("" ++ "\n" ++ "Generated by: \x60") := by decide
  have foot : ("\x60\n" : String) = "\x60" ++ "\n" := by decide
  have rendered : render { commandLine := commandLine, merged := merged } =
      "# Schema inference report\n\nGenerated by: \x60" ++ commandLine ++ "\x60\n" ++
        String.join (merged.map fun (title, document) => sectionText title document) :=
    String.append_empty
  rw [rendered, head, foot, madeBy_eq]
  simp only [String.append_assoc]

theorem lines_render {commandLine : String} (unbroken : '\n' ∉ commandLine.toList)
    {merged : List (String × Json)} (titles : ∀ entry ∈ merged, '\n' ∉ entry.1.toList) :
    lines (render { commandLine := commandLine, merged := merged }) =
      "# Schema inference report".toList :: [] :: (madeBy commandLine).toList ::
        sectionsLines merged := by
  have command : lines (madeBy commandLine) = [(madeBy commandLine).toList] :=
    lines_between (by decide) unbroken (by decide)
  have head : lines "# Schema inference report" = ["# Schema inference report".toList] :=
    lines_single (by decide)
  have empty : lines "" = [[]] := rfl
  rw [render_eq, lines_append, head, lines_append, empty, lines_append, command,
    lines_sectionsText titles]
  simp only [List.singleton_append]

/-! ### The blocks of a report -/

theorem line_ne_fence (document : Json) :
    ∀ line ∈ lines (Json.pretty .plain document), line ≠ fence := by
  rintro line hline rfl
  rw [lines, Json.pretty, String.toList_ofList] at hline
  exact Json.head?_line_of_unfenced (Json.unfenced_prettyText 0 document) fence hline rfl

theorem ofLines_lines (text : String) : ofLines (lines text) = text := by
  rw [ofLines, lines, List.intercalate_splitOn, String.ofList_toList]

/-- A line that begins with another character neither stands before a block nor opens one. -/
theorem ne_of_head? {line : List Char} {c : Char} (begins : line.head? = some c)
    (hc : c ≠ '\x60') : line ≠ [] ∧ line ≠ opening := by
  constructor
  · rintro rfl
    cases begins
  · rintro rfl
    exact hc (Option.some.inj begins).symm

theorem heading_ne (title : String) :
    (heading title).toList ≠ [] ∧ (heading title).toList ≠ opening := by
  have begins : (heading title).toList.head? = some '#' := by
    rw [heading, toList_append_append]
    rfl
  exact ne_of_head? begins (by decide)

theorem madeBy_ne (commandLine : String) :
    (madeBy commandLine).toList ≠ [] ∧ (madeBy commandLine).toList ≠ opening := by
  have begins : (madeBy commandLine).toList.head? = some 'G' := by
    rw [madeBy_eq, toList_append_append]
    rfl
  exact ne_of_head? begins (by decide)

theorem jsonBlocks_section (title : String) (document : Json) (rest : List (List Char)) :
    jsonBlocks (sectionLines title document ++ rest) =
      (heading title, Json.pretty .plain document) :: jsonBlocks rest := by
  have block := jsonBlocks_block (heading title).toList (line_ne_fence document) rest
  rw [String.ofList_toList, ofLines_lines] at block
  have lines : sectionLines title document ++ rest = [] :: (heading title).toList :: [] ::
      opening :: (lines (Json.pretty .plain document) ++ fence :: rest) := by
    simp [sectionLines]
  rw [lines, jsonBlocks_cons fun after heq => (heading_ne title).1 (List.cons.inj heq).1, block]

theorem jsonBlocks_sections (merged : List (String × Json)) :
    jsonBlocks (sectionsLines merged) =
      merged.map fun (title, document) => (heading title, Json.pretty .plain document) := by
  induction merged with
  | nil => simp [sectionsLines, jsonBlocks]
  | cons entry rest ih =>
    rw [sectionsLines] at ih ⊢
    rw [List.flatMap_cons, List.append_assoc, jsonBlocks_section, ih]
    rfl

/-- Nothing before the sections is taken for a block. -/
theorem jsonBlocks_render {commandLine : String} (unbroken : '\n' ∉ commandLine.toList)
    {merged : List (String × Json)} (titles : ∀ entry ∈ merged, '\n' ∉ entry.1.toList) :
    jsonBlocks (lines (render { commandLine := commandLine, merged := merged })) =
      merged.map fun (title, document) => (heading title, Json.pretty .plain document) := by
  have unopened : ∀ after, sectionsLines merged ≠ [] :: opening :: after := by
    intro after heq
    cases merged with
    | nil => cases heq
    | cons entry rest => exact (heading_ne entry.1).2 (List.cons.inj (List.cons.inj heq).2).1
  rw [lines_render unbroken titles, jsonBlocks_cons, jsonBlocks_cons, jsonBlocks_cons unopened,
    jsonBlocks_sections]
  · exact fun after heq => (madeBy_ne commandLine).1 (List.cons.inj heq).1
  · exact fun after heq => (madeBy_ne commandLine).2 (List.cons.inj (List.cons.inj heq).2).1

/-! ### Loaded schemas -/

/-- The JSON forms of the schemas that there are, under their titles. -/
def forms (refPrefix : String) (sections : List (String × Option Schema)) :
    List (String × Json) :=
  sections.filterMap fun (title, schema?) =>
    schema?.map fun s => (title, s.document (.str refPrefix))

theorem documents_eq_forms {refPrefix : String} {sections : List (String × Option Schema)}
    (concrete : ∀ entry ∈ sections, ∀ s, entry.2 = some s → s.concrete = true) :
    documents (.str refPrefix) sections = .ok (forms refPrefix sections) := by
  induction sections with
  | nil => rfl
  | cons entry rest ih =>
    obtain ⟨title, schema?⟩ := entry
    rw [List.forall_mem_cons] at concrete
    cases schema? with
    | none => exact ih concrete.2
    | some s =>
      have form : s.document? (.str refPrefix) = .ok (s.document (.str refPrefix)) :=
        if_pos (concrete.1 s rfl)
      rw [documents, form, ih concrete.2]
      rfl

/-- A report on loaded schemas, with no line break in its command or in a title, is read line by
line as the JSON forms of these schemas, in their order and each under its heading, whatever texts
the schemas hold. The prefix that references get need not be that with which the schemas were
loaded. -/
theorem blocks_read_back (refPrefix commandLine : String)
    (sections : List (String × Option Schema)) (unbroken : '\n' ∉ commandLine.toList)
    (titles : ∀ entry ∈ sections, '\n' ∉ entry.1.toList)
    (loaded : ∀ entry ∈ sections, ∀ s, entry.2 = some s →
      ∃ loadPrefix path v, v.WellFormed ∧ Schema.load (.str loadPrefix) path v = .ok s) :
    documents (.str refPrefix) sections = .ok (forms refPrefix sections) ∧
      (jsonBlocks (lines (render
          { commandLine := commandLine, merged := forms refPrefix sections }))).map
        (fun (title, text) => (title, Json.read text)) =
      (forms refPrefix sections).map fun (title, document) => (heading title, .ok document) := by
  constructor
  · refine documents_eq_forms fun entry hentry s hs => ?_
    obtain ⟨loadPrefix, path, v, -, hload⟩ := loaded entry hentry s hs
    exact (Schema.regular_of_load hload).concrete
  · have each : ∀ form ∈ forms refPrefix sections,
        '\n' ∉ form.1.toList ∧ form.2.WellFormed := by
      intro form hform
      obtain ⟨⟨title, schema?⟩, hentry, heq⟩ := List.mem_filterMap.mp hform
      obtain ⟨s, rfl, rfl⟩ := Option.map_eq_some_iff.mp heq
      obtain ⟨loadPrefix, path, v, wf, hload⟩ := loaded _ hentry s rfl
      exact ⟨titles _ hentry, Schema.wellFormed_document_of_load wf hload⟩
    rw [jsonBlocks_render unbroken fun form hform => (each form hform).1, List.map_map]
    refine List.map_congr_left fun form hform => ?_
    exact congrArg (heading form.1, ·) (Json.read_pretty (each form hform).2)

/-- A string with fences and a line break in its example. -/
def fenced : Schema :=
  .string { exemplar := .str "\x60\x60\x60\n\x60\x60\x60json", nullable := .bool false }

theorem load_fenced : Schema.load (.str "#/components/schemas/") "#"
    (.obj [("type", .str "string"), ("example", .str "\x60\x60\x60\n\x60\x60\x60json")]) =
      .ok fenced := by
  rw [Schema.load]
  rfl

theorem blocks_read_back_fenced :
    ('\n' ∉ "schema_infer merge".toList ∧
      (∀ entry ∈ [("request", some fenced), ("response", none)], '\n' ∉ entry.1.toList) ∧
      ∀ entry ∈ [("request", some fenced), ("response", none)], ∀ s, entry.2 = some s →
        ∃ loadPrefix path v, v.WellFormed ∧ Schema.load (.str loadPrefix) path v = .ok s) ∧
    (jsonBlocks (lines (render
        { commandLine := "schema_infer merge"
          merged := forms "#/" [("request", some fenced), ("response", none)] }))).map
      (fun (title, text) => (title, Json.read text)) =
        [("## Merged request schema", .ok (.obj [("type", .str "string"),
          ("example", .str "\x60\x60\x60\n\x60\x60\x60json")]))] := by
  have unbroken : '\n' ∉ "schema_infer merge".toList := by decide
  have titles : ∀ entry ∈ [("request", some fenced), ("response", none)],
      '\n' ∉ entry.1.toList :=
    List.forall_mem_cons.mpr ⟨by decide, List.forall_mem_singleton.mpr (by decide)⟩
  have loaded : ∀ entry ∈ [("request", some fenced), ("response", none)], ∀ s,
      entry.2 = some s →
        ∃ loadPrefix path v, v.WellFormed ∧ Schema.load (.str loadPrefix) path v = .ok s := by
    refine List.forall_mem_cons.mpr ⟨?_, List.forall_mem_singleton.mpr nofun⟩
    rintro _ ⟨⟩
    exact ⟨_, _, _, by simp [Json.WellFormed, Json.FieldsWellFormed], load_fenced⟩
  refine ⟨⟨unbroken, titles, loaded⟩, ?_⟩
  exact (blocks_read_back "#/" "schema_infer merge" _ unbroken titles loaded).2

end Report

end Schemata

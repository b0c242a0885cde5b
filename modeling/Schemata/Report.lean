import Schemata.Samples.Occurrence
import Schemata.Schema.Document
import Schemata.Json.Writer

/-!
# Reports

A report is a Markdown text: a heading with the command that made it, a section with the JSON form
of every merged schema, and a section with the occurrence of fields.

## Main definitions

* `Report`, `Report.render`.

## Implementation notes

The JSON form of a schema escapes line breaks, so that no string in it can end its block. The values
of closed sets are escaped for markup.
-/

namespace Schemata

structure Report where
  commandLine : String := "schema_infer"
  /-- The JSON forms of merged schemas, under their titles. -/
  merged : List (String × Json) := []
  analysis : Option OccurrenceReport := none

namespace Report

def sectionText (title : String) (document : Json) : String :=
  let text := Json.pretty .plain document
  s!"\n## Merged {title} schema\n\n\x60\x60\x60json\n{text}\n\x60\x60\x60\n"

def rowText (row : Occurrence) : String :=
  let status := if row.count = row.total then "required" else "optional"
  s!"| \x60{row.path}\x60 | {row.count}/{row.total} | {row.percentage}% | {status} |\n"

def tableText (rows : List Occurrence) : String :=
  if rows.isEmpty then "No fields found.\n"
  else "| Field | Seen | Share | Status |\n|-------|------|-------|--------|\n"
    ++ String.join (rows.map rowText)

def candidateText (path : String) (values : List Json) : String :=
  let shown := String.intercalate ", " (values.map (Json.line .markup true))
  s!"- \x60{path}\x60: {shown}\n"

def candidatesText (candidates : List (String × List Json)) : String :=
  if candidates.isEmpty then ""
  else "\n### Enum candidates\n\n"
    ++ String.join (candidates.map fun (path, values) => candidateText path values)

def analysisText (analysis : OccurrenceReport) : String :=
  s!"\n## Field occurrence ({analysis.total} samples)\n\n" ++ tableText analysis.rows
    ++ candidatesText analysis.enumCandidates

def render (report : Report) : String :=
  s!"# Schema inference report\n\nGenerated by: \x60{report.commandLine}\x60\n"
    ++ String.join (report.merged.map fun (title, document) => sectionText title document)
    ++ (match report.analysis with
      | some analysis => analysisText analysis
      | none => "")

/-- The JSON forms of merged schemas; what was not observed has no section. -/
def documents (refPrefix : Json) : List (String × Option Schema) →
    Except Fault (List (String × Json))
  | [] => .ok []
  | (_, none) :: rest => documents refPrefix rest
  | (title, some s) :: rest => do
    let document ← s.document? refPrefix
    return (title, document) :: (← documents refPrefix rest)

end Report

end Schemata

import Schemata.Proofs.Expression.Regular
import Schemata.Proofs.Merge.Regular
import Schemata.Proofs.Schema.RoundTrip

/-!
# Writing and loading again

Whatever comes out of loading, parsing, merging and enriching survives being written and loaded
again, as the same schema in all its parts.

## Main definitions

* `Produced`: the schemas that come out of loading, parsing, merging and enriching.

## Main results

* `load_document_of_produced`: they are loaded again from their JSON form.
-/

namespace Schemata

/-- The schemas that come out of loading JSON values, and of sessions, merges and enriching from
what came out before. -/
inductive Produced (refPrefix : String) : Schema → Prop
  | loaded {path : String} {v : Json} {s : Schema}
      (h : Schema.load (.str refPrefix) path v = .ok s) : Produced refPrefix s
  | parsed {p : Parser} {requests : List Parser.Request} {response : Parser.Response} {s : Schema}
      (overrides : ∀ entry ∈ p.overrides, Produced refPrefix entry.2)
      (answered : response ∈ p.run requests) (h : Parser.Answers response s) :
      Produced refPrefix s
  | merged {config : Config} {samples : List Schema} {s : Schema}
      (before : ∀ t ∈ samples, Produced refPrefix t) (h : merge config samples = .ok s) :
      Produced refPrefix s
  | enriched {s : Schema} (h : Produced refPrefix s) : Produced refPrefix s.enrich
  | mergedSide {config : Config} {snapshots : List Snapshot} {merged : MergedSnapshot} {s : Schema}
      (before : ∀ snapshot ∈ snapshots, ∀ t ∈ snapshot.schemas, Produced refPrefix t)
      (h : mergeSnapshots config snapshots = .ok merged)
      (side : merged.request = some s ∨ merged.response = some s) : Produced refPrefix s

theorem Produced.regular {refPrefix : String} {s : Schema} (h : Produced refPrefix s) :
    s.Regular refPrefix := by
  induction h with
  | loaded h => exact Schema.regular_of_load h
  | parsed _ answered h ih => exact Parser.regular_run ih answered h
  | merged _ h ih => exact regular_of_merge h ih
  | enriched _ ih => exact ih.enrich
  | mergedSide _ h side ih => exact regular_of_mergeSnapshots h ih side

/-- A schema that was produced has a JSON form, and what is loaded from it at any path is the same
schema, which therefore has the same form again. -/
theorem load_document_of_produced {refPrefix : String} {s : Schema} (h : Produced refPrefix s)
    (path : String) :
    ∃ document reloaded, s.document? (.str refPrefix) = .ok document ∧
      Schema.load (.str refPrefix) path document = .ok reloaded ∧ reloaded = s ∧
        reloaded.document? (.str refPrefix) = .ok document := by
  have hdocument : s.document? (.str refPrefix) = .ok (s.document (.str refPrefix)) := by
    rw [Schema.document?, if_pos h.regular.concrete]
  exact ⟨_, s, hdocument, Schema.load_document h.regular path, rfl, hdocument⟩

/-- A closed set that repeats a value is loaded without the repetition, inverted bounds are not
loaded, and both is settled by the first loading. -/
theorem load_document_of_produced_string :
    Produced "#/" (.string { enum := some [.str "b", .str "a"], nullable := .bool true }) ∧
      ∃ document, Schema.document? (.str "#/")
          (.string { enum := some [.str "b", .str "a"], nullable := .bool true }) = .ok document ∧
        Schema.load (.str "#/") "#" document =
          .ok (.string { enum := some [.str "b", .str "a"], nullable := .bool true }) := by
  have produced : Produced "#/"
      (.string { enum := some [.str "b", .str "a"], nullable := .bool true }) := by
    have loaded : Schema.load (.str "#/") "#" (.obj [("type", .str "string"),
        ("enum", .arr [.str "b", .str "a", .str "b"]), ("minLength", .int 9),
        ("maxLength", .int 3), ("nullable", .int 1)]) =
          .ok (.string { enum := some [.str "b", .str "a"], nullable := .bool true }) := by
      rw [Schema.load]
      rfl
    exact .loaded loaded
  obtain ⟨document, reloaded, hd, hl, rfl, -⟩ := load_document_of_produced produced "#"
  exact ⟨produced, document, hd, hl⟩

end Schemata

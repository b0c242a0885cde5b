import Schemata.Expression.Session
import Schemata.Proofs.Fault
import Schemata.Proofs.Fields

/-!
# What sessions answer

The schemas in the answers of a session are read from expressions, in the same step or in an earlier
one, or are put together from such schemas as a definition says. What is shown for readings and for
the rules of definitions holds of all answers, and the cache is not opened again.

## Main definitions

* `Parser.Yields`: the schemas that a parser reads.
* `Parser.DefinitionRules`: what is carried from the parts of a definition to its schema.
* `Parser.Answers`: the schemas that a response answers with.

## Main results

* `Parser.DefinitionRules.define`: what the rules carry holds of every schema of a definition.
* `Parser.DefinitionRules.run`: every answer of a session is read or defined.
-/

namespace Schemata

namespace Parser

variable {p : Parser} {P : TypeDefinition → Schema → Prop}

def Yields (p : Parser) (s : Schema) : Prop := ∃ text r, p.parse text = .ok r ∧ r.schema = s

/-- `P` follows the rules by which a definition gets its schema. -/
structure DefinitionRules (p : Parser) (P : TypeDefinition → Schema → Prop) : Prop where
  closed : ∀ {enumValues properties element type optional s},
    closedSet enumValues = .ok s → P (.mk enumValues properties element type optional) s
  object : ∀ {enumValues properties element type optional schemas s},
    Fields.names schemas = Fields.names properties →
    (∀ field ∈ schemas, ∃ d, (field.1, d) ∈ properties ∧ P d field.2) →
    Schema.objectNode schemas (requiredOf properties) none (.bool false) = .ok s →
      P (.mk enumValues properties element type optional) s
  list : ∀ {enumValues properties d type optional s}, P d s →
    P (.mk enumValues properties (some d) type optional) (.array (some s) {})
  expression : ∀ {enumValues properties type optional s}, p.Yields s →
    P (.mk enumValues properties none type optional) s

/-! ### Steps -/

/-- All remembered schemas were read. -/
def ReadCache (p : Parser) (cache : Cache) : Prop := ∀ entry ∈ cache, p.Yields entry.2

/-- A step of a session gives something for which `Q` holds, if it gives anything, and remembers
nothing but what was read. -/
def Gives {α : Type} (p : Parser) (Q : α → Prop) (step : Except Fault α × Cache) : Prop :=
  (∀ a, step.1 = .ok a → Q a) ∧ p.ReadCache step.2

theorem gives_error {α : Type} {Q : α → Prop} {fault : Fault} {cache : Cache}
    (read : p.ReadCache cache) : p.Gives Q ((.error fault : Except Fault α), cache) := by
  refine ⟨fun a ha => ?_, read⟩
  cases ha

theorem gives_ok {α : Type} {Q : α → Prop} {a : α} {cache : Cache} (ha : Q a)
    (read : p.ReadCache cache) : p.Gives Q ((.ok a : Except Fault α), cache) := by
  refine ⟨fun b hb => ?_, read⟩
  cases hb
  exact ha

theorem gives_answerIn (text : String) {cache : Cache} (read : p.ReadCache cache) :
    p.Gives (fun answer => p.Yields answer.schema) (p.answerIn text cache) := by
  rw [answerIn]
  split
  · next s hs => exact gives_ok (read _ (Fields.mem_of_lookup_eq_some hs)) read
  · split
    · exact gives_error read
    · next r hr =>
      refine ⟨fun answer h => ?_, fun entry he => ?_⟩
      · obtain ⟨confidence, -, h⟩ := Fault.bind_eq_ok_iff.mp h
        cases h
        exact ⟨_, r, hr, rfl⟩
      · rcases Fields.eq_or_mem_of_mem_insert he with rfl | he
        · exact ⟨_, r, hr, rfl⟩
        · exact read entry he

mutual

theorem DefinitionRules.define (rules : p.DefinitionRules P) :
    (d : TypeDefinition) → {cache : Cache} → p.ReadCache cache →
      p.Gives (P d) (p.define d cache)
  | .mk enumValues properties element type _, cache, read => by
    rw [Parser.define]
    split
    · exact ⟨fun s hs => rules.closed hs, read⟩
    split
    · have step := rules.defineAll properties read
      generalize p.defineAll properties cache = result at step
      obtain ⟨result, after⟩ := result
      cases result with
      | error fault => exact gives_error step.2
      | ok schemas =>
        obtain ⟨names, below⟩ := step.1 schemas rfl
        exact ⟨fun s hs => rules.object names below hs, step.2⟩
    cases element with
    | some d =>
      have step := rules.define d read
      rw [defineOption]
      generalize p.define d cache = result at step
      obtain ⟨result, after⟩ := result
      cases result with
      | error fault => exact gives_error step.2
      | ok s => exact gives_ok (rules.list (step.1 s rfl)) step.2
    | none =>
      rw [defineOption]
      cases type with
      | none => exact gives_error read
      | some text =>
        have step := gives_answerIn text read
        dsimp only
        generalize p.answerIn text cache = result at step
        obtain ⟨result, after⟩ := result
        cases result with
        | error fault => exact gives_error step.2
        | ok answer => exact gives_ok (rules.expression (step.1 answer rfl)) step.2

theorem DefinitionRules.defineAll (rules : p.DefinitionRules P) :
    (definitions : List (String × TypeDefinition)) → {cache : Cache} → p.ReadCache cache →
      p.Gives (fun schemas => Fields.names schemas = Fields.names definitions ∧
        ∀ field ∈ schemas, ∃ d, (field.1, d) ∈ definitions ∧ P d field.2)
        (p.defineAll definitions cache)
  | [], cache, read => by
    rw [Parser.defineAll]
    exact gives_ok ⟨rfl, fun field hf => absurd hf List.not_mem_nil⟩ read
  | (name, d) :: rest, cache, read => by
    rw [Parser.defineAll]
    have first := rules.define d read
    generalize p.define d cache = result at first
    obtain ⟨result, after⟩ := result
    cases result with
    | error fault => exact gives_error first.2
    | ok s =>
      have others := rules.defineAll rest first.2
      dsimp only
      generalize p.defineAll rest after = result at others
      obtain ⟨result, last⟩ := result
      cases result with
      | error fault => exact gives_error others.2
      | ok schemas =>
        obtain ⟨names, below⟩ := others.1 schemas rfl
        refine gives_ok ⟨congrArg (name :: ·) names, List.forall_mem_cons.mpr ⟨?_, ?_⟩⟩ others.2
        · exact ⟨d, List.mem_cons_self, first.1 s rfl⟩
        · intro field hf
          obtain ⟨d', hd', holds⟩ := below field hf
          exact ⟨d', List.mem_cons_of_mem _ hd', holds⟩

end

/-! ### Runs -/

/-- A schema that a response answers with. -/
inductive Answers : Response → Schema → Prop
  | parsed (answer : Answer) : Answers (.answer (.ok answer)) answer.schema
  | defined (s : Schema) : Answers (.schema (.ok s)) s

/-- What a request is answered with: a schema that was read, or that of the definition. -/
def Responds (p : Parser) (P : TypeDefinition → Schema → Prop) (request : Request) (s : Schema) :
    Prop :=
  p.Yields s ∨ ∃ d, request = .define d ∧ P d s

theorem DefinitionRules.handle (rules : p.DefinitionRules P) (request : Request) {cache : Cache}
    (read : p.ReadCache cache) :
    (∀ s, Answers (p.handle cache request).1 s → p.Responds P request s) ∧
      p.ReadCache (p.handle cache request).2 := by
  cases request with
  | parse text =>
    obtain ⟨answered, remembered⟩ := gives_answerIn text read
    refine ⟨fun s hs => ?_, remembered⟩
    rw [Parser.handle] at hs
    generalize p.answerIn text cache = step at hs answered
    obtain ⟨result, after⟩ := step
    cases hs with
    | parsed answer => exact .inl (answered answer rfl)
  | define d =>
    obtain ⟨defined, remembered⟩ := rules.define d read
    refine ⟨fun s hs => ?_, remembered⟩
    rw [Parser.handle] at hs
    generalize p.define d cache = step at hs defined
    obtain ⟨result, after⟩ := step
    cases hs with
    | defined s => exact .inr ⟨d, rfl, defined s rfl⟩
  | stats => exact ⟨nofun, read⟩
  | clear => exact ⟨nofun, fun _ h => absurd h List.not_mem_nil⟩

/-- Every answer of a session is read or defined. -/
theorem DefinitionRules.run (rules : p.DefinitionRules P) {requests : List Request}
    {response : Response} (hr : response ∈ p.run requests) {s : Schema} (hs : Answers response s) :
    ∃ request ∈ requests, p.Responds P request s := by
  have from_cache : ∀ cache, p.ReadCache cache → response ∈ p.runFrom cache requests →
      ∃ request ∈ requests, p.Responds P request s := by
    clear hr
    induction requests with
    | nil => exact fun _ _ h => absurd h List.not_mem_nil
    | cons request rest ih =>
      intro cache read hmem
      obtain ⟨answered, remembered⟩ := rules.handle request read
      rw [runFrom] at hmem
      rcases List.mem_cons.mp hmem with rfl | hmem
      · exact ⟨request, List.mem_cons_self, answered s hs⟩
      · obtain ⟨earlier, he, responds⟩ := ih _ remembered hmem
        exact ⟨earlier, List.mem_cons_of_mem _ he, responds⟩
  exact from_cache [] (fun _ h => absurd h List.not_mem_nil) hr

end Parser

end Schemata

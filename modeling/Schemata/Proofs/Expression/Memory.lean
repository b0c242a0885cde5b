import Schemata.Proofs.Expression.Regular
import Schemata.Proofs.Schema.Load
import Mathlib.Data.List.Induction

/-!
# What a session remembers

A session remembers the expressions that it was asked for, and nothing else: the schema of each is
what reading it anew would give. No response therefore depends on what came before it, except for
the confidence and the warnings of an expression that is asked for again.

## Main definitions

* `TypeDefinition.leaves`: the expressions that a definition asks for.
* `Parser.heard`: the expressions that requests asked for since the cache was cleared.
* `Parser.memory`: the cache that remembers given expressions.

## Main results

* `Parser.answerIn_memory`, `Parser.define_memory`: one expression, one definition.
* `Parser.cacheAfter_eq`: the cache after any requests remembers what they asked for.
* `Parser.run_transparent`: the responses of a session.

## Implementation notes

A definition that cannot be converted asks for the expressions before the part at which it fails.
-/

namespace Schemata

/-! ### Definitions -/

namespace TypeDefinition

mutual

/-- Nothing stands in the way of converting the definition: a closed set can be gone through, and
where an expression decides there is one. -/
def converts : TypeDefinition → Bool
  | .mk enumValues properties element type _ =>
    if enumValues.truthy then enumValues.elements?.isSome
    else if !properties.isEmpty then convertsAll properties
    else convertsElement element type

def convertsAll : List (String × TypeDefinition) → Bool
  | [] => true
  | (_, d) :: rest => d.converts && convertsAll rest

def convertsElement : Option TypeDefinition → Option String → Bool
  | some d, _ => d.converts
  | none, type => type.isSome

end

mutual

/-- The expressions of a definition, up to the first part that cannot be converted. -/
def leaves : TypeDefinition → List String
  | .mk enumValues properties element type _ =>
    if enumValues.truthy then []
    else if !properties.isEmpty then leavesAll properties
    else leavesElement element type

def leavesAll : List (String × TypeDefinition) → List String
  | [] => []
  | (_, d) :: rest => if d.converts then d.leaves ++ leavesAll rest else d.leaves

def leavesElement : Option TypeDefinition → Option String → List String
  | some d, _ => d.leaves
  | none, type => type.toList

end

end TypeDefinition

namespace Parser

namespace Request

/-- The expressions that a request asks for, without the blanks around them. -/
def keys : Request → List String
  | .parse text => [cacheKey text]
  | .define definition => definition.leaves.map cacheKey
  | .stats | .clear => []

def isClear : Request → Bool
  | .clear => true
  | _ => false

end Request

/-- The expressions that were asked for since the cache was last cleared. -/
def heard (requests : List Request) : List String :=
  (requests.reverse.takeWhile fun request => !request.isClear).reverse.flatMap Request.keys

/-- The cache that remembers each of the expressions as it is read. -/
def memory (p : Parser) (keys : List String) : Cache :=
  (Fields.firstSeen keys).map fun key => (key, (p.read 0 key.toList).schema)

/-- The cache that a new session has after some requests. -/
def cacheAfter (p : Parser) (requests : List Request) : Cache :=
  requests.foldl (fun cache request => (p.handle cache request).2) []

/-! ### Known schemas -/

/-- No override is a node of no kind, and the limit of depth is a number. -/
structure Sound (p : Parser) : Prop where
  limited : p.maxDepth.number?.isSome = true
  known : ∀ entry ∈ p.overrides, entry.2.kind ≠ .abstract

theorem Sound.of_fresh {p : Parser} (fresh : p.overrides = [])
    (limited : p.maxDepth.number?.isSome = true) : p.Sound := by
  refine ⟨limited, ?_⟩
  rw [fresh]
  exact List.forall_mem_nil _

end Parser

namespace Form

theorem kind_withNullable {s : Schema} (h : s.kind ≠ .abstract) :
    (s.withNullable?.getD s).kind ≠ .abstract := by
  cases s with
  | number f =>
    show (Schema.number { f with nullable := .bool true }).kind ≠ .abstract
    rw [Schema.kind]
    split
    · exact Kind.noConfusion
    · exact Kind.noConfusion
  | string | boolean | object => exact Kind.noConfusion
  | _ => exact h

theorem kind_of_known {overrides : Fields Schema}
    (known : ∀ entry ∈ overrides, entry.2.kind ≠ .abstract) {expr : List Char} {s : Schema}
    (h : Form.of overrides expr = .known s) : s.kind ≠ .abstract := by
  obtain ⟨name, h | h⟩ := exists_of_known h
  · exact known _ h
  · have regular : s.Regular "" := regular_of_mem_primitives h
    exact kind_ne_abstract regular

theorem kind_schema {form : Form} (known : ∀ s, form = .known s → s.kind ≠ .abstract)
    {inner : List Schema} (h : ∀ s ∈ inner, s.kind ≠ .abstract) :
    (form.schema inner).kind ≠ .abstract := by
  have hfirst : (inner.headD .empty).kind ≠ .abstract := headD_of_forall Kind.noConfusion h
  cases form with
  | known s => exact known s rfl
  | inner | modified | selected => exact hfirst
  | single member nullable =>
    rw [schema]
    split
    · exact kind_withNullable hfirst
    · exact hfirst
  | _ => exact Kind.noConfusion

end Form

namespace Parser

variable {p : Parser}

theorem kind_and_refused_read (sound : p.Sound) (depth : Nat) (text : List Char) :
    (p.read depth text).schema.kind ≠ .abstract ∧ (p.read depth text).refused = false :=
  holds_and_refused_read (P := fun s => s.kind ≠ .abstract) Kind.noConfusion (fun _ => id)
    (fun _ _ => Form.kind_schema fun _ => Form.kind_of_known sound.known) depth text

/-- Without warnings the confidence is a whole point, or less by two or three tenths. -/
theorem confidence_ne_of_no_warnings {r : Reading} {tenths : Nat} (h : r.confidence = .ok tenths)
    (none : r.warnings = []) : tenths ≠ 9 := by
  rw [Reading.confidence, none] at h
  split at h <;> cases h <;> decide

/-- Every expression is answered, and never the way a remembered one is. -/
theorem exists_new_answer (sound : p.Sound) (text : String) :
    ∃ answer, p.answer text = .ok answer ∧
      answer.schema = (p.read 0 (cacheKey text).toList).schema ∧
        ¬ (answer.confidence = 9 ∧ answer.warnings = []) := by
  obtain ⟨known, accepted⟩ := kind_and_refused_read sound 0 (strip text.toList)
  obtain ⟨tenths, hconfidence⟩ := exists_confidence known
  refine ⟨_, answer_of_confidence sound.limited accepted hconfidence, ?_, ?_⟩
  · rw [cacheKey, String.toList_ofList]
  · exact fun h => confidence_ne_of_no_warnings hconfidence h.2 h.1

/-! ### One expression -/

theorem memory_nil (p : Parser) : p.memory [] = [] := rfl

theorem names_memory (p : Parser) (keys : List String) :
    Fields.names (p.memory keys) = Fields.firstSeen keys := by
  simp [Fields.names, memory, Function.comp_def]

theorem lookup_memory (p : Parser) (keys : List String) (key : String) :
    (p.memory keys).lookup key =
      if key ∈ keys then some (p.read 0 key.toList).schema else none := by
  rw [memory, Fields.lookup_map_names]
  simp only [Fields.mem_firstSeen]

theorem memory_append_of_mem {keys : List String} {key : String} (h : key ∈ keys) :
    p.memory (keys ++ [key]) = p.memory keys := by
  rw [memory, Fields.firstSeen_append_singleton, if_pos h]
  rfl

theorem memory_append_of_notMem {keys : List String} {key : String} (h : key ∉ keys) :
    p.memory (keys ++ [key]) =
      Fields.insert key (p.read 0 key.toList).schema (p.memory keys) := by
  have new : key ∉ Fields.names (p.memory keys) := by
    rw [names_memory, Fields.mem_firstSeen]
    exact h
  rw [Fields.insert_of_notMem new, memory, Fields.firstSeen_append_singleton, if_neg h,
    List.map_append]
  rfl

/-- An expression that is remembered is answered from the cache, any other one as it would be in a
new session; afterwards it is remembered. -/
theorem answerIn_memory (sound : p.Sound) (text : String) (keys : List String) :
    p.answerIn text (p.memory keys) =
      (if cacheKey text ∈ keys then .ok (.remembered (p.read 0 (cacheKey text).toList).schema)
        else p.answer text, p.memory (keys ++ [cacheKey text])) := by
  rw [answerIn, lookup_memory]
  by_cases h : cacheKey text ∈ keys
  · rw [if_pos h, if_pos h, memory_append_of_mem h]
  · obtain ⟨-, accepted⟩ := kind_and_refused_read sound 0 (cacheKey text).toList
    have parsed := parse_of_accepted sound.limited accepted
    rw [if_neg h, if_neg h, memory_append_of_notMem h, parsed, answer]
    rw [cacheKey, String.toList_ofList] at parsed ⊢
    rw [parsed]
    rfl

/-! ### One definition -/

/-- Whatever is remembered, the step comes to the result, and the texts are remembered besides. -/
def Recalls {α : Type} (p : Parser) (step : Cache → Except Fault α × Cache)
    (result : Except Fault α) (texts : List String) : Prop :=
  ∀ keys, step (p.memory keys) = (result, p.memory (keys ++ texts.map cacheKey))

/-- Whatever is remembered, the definition is converted to the same result. -/
def Steady (p : Parser) (d : TypeDefinition) : Prop :=
  ∃ result, result.isOk = d.converts ∧ p.Recalls (p.define d) result d.leaves

/-- The same for the properties of a definition. -/
def SteadyAll (p : Parser) (definitions : List (String × TypeDefinition)) : Prop :=
  ∃ result : Except Fault (Fields Schema), result.isOk = TypeDefinition.convertsAll definitions ∧
    (∀ schemas, result = .ok schemas → Fields.names schemas = definitions.map Prod.fst) ∧
      p.Recalls (p.defineAll definitions) result (TypeDefinition.leavesAll definitions)

theorem isOk_closedSet {enumValues : Json} (h : enumValues.truthy = true) :
    (closedSet enumValues).isOk = enumValues.elements?.isSome := by
  rw [closedSet]
  cases hvalues : enumValues.elements? with
  | none => rfl
  | some values =>
    have hne : values ≠ [] := by
      rintro rfl
      cases enumValues <;> simp_all [Json.elements?, Json.truthy]
    have node : StringFacets.node { enum := some (Json.distinct values) } =
        .ok (.string { enum := some (Json.distinct values) }) := by
      refine StringFacets.node_eq_ok_iff.mpr ⟨rfl, fun distinct hd => ?_, .inl rfl⟩
      obtain rfl := Option.some.inj hd
      exact ⟨Json.distinct_ne_nil hne, Json.allDistinct_iff.mpr (Json.apart_distinct _)⟩
    dsimp only
    rw [node]
    rfl

theorem isOk_objectNode {properties : List (String × TypeDefinition)} {schemas : Fields Schema}
    (names : Fields.names schemas = properties.map Prod.fst) :
    (Schema.objectNode schemas (requiredOf properties) none (.bool false)).isOk = true := by
  have known : ∀ v ∈ requiredOf properties, ∃ name ∈ Fields.names schemas, v = .str name := by
    intro v hv
    obtain ⟨property, hp, rfl⟩ := List.mem_map.mp hv
    refine ⟨property.1, ?_, rfl⟩
    rw [names]
    exact List.mem_map_of_mem (List.mem_filter.mp hp).1
  rw [Schema.objectNode_eq_ok_iff.mpr ⟨rfl, known⟩]
  rfl

/-- The expression that decides a definition is answered with the same schema whether it is
remembered or not. -/
theorem recalls_text (sound : p.Sound) (text : String) :
    ∃ s, ∀ keys, ∃ answer : Answer, answer.schema = s ∧
      p.answerIn text (p.memory keys) = (.ok answer, p.memory (keys ++ [cacheKey text])) := by
  obtain ⟨fresh, hfresh, schema, -⟩ := exists_new_answer sound text
  refine ⟨(p.read 0 (cacheKey text).toList).schema, fun keys => ?_⟩
  rw [answerIn_memory sound, hfresh]
  split
  · exact ⟨.remembered _, rfl, rfl⟩
  · exact ⟨fresh, schema, rfl⟩

section Definitions

variable {enumValues : Json} {properties : List (String × TypeDefinition)}
  {element : Option TypeDefinition} {type : Option String} {optional : Bool}

private theorem steady_of_properties (unlisted : ¬ enumValues.truthy = true)
    (given : (!properties.isEmpty) = true) (below : p.SteadyAll properties) :
    p.Steady (.mk enumValues properties element type optional) := by
  obtain ⟨result, converts, names, recalls⟩ := below
  rw [Steady, TypeDefinition.converts, if_neg unlisted, if_pos given, TypeDefinition.leaves,
    if_neg unlisted, if_pos given, ← converts]
  cases result with
  | error fault =>
    refine ⟨.error fault, rfl, fun keys => ?_⟩
    rw [define, if_neg unlisted, if_pos given, recalls]
  | ok schemas =>
    refine ⟨_, isOk_objectNode (names schemas rfl), fun keys => ?_⟩
    rw [define, if_neg unlisted, if_pos given, recalls]

private theorem steady_of_element {d : TypeDefinition} (unlisted : ¬ enumValues.truthy = true)
    (empty : ¬ (!properties.isEmpty) = true) (below : p.Steady d) :
    p.Steady (.mk enumValues properties (some d) type optional) := by
  obtain ⟨result, converts, recalls⟩ := below
  rw [Steady, TypeDefinition.converts, if_neg unlisted, if_neg empty,
    TypeDefinition.convertsElement, TypeDefinition.leaves, if_neg unlisted, if_neg empty,
    TypeDefinition.leavesElement, ← converts]
  cases result with
  | error fault =>
    refine ⟨.error fault, rfl, fun keys => ?_⟩
    rw [define, if_neg unlisted, if_neg empty, defineOption, recalls]
  | ok s =>
    refine ⟨.ok (.array (some s) {}), rfl, fun keys => ?_⟩
    rw [define, if_neg unlisted, if_neg empty, defineOption, recalls]

private theorem steady_of_type (sound : p.Sound) (unlisted : ¬ enumValues.truthy = true)
    (empty : ¬ (!properties.isEmpty) = true) :
    p.Steady (.mk enumValues properties none type optional) := by
  rw [Steady, TypeDefinition.converts, if_neg unlisted, if_neg empty,
    TypeDefinition.convertsElement, TypeDefinition.leaves, if_neg unlisted, if_neg empty,
    TypeDefinition.leavesElement]
  cases type with
  | none =>
    refine ⟨.error .notText, rfl, fun keys => ?_⟩
    rw [define, if_neg unlisted, if_neg empty, defineOption, Option.toList, List.map_nil,
      List.append_nil]
  | some text =>
    obtain ⟨s, answers⟩ := recalls_text sound text
    refine ⟨.ok s, rfl, fun keys => ?_⟩
    obtain ⟨answer, rfl, answered⟩ := answers keys
    rw [define, if_neg unlisted, if_neg empty, defineOption]
    dsimp only
    rw [answered]
    rfl

private theorem steadyAll_cons {name : String} {d : TypeDefinition}
    {rest : List (String × TypeDefinition)} (first : p.Steady d) (others : p.SteadyAll rest) :
    p.SteadyAll ((name, d) :: rest) := by
  obtain ⟨result, converts, recalls⟩ := first
  obtain ⟨results, convertsAll, names, recallsAll⟩ := others
  rw [SteadyAll, TypeDefinition.convertsAll, TypeDefinition.leavesAll, ← converts, ← convertsAll]
  cases result with
  | error fault =>
    refine ⟨.error fault, rfl, nofun, fun keys => ?_⟩
    rw [defineAll, recalls]
    rfl
  | ok s =>
    have after : ∀ keys, p.defineAll rest (p.memory (keys ++ d.leaves.map cacheKey)) =
        (results, p.memory (keys ++ (d.leaves ++ TypeDefinition.leavesAll rest).map cacheKey)) := by
      intro keys
      rw [recallsAll, List.map_append, List.append_assoc]
    cases results with
    | error fault =>
      refine ⟨.error fault, rfl, nofun, fun keys => ?_⟩
      rw [defineAll, recalls]
      dsimp only
      rw [after]
      rfl
    | ok schemas =>
      refine ⟨.ok ((name, s) :: schemas), rfl, fun all h => ?_, fun keys => ?_⟩
      · cases h
        exact congrArg (name :: ·) (names schemas rfl)
      · rw [defineAll, recalls]
        dsimp only
        rw [after]
        rfl

end Definitions

mutual

/-- What a definition is converted to does not depend on what is remembered. -/
theorem steady (sound : p.Sound) : (d : TypeDefinition) → p.Steady d
  | .mk enumValues properties element type _ => by
    by_cases henum : enumValues.truthy = true
    · refine ⟨closedSet enumValues, ?_, fun keys => ?_⟩
      · rw [TypeDefinition.converts, if_pos henum, isOk_closedSet henum]
      · rw [define, if_pos henum, TypeDefinition.leaves, if_pos henum, List.map_nil,
          List.append_nil]
    by_cases hproperties : (!properties.isEmpty) = true
    · exact steady_of_properties henum hproperties (steadyAll sound properties)
    match element with
    | some d => exact steady_of_element henum hproperties (steady sound d)
    | none => exact steady_of_type sound henum hproperties

theorem steadyAll (sound : p.Sound) : (definitions : List (String × TypeDefinition)) →
    p.SteadyAll definitions
  | [] => by
    refine ⟨.ok [], rfl, fun schemas h => ?_, fun keys => ?_⟩
    · cases h
      rfl
    · rw [defineAll, TypeDefinition.leavesAll, List.map_nil, List.append_nil]
  | (_, d) :: rest => steadyAll_cons (steady sound d) (steadyAll sound rest)

end

/-- A definition is converted as it would be in a new session; afterwards its expressions are
remembered. -/
theorem define_memory (sound : p.Sound) (d : TypeDefinition) (keys : List String) :
    p.define d (p.memory keys) = ((p.define d []).1, p.memory (keys ++ d.leaves.map cacheKey)) := by
  obtain ⟨result, -, recalls⟩ := steady sound d
  rw [recalls, ← memory_nil p, recalls]

theorem isOk_define (sound : p.Sound) (d : TypeDefinition) :
    (p.define d []).1.isOk = d.converts := by
  obtain ⟨result, converts, recalls⟩ := steady sound d
  rw [← memory_nil p, recalls]
  exact converts

/-! ### Runs -/

theorem heard_append_clear (requests : List Request) : heard (requests ++ [.clear]) = [] := by
  rw [heard, List.reverse_append]
  rfl

theorem heard_append_of_not_isClear {request : Request} (h : request.isClear = false)
    (requests : List Request) : heard (requests ++ [request]) = heard requests ++ request.keys := by
  simp [heard, h]

theorem handle_memory (sound : p.Sound) {request : Request} (h : request.isClear = false)
    (keys : List String) :
    (p.handle (p.memory keys) request).2 = p.memory (keys ++ request.keys) := by
  cases request with
  | parse text => rw [handle, answerIn_memory sound]; rfl
  | define d => rw [handle, define_memory sound]; rfl
  | stats => rw [Request.keys, List.append_nil]; rfl
  | clear => cases h

/-- The cache remembers what was asked for since it was cleared, and no more. The induction adds
one request after the others. -/
theorem cacheAfter_eq (sound : p.Sound) (requests : List Request) :
    p.cacheAfter requests = p.memory (heard requests) := by
  induction requests using List.reverseRecOn with
  | nil => rfl
  | append_singleton requests request ih =>
    have step : p.cacheAfter (requests ++ [request]) =
        (p.handle (p.cacheAfter requests) request).2 := by
      rw [cacheAfter, List.foldl_append]
      rfl
    rw [step, ih]
    cases h : request.isClear with
    | true =>
      cases request with
      | clear =>
        rw [heard_append_clear]
        rfl
      | _ => cases h
    | false => rw [heard_append_of_not_isClear h, handle_memory sound h]

/-- The response to a request is given with the cache that the requests before it leave. -/
theorem run_append_cons (p : Parser) (before : List Request) (request : Request)
    (after : List Request) :
    (p.run (before ++ request :: after))[before.length]? =
      some (p.handle (p.cacheAfter before) request).1 := by
  rw [run, cacheAfter]
  generalize ([] : Cache) = cache
  induction before generalizing cache with
  | nil => rfl
  | cons first rest ih =>
    rw [List.cons_append, runFrom]
    exact ih _

theorem answerIn_nil (sound : p.Sound) (text : String) :
    (p.answerIn text []).1 = p.answer text := by
  rw [← memory_nil p, answerIn_memory sound, if_neg List.not_mem_nil]

/-- The cache changes nothing that a session responds but the confidence and the warnings of an
expression that is asked for again. -/
theorem run_transparent (sound : p.Sound) (before after : List Request) :
    (∀ text, ∃ answer new,
      (p.run (before ++ .parse text :: after))[before.length]? = some (.answer (.ok answer)) ∧
        (p.answerIn text []).1 = .ok new ∧ answer.schema = new.schema ∧
          (answer.confidence = 9 ∧ answer.warnings = [] ↔ cacheKey text ∈ heard before) ∧
            (cacheKey text ∉ heard before → answer = new)) ∧
    (∀ d, (p.run (before ++ .define d :: after))[before.length]? =
        some (.schema (p.define d []).1) ∧ (p.define d []).1.isOk = d.converts) ∧
    (p.run (before ++ .stats :: after))[before.length]? =
        some (.stats (Fields.firstSeen (heard before))) ∧
      (p.cacheAfter before).length = (Fields.firstSeen (heard before)).length := by
  simp only [run_append_cons, cacheAfter_eq sound]
  refine ⟨fun text => ?_, fun d => ⟨?_, isOk_define sound d⟩, ?_, ?_⟩
  · obtain ⟨new, hnew, schema, unlike⟩ := exists_new_answer sound text
    have answered := answerIn_memory sound text (heard before)
    rw [answerIn_nil sound]
    by_cases h : cacheKey text ∈ heard before
    · rw [if_pos h] at answered
      refine ⟨.remembered _, new, ?_, hnew, schema.symm, iff_of_true ⟨rfl, rfl⟩ h, absurd h⟩
      rw [handle, answered]
    · rw [if_neg h, hnew] at answered
      refine ⟨new, new, ?_, hnew, rfl, iff_of_false unlike h, fun _ => rfl⟩
      rw [handle, answered]
  · rw [handle, define_memory sound]
  · rw [handle, names_memory]
  · rw [memory, List.length_map]

/-! ### A session -/

theorem sound_of_loadOverrides {refPrefix : String} {samples : Fields Sample}
    {overrides : Fields Schema} {maxDepth : Json} (limited : maxDepth.number?.isSome = true)
    (nodes : ∀ name s, (name, .node s) ∈ samples → s.kind ≠ .abstract)
    (h : loadOverrides (.str refPrefix) samples = .ok overrides) :
    Sound ⟨overrides, maxDepth⟩ := by
  refine ⟨limited, ?_⟩
  dsimp only
  induction samples generalizing overrides with
  | nil =>
    cases h
    exact fun entry he => absurd he List.not_mem_nil
  | cons field rest ih =>
    obtain ⟨name, sample⟩ := field
    rw [loadOverrides] at h
    obtain ⟨s, hs, h⟩ := Fault.bind_eq_ok_iff.mp h
    obtain ⟨others, ho, h⟩ := Fault.bind_eq_ok_iff.mp h
    obtain rfl := Fault.pure_eq_ok_iff.mp h
    refine List.forall_mem_cons.mpr
      ⟨?_, ih (fun n t ht => nodes n t (List.mem_cons_of_mem _ ht)) ho⟩
    cases sample with
    | node t =>
      cases hs
      exact nodes name _ List.mem_cons_self
    | raw document => exact Form.kind_ne_abstract (Schema.regular_of_load hs)

/-- An item with an owner, of whom no field need be known. -/
def ownedItem : TypeDefinition :=
  .mk .null [("id", .mk .null [] none (some "Id") false),
    ("owner", .mk .null [] none (some "Partial<User>") true)] none none false

theorem run_transparent_ownedItem :
    ∃ p : Parser, p.Sound ∧ loadOverrides (.str "#/")
        [("Id", .raw (.obj [("type", .str "string"), ("format", .str "uuid")]))] =
          .ok p.overrides ∧
      ∃ answer new,
        (p.run [.parse "Id", .define ownedItem, .parse " Partial<User> ", .stats])[2]? =
            some (.answer (.ok answer)) ∧
          (p.answerIn " Partial<User> " []).1 = .ok new ∧ answer.schema = new.schema ∧
            answer.confidence = 9 ∧ answer.warnings = [] := by
  have loaded : loadOverrides (.str "#/")
      [("Id", .raw (.obj [("type", .str "string"), ("format", .str "uuid")]))] =
        .ok [("Id", .string { format := .str "uuid" })] := by
    rw [loadOverrides, Sample.load, Schema.load]
    rfl
  have sound : Sound ⟨[("Id", .string { format := .str "uuid" })], .int 10⟩ := by
    refine sound_of_loadOverrides rfl (fun name s h => ?_) loaded
    cases List.mem_singleton.mp h
  have asked : cacheKey " Partial<User> " ∈ heard [.parse "Id", .define ownedItem] := by decide
  obtain ⟨answer, new, answered, fresh, schema, again, -⟩ :=
    (run_transparent sound [.parse "Id", .define ownedItem] [.stats]).1 " Partial<User> "
  obtain ⟨confidence, warnings⟩ := again.mpr asked
  exact ⟨_, sound, loaded, answer, new, answered, fresh, schema, confidence, warnings⟩

end Parser

end Schemata

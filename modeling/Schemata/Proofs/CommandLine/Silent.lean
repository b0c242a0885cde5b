import Schemata.CommandLine.Run
import Mathlib.Data.List.Forall2

/-!
# Steps that leave no trace

A step is silent when it leaves the traces as they are, whether it is done or stopped. Steps made of
silent ones are silent, and so is everything that a run does before it delivers its text: reading
words, settings and samples, and working out what they come to.

## Main definitions

* `Run.Silent`: steps that leave no trace.

## Main results

* `Run.Silent.bind_cases`, `Run.Silent.bind_eq_ok_iff`: what follows silent steps starts from the
  same traces, if it starts at all.
* `CommandLine.silent_readRequest`, `CommandLine.silent_textOf`: all steps but the last are silent.
-/

namespace Schemata

namespace Run

variable {α β : Type}

/-- Whatever the traces are, the steps leave them as they are. -/
def Silent (m : Run α) : Prop := ∀ t, (m.start t).2 = t

theorem silent_pure (a : α) : Silent (pure a) := fun _ => rfl

theorem silent_throw (stop : Stop) : Silent (throw stop : Run α) := fun _ => rfl

theorem silent_workspace : Silent workspace := fun _ => rfl

namespace Silent

variable {m : Run α} {f : α → Run β}

theorem start_eq (h : m.Silent) (t : Traces) : m.start t = ((m.start t).1, t) :=
  Prod.ext rfl (h t)

theorem bind (h : m.Silent) (next : ∀ a, (f a).Silent) : (m >>= f).Silent := by
  intro t
  rw [start_bind, h.start_eq]
  cases (m.start t).1 with
  | error stop => rfl
  | ok a => exact next a t

theorem ite {c : Prop} [Decidable c] {m n : Run α} (h : m.Silent) (h' : n.Silent) :
    (if c then m else n).Silent := by
  split
  · exact h
  · exact h'

theorem mapM {f : α → Run β} (h : ∀ a, (f a).Silent) : ∀ all : List α, (all.mapM f).Silent
  | [] => by
    rw [List.mapM_nil]
    exact silent_pure _
  | a :: rest => by
    rw [List.mapM_cons]
    exact (h a).bind fun _ => (mapM h rest).bind fun _ => silent_pure _

/-- Silent steps are stopped, or what follows them starts from the same traces. -/
theorem bind_cases (h : m.Silent) (f : α → Run β) (t : Traces) :
    (∃ stop, (m >>= f).start t = (.error stop, t)) ∨
      ∃ a, m.start t = (.ok a, t) ∧ (m >>= f).start t = (f a).start t := by
  rw [start_bind, h.start_eq]
  cases (m.start t).1 with
  | error stop => exact .inl ⟨stop, rfl⟩
  | ok a => exact .inr ⟨a, rfl, rfl⟩

theorem bind_eq_ok {t t' : Traces} {b : β} (h : m.Silent)
    (done : (m >>= f).start t = (.ok b, t')) :
    ∃ a, m.start t = (.ok a, t) ∧ (f a).start t = (.ok b, t') := by
  rcases h.bind_cases f t with ⟨stop, stopped⟩ | ⟨a, first, rest⟩
  · cases done.symm.trans stopped
  · exact ⟨a, first, rest.symm.trans done⟩

theorem bind_eq_ok_iff {t : Traces} {b : β} (h : m.Silent) :
    (m >>= f).start t = (.ok b, t) ↔
      ∃ a, m.start t = (.ok a, t) ∧ (f a).start t = (.ok b, t) := by
  refine ⟨h.bind_eq_ok, fun ⟨a, first, rest⟩ => ?_⟩
  rw [start_bind, first]
  exact rest

/-- Silent steps on a list all start from the same traces. The induction is on the list. -/
theorem forall₂_of_mapM {t t' : Traces} {results : List β} {all : List α}
    (h : ∀ a, (f a).Silent) (done : (all.mapM f).start t = (.ok results, t')) :
    List.Forall₂ (fun a b => (f a).start t = (.ok b, t)) all results := by
  induction all generalizing results with
  | nil =>
    cases done
    exact .nil
  | cons a rest ih =>
    rw [List.mapM_cons] at done
    obtain ⟨b, first, done⟩ := (h a).bind_eq_ok done
    obtain ⟨others, rest', done⟩ := (Silent.mapM h rest).bind_eq_ok done
    cases done
    exact .cons first (ih rest')

end Silent

end Run

namespace CommandLine

open Run

/-! ### Words -/

theorem silent_placeOf (path : String) : (placeOf path).Silent :=
  .ite (silent_throw _) (silent_workspace.bind fun _ => silent_pure _)

theorem silent_placeToRead (path : String) : (placeToRead path).Silent :=
  (silent_placeOf path).bind fun _ => silent_workspace.bind fun _ =>
    .ite (silent_pure _) (silent_throw _)

theorem silent_optionPlace (name path : String) : (optionPlace name path).Silent :=
  .ite (silent_placeToRead path) (silent_placeOf path)

theorem silent_optionPlaces (values : Fields String) : (optionPlaces values).Silent :=
  .mapM (fun (name, path) => (silent_optionPlace name path).bind fun _ => silent_pure _) values

theorem silent_requestOf (command : Command) (given : Words) :
    (requestOf command given).Silent := by
  refine (silent_optionPlaces _).bind fun places => ?_
  have samples := Silent.mapM silent_placeToRead given.arguments
  cases command with
  | parse =>
    dsimp only
    split
    · exact silent_pure _
    · exact silent_throw _
  | merge | analyze => exact samples.bind fun _ => .ite (silent_throw _) (silent_pure _)

theorem silent_readRequest (words : List String) : (readRequest words).Silent := by
  rw [readRequest]
  split
  · exact silent_throw _
  · exact silent_requestOf _ _

/-! ### Inputs -/

section Inputs

variable {α : Type}

theorem silent_orInterrupt (result : Except Fault α) : (orInterrupt result).Silent := by
  cases result with
  | ok v => exact silent_pure v
  | error fault => exact silent_throw _

theorem silent_orRefuse (subject : String) (result : Except Fault α) :
    (orRefuse subject result).Silent := by
  cases result with
  | ok v => exact silent_pure v
  | error fault =>
    rw [orRefuse]
    split
    · exact silent_throw _
    · exact silent_throw _

theorem silent_readText (place : Place) : (readText place).Silent := by
  refine silent_workspace.bind fun w => ?_
  split
  · exact silent_pure _
  · exact silent_throw _

theorem silent_readConfig (place : Option Place) : (readConfig place).Silent := by
  cases place with
  | none => exact silent_pure _
  | some place =>
    refine (silent_readText place).bind fun text => ?_
    split
    · exact silent_throw _
    · exact silent_orInterrupt _

theorem silent_readJson (place : Place) : (readJson place).Silent := by
  refine (silent_readText place).bind fun text => ?_
  split
  · exact silent_pure _
  · exact silent_throw _

/-- The induction is on the files. -/
theorem silent_readFiles (load : Json → Except Fault (List α)) (places : List Place) :
    (readFiles load places).Silent := by
  induction places with
  | nil => exact silent_pure _
  | cons place rest ih =>
    exact (silent_readJson place).bind fun _ => (silent_orRefuse _ _).bind fun _ =>
      ih.bind fun _ => silent_pure _

end Inputs

/-! ### Texts -/

theorem silent_findings (settings : Config) (r : SampleRequest) :
    (findings settings r).Silent :=
  .ite ((silent_readFiles _ _).bind fun _ => silent_orInterrupt _)
    ((silent_readFiles _ _).bind fun _ => silent_orInterrupt _)

theorem silent_shownLine (r : SampleRequest) : (shownLine r).Silent := by
  refine silent_workspace.bind fun w => ?_
  split
  · exact silent_pure _
  · exact silent_throw _

theorem silent_answerText (config : Config) (expression : String) :
    (answerText config expression).Silent :=
  (silent_orRefuse _ _).bind fun _ => (silent_orInterrupt _).bind fun _ =>
    (silent_orInterrupt _).bind fun _ => silent_pure _

theorem silent_findingsText (settings : Config) (r : SampleRequest) :
    (findingsText settings r).Silent := by
  refine (silent_findings settings r).bind fun found => .ite ?_ ?_
  · exact (silent_shownLine r).bind fun _ => (silent_orInterrupt _).bind fun _ => silent_pure _
  · exact (silent_orInterrupt _).bind fun _ => silent_pure _

theorem silent_textOf (request : Request) : (textOf request).Silent := by
  cases request with
  | parse config expression =>
    exact (silent_readConfig config).bind fun _ => silent_answerText _ expression
  | samples r => exact (silent_readConfig r.config).bind fun _ => silent_findingsText _ r

end CommandLine

end Schemata

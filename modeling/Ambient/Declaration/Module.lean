import Ambient.Declaration.Classify
import Ambient.Declaration.Printer
import Ambient.Script.Program

/-!
# Modules

One pass over the statements of a module gives its declarations. A declaration that cannot be
written either ends the pass or is noted among the results.

* `Result`, `ModuleError`;
* `pass`: the results and the model after a list of statements;
* `Module`, `Module.ofStatements`, `Module.render`.
-/

namespace Ambient.Declaration

open Ambient.Script (Statement)

/-- What came of one statement. -/
structure Result where
  statement : Statement
  outcome : Outcome

/-- A declaration that cannot be written, with the statement it stands for. -/
structure ModuleError where
  cause : Refusal
  line : Nat
  snippet : String
  file : Option String
  deriving DecidableEq, Repr

/-- Where an error is: its file and line, or its line alone. -/
def ModuleError.location (e : ModuleError) : String :=
  match e.file.filter fun f => !f.isEmpty with
  | some file => file ++ ":" ++ toString e.line
  | none => "line " ++ toString e.line

/-- The message of an error: where it is, what it is, and the statement. -/
def ModuleError.message (e : ModuleError) : String :=
  e.location ++ ": " ++ e.cause.message ++ "\n    " ++ e.snippet

/-- The error that a refusal of a statement is. -/
def ModuleError.of (file : Option String) (s : Statement) (cause : Refusal) : ModuleError :=
  ⟨cause, s.line, s.headline Statement.headlineLimit, file⟩

/-- How a module is read. -/
structure PassOptions where
  filter : Name.Filter
  /-- Whether to go on after a declaration that cannot be written. -/
  continueOnError : Bool
  /-- The file named in errors. -/
  file : Option String

/-- The results of a list of statements, and the model after them. -/
def pass (options : PassOptions) (m : Model) :
    List Statement → Except ModuleError (List Result × Model)
  | [] => .ok ([], m)
  | s :: rest =>
    let (outcome, next) := classify options.filter m s
    match outcome, options.continueOnError with
    | .fatal cause, false => .error (.of options.file s cause)
    | _, _ => do
      let (results, last) ← pass options next rest
      .ok (⟨s, outcome⟩ :: results, last)

/-- The declarations of a module. -/
structure Module where
  model : Model
  provides : List String
  results : List Result

namespace Module

/-- The declarations of a list of statements. -/
def ofStatements (options : PassOptions) (statements : List Statement) :
    Except ModuleError Module := do
  let (results, model) ← pass options .empty statements
  .ok ⟨model, Script.providedNames statements, results⟩

/-- The text of a module. -/
def render (m : Module) (emit : Bool) : String := m.model.render emit m.provides

/-- The results of declarations that cannot be written. -/
def fatalResults (m : Module) : List Result := m.results.filter (·.outcome.isFatal)

end Module

end Ambient.Declaration

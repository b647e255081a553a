import Ambient.Declaration.Module
import Mathlib.Data.List.Basic

/-!
# Runs over statements

A pass that goes on after every statement is a run: each statement is classified in the model that
the statements before it leave. The results and the model of a run are given by two plain
recursions, so that later proofs need not open the pass.

* `Model.after`, `Model.results`;
* **`Model.after_invariant`**: what every step keeps, a run keeps;
* `pass_cons`, `pass_cons_fatal`: what a pass does after a statement and at a fatal one;
* `pass_ok`, `model_of_ofStatements`: a pass that ends well is the run;
* **`ofStatements_continuing`**: the pass that goes on is the run;
* `chain`, `assignment`, `documented`: small statements to run.
-/

namespace Ambient.Declaration

open Ambient.Script (Statement)

namespace Model

/-- The model after a list of statements. -/
def after (filter : Name.Filter) (m : Model) : List Statement → Model
  | [] => m
  | s :: rest => after filter (classify filter m s).2 rest

/-- The results of a list of statements. -/
def results (filter : Name.Filter) (m : Model) : List Statement → List Result
  | [] => []
  | s :: rest =>
    ⟨s, (classify filter m s).1⟩ :: results filter (classify filter m s).2 rest

variable {filter : Name.Filter}

@[simp] theorem after_nil (m : Model) : m.after filter [] = m := rfl

@[simp] theorem after_cons (m : Model) (s : Statement) (rest : List Statement) :
    m.after filter (s :: rest) = (classify filter m s).2.after filter rest := rfl

@[simp] theorem results_nil (m : Model) : m.results filter [] = [] := rfl

@[simp] theorem results_cons (m : Model) (s : Statement) (rest : List Statement) :
    m.results filter (s :: rest) =
      ⟨s, (classify filter m s).1⟩ :: (classify filter m s).2.results filter rest := rfl

/-- There is one result for every statement, in order. -/
theorem map_statement_results (statements : List Statement) : ∀ m : Model,
    (m.results filter statements).map Result.statement = statements := by
  induction statements with
  | nil => intro m; rfl
  | cons s rest ih => intro m; exact congrArg _ (ih _)

/-- **Invariance along runs.** -/
theorem after_invariant (P : Model → Prop) {statements : List Statement}
    (hstep : ∀ s ∈ statements, ∀ m, P m → P (classify filter m s).2) :
    ∀ m : Model, P m → P (m.after filter statements) := by
  induction statements with
  | nil => intro m hm; exact hm
  | cons s rest ih =>
    intro m hm
    exact ih (fun t ht => hstep t (List.mem_cons_of_mem s ht)) _
      (hstep s List.mem_cons_self m hm)

end Model

/-! ## Passes -/

variable (options : PassOptions) {m : Model} {s : Statement} {rest : List Statement}

/-- A pass goes on after a statement that is not fatal, and after each one if it is to. -/
theorem pass_cons (h : options.continueOnError = true ∨
      (classify options.filter m s).1.isFatal = false) :
    pass options m (s :: rest) =
      (pass options (classify options.filter m s).2 rest).map fun r =>
        (⟨s, (classify options.filter m s).1⟩ :: r.1, r.2) := by
  rw [pass]
  rcases hc : classify options.filter m s with ⟨outcome, next⟩
  rw [hc] at h
  dsimp only at h ⊢
  split
  · rename_i hfalse
    rcases h with h | h
    · rw [h] at hfalse
      cases hfalse
    · cases h
  · cases pass options next rest <;> rfl

/-- A pass that is not to go on ends at a fatal statement. -/
theorem pass_cons_fatal {cause : Refusal} (hc : options.continueOnError = false)
    (h : (classify options.filter m s).1 = .fatal cause) :
    pass options m (s :: rest) = .error (.of options.file s cause) := by
  rw [pass]
  rcases hs : classify options.filter m s with ⟨outcome, next⟩
  rw [hs] at h
  subst h
  simp only [hc]

theorem pass_continuing (filter : Name.Filter) (file : Option String)
    (statements : List Statement) : ∀ m : Model, pass ⟨filter, true, file⟩ m statements =
      .ok (m.results filter statements, m.after filter statements) := by
  induction statements with
  | nil => intro m; rfl
  | cons s rest ih =>
    intro m
    rw [pass_cons ⟨filter, true, file⟩ (Or.inl rfl), ih]
    rfl

theorem exists_cause {o : Outcome} (h : o.isFatal = true) : ∃ cause, o = .fatal cause := by
  cases o with
  | declared name => cases h
  | skipped reason => cases h
  | fatal cause => exact ⟨cause, rfl⟩

/-- A pass that ends well is the run. -/
theorem pass_ok {outcome : List Result × Model} : ∀ {m : Model} {statements : List Statement},
    pass options m statements = .ok outcome →
      outcome = (m.results options.filter statements, m.after options.filter statements)
  | m, [], h => (Except.ok.inj h).symm
  | m, s :: rest, h => by
    by_cases hs : options.continueOnError = true ∨
        (classify options.filter m s).1.isFatal = false
    · rw [pass_cons options hs] at h
      cases hrest : pass options (classify options.filter m s).2 rest with
      | error e => rw [hrest] at h; cases h
      | ok later =>
        rw [hrest] at h
        obtain rfl := Except.ok.inj h
        rw [pass_ok hrest]
        rfl
    · rw [not_or, Bool.not_eq_true, Bool.not_eq_false] at hs
      obtain ⟨cause, hcause⟩ := exists_cause hs.2
      rw [pass_cons_fatal options hs.1 hcause] at h
      cases h

/-- A module has the model that its statements lead to. -/
theorem model_of_ofStatements {statements : List Statement} {whole : Module}
    (h : Module.ofStatements options statements = .ok whole) :
    whole.model = Model.empty.after options.filter statements := by
  rw [Module.ofStatements] at h
  obtain ⟨outcome, hpass, h⟩ := bind_eq_ok.mp h
  obtain rfl := Except.ok.inj h
  exact congrArg Prod.snd (pass_ok options hpass)

/-- **The pass that goes on** is the run. -/
theorem ofStatements_continuing (filter : Name.Filter) (file : Option String)
    (statements : List Statement) :
    Module.ofStatements ⟨filter, true, file⟩ statements =
      .ok ⟨Model.empty.after filter statements, Script.providedNames statements,
        Model.empty.results filter statements⟩ := by
  rw [Module.ofStatements, pass_continuing]
  rfl

/-! ## Small statements -/

/-- The expression that accesses a member of a member of a variable, and so on. -/
def chain (first : String) (rest : List String) : Script.Expression :=
  rest.foldl (fun target name => .member target (.identifier name) false) (.identifier first)

/-- A number assigned to a chain of members. -/
def assignment (first : String) (rest : List String) : Script.Expression :=
  .assignment (chain first rest) (.literal (.whole 1) "1")

/-- An expression as a statement after a block comment. -/
def documented (comment : String) (e : Script.Expression) : Statement :=
  ⟨.expression e, 1, "", [⟨.block, comment⟩]⟩

end Ambient.Declaration

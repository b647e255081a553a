import Ambient.Proofs.Declaration.Run

/-!
# Ending at the first refusal

A pass may end at the first declaration that cannot be written, or note it and go on. Up to that
declaration the two see the same models, so what the one ends with can be read off the results of
the other.

* `pass_eq_ok`, `pass_eq_error`: the pass that ends, by the results of the run;
* **`ofStatements_ending_eq`**: it gives the module of the pass that goes on, or the error of the
  first fatal result there.
-/

namespace Ambient.Declaration

open Ambient.Script (Statement)

variable {filter : Name.Filter} {file : Option String}

/-- Where no result of a run is fatal, the pass that may end is the run. -/
theorem pass_eq_ok {statements : List Statement} : ∀ {m : Model},
    (∀ r ∈ m.results filter statements, r.outcome.isFatal = false) →
    pass ⟨filter, false, file⟩ m statements =
      .ok (m.results filter statements, m.after filter statements) := by
  induction statements with
  | nil => intro m _; rfl
  | cons s rest ih =>
    intro m h
    rw [Model.results_cons, List.forall_mem_cons] at h
    have hs : (classify filter m s).1.isFatal = false := h.1
    rw [pass_cons ⟨filter, false, file⟩ (Or.inr hs), ih h.2]
    rfl

/-- Where the first fatal result of a run stands at a statement, the pass ends there. -/
theorem pass_eq_error {s : Statement} {cause : Refusal} {later : List Result}
    {statements : List Statement} : ∀ {earlier : List Result} {m : Model},
    m.results filter statements = earlier ++ ⟨s, .fatal cause⟩ :: later →
    (∀ r ∈ earlier, r.outcome.isFatal = false) →
    pass ⟨filter, false, file⟩ m statements = .error (.of file s cause) := by
  induction statements with
  | nil =>
    intro earlier m h _
    exact absurd h.symm (List.append_ne_nil_of_right_ne_nil _ (List.cons_ne_nil _ _))
  | cons t rest ih =>
    intro earlier m h hearlier
    cases earlier with
    | nil =>
      obtain ⟨hfirst, -⟩ := List.cons.inj h
      obtain ⟨rfl, hfatal⟩ := Result.mk.inj hfirst
      exact pass_cons_fatal ⟨filter, false, file⟩ rfl hfatal
    | cons r earlier =>
      obtain ⟨rfl, hrest⟩ := List.cons.inj h
      rw [List.forall_mem_cons] at hearlier
      have ht : (classify filter m t).1.isFatal = false := hearlier.1
      rw [pass_cons ⟨filter, false, file⟩ (Or.inr ht), ih hrest hearlier.2]
      rfl

/-- **Ending and going on agree.** With no fatal result both give the same module; otherwise the
pass that may end gives the error of the first fatal result, with the line and the headline of its
statement and the file it was given. -/
theorem ofStatements_ending_eq (filter : Name.Filter) (file : Option String)
    (statements : List Statement) :
    ∃ m : Module, Module.ofStatements ⟨filter, true, file⟩ statements = .ok m ∧
      m.results.map Result.statement = statements ∧
      ((∀ r ∈ m.results, r.outcome.isFatal = false) ∧
          Module.ofStatements ⟨filter, false, file⟩ statements = .ok m ∨
        ∃ earlier s cause later, m.results = earlier ++ ⟨s, .fatal cause⟩ :: later ∧
          (∀ r ∈ earlier, r.outcome.isFatal = false) ∧
          Module.ofStatements ⟨filter, false, file⟩ statements =
            .error
              { cause := cause
                line := s.line
                snippet := s.headline Statement.headlineLimit
                file := file }) := by
  refine ⟨_, ofStatements_continuing filter file statements,
    Model.map_statement_results statements .empty, ?_⟩
  cases hfind : (Model.empty.results filter statements).find? (·.outcome.isFatal) with
  | none =>
    have hnone : ∀ r ∈ Model.empty.results filter statements, r.outcome.isFatal = false :=
      fun r hr => by simpa using List.find?_eq_none.mp hfind r hr
    refine Or.inl ⟨hnone, ?_⟩
    rw [Module.ofStatements, pass_eq_ok hnone]
    rfl
  | some r =>
    obtain ⟨hr, earlier, later, hresults, hearlier⟩ := List.find?_eq_some_iff_append.mp hfind
    obtain ⟨s, outcome⟩ := r
    obtain ⟨cause, rfl⟩ := exists_cause hr
    have hnone : ∀ q ∈ earlier, q.outcome.isFatal = false :=
      fun q hq => by simpa using hearlier q hq
    refine Or.inr ⟨earlier, s, cause, later, hresults, hnone, ?_⟩
    rw [Module.ofStatements, pass_eq_error hresults hnone]
    rfl

end Ambient.Declaration

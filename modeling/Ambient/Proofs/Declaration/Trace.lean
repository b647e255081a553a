import Ambient.Proofs.Declaration.Effect

/-!
# Statements that declare nothing

Two runs are compared: one over a whole list of statements, and one over the statements of the list
that declare or provide something.

* `Result.leavesTrace`: what is kept of a list;
* `Model.Kept`: the second run has the namespaces of the first one that declare something;
* `Kept.findClass?_eq`, `Kept.placement_eq`: so every statement does the same in both.
-/

namespace Ambient.Declaration

open Ambient.Script (Statement)

variable {filter : Name.Filter}

/-! ## Namespaces that declare something -/

/-- The namespaces that declare something. -/
def Model.inhabited (m : Model) : List (String × Namespace) :=
  m.namespaces.filter fun entry => !entry.2.isEmpty

theorem Model.mem_inhabited {m : Model} {entry : String × Namespace} :
    entry ∈ m.inhabited ↔ entry ∈ m.namespaces ∧ entry.2.isEmpty = false := by
  simp [inhabited]

theorem Namespace.isEmpty_empty : Namespace.empty.isEmpty = true := rfl

/-- Recording makes a namespace declare something. -/
theorem Namespace.Gains.isEmpty_eq_false {ns ns' : Namespace} {owner : Option String}
    {entry : Entry} (h : ns.Gains owner entry ns') : ns'.isEmpty = false := by
  cases h <;> simp [isEmpty]

/-- A namespace that is only created is not inhabited. -/
theorem Model.inhabited_withNamespace (m : Model) (path : String) :
    (m.withNamespace path).inhabited = m.inhabited := by
  rcases withNamespace_cases m path with h | ⟨-, h⟩
  · rw [h]
  · rw [h, inhabited, List.filter_append,
      List.filter_cons_of_neg (by simp [Namespace.isEmpty_empty]), List.filter_nil,
      List.append_nil, inhabited]

/-- A model has the inhabited namespaces of another one, in some order. -/
structure Model.Kept (kept whole : Model) : Prop where
  perm : kept.namespaces.Perm whole.inhabited
  nodup : whole.paths.Nodup
  registered : whole.Each Namespace.Registered

namespace Model.Kept

variable {kept whole : Model}

theorem nodup_paths (h : kept.Kept whole) : kept.paths.Nodup := by
  have hsub : (whole.inhabited.map Prod.fst).Sublist whole.paths :=
    List.filter_sublist.map Prod.fst
  exact (h.perm.map Prod.fst).nodup_iff.mpr (h.nodup.sublist hsub)

theorem get?_eq_some_iff (h : kept.Kept whole) {path : String} {ns : Namespace} :
    kept.get? path = some ns ↔ whole.get? path = some ns ∧ ns.isEmpty = false := by
  rw [Model.get?_eq_some_iff h.nodup_paths, Model.get?_eq_some_iff h.nodup, h.perm.mem_iff,
    mem_inhabited]

/-- The namespace at a path is the same in both models, as far as it declares something. -/
theorem getD_eq (h : kept.Kept whole) (path : String) :
    (kept.get? path).getD .empty = (whole.get? path).getD .empty := by
  cases hw : whole.get? path with
  | none =>
    cases hk : kept.get? path with
    | none => rfl
    | some ns => rw [(h.get?_eq_some_iff.mp hk).1] at hw; cases hw
  | some ns =>
    cases he : ns.isEmpty with
    | false => rw [h.get?_eq_some_iff.mpr ⟨hw, he⟩]
    | true =>
      have hns : ns = .empty := (h.registered _ (mem_of_get? hw)).eq_empty he
      cases hk : kept.get? path with
      | none => rw [hns]; rfl
      | some ns' =>
        have hboth := h.get?_eq_some_iff.mp hk
        obtain rfl := Option.some.inj (hw.symm.trans hboth.1)
        exact absurd (he.symm.trans hboth.2) Bool.noConfusion

theorem findClass?_eq (h : kept.Kept whole) (path name : String) :
    kept.findClass? path name = whole.findClass? path name := by
  rw [Model.findClass?_eq, Model.findClass?_eq, h.getD_eq]

theorem placement_eq (h : kept.Kept whole) (sub : Subject) :
    placement kept sub = placement whole sub := by
  simp only [placement, placeIn, Model.isStaticMember, h.findClass?_eq]

/-- A statement has the same outcome in both models. -/
theorem outcome_eq (h : kept.Kept whole) (filter : Name.Filter) (s : Statement) :
    (classify filter kept s).1 = (classify filter whole s).1 :=
  outcome_of_placement filter s h.placement_eq

/-! ## Steps of both runs -/

theorem perm_inhabited_update {m : Model} (hm : m.paths.Nodup) (path : String)
    {f : Namespace → Namespace} (hf : (f ((m.get? path).getD .empty)).isEmpty = false) :
    (m.update path f).inhabited.Perm ((path, f ((m.get? path).getD .empty)) ::
      m.inhabited.filter fun entry => entry.1 != path) := by
  have h := (Model.perm_update hm path f).filter fun entry => !entry.2.isEmpty
  rw [List.filter_cons_of_pos (by simp [hf]), List.filter_filter] at h
  rw [Model.inhabited, Model.inhabited, List.filter_filter]
  refine h.trans (List.Perm.of_eq ?_)
  simp only [Bool.and_comm]

/-- A declaration recorded in both models leaves them alike. -/
theorem update (h : kept.Kept whole) (path : String) {f : Namespace → Namespace}
    (hf : (f ((whole.get? path).getD .empty)).isEmpty = false)
    (hreg : (f ((whole.get? path).getD .empty)).Registered) :
    (kept.update path f).Kept (whole.update path f) where
  perm := by
    have hkept := Model.perm_update h.nodup_paths path f
    rw [h.getD_eq] at hkept
    refine hkept.trans (List.Perm.trans ?_ (perm_inhabited_update h.nodup path hf).symm)
    exact (h.perm.filter _).cons _
  nodup := Model.nodup_paths_update h.nodup path f
  registered := h.registered.update hreg

/-- A namespace that is only created makes no difference. -/
theorem withNamespace (h : kept.Kept whole) (path : String) :
    kept.Kept (whole.withNamespace path) where
  perm := by
    rw [Model.inhabited_withNamespace]
    exact h.perm
  nodup := Model.nodup_paths_update h.nodup path id
  registered := h.registered.update (h.registered.getD Namespace.registered_empty path)

/-- A statement that is not fatal leaves the models alike if it stands in both runs. -/
theorem step_both (h : kept.Kept whole) {s : Statement}
    (hs : (classify filter whole s).1.isFatal = false) :
    (classify filter kept s).2.Kept (classify filter whole s).2 := by
  have hout := h.outcome_eq filter s
  rcases hw : classify filter whole s with ⟨o, next⟩
  rw [hw] at hs hout
  cases step_of_classify hw with
  | skipped =>
    rw [classify_skipped hout]
    exact h
  | unreadable => cases hs
  | refused => cases hs
  | recorded sub place entry hsub hplace hentry =>
    rw [classify_recorded hsub ((h.placement_eq sub).trans hplace) hentry]
    have hgains := gains_at_place h.registered hplace hentry
    exact h.update place.path hgains.isEmpty_eq_false
      (hgains.registered (h.registered.getD Namespace.registered_empty _))

/-- A statement that declares nothing leaves the models alike if it stands in the first run only. -/
theorem step_whole (h : kept.Kept whole) {s : Statement}
    (hs : (classify filter whole s).1.isDeclared = false) :
    kept.Kept (classify filter whole s).2 := by
  rcases hw : classify filter whole s with ⟨o, next⟩
  rw [hw] at hs
  cases step_of_classify hw with
  | skipped => exact h
  | unreadable => exact h
  | refused sub place => exact h.withNamespace place.path
  | recorded => cases hs

end Model.Kept

/-! ## Runs -/

/-- A result leaves a trace in the text: it is a declaration, or its statement provides a name. -/
def Result.leavesTrace (r : Result) : Bool :=
  r.outcome.isDeclared || (r.outcome.isSkipped && r.statement.isProvide)

/-- The statements whose results leave a trace. -/
def traced (results : List Result) : List Statement :=
  (results.filter Result.leavesTrace).map Result.statement

theorem isFatal_of_leavesTrace {r : Result} (h : r.leavesTrace = true) :
    r.outcome.isFatal = false := by
  obtain ⟨s, o⟩ := r
  cases o with
  | declared => rfl
  | skipped => rfl
  | fatal => cases h

theorem isDeclared_of_leavesTrace {r : Result} (h : r.leavesTrace = false) :
    r.outcome.isDeclared = false := (Bool.or_eq_false_iff.mp h).1

/-- **Both runs** give the same results to the statements that stand in both, and leave models that
are alike. -/
theorem kept_run (filter : Name.Filter) (statements : List Statement) :
    ∀ kept whole : Model, kept.Kept whole →
    kept.results filter (traced (whole.results filter statements)) =
        (whole.results filter statements).filter Result.leavesTrace ∧
      (kept.after filter (traced (whole.results filter statements))).Kept
        (whole.after filter statements) := by
  induction statements with
  | nil => intro kept whole h; exact ⟨rfl, h⟩
  | cons s rest ih =>
    intro kept whole h
    rw [Model.results_cons, Model.after_cons, traced]
    cases hr : Result.leavesTrace ⟨s, (classify filter whole s).1⟩ with
    | true =>
      obtain ⟨hresults, hkept⟩ := ih _ _ (h.step_both (isFatal_of_leavesTrace hr))
      rw [List.filter_cons_of_pos hr, List.map_cons, Model.results_cons, Model.after_cons,
        h.outcome_eq]
      exact ⟨congrArg _ hresults, hkept⟩
    | false =>
      rw [List.filter_cons_of_neg (by simp [hr])]
      exact ih _ _ (h.step_whole (isDeclared_of_leavesTrace hr))

/-- The statements that leave a trace provide all names. -/
theorem providedNames_traced (filter : Name.Filter) (statements : List Statement) : ∀ m : Model,
    Script.providedNames (traced (m.results filter statements)) =
      Script.providedNames statements := by
  induction statements with
  | nil => intro m; rfl
  | cons s rest ih =>
    intro m
    rw [Model.results_cons, traced, Script.providedNames_cons]
    cases hr : Result.leavesTrace ⟨s, (classify filter m s).1⟩ with
    | true =>
      rw [List.filter_cons_of_pos hr, List.map_cons, Script.providedNames_cons]
      exact congrArg _ (ih _)
    | false =>
      have hs : s.provided? = none := by
        by_contra hp
        have hprovide : s.isProvide = true := Option.isSome_iff_ne_none.mpr hp
        rw [classify_provide hprovide] at hr
        simp [Result.leavesTrace, Outcome.isSkipped, hprovide] at hr
      rw [List.filter_cons_of_neg (by simp [hr]), hs]
      exact ih _

end Ambient.Declaration

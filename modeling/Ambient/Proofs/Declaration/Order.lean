import Ambient.Declaration.Module
import Ambient.Proofs.Declaration.Trace

/-!
# The order of blocks

Without the statements that declare and provide nothing, a list of statements gives the same blocks.
They may stand in another order: a declaration that cannot be written leaves its namespace behind,
and a namespace keeps the position at which it was first seen.

* `after_inhabited`: a namespace that declares something keeps doing so;
* `namespaces_kept_run`: the order is the same if no namespace that was left empty is declared in
  later;
* **`render_traced`**: the two texts;
* `render_traced_differs`, `render_traced_quiet`: a list with two texts, and one with one.
-/

namespace Ambient.Declaration

open Ambient.Script (Statement)

variable {filter : Name.Filter}

/-! ## Namespaces that keep their positions -/

/-- In a list where the namespace at a path declares something, if it is there, the change of that
namespace and the choice of the inhabited ones can be exchanged. -/
theorem filter_updateIn (path : String) (f : Namespace → Namespace) :
    ∀ l : List (String × Namespace), (∀ ns, l.lookup path = some ns → ns.isEmpty = false) →
      (f ((l.lookup path).getD .empty)).isEmpty = false →
      (Model.updateIn path f l).filter (fun entry => !entry.2.isEmpty) =
        Model.updateIn path f (l.filter fun entry => !entry.2.isEmpty)
  | [], _, hf => List.filter_cons_of_pos (by simpa using hf)
  | (p, ns) :: rest, hl, hf => by
    by_cases hp : p = path
    · subst hp
      rw [List.lookup_cons_self, Option.getD_some] at hf
      have hns := hl ns List.lookup_cons_self
      rw [List.filter_cons_of_pos (by simpa using hns), Model.updateIn_cons_self,
        Model.updateIn_cons_self]
      exact List.filter_cons_of_pos (by simpa using hf)
    · rw [Model.lookup_cons_of_ne hp] at hl hf
      have ih := filter_updateIn path f rest hl hf
      rw [Model.updateIn_cons_of_ne hp]
      cases hns : ns.isEmpty with
      | false =>
        rw [List.filter_cons_of_pos (by simp [hns]), List.filter_cons_of_pos (by simp [hns]),
          Model.updateIn_cons_of_ne hp, ih]
      | true =>
        rw [List.filter_cons_of_neg (by simp [hns]), List.filter_cons_of_neg (by simp [hns]), ih]

/-- A model in which the namespace at a path declares something. -/
def Model.Inhabits (path : String) (m : Model) : Prop :=
  m.Each Namespace.Registered ∧ ∃ ns, m.get? path = some ns ∧ ns.isEmpty = false

theorem inhabits_classify {path : String} {m : Model} (hm : m.Inhabits path) (s : Statement) :
    (classify filter m s).2.Inhabits path := by
  obtain ⟨hreg, ns, hget, hns⟩ := hm
  refine ⟨registered_classify filter hreg s, ?_⟩
  rcases hc : classify filter m s with ⟨o, next⟩
  cases step_of_classify hc with
  | skipped => exact ⟨ns, hget, hns⟩
  | unreadable => exact ⟨ns, hget, hns⟩
  | refused sub place =>
    by_cases hp : path = place.path
    · subst hp
      exact ⟨ns, by rw [Model.withNamespace, Model.get?_update_self, hget]; rfl, hns⟩
    · exact ⟨ns, by rw [Model.withNamespace, Model.get?_update_of_ne hp, hget], hns⟩
  | recorded sub place entry _ hplace hentry =>
    by_cases hp : path = place.path
    · subst hp
      exact ⟨_, Model.get?_update_self .., (gains_at_place hreg hplace hentry).isEmpty_eq_false⟩
    · exact ⟨ns, by rw [Model.record, Model.get?_update_of_ne hp, hget], hns⟩

theorem after_inhabited (filter : Name.Filter) {path : String} {m : Model}
    (hm : m.Inhabits path) (statements : List Statement) :
    (m.after filter statements).Inhabits path :=
  Model.after_invariant (Model.Inhabits path) (fun s _ _ h => inhabits_classify h s) m hm

/-- A declared statement leaves the inhabited namespaces in the same order in both runs, if the
namespace it declares in is not one that stood empty. -/
theorem step_order {kept whole : Model} (h : kept.Kept whole)
    (hall : kept.namespaces = whole.inhabited) {s : Statement}
    (hs : (classify filter whole s).1.isFatal = false)
    (hquiet : ∀ path, whole.get? path = some .empty →
      ¬ (classify filter whole s).2.Inhabits path) :
    (classify filter kept s).2.namespaces = (classify filter whole s).2.inhabited := by
  have hout := h.outcome_eq filter s
  have hreg := registered_classify filter h.registered s
  rcases hw : classify filter whole s with ⟨o, next⟩
  rw [hw] at hs hout hquiet hreg
  cases step_of_classify hw with
  | skipped =>
    rw [classify_skipped hout]
    exact hall
  | unreadable => cases hs
  | refused => cases hs
  | recorded sub place entry hsub hplace hentry =>
    rw [classify_recorded hsub ((h.placement_eq sub).trans hplace) hentry]
    have hgains := (gains_at_place h.registered hplace hentry).isEmpty_eq_false
    have hold : ∀ ns, whole.get? place.path = some ns → ns.isEmpty = false := by
      intro ns hget
      by_contra he
      have hns : ns = .empty :=
        (h.registered _ (Model.mem_of_get? hget)).eq_empty (by simpa using he)
      exact hquiet place.path (hns ▸ hget) ⟨hreg, _, Model.get?_update_self .., hgains⟩
    have hinhabited := filter_updateIn place.path (·.record place.owner entry) whole.namespaces hold
      hgains
    change Model.updateIn place.path _ kept.namespaces = _
    rw [hall]
    exact hinhabited.symm

/-- **The order in both runs** is the same, if no namespace that stands empty at some point of the
first run declares something at its end. -/
theorem namespaces_kept_run (statements : List Statement) : ∀ kept whole : Model,
    kept.Kept whole → kept.namespaces = whole.inhabited →
    (∀ n path, (whole.after filter (statements.take n)).get? path = some .empty →
      (whole.after filter statements).get? path = some .empty) →
    (kept.after filter (traced (whole.results filter statements))).namespaces =
      (whole.after filter statements).inhabited := by
  induction statements with
  | nil => intro kept whole _ hall _; exact hall
  | cons s rest ih =>
    intro kept whole h hall hquiet
    have hrest : ∀ n path, ((classify filter whole s).2.after filter (rest.take n)).get? path =
        some .empty → ((classify filter whole s).2.after filter rest).get? path = some .empty :=
      fun n => hquiet (n + 1)
    rw [Model.results_cons, Model.after_cons, traced]
    cases hr : Result.leavesTrace ⟨s, (classify filter whole s).1⟩ with
    | true =>
      have hfatal := isFatal_of_leavesTrace hr
      have hnow : ∀ path, whole.get? path = some .empty →
          ¬ (classify filter whole s).2.Inhabits path := by
        intro path hempty hin
        obtain ⟨-, ns, hget, hns⟩ := after_inhabited filter hin rest
        obtain rfl := Option.some.inj (hget.symm.trans (hquiet 0 path hempty))
        cases hns
      rw [List.filter_cons_of_pos hr, List.map_cons, Model.after_cons]
      exact ih _ _ (h.step_both hfatal) (step_order h hall hfatal hnow) hrest
    | false =>
      have hdeclared := isDeclared_of_leavesTrace hr
      rw [List.filter_cons_of_neg (by simp [hr])]
      refine ih _ _ (h.step_whole hdeclared) ?_ hrest
      rcases hw : classify filter whole s with ⟨o, next⟩
      rw [hw] at hdeclared
      cases step_of_classify hw with
      | skipped => exact hall
      | unreadable => exact hall
      | refused sub place => rw [hall, Model.inhabited_withNamespace]
      | recorded => cases hdeclared

/-! ## The text -/

theorem filter_isPrinted_inhabited (m : Model) :
    m.inhabited.filter isPrinted = m.namespaces.filter isPrinted := by
  rw [Model.inhabited, List.filter_filter]
  refine List.filter_congr fun entry _ => ?_
  simp [isPrinted]

/-- The namespaces of a model in the order of the given paths. -/
def Model.inOrder (m : Model) (paths : List String) : Model :=
  ⟨paths.filterMap fun path => (m.get? path).map (path, ·)⟩

namespace Model.Kept

variable {kept whole : Model}

/-- In the order of the first model, the namespaces of the second one are the inhabited ones. -/
theorem inOrder_eq (h : kept.Kept whole) :
    (kept.inOrder whole.paths).namespaces = whole.inhabited := by
  rw [inOrder, Model.paths, List.filterMap_map, Model.inhabited, ← List.filterMap_eq_filter]
  refine List.filterMap_congr fun entry hentry => ?_
  obtain ⟨path, ns⟩ := entry
  have hget := (Model.get?_eq_some_iff h.nodup).mpr hentry
  cases hns : ns.isEmpty with
  | false => simp [h.get?_eq_some_iff.mpr ⟨hget, hns⟩, hns, Option.guard]
  | true =>
    cases hk : kept.get? path with
    | none => simp [hk, hns, Option.guard]
    | some ns' =>
      have hboth := h.get?_eq_some_iff.mp hk
      obtain rfl := Option.some.inj (hget.symm.trans hboth.1)
      exact absurd (hns.symm.trans hboth.2) Bool.noConfusion

theorem render_eq (h : kept.Kept whole) (emit : Bool) (provides : List String) :
    whole.render emit provides = (kept.inOrder whole.paths).render emit provides := by
  rw [Model.render, Model.render, Model.blocks, Model.blocks, h.inOrder_eq,
    filter_isPrinted_inhabited]

/-- Both models have the same blocks. -/
theorem perm_blocks (h : kept.Kept whole) (emit : Bool) :
    ((kept.inOrder whole.paths).blocks emit []).Perm (kept.blocks emit []) := by
  rw [Model.blocks, Model.blocks, h.inOrder_eq]
  exact ((h.perm.symm.filter isPrinted).map _).append_right _

end Model.Kept

theorem Model.kept_empty : Model.empty.Kept Model.empty where
  perm := List.Perm.nil
  nodup := List.nodup_nil
  registered := Model.each_empty

/-- **The text without the statements that declare and provide nothing.** The other statements have
the same results and the same names are provided. The text has the same blocks, those of the
namespaces put in the order in which the whole list sees the namespaces first. It is the same text
if no namespace that stands empty at some point of the pass declares something at its end. -/
theorem render_traced (filter : Name.Filter) (file : Option String) (statements : List Statement) :
    ∃ whole kept : Module, Module.ofStatements ⟨filter, true, file⟩ statements = .ok whole ∧
      Module.ofStatements ⟨filter, true, file⟩ (traced whole.results) = .ok kept ∧
      kept.results = whole.results.filter Result.leavesTrace ∧ kept.provides = whole.provides ∧
      (∀ emit, whole.render emit =
          (kept.model.inOrder whole.model.paths).render emit kept.provides ∧
        ((kept.model.inOrder whole.model.paths).blocks emit []).Perm
          (kept.model.blocks emit [])) ∧
      ((∀ n path, (Model.empty.after filter (statements.take n)).get? path = some .empty →
          whole.model.get? path = some .empty) →
        ∀ emit, whole.render emit = kept.render emit) := by
  have hprovides := providedNames_traced filter statements .empty
  obtain ⟨hresults, hkept⟩ := kept_run filter statements _ _ Model.kept_empty
  refine ⟨_, _, ofStatements_continuing filter file statements,
    ofStatements_continuing filter file _, hresults, hprovides, fun emit => ⟨?_, ?_⟩,
    fun hquiet emit => ?_⟩
  · rw [hprovides]
    exact hkept.render_eq emit _
  · exact hkept.perm_blocks emit
  · have hall := namespaces_kept_run statements _ _ Model.kept_empty rfl hquiet
    rw [Module.render, Module.render, Model.render, Model.render, hprovides, Model.blocks,
      Model.blocks, hall, filter_isPrinted_inhabited]

/-- A constant without a type, and one constant in another namespace. -/
def untyped : List Statement :=
  [documented "* @const " (chain "goog" ["b", "c"]),
    documented "* @const " (assignment "goog" ["a", "x"])]

/-- A namespace that is left empty and declared in later keeps its position before the other one. -/
theorem render_traced_differs :
    ∃ whole kept : Module, Module.ofStatements ⟨.standard, true, none⟩
        (untyped ++ [documented "* @const " (assignment "goog" ["b", "y"])]) = .ok whole ∧
      Module.ofStatements ⟨.standard, true, none⟩ (traced whole.results) = .ok kept ∧
      whole.render false ≠ kept.render false :=
  ⟨_, _, ofStatements_continuing .., ofStatements_continuing .., by decide +kernel⟩

theorem render_traced_quiet :
    ∃ whole kept : Module, Module.ofStatements ⟨.standard, true, none⟩ untyped = .ok whole ∧
      Module.ofStatements ⟨.standard, true, none⟩ (traced whole.results) = .ok kept ∧
      (∀ n path, (Model.empty.after .standard (untyped.take n)).get? path = some .empty →
        whole.model.get? path = some .empty) ∧
      ∀ emit, whole.render emit = kept.render emit := by
  obtain ⟨whole, kept, hwhole, hkept, -, -, -, hsame⟩ := render_traced .standard none untyped
  have hquiet : ∀ n path, (Model.empty.after .standard (untyped.take n)).get? path = some .empty →
      whole.model.get? path = some .empty := by
    obtain rfl := Except.ok.inj ((ofStatements_continuing _ _ _).symm.trans hwhole)
    intro n path hempty
    match n, hempty with
    | 0, hempty => cases hempty
    | 1, hempty =>
      have hfirst : Model.empty.after .standard (untyped.take 1) = ⟨[("goog.b", .empty)]⟩ := by
        decide +kernel
      have hmem := Model.mem_of_get? hempty
      rw [hfirst] at hmem
      obtain ⟨rfl, -⟩ := Prod.mk.inj (List.mem_singleton.mp hmem)
      decide +kernel
    | n + 2, hempty =>
      rw [List.take_of_length_le (by simp [untyped])] at hempty
      exact hempty
  exact ⟨whole, kept, hwhole, hkept, hquiet, hsame hquiet⟩

end Ambient.Declaration

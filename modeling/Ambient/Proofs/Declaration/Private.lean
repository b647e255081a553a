import Ambient.Proofs.Declaration.Effect

/-!
# Private declarations

What is private is kept only for its shape, so that types can refer to it: a class as an interface
without a constructor, an enumeration, or a type alias. One thing escapes: a statement that is
documented as an enumeration or a type alias and is a function all the same, since what is a
function is decided first.

* `IsPrivate`, `Entry.IsShape`, `EscapesAsFunction`;
* `private_role_cases`: the roles of a private statement;
* **`private_gains`**: all that a private statement can add to a model;
* `private_function_gained`: a function that escapes.
-/

namespace Ambient.Declaration

open Ambient.Doc (DocComment)
open Ambient.Script (Statement)

variable {filter : Name.Filter} {s : Statement}

/-! ## Shapes -/

/-- The documentation of a statement says that it is private. -/
def IsPrivate (s : Statement) : Prop :=
  ∃ c, s.documentation? = some c ∧ (documentation c.value).has ["private"] = true

instance (s : Statement) : Decidable (IsPrivate s) :=
  match h : s.documentation? with
  | some c => decidable_of_iff ((documentation c.value).has ["private"] = true)
      (by simp [IsPrivate, h])
  | none => .isFalse (by simp [IsPrivate, h])

/-- A declaration that types can refer to and that says nothing of values: an interface without a
constructor, an enumeration or a type alias. -/
inductive Entry.IsShape : Entry → Prop
  | interface (c : ClassEntry) (hkind : c.kind = .interface) (hsignature : c.signature = none) :
      IsShape (.class c)
  | enumeration (e : Enumeration) : IsShape (.enumeration e)
  | typeAlias (a : TypeAlias) : IsShape (.typeAlias a)

/-- A statement is documented as an enumeration or a type alias, not as a class or an interface, and
is a function. -/
def EscapesAsFunction (s : Statement) : Prop :=
  ∃ c, s.documentation? = some c ∧ namesType (documentation c.value) = true ∧
    (documentation c.value).has ["constructor", "interface"] = false ∧
    isFunction s (documentation c.value) = true

/-- The role of a private statement that is not hidden: an interface, if it is documented as a class
or an interface, else the name of a type. -/
theorem private_role_cases {doc : DocComment} (hprivate : doc.has ["private"] = true)
    (hrole : Role.of doc ≠ .hidden) :
    (Role.of doc = .type .interface ∧ doc.has ["constructor", "interface"] = true) ∨
      (Role.of doc = .value ∧ namesType doc = true ∧
        doc.has ["constructor", "interface"] = false) := by
  rw [DocComment.has_cons]
  unfold Role.of at hrole ⊢
  rw [if_pos hprivate] at hrole ⊢
  split_ifs at hrole ⊢ <;> simp_all

/-- A private statement declares a shape, or escapes as a function. -/
theorem shape_of_private {sub : Subject} {isStatic : Bool} {entry : Entry} (hs : IsPrivate s)
    (hsub : subject filter s = .ok sub)
    (hentry : entryOf sub.role sub.name isStatic s sub.doc sub.comment = .ok entry) :
    (entry.IsShape ∧ ¬ EscapesAsFunction s) ∨
      ((∃ f, entry = .function f) ∧ EscapesAsFunction s) := by
  have hscreened := screened_of_subject hsub
  obtain ⟨c, hc, hprivate⟩ := hs
  obtain ⟨c', hc', hvalue⟩ := hscreened.documented
  obtain rfl := Option.some.inj (hc.symm.trans hc')
  have hdoc : sub.doc = documentation c.value := by rw [hscreened.doc_eq, hvalue]
  have hrole := hscreened.role_eq
  have hhidden := hscreened.role_ne
  rw [hdoc] at hrole hentry
  rw [hrole] at hhidden
  have hescapes : EscapesAsFunction s ↔ namesType (documentation c.value) = true ∧
      (documentation c.value).has ["constructor", "interface"] = false ∧
        isFunction s (documentation c.value) = true := by
    simp [EscapesAsFunction, hc]
  rw [hescapes]
  rcases private_role_cases hprivate hhidden with ⟨hinterface, hclass⟩ | ⟨hplain, hnames, hnone⟩
  · refine Or.inl ⟨?_, fun h => absurd (hclass.symm.trans h.2.1) Bool.noConfusion⟩
    rw [hrole, hinterface] at hentry
    cases built_of_entryOf hentry with
    | «class» c hkind _ hsignature =>
      have hinterface : c.kind = .interface := by simpa using hkind.symm
      refine .interface c hinterface (Option.not_isSome_iff_eq_none.mp fun hsome => ?_)
      exact absurd (hinterface.symm.trans (hsignature.mp hsome)) (by decide)
    | function f hno => exact absurd rfl (hno .interface)
    | enumeration e _ hno => exact absurd rfl (hno .interface)
    | typeAlias a _ hno => exact absurd rfl (hno .interface)
    | «variable» v hno => exact absurd rfl (hno .interface)
  · rw [hrole, hplain] at hentry
    cases built_of_entryOf hentry with
    | «class» c hkind => cases hkind
    | function f _ hfunction => exact Or.inr ⟨⟨f, rfl⟩, hnames, hnone, hfunction⟩
    | enumeration e _ _ hfunction =>
      exact Or.inl ⟨.enumeration e, fun h => absurd (hfunction.symm.trans h.2.2) Bool.noConfusion⟩
    | typeAlias a _ _ hfunction =>
      exact Or.inl ⟨.typeAlias a, fun h => absurd (hfunction.symm.trans h.2.2) Bool.noConfusion⟩
    | «variable» v _ _ henum htypedef =>
      exact absurd (hnames.symm.trans (namesType_eq_false henum htypedef)) Bool.noConfusion

/-- **A private statement** adds to the model after any run nothing, not even a declaration in a
namespace it may leave empty, or exactly one declaration: an interface without a constructor, an
enumeration or a type alias, unless it escapes as a function, and then a function. -/
theorem private_gains (filter : Name.Filter) (statements : List Statement) (hs : IsPrivate s) :
    let m := Model.empty.after filter statements
    match classify filter m s with
    | (.declared _, next) => ∃ path owner entry, m.Gains path owner entry next ∧
      ((entry.IsShape ∧ ¬ EscapesAsFunction s) ∨
        ((∃ f, entry = .function f) ∧ EscapesAsFunction s))
    | (.skipped _, next) => next = m
    | (.fatal _, next) =>
      next = m ∨ ∃ path, path ∉ m.paths ∧ next = ⟨m.namespaces ++ [(path, .empty)]⟩ := by
  intro m
  have hm : m.Each Namespace.Registered := registered_after filter statements
  rcases hc : classify filter m s with ⟨o, next⟩
  cases step_of_classify hc with
  | skipped reason => rfl
  | unreadable refusal => exact Or.inl rfl
  | refused sub place refusal =>
    rcases Model.withNamespace_cases m place.path with h | ⟨hpath, h⟩
    · exact Or.inl h
    · exact Or.inr ⟨place.path, hpath, h⟩
  | recorded sub place entry hsub hplace hentry =>
    exact ⟨place.path, place.owner, entry, gains_of_recorded hm hplace hentry,
      shape_of_private hs hsub hentry⟩

/-- A private type alias. -/
private def privateAlias : Statement :=
  documented "* @private\n * @typedef " (chain "goog" ["a", "Id"])

/-- A private type alias is kept. -/
theorem private_gains_alias :
    IsPrivate privateAlias ∧
      ∃ entry : Entry, entry.IsShape ∧ ∃ path owner,
        Model.empty.Gains path owner entry (classify .standard .empty privateAlias).2 := by
  have hs : IsPrivate privateAlias := by decide +kernel
  have hdeclared : (classify .standard .empty privateAlias).1 = .declared "goog.a.Id" := by
    decide +kernel
  have hplain : ¬ EscapesAsFunction privateAlias := by
    rintro ⟨c, hc, -, -, hfunction⟩
    have hno : (privateAlias.documentation?).any
        (fun c => isFunction privateAlias (documentation c.value)) = false := by decide +kernel
    rw [hc, Option.any_some, hfunction] at hno
    cases hno
  have hgains := private_gains .standard [] hs
  dsimp only [Model.after_nil] at hgains
  rcases hc : classify .standard .empty privateAlias with ⟨o, next⟩
  rw [hc] at hdeclared hgains
  subst hdeclared
  obtain ⟨path, owner, entry, hgains, ⟨hshape, -⟩ | ⟨-, hescapes⟩⟩ := hgains
  · exact ⟨hs, entry, hshape, path, owner, hgains⟩
  · exact absurd hescapes hplain

/-- A function that is documented as a private enumeration. -/
private def privateFunction : Statement :=
  documented "* @private\n * @enum "
    (.assignment (chain "goog" ["a", "f"]) (.function []))

/-- A private function that is documented as an enumeration is added to its namespace. -/
theorem private_function_gained :
    IsPrivate privateFunction ∧
      (classify .standard .empty privateFunction).1 = .declared "goog.a.f" ∧
      ∃ f : Function, f.name = "f" ∧ f.signature = "(): void" ∧
        (classify .standard .empty privateFunction).2 =
          ⟨[("goog.a", { Namespace.empty with functions := [f] })]⟩ ∧
        ¬ (Entry.function f).IsShape := by
  refine ⟨by decide +kernel, by decide +kernel,
    ⟨"f", "(): void", [], false, some "* @private\n * @enum "⟩, rfl, rfl,
    by decide +kernel, fun h => by cases h⟩

end Ambient.Declaration

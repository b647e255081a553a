import Ambient.Proofs.Declaration.Path
import Ambient.Proofs.Declaration.Register
import Ambient.Proofs.Declaration.Run
import Ambient.Proofs.Declaration.Step

/-!
# The effect of one statement

A declared statement adds one declaration at the end of one list. A fatal one may leave an empty
namespace behind, and a skipped one nothing at all.

* `Namespace.Gains`, `Model.Gains`: one declaration more, and all else as it was;
* **`gains_of_recorded`**: to record a declaration at its place is to gain it;
* `registered_after`: the register of every namespace agrees with its list of classes after a run;
* **`classify_effect`**: the effect of a statement on a model that a run has led to.
-/

namespace Ambient.Declaration

open Ambient.Script (Statement)

/-! ## One declaration more -/

/-- A namespace gains a declaration at the end of the list for its kind, or, if it has an owner, at
the end of the methods or properties of the class that is found under the owner's name, which is the
one listed last under it. -/
inductive Namespace.Gains (ns : Namespace) : Option String → Entry → Namespace → Prop
  | variable (v : Variable) : ns.Gains none (.variable v) { ns with vars := ns.vars ++ [v] }
  | function (f : Function) :
      ns.Gains none (.function f) { ns with functions := ns.functions ++ [f] }
  | typeAlias (owner : Option String) (a : TypeAlias) :
      ns.Gains owner (.typeAlias a) { ns with typeAliases := ns.typeAliases ++ [a] }
  | enumeration (owner : Option String) (e : Enumeration) :
      ns.Gains owner (.enumeration e) { ns with enums := ns.enums ++ [e] }
  /-- A class comes without members and is registered under its name. -/
  | class (owner : Option String) (c : ClassEntry) (hmethods : c.methods = [])
      (hproperties : c.properties = []) :
      ns.Gains owner (.class c)
        { ns with
          classes := ns.classes ++ [c]
          register := (c.name, ns.classes.length) :: ns.register }
  | method {name : String} {before after : List ClassEntry} {c : ClassEntry} (f : Function)
      (hfound : ns.findClass? name = some c) (hc : ns.Latest name before c after) :
      ns.Gains (some name) (.function f)
        { ns with classes := before ++ { c with methods := c.methods ++ [f] } :: after }
  | property {name : String} {before after : List ClassEntry} {c : ClassEntry} (v : Variable)
      (hfound : ns.findClass? name = some c) (hc : ns.Latest name before c after) :
      ns.Gains (some name) (.variable v)
        { ns with classes := before ++ { c with properties := c.properties ++ [v] } :: after }

/-- A model gains a declaration in the namespace at a path, which is put at the end if the path is
not listed yet. -/
inductive Model.Gains (m : Model) (path : String) (owner : Option String) (entry : Entry) :
    Model → Prop
  | listed {before after : List (String × Namespace)} {ns ns' : Namespace}
      (hlist : m.namespaces = before ++ (path, ns) :: after)
      (hpath : path ∉ before.map Prod.fst) (hns : ns.Gains owner entry ns') :
      m.Gains path owner entry ⟨before ++ (path, ns') :: after⟩
  | created {ns' : Namespace} (hpath : path ∉ m.paths)
      (hns : Namespace.empty.Gains owner entry ns') :
      m.Gains path owner entry ⟨m.namespaces ++ [(path, ns')]⟩

/-- A declaration that brings no members of its own. -/
def Entry.Bare : Entry → Prop
  | .class c => c.methods = [] ∧ c.properties = []
  | _ => True

theorem Built.bare {role : Role} {name comment : String} {isStatic : Bool} {s : Statement}
    {doc : Doc.DocComment} {entry : Entry} (h : Built role name isStatic s doc comment entry) :
    entry.Bare := by
  cases h with
  | «class» c _ _ _ hmethods hproperties => exact ⟨hmethods, hproperties⟩
  | _ => trivial

theorem Namespace.gains_record {ns : Namespace} {owner : Option String} {entry : Entry}
    (hns : ns.Registered) (howner : ∀ n, owner = some n → (ns.findClass? n).isSome)
    (hentry : entry.Bare) : ns.Gains owner entry (ns.record owner entry) := by
  cases entry with
  | «class» c => exact .class owner c hentry.1 hentry.2
  | enumeration e => exact .enumeration owner e
  | typeAlias a => exact .typeAlias owner a
  | function f =>
    cases owner with
    | none => exact .function f
    | some n =>
      obtain ⟨before, c, after, hfound, hc, hu⟩ := hns.exists_updateClass_eq (howner n rfl)
      rw [record, hu]
      exact .method f hfound hc
  | «variable» v =>
    cases owner with
    | none => exact .variable v
    | some n =>
      obtain ⟨before, c, after, hfound, hc, hu⟩ := hns.exists_updateClass_eq (howner n rfl)
      rw [record, hu]
      exact .property v hfound hc

/-- Whatever a namespace gains, its register stays in agreement with its list of classes. -/
theorem Namespace.Gains.registered {ns ns' : Namespace} {owner : Option String} {entry : Entry}
    (h : ns.Gains owner entry ns') (hns : ns.Registered) : ns'.Registered := by
  cases h with
  | «variable» v => exact hns.of_names rfl rfl
  | function f => exact hns.of_names rfl rfl
  | typeAlias _ a => exact hns.of_names rfl rfl
  | enumeration _ e => exact hns.of_names rfl rfl
  | «class» _ c => exact registered_addClass hns c
  | method f _ hc => exact hns.of_names (by simp [classNames, hc.classes_eq]) rfl
  | property v _ hc => exact hns.of_names (by simp [classNames, hc.classes_eq]) rfl

/-! ## Recording -/

theorem Model.gains_update {m : Model} {path : String} {owner : Option String} {entry : Entry}
    {f : Namespace → Namespace}
    (h : ((m.get? path).getD .empty).Gains owner entry (f ((m.get? path).getD .empty))) :
    m.Gains path owner entry (m.update path f) := by
  rcases update_cases m path f with ⟨before, ns, after, hlist, hpath, hget, hu⟩ | ⟨hpath, hget, hu⟩
  · rw [hget] at h
    rw [hu]
    exact .listed hlist hpath h
  · rw [hget] at h
    rw [hu]
    exact .created hpath h

section Recorded

variable {m : Model} {s : Statement} {sub : Subject} {place : Placement} {entry : Entry}

/-- Recording at a place adds one declaration to the namespace there. -/
theorem gains_at_place (hm : m.Each Namespace.Registered) (hplace : placement m sub = .ok place)
    (hentry : entryOf sub.role sub.name place.isStatic s sub.doc sub.comment = .ok entry) :
    ((m.get? place.path).getD .empty).Gains place.owner entry
      (((m.get? place.path).getD .empty).record place.owner entry) := by
  refine Namespace.gains_record (hm.getD Namespace.registered_empty _) (fun n hn => ?_)
    (built_of_entryOf hentry).bare
  have hfound := (placed_of_placement hplace).found hn
  rw [Model.findClass?] at hfound
  cases hget : m.get? place.path with
  | none => rw [hget] at hfound; cases hfound
  | some ns => rw [hget] at hfound; exact hfound

/-- **Recording.** To record a declaration at its place is to gain it. -/
theorem gains_of_recorded (hm : m.Each Namespace.Registered) (hplace : placement m sub = .ok place)
    (hentry : entryOf sub.role sub.name place.isStatic s sub.doc sub.comment = .ok entry) :
    m.Gains place.path place.owner entry (m.record place entry) :=
  Model.gains_update (gains_at_place hm hplace hentry)

end Recorded

/-! ## Runs -/

theorem registered_classify (filter : Name.Filter) {m : Model} (hm : m.Each Namespace.Registered)
    (s : Statement) : (classify filter m s).2.Each Namespace.Registered := by
  rcases hc : classify filter m s with ⟨o, next⟩
  cases step_of_classify hc with
  | skipped => exact hm
  | unreadable => exact hm
  | refused => exact hm.update (hm.getD Namespace.registered_empty _)
  | recorded sub place entry _ hplace hentry =>
    exact hm.update ((gains_at_place hm hplace hentry).registered
      (hm.getD Namespace.registered_empty _))

theorem registered_after (filter : Name.Filter) (statements : List Statement) :
    (Model.empty.after filter statements).Each Namespace.Registered :=
  Model.after_invariant (Model.Each Namespace.Registered)
    (fun s _ _ hm => registered_classify filter hm s) _ Model.each_empty

/-- **The effect of one statement** on the model after any run: a declared statement adds exactly
one declaration, a skipped one changes nothing, and a fatal one changes nothing but that it may add
an empty namespace at the end. -/
theorem classify_effect (filter : Name.Filter) (statements : List Statement) (s : Statement) :
    let m := Model.empty.after filter statements
    match classify filter m s with
    | (.declared _, next) => ∃ path owner entry, m.Gains path owner entry next
    | (.skipped _, next) => next = m
    | (.fatal _, next) =>
      next = m ∨ ∃ path, path ∉ m.paths ∧ next = ⟨m.namespaces ++ [(path, .empty)]⟩ := by
  intro m
  have hm : m.Each Namespace.Registered := registered_after filter statements
  rcases hc : classify filter m s with ⟨o, next⟩
  cases step_of_classify hc with
  | skipped reason => rfl
  | unreadable refusal => exact Or.inl rfl
  | refused sub place refusal =>
    rcases Model.withNamespace_cases m place.path with h | ⟨hpath, h⟩
    · exact Or.inl h
    · exact Or.inr ⟨place.path, hpath, h⟩
  | recorded sub place entry _ hplace hentry =>
    exact ⟨place.path, place.owner, entry, gains_of_recorded hm hplace hentry⟩

end Ambient.Declaration

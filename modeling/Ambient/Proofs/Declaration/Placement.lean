import Ambient.Proofs.Declaration.Account
import Ambient.Proofs.Text.Cut

/-!
# Where functions and variables stand

A dotted name can mean a member of the instances of a class, a static member of the class, or a
declaration of a namespace. What has been registered before decides which.

* `Position`, `StandsAt`: the three positions, and what is gained at each;
* `placed_cases`: a place is one of the three, told by the segments of the name;
* `at_classify`, `at_after`: what a step and a run add to the namespace below a class;
* **`stands_once`**: every function and every variable stands at exactly one position, and below a
  class only functions are added that are documented as types;
* `stands_differs`: such a function.
-/

namespace Ambient.Declaration

open Ambient.Script (Statement)

variable {filter : Name.Filter} {m : Model} {s : Statement} {sub : Subject} {place : Placement}
  {entry : Entry} {above : List String} {className : String}

/-! ## Positions -/

/-- Every segment of the name that a statement declares can be one. -/
def Plain (s : Statement) : Prop :=
  ∀ segments, s.path? = .ok (some segments) → ∀ word ∈ segments, Text.IsSegment word

instance (s : Statement) : Decidable (Plain s) :=
  match h : s.path? with
  | .ok (some segments) =>
    decidable_of_iff (∀ word ∈ segments, Text.IsSegment word) (by simp [Plain, h])
  | .ok none => .isTrue (by simp [Plain, h])
  | .error _ => .isTrue (by simp [Plain, h])

/-- A function that is documented as an enumeration or a type alias. -/
def Entry.TypedFunction : Entry → Prop
  | .function f => ∃ c, f.comment = some c ∧ namesType (documentation c) = true
  | _ => False

/-- A class that can be constructed is registered under a name. -/
def Model.HasClass (m : Model) (path : List String) (name : String) : Prop :=
  ∃ c, m.findClass? (Text.dotted path) name = some c ∧ c.kind = .constructible

/-- The namespace at a dotted path, also one that is not there yet. -/
def Model.at (m : Model) (path : List String) : Namespace :=
  (m.get? (Text.dotted path)).getD .empty

/-- Whether a function or a variable is static; nothing for other declarations. -/
def Entry.static? : Entry → Option Bool
  | .function f => some f.isStatic
  | .variable v => some v.isStatic
  | _ => none

inductive Position
  | ofInstances
  | ofClass
  | ofNamespace
  deriving DecidableEq, Repr

/-- A model gains a declaration with the segments `p` at a position. Below a class that can be
constructed a namespace gains it only if it is `exempt`. -/
inductive StandsAt (exempt : Prop) (m : Model) (p : List String) (entry : Entry) (next : Model) :
    Position → Prop
  | instances (above : List String) (className : String)
      (hp : p = above ++ [className, prototypeSegment, entry.name])
      (hstatic : entry.static? = some false)
      (hgains : m.Gains (Text.dotted above) (some className) entry next) :
      StandsAt exempt m p entry next .ofInstances
  | class (above : List String) (className : String) (hp : p = above ++ [className, entry.name])
      (hclass : m.HasClass above className) (hstatic : entry.static? = some true)
      (hgains : m.Gains (Text.dotted above) (some className) entry next) :
      StandsAt exempt m p entry next .ofClass
  | namespace (path : List String) (hp : p = path ++ [entry.name])
      (hprototype : path.getLast? ≠ some prototypeSegment)
      (hclass : ∀ above className, path = above ++ [className] → m.HasClass above className →
        exempt)
      (hstatic : entry.static? = some false)
      (hgains : m.Gains (Text.dotted path) none entry next) :
      StandsAt exempt m p entry next .ofNamespace

/-- No declaration stands at two positions. -/
theorem StandsAt.unique {exempt : Prop} {p : List String} {next : Model} {a b : Position}
    (ha : StandsAt exempt m p entry next a) (hb : StandsAt exempt m p entry next b) : a = b := by
  -- Below a prototype the last segment of the path is the prototype.
  have hpath : ∀ {above path : List String} {n : String},
      above ++ [n, prototypeSegment, entry.name] = path ++ [entry.name] →
        path.getLast? = some prototypeSegment := by
    intro above path n h
    have hsplit : above ++ [n, prototypeSegment, entry.name] =
        (above ++ [n, prototypeSegment]) ++ [entry.name] := by simp
    rw [hsplit] at h
    obtain ⟨rfl, -⟩ := List.append_inj' h rfl
    simp
  cases ha with
  | instances above n hp hstatic =>
    cases hb with
    | instances => rfl
    | «class» _ _ _ _ hstatic' => rw [hstatic] at hstatic'; cases hstatic'
    | «namespace» path hp' hprototype => exact absurd (hpath (hp.symm.trans hp')) hprototype
  | «class» above n hp hclass hstatic =>
    cases hb with
    | instances _ _ _ hstatic' => rw [hstatic] at hstatic'; cases hstatic'
    | «class» => rfl
    | «namespace» _ _ _ _ hstatic' => rw [hstatic] at hstatic'; cases hstatic'
  | «namespace» path hp hprototype _ hstatic =>
    cases hb with
    | instances _ _ hp' => exact absurd (hpath (hp'.symm.trans hp)) hprototype
    | «class» _ _ _ _ hstatic' => rw [hstatic] at hstatic'; cases hstatic'
    | «namespace» => rfl

/-! ## Places -/

theorem isStaticMember_iff {path : List String} :
    m.isStaticMember path = true ↔
      ∃ above className, path = above ++ [className] ∧ m.HasClass above className := by
  rw [isStaticMember_eq_true_iff]
  constructor
  · rintro ⟨above, n, c, hpath, hc, hkind⟩
    exact ⟨above, n, hpath, c, hc, hkind⟩
  · rintro ⟨above, n, hpath, c, hc, hkind⟩
    exact ⟨above, n, c, hpath, hc, hkind⟩

theorem ownerOf_concat {n : String} (hn : n ≠ "") : ownerOf (above ++ [n]) = some n := by
  have hempty : (!n.isEmpty) = true := by simpa using hn
  rw [ownerOf, List.getLast?_concat, Option.filter_some, if_pos hempty]

/-- **A place** is that of a member of the instances or of a class, or one in a namespace, as the
segments of the name say. -/
theorem placed_cases (hroots : prototypeSegment ∉ filter.roots) (hs : Plain s)
    (hsub : subject filter s = .ok sub) (hplace : placement m sub = .ok place) :
    (∃ above n, sub.path = above ++ [n, prototypeSegment] ∧
      place = ⟨Text.dotted above, some n, false⟩) ∨
    (∃ above n, sub.path = above ++ [n] ∧ m.HasClass above n ∧
      place = ⟨Text.dotted above, some n, true⟩) ∨
    (sub.path.getLast? ≠ some prototypeSegment ∧
      (m.isStaticMember sub.path = true → sub.declaresType = true) ∧
      place = ⟨Text.dotted sub.path, none, false⟩) := by
  have hscreened := screened_of_subject hsub
  have hword : ∀ word ∈ sub.path, word ≠ "" := fun word hmem =>
    (hs _ hscreened.path?_eq word (List.mem_append_left _ hmem)).1
  cases placed_of_placement hplace with
  | onInstances above hpath =>
    left
    rcases List.eq_nil_or_concat above with rfl | ⟨above, n, rfl⟩
    · -- Then the whole name starts with the prototype, which is no root.
      have hallowed := hscreened.allowed
      rw [hpath, Name.Filter.allows] at hallowed
      exact absurd (by simpa using hallowed) hroots
    · rw [List.concat_eq_append] at hpath ⊢
      have hn : n ≠ "" := hword n (by simp [hpath])
      rw [List.dropLast_concat, ownerOf_concat hn]
      exact ⟨above, n, by simp [hpath], rfl⟩
  | onClass above n c hpath _ hfound hkind =>
    right
    left
    have hn : n ≠ "" := hword n (by simp [hpath])
    rw [hpath, ownerOf_concat hn]
    exact ⟨above, n, rfl, ⟨c, hfound, hkind⟩, rfl⟩
  | inNamespace hpath hvalue => exact Or.inr (Or.inr ⟨hpath, hvalue, rfl⟩)

/-- What is documented as a type and is no type is a function. -/
theorem typedFunction_of_declaresType (hsub : subject filter s = .ok sub) {isStatic : Bool}
    (hentry : entryOf sub.role sub.name isStatic s sub.doc sub.comment = .ok entry)
    (hvalue : entry.static? ≠ none) (hdeclares : sub.declaresType = true) :
    entry.TypedFunction := by
  have hscreened := screened_of_subject hsub
  have hrole : ∀ kind, sub.role ≠ .type kind := by
    intro kind hkind
    cases built_of_entryOf hentry with
    | «class» => exact hvalue rfl
    | function f hrole => exact hrole kind hkind
    | enumeration => exact hvalue rfl
    | typeAlias => exact hvalue rfl
    | «variable» v hrole => exact hrole kind hkind
  have hnames : namesType sub.doc = true := by
    unfold Subject.declaresType at hdeclares
    cases hr : sub.role with
    | type kind => exact absurd hr (hrole kind)
    | value => simpa [hr] using hdeclares
    | hidden => simpa [hr] using hdeclares
  cases built_of_entryOf hentry with
  | function f _ _ _ _ hcomment => exact ⟨_, hcomment, by rwa [← hscreened.doc_eq]⟩
  | «variable» v _ _ henum htypedef =>
    exact absurd (hnames.symm.trans (namesType_eq_false henum htypedef)) Bool.noConfusion
  | «class» => exact absurd rfl hvalue
  | enumeration => exact absurd rfl hvalue
  | typeAlias => exact absurd rfl hvalue

theorem Built.static?_eq {role : Role} {name comment : String} {isStatic : Bool} {s : Statement}
    {doc : Doc.DocComment} (h : Built role name isStatic s doc comment entry)
    (hvalue : entry.static? ≠ none) : entry.static? = some isStatic := by
  cases h with
  | function f _ _ _ hstatic => rw [Entry.static?, hstatic]
  | «variable» v _ _ _ _ _ hstatic => rw [Entry.static?, hstatic]
  | «class» => exact absurd rfl hvalue
  | enumeration => exact absurd rfl hvalue
  | typeAlias => exact absurd rfl hvalue

/-- What is recorded stands at a position. -/
theorem exists_standsAt (hroots : prototypeSegment ∉ filter.roots) (hs : Plain s)
    (hm : m.Each Namespace.Registered) (hsub : subject filter s = .ok sub)
    (hplace : placement m sub = .ok place)
    (hentry : entryOf sub.role sub.name place.isStatic s sub.doc sub.comment = .ok entry)
    (hvalue : entry.static? ≠ none) :
    ∃ position, StandsAt entry.TypedFunction m (sub.path ++ [sub.name]) entry
      (m.record place entry) position := by
  have hbuilt := built_of_entryOf hentry
  have hstatic := hbuilt.static?_eq hvalue
  have hgains := gains_of_recorded hm hplace hentry
  rw [← hbuilt.name_eq]
  rcases placed_cases hroots hs hsub hplace with
    ⟨above, n, hpath, rfl⟩ | ⟨above, n, hpath, hclass, rfl⟩ | ⟨hpath, hdeclares, rfl⟩
  · exact ⟨_, .instances above n (by simp [hpath]) hstatic hgains⟩
  · exact ⟨_, .class above n (by simp [hpath]) hclass hstatic hgains⟩
  · refine ⟨_, .namespace sub.path rfl hpath (fun above n habove hclass => ?_) hstatic hgains⟩
    exact typedFunction_of_declaresType hsub hentry hvalue
      (hdeclares (isStaticMember_iff.mpr ⟨above, n, habove, hclass⟩))

/-! ## Below a class -/

theorem Model.at_update_self (path : List String) (f : Namespace → Namespace) :
    (m.update (Text.dotted path) f).at path = f (m.at path) := by
  rw [Model.at, Model.get?_update_self, Option.getD_some, Model.at]

theorem Model.at_update_of_ne {path : List String} {other : String} (h : Text.dotted path ≠ other)
    (f : Namespace → Namespace) : (m.update other f).at path = m.at path := by
  rw [Model.at, Model.get?_update_of_ne h, Model.at]

/-- What is recorded with a class leaves the lists of the namespace. -/
theorem Namespace.record_of_owner (ns : Namespace) (n : String) (entry : Entry) :
    (ns.record (some n) entry).vars = ns.vars ∧
      (ns.record (some n) entry).functions = ns.functions := by
  unfold record
  cases entry with
  | function f | «variable» v =>
    dsimp only [updateClass]
    split <;> exact ⟨rfl, rfl⟩
  | _ => exact ⟨rfl, rfl⟩

theorem Namespace.record_of_type (ns : Namespace) (owner : Option String)
    (h : entry.static? = none) :
    (ns.record owner entry).vars = ns.vars ∧
      (ns.record owner entry).functions = ns.functions := by
  cases entry with
  | function f | «variable» v => cases h
  | _ => exact ⟨rfl, rfl⟩

/-- What a namespace declares after some steps, if it stands below a class: the variables it has
declared before, and functions that are documented as types beside those it has. -/
def Namespace.KeptBelow (before after : Namespace) : Prop :=
  after.vars = before.vars ∧
    ∃ added, after.functions = before.functions ++ added ∧
      ∀ f ∈ added, (Entry.function f).TypedFunction

theorem Namespace.keptBelow_of_eq {before after : Namespace}
    (h : after.vars = before.vars ∧ after.functions = before.functions) :
    before.KeptBelow after :=
  ⟨h.1, [], by rw [h.2, List.append_nil], fun _ hf => absurd hf List.not_mem_nil⟩

theorem Namespace.KeptBelow.trans {a b c : Namespace} (hab : a.KeptBelow b)
    (hbc : b.KeptBelow c) : a.KeptBelow c := by
  obtain ⟨hvars, added, hadded, htyped⟩ := hab
  obtain ⟨hvars', added', hadded', htyped'⟩ := hbc
  refine ⟨hvars'.trans hvars, added ++ added', ?_, fun f hf => ?_⟩
  · rw [hadded', hadded, List.append_assoc]
  · exact (List.mem_append.mp hf).elim (htyped f) (htyped' f)

/-- **A step below a class** that can be constructed adds no variable to the namespace, and a
function only if it is documented as a type. -/
theorem at_classify (hroots : prototypeSegment ∉ filter.roots) (hs : Plain s)
    (hwords : ∀ word ∈ above ++ [className], Text.IsSegment word)
    (hclass : m.HasClass above className) :
    (m.at (above ++ [className])).KeptBelow
      ((classify filter m s).2.at (above ++ [className])) := by
  rcases hc : classify filter m s with ⟨o, next⟩
  dsimp only
  cases step_of_classify hc with
  | skipped | unreadable => exact Namespace.keptBelow_of_eq ⟨rfl, rfl⟩
  | refused sub place =>
    rw [Model.withNamespace]
    by_cases hpath : Text.dotted (above ++ [className]) = place.path
    · rw [← hpath, Model.at_update_self]
      exact Namespace.keptBelow_of_eq ⟨rfl, rfl⟩
    · rw [Model.at_update_of_ne hpath]
      exact Namespace.keptBelow_of_eq ⟨rfl, rfl⟩
  | recorded sub place entry hsub hplace hentry =>
    rw [Model.record]
    by_cases hpath : Text.dotted (above ++ [className]) = place.path
    · rw [← hpath, Model.at_update_self]
      by_cases hvalue : entry.static? = none
      · exact Namespace.keptBelow_of_eq (Namespace.record_of_type _ place.owner hvalue)
      rcases placed_cases hroots hs hsub hplace with
        ⟨path, n, -, rfl⟩ | ⟨path, n, -, -, rfl⟩ | ⟨-, hdeclares, rfl⟩
      · exact Namespace.keptBelow_of_eq (Namespace.record_of_owner _ n entry)
      · exact Namespace.keptBelow_of_eq (Namespace.record_of_owner _ n entry)
      · -- The namespace below the class is the one that the name itself leads to.
        have hsegments : ∀ word ∈ sub.path, Text.IsSegment word := fun word hmem =>
          hs _ (screened_of_subject hsub).path?_eq word (List.mem_append_left _ hmem)
        have hsame : above ++ [className] = sub.path := Text.dotted_inj hwords hsegments hpath
        have htyped := typedFunction_of_declaresType hsub hentry hvalue
          (hdeclares (isStaticMember_iff.mpr ⟨above, className, hsame.symm, hclass⟩))
        cases entry with
        | function f => exact ⟨rfl, [f], rfl, by simpa using htyped⟩
        | _ => exact absurd htyped id
    · rw [Model.at_update_of_ne hpath]
      exact Namespace.keptBelow_of_eq ⟨rfl, rfl⟩

/-- **A run below a class** that stays one adds what its steps add. -/
theorem at_after (hroots : prototypeSegment ∉ filter.roots)
    (hwords : ∀ word ∈ above ++ [className], Text.IsSegment word) {later : List Statement} :
    ∀ {m : Model}, (∀ s ∈ later, Plain s) →
      (∀ n < later.length, (m.after filter (later.take n)).HasClass above className) →
      (m.at (above ++ [className])).KeptBelow
        ((m.after filter later).at (above ++ [className])) := by
  induction later with
  | nil => exact fun _ _ => Namespace.keptBelow_of_eq ⟨rfl, rfl⟩
  | cons s later ih =>
    intro m hplain hclass
    rw [List.forall_mem_cons] at hplain
    have hfirst := at_classify hroots hplain.1 hwords (hclass 0 (Nat.succ_pos _))
    have hrest := ih hplain.2 fun n hn => hclass (n + 1) (Nat.succ_lt_succ hn)
    rw [Model.after_cons]
    exact hfirst.trans hrest

/-! ## Every declaration -/

/-- **Functions and variables** stand at exactly one position each. A declared statement adds one
declaration under its name to the model that the statements before it leave; if that is a function
or a variable, it belongs to the instances of a class, to a class itself, or to a namespace, which
lies below no class that can be constructed unless the declaration is a function documented as a
type. While a class can be constructed, nothing else is added to the namespace below it. -/
theorem stands_once (filter : Name.Filter) (hroots : prototypeSegment ∉ filter.roots)
    (statements : List Statement) :
    let m := Model.empty.after filter statements
    (∀ s name next, Plain s → classify filter m s = (.declared name, next) →
      ∃ segments d, s.path? = .ok (some segments) ∧ name = Text.dotted segments ∧
        recorded? filter m s = some d ∧ (∃ path owner, m.Gains path owner d.entry next) ∧
        (d.entry.static? ≠ none →
          ∃! position, StandsAt d.entry.TypedFunction m segments d.entry next position)) ∧
      ∀ above className later, (∀ word ∈ above ++ [className], Text.IsSegment word) →
        (∀ s ∈ later, Plain s) →
        (∀ n < later.length, (m.after filter (later.take n)).HasClass above className) →
        (m.at (above ++ [className])).KeptBelow
          ((m.after filter later).at (above ++ [className])) := by
  intro m
  have hm : m.Each Namespace.Registered := registered_after filter statements
  constructor
  · intro s name next hs hc
    cases step_of_classify hc with
    | recorded sub place entry hsub hplace hentry =>
      have hrecorded : recorded? filter m s = some
          ⟨place.path, entry.classIn ((m.get? place.path).getD .empty) place.owner, entry⟩ := by
        simp only [recorded?, hsub, hplace, hentry]
      refine ⟨_, _, (screened_of_subject hsub).path?_eq, rfl, hrecorded,
        ⟨_, _, gains_of_recorded hm hplace hentry⟩, fun hvalue => ?_⟩
      obtain ⟨position, hstands⟩ := exists_standsAt hroots hs hm hsub hplace hentry hvalue
      exact ⟨position, hstands, fun other hother => hother.unique hstands⟩
  · intro above className later hwords hplain hclass
    exact at_after hroots hwords hplain hclass

/-- A class `goog.Foo`. -/
private def classFoo : Statement := documented "* @constructor " (assignment "goog" ["Foo"])

/-- A constant below the class. -/
private def constantBelow : Statement := documented "* @const " (assignment "goog" ["Foo", "bar"])

/-- A function below the class that is documented as an enumeration. -/
private def functionBelow : Statement :=
  documented "* @enum " (.assignment (chain "goog" ["Foo", "bar"]) (.function []))

private theorem hasClass_after_classFoo :
    (Model.empty.after .standard [classFoo]).HasClass ["goog"] "Foo" := by
  have hfound : ((Model.empty.after .standard [classFoo]).findClass? "goog" "Foo").map
      ClassEntry.kind = some .constructible := by decide +kernel
  obtain ⟨c, hc, hkind⟩ := Option.map_eq_some_iff.mp hfound
  exact ⟨c, hc, hkind⟩

/-- A constant below a class stands at one position, and nothing is added below the class. -/
theorem stands_once_constant :
    let m := Model.empty.after .standard [classFoo]
    let next := (classify .standard m constantBelow).2
    prototypeSegment ∉ Name.Filter.standard.roots ∧ Plain constantBelow ∧
      m.HasClass ["goog"] "Foo" ∧
      (∃ d, recorded? .standard m constantBelow = some d ∧ d.entry.static? = some true ∧
        ∃! position, StandsAt d.entry.TypedFunction m ["goog", "Foo", "bar"] d.entry next
          position) ∧
      (m.at ["goog", "Foo"]).KeptBelow (next.at ["goog", "Foo"]) := by
  intro m next
  have hroots : prototypeSegment ∉ Name.Filter.standard.roots := by decide
  have hplain : Plain constantBelow := by decide +kernel
  have hclass : m.HasClass ["goog"] "Foo" := hasClass_after_classFoo
  have hdeclared : (classify .standard m constantBelow).1 = .declared "goog.Foo.bar" := by
    decide +kernel
  have hpath : constantBelow.path? = .ok (some ["goog", "Foo", "bar"]) := by decide +kernel
  obtain ⟨hone, hbelow⟩ := stands_once .standard hroots [classFoo]
  refine ⟨hroots, hplain, hclass, ?_, ?_⟩
  · obtain ⟨segments, d, hsegments, -, hd, -, hstands⟩ :=
      hone constantBelow _ next hplain (Prod.ext hdeclared rfl)
    obtain rfl : ["goog", "Foo", "bar"] = segments := by simpa [hpath] using hsegments
    have hstatic : (recorded? .standard m constantBelow).bind (·.entry.static?) = some true := by
      decide +kernel
    rw [hd, Option.bind_some] at hstatic
    exact ⟨d, hd, hstatic, hstands (by simp [hstatic])⟩
  · refine hbelow ["goog"] "Foo" [constantBelow] (by decide) (by simpa using hplain) ?_
    intro n hn
    obtain rfl : n = 0 := by simpa using hn
    exact hclass

/-- A function below a class, documented as an enumeration, is added to the namespace below the
class, so that it stands at no position that a namespace below no class leaves. -/
theorem stands_differs :
    let m := Model.empty.after .standard [classFoo]
    let next := (classify .standard m functionBelow).2
    prototypeSegment ∉ Name.Filter.standard.roots ∧ Plain classFoo ∧ Plain functionBelow ∧
      m.HasClass ["goog"] "Foo" ∧ next.HasClass ["goog"] "Foo" ∧
      (classify .standard m functionBelow).1 = .declared "goog.Foo.bar" ∧
      (∃ d, recorded? .standard m functionBelow = some d ∧ d.entry.static? ≠ none ∧
        ¬ ∃ position, StandsAt False m ["goog", "Foo", "bar"] d.entry next position) ∧
      (m.at ["goog", "Foo"]).functions.length = 0 ∧
      (next.at ["goog", "Foo"]).functions.length = 1 := by
  intro m next
  have hclass : m.HasClass ["goog"] "Foo" := hasClass_after_classFoo
  have hnext : next.HasClass ["goog"] "Foo" := by
    have hfound : (next.findClass? "goog" "Foo").map ClassEntry.kind = some .constructible := by
      decide +kernel
    obtain ⟨c, hc, hkind⟩ := Option.map_eq_some_iff.mp hfound
    exact ⟨c, hc, hkind⟩
  refine ⟨by decide, by decide +kernel, by decide +kernel, hclass, hnext, by decide +kernel, ?_,
    by decide +kernel, by decide +kernel⟩
  have hrecorded : (recorded? .standard m functionBelow).map
      (fun d => (d.entry.name, d.entry.static?)) = some ("bar", some false) := by decide +kernel
  obtain ⟨d, hd, hentry⟩ := Option.map_eq_some_iff.mp hrecorded
  obtain ⟨hname, hstatic⟩ := Prod.mk.inj hentry
  refine ⟨d, hd, by simp [hstatic], ?_⟩
  rintro ⟨position, hstands⟩
  cases hstands with
  | instances above className hp =>
    have hlength := congrArg List.length hp
    obtain rfl : above = [] := List.eq_nil_of_length_eq_zero (by simpa using hlength)
    simp [prototypeSegment] at hp
  | «class» _ _ _ _ hstatic' => simp [hstatic] at hstatic'
  | «namespace» path hp _ habove =>
    have hsplit : ["goog", "Foo"] ++ ["bar"] = path ++ [d.entry.name] := hp
    obtain ⟨rfl, -⟩ := List.append_inj' hsplit rfl
    exact habove ["goog"] "Foo" rfl hclass

end Ambient.Declaration

import Ambient.Declaration.Classify
import Mathlib.Data.List.Basic

/-!
# What one statement does

Screening, placing and building a declaration each get one statement of all that they can give, and
from these comes all that classifying a statement can do to a model.

* `Screened`, `subject_cases`: what a statement is that passes the screen;
* `Placed`: the three places a declaration can have;
* `Built`: the five kinds of declaration;
* **`step_of_classify`**: classifying is one of the four cases of `Step`;
* `classify_skipped`, `classify_recorded`, `classify_provide`: a statement that changes nothing, one
  that is recorded, and one that only provides;
* `outcome_of_placement`: an outcome depends on the model through the places in it.
-/

namespace Ambient.Declaration

open Ambient.Doc (DocComment)
open Ambient.Script (Statement)

variable {filter : Name.Filter} {m : Model} {s : Statement} {sub : Subject}

/-! ## Screening -/

theorem path?_ne_nil {segments : List String} (h : s.path? = .ok (some segments)) :
    segments ≠ [] := by
  unfold Statement.path? at h
  split at h
  · obtain ⟨named, -, h⟩ := bind_eq_ok.mp h
    simp only [Except.ok.injEq, Option.filter_eq_some_iff, Bool.not_eq_true',
      List.isEmpty_eq_false_iff] at h
    exact h.2
  all_goals simp at h

theorem dropLast_append_getLast {segments : List String} (h : segments ≠ []) :
    segments.dropLast ++ [(segments.getLast?).getD ""] = segments := by
  rw [List.getLast?_eq_some_getLast h, Option.getD_some, List.dropLast_append_getLast h]

/-- A statement passes the screen as a subject. -/
structure Screened (filter : Name.Filter) (s : Statement) (sub : Subject) : Prop where
  statement_eq : sub.statement = s
  path?_eq : s.path? = .ok (some (sub.path ++ [sub.name]))
  allowed : filter.allows (sub.path ++ [sub.name]) = true
  not_ignored : filter.ignores (sub.path ++ [sub.name]) = false
  documented : ∃ c, s.documentation? = some c ∧ sub.comment = c.value
  doc_eq : sub.doc = documentation sub.comment
  role_eq : sub.role = Role.of sub.doc
  role_ne : sub.role ≠ .hidden

/-- **The screen** skips a statement, cannot read its name, or lets it pass as a subject. -/
theorem subject_cases {result : Except Outcome Subject} (h : subject filter s = result) :
    (∃ reason, result = .error (.skipped reason)) ∨
      (∃ refusal, result = .error (.fatal refusal) ∧ s.path? = .error refusal) ∨
      ∃ sub, result = .ok sub ∧ Screened filter s sub := by
  unfold subject at h
  split at h
  · exact Or.inl ⟨_, h.symm⟩
  · exact Or.inl ⟨_, h.symm⟩
  split at h
  · exact Or.inl ⟨_, h.symm⟩
  split at h
  · exact Or.inl ⟨_, h.symm⟩
  rename_i c hc
  dsimp only at h
  split at h
  · exact Or.inl ⟨_, h.symm⟩
  rename_i hrole
  split at h
  · rename_i refusal hpath
    exact Or.inr (Or.inl ⟨refusal, h.symm, hpath⟩)
  · exact Or.inl ⟨_, h.symm⟩
  rename_i segments hpath
  have hseg := dropLast_append_getLast (path?_ne_nil hpath)
  split at h
  · exact Or.inl ⟨_, h.symm⟩
  rename_i hallowed
  split at h
  · exact Or.inl ⟨_, h.symm⟩
  rename_i hignored
  refine Or.inr (Or.inr ⟨_, h.symm, rfl, ?_, ?_, ?_, ⟨c, hc, rfl⟩, ?_, ?_, ?_⟩)
  · rw [hseg, hpath]
  · rw [hseg]
    simpa using hallowed
  · rw [hseg]
    simpa using hignored
  · dsimp only
  · dsimp only
  · dsimp only
    exact hrole

theorem screened_of_subject (h : subject filter s = .ok sub) : Screened filter s sub := by
  rcases subject_cases h with ⟨reason, hr⟩ | ⟨refusal, hr, -⟩ | ⟨sub', hr, hscreened⟩
  · cases hr
  · cases hr
  · obtain rfl := Except.ok.inj hr
    exact hscreened

/-- A statement that does not pass the screen is skipped, or its name cannot be read. -/
theorem outcome_of_subject {o : Outcome} (h : subject filter s = .error o) :
    (∃ reason, o = .skipped reason) ∨ ∃ refusal, o = .fatal refusal ∧ s.path? = .error refusal := by
  rcases subject_cases h with ⟨reason, hr⟩ | ⟨refusal, hr, hpath⟩ | ⟨sub, hr, -⟩
  · exact Or.inl ⟨reason, Except.error.inj hr⟩
  · exact Or.inr ⟨refusal, Except.error.inj hr, hpath⟩
  · cases hr

/-! ## Placing -/

theorem placeIn_eq_ok {segments : List String} {owner : Option String} {isStatic : Bool}
    {place : Placement} (h : placeIn m sub segments owner isStatic = .ok place) :
    place = ⟨Text.dotted segments, owner, isStatic⟩ ∧ Text.dotted segments ≠ globalPath ∧
      ∀ n, owner = some n → (m.findClass? (Text.dotted segments) n).isSome := by
  unfold placeIn at h
  dsimp only at h
  split at h
  · cases h
  · rename_i hglobal
    split at h
    · cases h
      exact ⟨rfl, hglobal, fun n hn => Option.noConfusion rfl (heq_of_eq hn)⟩
    · rename_i n
      split at h
      · rename_i hfound
        cases h
        exact ⟨rfl, hglobal, fun _ hn => Option.some.inj hn ▸ hfound⟩
      · cases h

/-- The places a subject can have in a model. -/
inductive Placed (m : Model) (sub : Subject) : Placement → Prop
  /-- Below the prototype of a class: with the instances of the class. -/
  | onInstances (above : List String) (hpath : sub.path = above ++ [prototypeSegment])
      (hdoc : isEmptyOverride sub.doc = false) (hglobal : Text.dotted above.dropLast ≠ globalPath)
      (hfound : ∀ n, ownerOf above = some n →
        (m.findClass? (Text.dotted above.dropLast) n).isSome) :
      Placed m sub ⟨Text.dotted above.dropLast, ownerOf above, false⟩
  /-- Below a class that can be constructed: with the class itself. -/
  | onClass (above : List String) (n : String) (c : ClassEntry) (hpath : sub.path = above ++ [n])
      (hn : n ≠ prototypeSegment) (hfound : m.findClass? (Text.dotted above) n = some c)
      (hkind : c.kind = .constructible) (hvalue : sub.declaresType = false)
      (hglobal : Text.dotted above ≠ globalPath) :
      Placed m sub ⟨Text.dotted above, ownerOf sub.path, true⟩
  /-- Elsewhere: in the namespace that the path names. -/
  | inNamespace (hpath : sub.path.getLast? ≠ some prototypeSegment)
      (hvalue : m.isStaticMember sub.path = true → sub.declaresType = true)
      (hglobal : Text.dotted sub.path ≠ globalPath) :
      Placed m sub ⟨Text.dotted sub.path, none, false⟩

theorem isStaticMember_eq_true_iff {path : List String} :
    m.isStaticMember path = true ↔ ∃ above n c, path = above ++ [n] ∧
      m.findClass? (Text.dotted above) n = some c ∧ c.kind = .constructible := by
  unfold Model.isStaticMember
  constructor
  · intro h
    split at h
    · cases h
    · rename_i n hn
      split at h
      · rename_i c hc
        exact ⟨path.dropLast, n, c, (List.dropLast_append_getLast? n hn).symm, hc,
          of_decide_eq_true h⟩
      · cases h
  · rintro ⟨above, n, c, rfl, hc, hkind⟩
    simp [hc, hkind]

theorem placed_of_placement {place : Placement} (h : placement m sub = .ok place) :
    Placed m sub place := by
  unfold placement at h
  split at h
  · rename_i hlast
    split at h
    · cases h
    · rename_i hdoc
      obtain ⟨rfl, hglobal, hfound⟩ := placeIn_eq_ok h
      exact .onInstances sub.path.dropLast (List.dropLast_append_getLast? _ hlast).symm
        (by simpa using hdoc) hglobal hfound
  · rename_i hlast
    split at h
    · rename_i hstatic
      rw [Bool.and_eq_true] at hstatic
      obtain ⟨above, n, c, hpath, hc, hkind⟩ := isStaticMember_eq_true_iff.mp hstatic.1
      obtain ⟨rfl, hglobal, -⟩ := placeIn_eq_ok h
      have habove : sub.path.dropLast = above := by rw [hpath, List.dropLast_concat]
      rw [habove] at hglobal ⊢
      refine .onClass above n c hpath (fun hn => hlast ?_) hc hkind (by simpa using hstatic.2)
        hglobal
      rw [hpath, hn, List.getLast?_concat]
    · rename_i hstatic
      obtain ⟨rfl, hglobal, -⟩ := placeIn_eq_ok h
      refine .inNamespace hlast (fun hs => ?_) hglobal
      simpa [hs] using hstatic

/-- A place with an owner is a place of a registered class. -/
theorem Placed.found {place : Placement} (h : Placed m sub place) {n : String}
    (hn : place.owner = some n) : (m.findClass? place.path n).isSome := by
  cases h with
  | onInstances above _ _ _ hfound => exact hfound n hn
  | onClass above k c hpath _ hfound =>
    have hk : n = k := by
      rw [hpath, ownerOf, List.getLast?_concat, Option.filter_eq_some_iff] at hn
      exact (Option.some.inj hn.1).symm
    rw [hk, hfound]
    rfl
  | inNamespace => cases hn

/-! ## Building -/

theorem isSome_classSignature {kind : ClassKind} {doc : DocComment} {signature : Option String}
    (h : classSignature kind doc = .ok signature) :
    signature.isSome ↔ kind = .constructible := by
  cases kind with
  | constructible =>
    cases htext : Doc.constructorSignature doc.tags with
    | error refusal => rw [classSignature, htext] at h; cases h
    | ok text =>
      rw [classSignature, htext] at h
      obtain rfl := Except.ok.inj h
      simp
  | interface =>
    obtain rfl := Except.ok.inj h
    simp

/-- A block without a tag for an enumeration or a type alias names no type. -/
theorem namesType_eq_false {doc : DocComment} (henum : doc.find? "enum" = none)
    (htypedef : doc.find? "typedef" = none) : namesType doc = false := by
  simp only [DocComment.find?, List.find?_eq_none] at henum htypedef
  rw [namesType, DocComment.has, List.any_eq_false]
  intro tag htag
  have h₁ := henum tag htag
  have h₂ := htypedef tag htag
  simp_all

/-- The declarations that a statement with a role can have. -/
inductive Built (role : Role) (name : String) (isStatic : Bool) (s : Statement) (doc : DocComment)
    (comment : String) : Entry → Prop
  | class (c : ClassEntry) (hrole : role = .type c.kind) (hname : c.name = name)
      (hsig : c.signature.isSome ↔ c.kind = .constructible) (hmethods : c.methods = [])
      (hproperties : c.properties = []) (hcomment : c.comment = some comment) :
      Built role name isStatic s doc comment (.class c)
  | function (f : Function) (hrole : ∀ kind, role ≠ .type kind) (hvalue : isFunction s doc = true)
      (hname : f.name = name) (hstatic : f.isStatic = isStatic)
      (hcomment : f.comment = some comment) :
      Built role name isStatic s doc comment (.function f)
  | enumeration (e : Enumeration) (tag : Doc.Tag) (hrole : ∀ kind, role ≠ .type kind)
      (hvalue : isFunction s doc = false) (htag : doc.find? "enum" = some tag)
      (hname : e.name = name) (hcomment : e.comment = some comment) :
      Built role name isStatic s doc comment (.enumeration e)
  | typeAlias (a : TypeAlias) (tag : Doc.Tag) (hrole : ∀ kind, role ≠ .type kind)
      (hvalue : isFunction s doc = false) (henum : doc.find? "enum" = none)
      (htag : doc.find? "typedef" = some tag) (hname : a.name = name)
      (hcomment : a.comment = some comment) :
      Built role name isStatic s doc comment (.typeAlias a)
  | variable (v : Variable) (hrole : ∀ kind, role ≠ .type kind) (hvalue : isFunction s doc = false)
      (henum : doc.find? "enum" = none) (htypedef : doc.find? "typedef" = none)
      (hname : v.name = name) (hstatic : v.isStatic = isStatic)
      (hcomment : v.comment = some comment) :
      Built role name isStatic s doc comment (.variable v)

theorem built_of_value {role : Role} (hrole : ∀ kind, role ≠ .type kind) {name comment : String}
    {isStatic : Bool} {doc : DocComment} {entry : Entry}
    (h : entryOf role name isStatic s doc comment = .ok entry) :
    Built role name isStatic s doc comment entry := by
  unfold entryOf at h
  split at h
  · rename_i kind
    exact absurd rfl (hrole kind)
  · split at h
    · rename_i hvalue
      obtain ⟨f, hf, h⟩ := bind_eq_ok.mp h
      obtain rfl := Except.ok.inj h
      obtain ⟨signature, -, hf⟩ := bind_eq_ok.mp hf
      obtain rfl := Except.ok.inj hf
      exact .function _ hrole hvalue rfl rfl rfl
    · rename_i hvalue
      rw [Bool.not_eq_true] at hvalue
      split at h
      · rename_i tag htag
        obtain ⟨e, he, h⟩ := bind_eq_ok.mp h
        obtain rfl := Except.ok.inj h
        obtain ⟨type, -, he⟩ := bind_eq_ok.mp he
        obtain ⟨keys, -, he⟩ := bind_eq_ok.mp he
        obtain rfl := Except.ok.inj he
        exact .enumeration _ tag hrole hvalue htag rfl rfl
      · rename_i henum
        split at h
        · rename_i tag htag
          obtain ⟨type, -, h⟩ := bind_eq_ok.mp h
          obtain rfl := Except.ok.inj h
          exact .typeAlias _ tag hrole hvalue henum htag rfl rfl
        · rename_i htypedef
          obtain ⟨type, -, h⟩ := bind_eq_ok.mp h
          obtain rfl := Except.ok.inj h
          exact .variable _ hrole hvalue henum htypedef rfl rfl rfl

theorem built_of_entryOf {role : Role} {name comment : String} {isStatic : Bool} {doc : DocComment}
    {entry : Entry} (h : entryOf role name isStatic s doc comment = .ok entry) :
    Built role name isStatic s doc comment entry := by
  cases role with
  | type kind =>
    obtain ⟨c, hc, h⟩ := bind_eq_ok.mp h
    obtain rfl := Except.ok.inj h
    obtain ⟨signature, hsig, hc⟩ := bind_eq_ok.mp hc
    obtain ⟨parents, -, hc⟩ := bind_eq_ok.mp hc
    obtain rfl := Except.ok.inj hc
    exact .class _ rfl rfl (isSome_classSignature hsig) rfl rfl rfl
  | value => exact built_of_value (fun _ hkind => by cases hkind) h
  | hidden => exact built_of_value (fun _ hkind => by cases hkind) h

/-! ## Classifying -/

/-- All that classifying a statement can do to a model. -/
inductive Step (filter : Name.Filter) (m : Model) (s : Statement) : Outcome → Model → Prop
  /-- The statement declares nothing, or has no place. -/
  | skipped (reason : SkipReason) : Step filter m s (.skipped reason) m
  /-- The name of the statement cannot be read. -/
  | unreadable (refusal : Refusal) (hpath : s.path? = .error refusal) :
      Step filter m s (.fatal refusal) m
  /-- The declaration cannot be written; its namespace stays. -/
  | refused (sub : Subject) (place : Placement) (refusal : Refusal)
      (hsub : subject filter s = .ok sub) (hplace : placement m sub = .ok place)
      (hentry : entryOf sub.role sub.name place.isStatic s sub.doc sub.comment = .error refusal) :
      Step filter m s (.fatal refusal) (m.withNamespace place.path)
  /-- The declaration is recorded. -/
  | recorded (sub : Subject) (place : Placement) (entry : Entry)
      (hsub : subject filter s = .ok sub) (hplace : placement m sub = .ok place)
      (hentry : entryOf sub.role sub.name place.isStatic s sub.doc sub.comment = .ok entry) :
      Step filter m s (.declared sub.fullName) (m.record place entry)

/-- **Classifying a statement** skips it, fails to write its declaration, or records it. -/
theorem step_of_classify {o : Outcome} {next : Model} (h : classify filter m s = (o, next)) :
    Step filter m s o next := by
  unfold classify at h
  split at h
  · rename_i o' hsub
    obtain ⟨rfl, rfl⟩ := Prod.mk.inj h
    rcases outcome_of_subject hsub with ⟨reason, rfl⟩ | ⟨refusal, rfl, hpath⟩
    · exact .skipped reason
    · exact .unreadable refusal hpath
  · rename_i sub hsub
    split at h
    · obtain ⟨rfl, rfl⟩ := Prod.mk.inj h
      exact .skipped _
    · rename_i place hplace
      split at h
      · rename_i refusal hentry
        obtain ⟨rfl, rfl⟩ := Prod.mk.inj h
        exact .refused sub place refusal hsub hplace hentry
      · rename_i entry hentry
        obtain ⟨rfl, rfl⟩ := Prod.mk.inj h
        exact .recorded sub place entry hsub hplace hentry

theorem classify_skipped {reason : SkipReason} (h : (classify filter m s).1 = .skipped reason) :
    (classify filter m s).2 = m := by
  rcases hc : classify filter m s with ⟨o, next⟩
  rw [hc] at h
  subst h
  cases step_of_classify hc
  rfl

theorem classify_recorded {place : Placement} {entry : Entry} (hsub : subject filter s = .ok sub)
    (hplace : placement m sub = .ok place)
    (hentry : entryOf sub.role sub.name place.isStatic s sub.doc sub.comment = .ok entry) :
    classify filter m s = (.declared sub.fullName, m.record place entry) := by
  simp only [classify, hsub, hplace, hentry]

/-- Where every subject has the same place in two models, a statement has the same outcome. -/
theorem outcome_of_placement {a b : Model} (filter : Name.Filter) (s : Statement)
    (h : ∀ sub, placement a sub = placement b sub) :
    (classify filter a s).1 = (classify filter b s).1 := by
  unfold classify
  cases subject filter s with
  | error o => rfl
  | ok sub =>
    simp only [h]
    cases placement b sub with
    | error reason => rfl
    | ok place =>
      dsimp only
      cases entryOf sub.role sub.name place.isStatic s sub.doc sub.comment <;> rfl

/-- A statement that provides a name is skipped. -/
theorem classify_provide (h : s.isProvide = true) :
    classify filter m s = (.skipped .provide, m) := by
  have hsub : subject filter s = .error (.skipped .provide) := by
    unfold subject
    split
    · rename_i hform
      simp [Statement.isProvide, Statement.provided?, hform] at h
    · rename_i hform
      simp [Statement.isProvide, Statement.provided?, hform] at h
    · rw [if_pos h]
  simp only [classify, hsub]

end Ambient.Declaration

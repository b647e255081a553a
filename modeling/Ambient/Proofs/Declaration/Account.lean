import Ambient.Proofs.Declaration.Effect
import Ambient.Proofs.Declaration.Printed

/-!
# What is declared and what is printed

Every declared result has put one declaration into the model, and the text shows each of them once,
in the block of its namespace and inside its class. The namespace without a path has no block: what
is declared in it is counted and not printed.

* `Model.recorded`: the declarations of a run, in the order of its declared results;
* `listings_of_gains`, `listed_classify`: what a step adds to the declarations of a model;
* `listed_after`: the declarations after a run are those it has recorded;
* **`declared_printed`**: declared, counted and printed, for every list of statements;
* `declared_unprinted`: a declaration that is not printed.
-/

namespace Ambient.Declaration

open Ambient.Script (Statement)

variable {filter : Name.Filter}

/-! ## What a statement records -/

/-- The name of a declaration. -/
def Entry.name : Entry → String
  | .class c => c.name
  | .function f => f.name
  | .enumeration e => e.name
  | .typeAlias a => a.name
  | .variable v => v.name

/-- The position of the class in a namespace that a declaration becomes a member of. -/
def Entry.classIn (entry : Entry) (ns : Namespace) (owner : Option String) : Option ℕ :=
  match entry with
  | .function _ | .variable _ => owner.bind fun n => ns.register.lookup n
  | _ => none

/-- What a statement declares in a model, and where. -/
def recorded? (filter : Name.Filter) (m : Model) (s : Statement) : Option Listing :=
  match subject filter s with
  | .error _ => none
  | .ok sub =>
    match placement m sub with
    | .error _ => none
    | .ok place =>
      match entryOf sub.role sub.name place.isStatic s sub.doc sub.comment with
      | .error _ => none
      | .ok entry =>
        some ⟨place.path, entry.classIn ((m.get? place.path).getD .empty) place.owner, entry⟩

/-- What a list of statements declares, in order. -/
def Model.recorded (filter : Name.Filter) (m : Model) : List Statement → List Listing
  | [] => []
  | s :: rest => (recorded? filter m s).toList ++ recorded filter (classify filter m s).2 rest

/-- A result names a declaration: its statement has a path that ends in the name of the
declaration. -/
def Names (r : Result) (d : Listing) : Prop :=
  ∃ segments, r.statement.path? = .ok (some (segments ++ [d.entry.name])) ∧
    r.outcome = .declared (Text.dotted (segments ++ [d.entry.name]))

theorem Built.name_eq {role : Role} {name comment : String} {isStatic : Bool} {s : Statement}
    {doc : Doc.DocComment} {entry : Entry} (h : Built role name isStatic s doc comment entry) :
    entry.name = name := by
  cases h with
  | «class» c _ hname => exact hname
  | function f _ _ hname => exact hname
  | enumeration e _ _ _ _ hname => exact hname
  | typeAlias a _ _ _ _ _ hname => exact hname
  | «variable» v _ _ _ _ hname => exact hname

/-- A statement is declared if it records something, and its result names that. -/
theorem recorded?_cases (filter : Name.Filter) (m : Model) (s : Statement) :
    ((classify filter m s).1.isDeclared = false ∧ recorded? filter m s = none) ∨
      ∃ d, (classify filter m s).1.isDeclared = true ∧ recorded? filter m s = some d ∧
        Names ⟨s, (classify filter m s).1⟩ d := by
  unfold classify recorded?
  cases hsub : subject filter s with
  | error o =>
    rcases outcome_of_subject hsub with ⟨reason, rfl⟩ | ⟨refusal, rfl, -⟩ <;>
      exact Or.inl ⟨rfl, rfl⟩
  | ok sub =>
    dsimp only
    cases placement m sub with
    | error reason => exact Or.inl ⟨rfl, rfl⟩
    | ok place =>
      dsimp only
      cases hentry : entryOf sub.role sub.name place.isStatic s sub.doc sub.comment with
      | error refusal => exact Or.inl ⟨rfl, rfl⟩
      | ok entry =>
        have hname := (built_of_entryOf hentry).name_eq
        refine Or.inr ⟨_, rfl, rfl, sub.path, ?_, ?_⟩
        · dsimp only
          rw [hname]
          exact (screened_of_subject hsub).path?_eq
        · dsimp only
          rw [hname]
          rfl

theorem recorded?_eq_none {m : Model} {s : Statement}
    (h : (classify filter m s).1.isDeclared = false) : recorded? filter m s = none := by
  rcases recorded?_cases filter m s with ⟨-, hd⟩ | ⟨d, hdeclared, -, -⟩
  · exact hd
  · exact absurd (h.symm.trans hdeclared) Bool.noConfusion

theorem recorded?_eq_some {m : Model} {s : Statement} {sub : Subject} {place : Placement}
    {entry : Entry} (hsub : subject filter s = .ok sub) (hplace : placement m sub = .ok place)
    (hentry : entryOf sub.role sub.name place.isStatic s sub.doc sub.comment = .ok entry) :
    recorded? filter m s = some
      ⟨place.path, entry.classIn ((m.get? place.path).getD .empty) place.owner, entry⟩ := by
  simp only [recorded?, hsub, hplace, hentry]

/-- The declared results of a run name what it records, one after the other. -/
theorem names_recorded (filter : Name.Filter) (statements : List Statement) : ∀ m : Model,
    List.Forall₂ Names ((m.results filter statements).filter (·.outcome.isDeclared))
      (m.recorded filter statements) := by
  induction statements with
  | nil => intro m; exact List.Forall₂.nil
  | cons s rest ih =>
    intro m
    rw [Model.results_cons, Model.recorded]
    rcases recorded?_cases filter m s with ⟨hdeclared, hd⟩ | ⟨d, hdeclared, hd, hnames⟩
    · rw [List.filter_cons_of_neg (by simp [hdeclared]), hd]
      exact ih _
    · rw [List.filter_cons_of_pos (by simpa using hdeclared), hd]
      exact List.Forall₂.cons hnames (ih _)

/-! ## What a step adds -/

theorem ClassEntry.bare_of_nil {c : ClassEntry} (hmethods : c.methods = [])
    (hproperties : c.properties = []) : c.bare = c := by
  cases c
  subst hmethods hproperties
  rfl

/-- One declaration more in the class at the end of `before`. -/
theorem classEntries_perm {before after : List ClassEntry} {c d : ClassEntry}
    {e : Option ℕ × Entry}
    (h : (d.entriesAt before.length).Perm (e :: c.entriesAt before.length)) :
    (classEntries 0 (before ++ d :: after)).Perm
      (e :: classEntries 0 (before ++ c :: after)) := by
  rw [classEntries_append, classEntries_append, Nat.zero_add, classEntries, classEntries]
  refine ((h.append_right _).append_left _).trans ?_
  rw [List.cons_append]
  exact List.perm_middle

theorem entries_of_gains {ns ns' : Namespace} {owner : Option String} {entry : Entry}
    (hns : ns.Registered) (h : ns.Gains owner entry ns') :
    ns'.entries.Perm ((entry.classIn ns owner, entry) :: ns.entries) := by
  -- The new declaration stands after `before`, wherever the lists of its kind are.
  have hinsert : ∀ {e : Option ℕ × Entry} (before l l' : List (Option ℕ × Entry)),
      l'.Perm (e :: l) → (before ++ l').Perm (e :: (before ++ l)) :=
    fun before l l' hl => (hl.append_left before).trans List.perm_middle
  have hlast : ∀ {e : Option ℕ × Entry} (before l : List (Option ℕ × Entry)),
      (before ++ [e] ++ l).Perm (e :: (before ++ l)) := by
    intro e before l
    rw [List.append_assoc]
    exact List.perm_middle
  have hindex : ∀ {name : String} {before after : List ClassEntry} {c : ClassEntry},
      ns.Latest name before c after → ns.register.lookup name = some before.length :=
    fun hc => hns.lookup_eq hc
  cases h with
  | «variable» v =>
    rw [Namespace.entries, List.map_append]
    exact hlast _ _
  | function f =>
    rw [Namespace.entries, List.map_append]
    exact hinsert _ _ _ (hinsert _ _ _ (hinsert _ _ _ (hlast _ _)))
  | typeAlias _ a =>
    rw [Namespace.entries, List.map_append]
    exact hinsert _ _ _ (hlast _ _)
  | enumeration _ e =>
    rw [Namespace.entries, List.map_append]
    exact hinsert _ _ _ (hinsert _ _ _ (hlast _ _))
  | «class» _ c hmethods hproperties =>
    have hc : c.entriesAt ns.classes.length = [(none, .class c)] := by
      rw [ClassEntry.entriesAt, ClassEntry.bare_of_nil hmethods hproperties, hmethods, hproperties]
      rfl
    refine hinsert _ _ _ (hinsert _ _ _ (hinsert _ _ _ (hinsert _ _ _ ?_)))
    dsimp only
    rw [classEntries_append, Nat.zero_add, classEntries, classEntries, List.append_nil, hc]
    exact List.perm_append_singleton _ _
  | method f _ hc =>
    rw [Entry.classIn, Option.bind_some, hindex hc, Namespace.entries, Namespace.entries,
      hc.classes_eq]
    refine hinsert _ _ _ (hinsert _ _ _ (hinsert _ _ _ (hinsert _ _ _ (classEntries_perm ?_))))
    rw [ClassEntry.entriesAt, ClassEntry.entriesAt, List.map_append]
    refine (List.Perm.cons _ ?_).trans (List.Perm.swap _ _ _)
    rw [← List.append_assoc]
    exact List.perm_append_singleton _ _
  | property v _ hc =>
    rw [Entry.classIn, Option.bind_some, hindex hc, Namespace.entries, Namespace.entries,
      hc.classes_eq]
    refine hinsert _ _ _ (hinsert _ _ _ (hinsert _ _ _ (hinsert _ _ _ (classEntries_perm ?_))))
    rw [ClassEntry.entriesAt, ClassEntry.entriesAt, List.map_append]
    exact (List.Perm.cons _ (hlast _ _)).trans (List.Perm.swap _ _ _)

theorem listings_of_gains {ns ns' : Namespace} {owner : Option String} {entry : Entry}
    (hns : ns.Registered) (h : ns.Gains owner entry ns') (path : String) :
    (ns'.listings path).Perm (⟨path, entry.classIn ns owner, entry⟩ :: ns.listings path) :=
  (entries_of_gains hns h).map _

theorem Namespace.listings_empty (path : String) : Namespace.empty.listings path = [] := rfl

/-- A change of the namespace at a path that adds a declaration there. -/
theorem listed_update {m : Model} {path : String} {f : Namespace → Namespace} {d : Listing}
    (h : ((f ((m.get? path).getD .empty)).listings path).Perm
      (d :: ((m.get? path).getD .empty).listings path)) :
    (m.update path f).listed.Perm (d :: m.listed) := by
  rcases Model.update_cases m path f with ⟨before, ns, after, hl, -, hg, hu⟩ | ⟨-, hg, hu⟩
  · rw [hg] at h
    rw [hu, Model.listed, Model.listed, hl, List.flatMap_append, List.flatMap_append,
      List.flatMap_cons, List.flatMap_cons]
    exact ((h.append_right _).append_left _).trans List.perm_middle
  · rw [hg] at h
    rw [hu, Model.listed, Model.listed, List.flatMap_append, List.flatMap_singleton]
    exact (h.append_left _).trans (List.perm_append_singleton _ _)

/-- **A step** adds to the declarations of a model what the statement records. -/
theorem listed_classify {m : Model} (hm : m.Each Namespace.Registered) (s : Statement) :
    (classify filter m s).2.listed.Perm ((recorded? filter m s).toList ++ m.listed) := by
  rcases hc : classify filter m s with ⟨o, next⟩
  cases step_of_classify hc with
  | skipped | unreadable =>
    rw [recorded?_eq_none (by rw [hc]; rfl)]
    exact List.Perm.refl _
  | refused sub place refusal =>
    rw [recorded?_eq_none (by rw [hc]; rfl)]
    rcases Model.withNamespace_cases m place.path with h | ⟨-, h⟩
    · rw [h]
      exact List.Perm.refl _
    · rw [h, Model.listed, List.flatMap_append, List.flatMap_singleton, Namespace.listings_empty,
        List.append_nil]
      exact List.Perm.refl _
  | recorded sub place entry hsub hplace hentry =>
    rw [recorded?_eq_some hsub hplace hentry]
    exact listed_update (listings_of_gains (hm.getD Namespace.registered_empty _)
      (gains_at_place hm hplace hentry) _)

/-! ## Runs -/

/-- **A run** adds to the declarations of a model what it records. -/
theorem listed_after (filter : Name.Filter) (statements : List Statement) : ∀ m : Model,
    m.Each Namespace.Registered →
    (m.after filter statements).listed.Perm (m.recorded filter statements ++ m.listed) := by
  induction statements with
  | nil => intro m _; exact List.Perm.refl _
  | cons s rest ih =>
    intro m hm
    refine (ih _ (registered_classify filter hm s)).trans ?_
    rw [Model.recorded, List.append_assoc]
    exact ((listed_classify hm s).append_left _).trans (by
      rw [← List.append_assoc, ← List.append_assoc]
      exact List.perm_append_comm.append_right _)

theorem nodup_paths_classify {m : Model} (hm : m.paths.Nodup) (s : Statement) :
    (classify filter m s).2.paths.Nodup := by
  rcases hc : classify filter m s with ⟨o, next⟩
  cases step_of_classify hc with
  | skipped => exact hm
  | unreadable => exact hm
  | refused => exact Model.nodup_paths_update hm _ _
  | recorded => exact Model.nodup_paths_update hm _ _

theorem nodup_paths_after (filter : Name.Filter) (statements : List Statement) :
    (Model.empty.after filter statements).paths.Nodup :=
  Model.after_invariant (fun m => m.paths.Nodup) (fun s _ _ hm => nodup_paths_classify hm s) _
    List.nodup_nil

/-- **Declared, counted and printed.** Every declared result of a list of statements has one
declaration, named by it, and the count of the model is the number of these results. The text
consists of one block for each printed namespace, and the blocks show, in the namespace and the
class it stands in, each declaration once whose namespace has a path; the others are not printed. -/
theorem declared_printed (filter : Name.Filter) (file : Option String)
    (statements : List Statement) :
    ∃ whole : Module, Module.ofStatements ⟨filter, true, file⟩ statements = .ok whole ∧
      let declared := whole.results.filter (·.outcome.isDeclared)
      let recorded := Model.empty.recorded filter statements
      List.Forall₂ Names declared recorded ∧
        whole.model.count = declared.length ∧
        whole.model.printed.Perm (recorded.filter fun d => d.path ≠ "") ∧
        whole.model.printed.length + (recorded.filter fun d => d.path = "").length =
          declared.length ∧
        (whole.model.printedBlocks.map Block.path).Nodup ∧
        ∀ emit, whole.render emit = joinBlocks
          (whole.model.printedBlocks.map (Block.text emit) ++
            whole.provides.map renderProvide) := by
  have hnames := names_recorded filter statements .empty
  have hlisted := listed_after filter statements .empty Model.each_empty
  rw [show Model.empty.listed = [] from rfl, List.append_nil] at hlisted
  have hprinted := hlisted.filter fun d => d.path ≠ ""
  rw [← Model.printed_eq] at hprinted
  refine ⟨_, ofStatements_continuing filter file statements, hnames, ?_, hprinted, ?_, ?_,
    fun emit => ?_⟩
  · rw [← Model.length_listed, hlisted.length_eq, hnames.length_eq]
  · have hsplit := List.filter_append_perm (fun d : Listing => d.path ≠ "")
      (Model.empty.recorded filter statements)
    rw [hprinted.length_eq, hnames.length_eq, ← hsplit.length_eq, List.length_append]
    exact congrArg _ (congrArg List.length (List.filter_congr fun d _ => by simp))
  · have hsub : ((Model.empty.after filter statements).printedBlocks.map Block.path).Sublist
        (Model.empty.after filter statements).paths := by
      rw [Model.printedBlocks, List.map_map]
      exact List.filter_sublist.map Prod.fst
    exact (nodup_paths_after filter statements).sublist hsub
  · rw [Module.render, Model.render, Model.blocks_eq]

/-- A constant whose name is a single word is declared, and counted, in the namespace without a
path, and the text is empty. -/
theorem declared_unprinted :
    ∃ whole : Module, Module.ofStatements ⟨.standard, true, none⟩
        [documented "* @const " (assignment "goog" [])] = .ok whole ∧
      (whole.results.filter (·.outcome.isDeclared)).length = 1 ∧ whole.model.count = 1 ∧
      whole.model.printed.length = 0 ∧ whole.render true = "" ∧ whole.render false = "" :=
  ⟨_, ofStatements_continuing .., by decide +kernel⟩

end Ambient.Declaration

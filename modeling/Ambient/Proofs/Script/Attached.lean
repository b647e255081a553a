import Ambient.Proofs.Script.TopLevel
import Mathlib.Data.List.DropRight

/-!
# Comments and the statements after them

Every comment at the top level of a script goes to the first statement after it. None is lost, none
is given twice, and those after the last statement are left over.

* `Element.statement?`, `Element.comment?`: what an element is;
* `trailing`: the comments after the last statement;
* `attach_append`: the comments that are left of a part go to what follows it;
* `Attached`: statements that have the comments of a top level;
* `documentation?_eq_some_iff`: the documentation of a statement among its comments;
* **`comments_attached`**: the comments are attached once and in order.
-/

namespace Ambient.Script

open Ambient.Doc (Comment)

/-- The statement that an element is. -/
def Element.statement? : Element → Option Statement
  | .statement s => some s
  | .comment _ | .interpreter => none

/-- The comment that an element is. -/
def Element.comment? : Element → Option Comment
  | .comment c => some c
  | .statement _ | .interpreter => none

/-- A statement without its comments. -/
def Statement.bare (s : Statement) : Statement := { s with comments := [] }

/-- The comments after the last statement. -/
def trailing (elements : List Element) : List Comment :=
  (elements.rtakeWhile fun e => e.statement?.isNone).filterMap Element.comment?

/-- Statements that have the comments of a top level. -/
structure Attached (elements : List Element) (statements : List Statement) : Prop where
  /-- There is one statement for each element that is one, in the same order. -/
  one_each : statements.map Statement.bare =
    (elements.filterMap Element.statement?).map Statement.bare
  /-- The comments of the statements and those left over are the comments of the top level. -/
  all_comments : statements.flatMap Statement.comments ++ trailing elements =
    elements.filterMap Element.comment?
  /-- A statement has the comments that stand between the statement before it and itself. -/
  leading : ∀ before s after, elements = before ++ .statement s :: after →
    statements[(before.filterMap Element.statement?).length]? =
      some { s with comments := trailing before }
  /-- A comment is with the first statement after it, between its neighbours. -/
  first_after : ∀ before c between s after,
    elements = before ++ .comment c :: (between ++ .statement s :: after) →
    (∀ e ∈ between, e.statement? = none) →
    statements[(before.filterMap Element.statement?).length]? =
      some { s with comments := trailing before ++ c :: between.filterMap Element.comment? }

/-! ## What is left over -/

variable {elements before between rest : List Element} {s : Statement} {c : Comment}

theorem trailing_concat_comment : trailing (before ++ [.comment c]) = trailing before ++ [c] := by
  rw [trailing, List.rtakeWhile_concat_pos _ _ _ rfl, List.filterMap_append]
  rfl

theorem trailing_concat_interpreter : trailing (before ++ [.interpreter]) = trailing before := by
  rw [trailing, List.rtakeWhile_concat_pos _ _ _ rfl, List.filterMap_append]
  exact List.append_nil _

theorem trailing_concat_statement : trailing (before ++ [.statement s]) = [] := by
  rw [trailing, List.rtakeWhile_concat_neg _ _ _ (by simp [Element.statement?])]
  rfl

/-- Comments are kept as long as no statement comes. -/
theorem trailing_append (h : ∀ e ∈ between, e.statement? = none) :
    trailing (before ++ between) = trailing before ++ between.filterMap Element.comment? := by
  induction between generalizing before with
  | nil => rw [List.append_nil, List.filterMap_nil, List.append_nil]
  | cons e between ih =>
    rw [List.forall_mem_cons] at h
    rw [List.append_cons, ih h.2]
    cases e with
    | comment c =>
      rw [trailing_concat_comment, List.append_assoc]
      rfl
    | interpreter =>
      rw [trailing_concat_interpreter]
      rfl
    | statement s => cases h.1

/-! ## Attaching -/

/-- The comments that are left of a part of the top level go to what follows it. -/
theorem attach_append (before rest : List Element) :
    attach (before ++ rest) = attach before ++ attachFrom (trailing before) rest := by
  -- What is pending depends on the last elements, so they are taken off the end.
  induction before using List.reverseRecOn generalizing rest with
  | nil => rfl
  | append_singleton before e ih =>
    rw [List.append_assoc, ih, ih [e], List.append_assoc]
    congr 1
    cases e with
    | comment c =>
      rw [trailing_concat_comment]
      rfl
    | interpreter =>
      rw [trailing_concat_interpreter]
      rfl
    | statement s =>
      rw [trailing_concat_statement]
      rfl

theorem map_bare_attach (elements : List Element) : (attach elements).map Statement.bare =
    (elements.filterMap Element.statement?).map Statement.bare := by
  induction elements using List.reverseRecOn with
  | nil => rfl
  | append_singleton before e ih =>
    rw [attach_append, List.map_append, ih, List.filterMap_append, List.map_append]
    congr 1
    cases e <;> rfl

theorem flatMap_comments_attach (elements : List Element) :
    (attach elements).flatMap Statement.comments ++ trailing elements =
      elements.filterMap Element.comment? := by
  induction elements using List.reverseRecOn with
  | nil => rfl
  | append_singleton before e ih =>
    rw [attach_append, List.flatMap_append, List.filterMap_append, ← ih]
    cases e with
    | comment c =>
      rw [trailing_concat_comment]
      simp [attachFrom, Element.comment?]
    | interpreter =>
      rw [trailing_concat_interpreter]
      simp [attachFrom, Element.comment?]
    | statement s =>
      rw [trailing_concat_statement]
      simp [attachFrom, Element.comment?]

theorem length_attach (elements : List Element) :
    (attach elements).length = (elements.filterMap Element.statement?).length := by
  have h := congrArg List.length (map_bare_attach elements)
  rwa [List.length_map, List.length_map] at h

theorem getElem?_attach (before after : List Element) (s : Statement) :
    (attach (before ++ .statement s :: after))[(before.filterMap Element.statement?).length]? =
      some { s with comments := trailing before } := by
  rw [attach_append, ← length_attach, List.getElem?_append_right le_rfl, Nat.sub_self]
  rfl

/-- **Statements get the comments in front of them**, whatever stands at the top level. -/
theorem attached_attach (elements : List Element) : Attached elements (attach elements) where
  one_each := map_bare_attach elements
  all_comments := flatMap_comments_attach elements
  leading := by
    rintro before s after rfl
    exact getElem?_attach before after s
  first_after := by
    rintro before c between s after rfl hbetween
    -- The part between the comment and the statement has no statement, so the count is the same.
    have hcount : (before ++ .comment c :: between).filterMap Element.statement? =
        before.filterMap Element.statement? := by
      rw [List.filterMap_append, List.filterMap_cons_none rfl,
        List.filterMap_eq_nil_iff.mpr hbetween, List.append_nil]
    have hleft : trailing (before ++ .comment c :: between) =
        trailing before ++ c :: between.filterMap Element.comment? := by
      rw [List.append_cons, trailing_append hbetween, trailing_concat_comment, List.append_assoc]
      rfl
    rw [← hcount, ← hleft, ← List.cons_append, ← List.append_assoc]
    exact getElem?_attach _ after s

/-! ## The documentation of a statement -/

/-- A comment documents what follows it: it is a block, and its text starts with a star. -/
def Documents (c : Comment) : Prop := c.kind = .block ∧ ['*'] <+: c.value.toList

theorem documents_iff : Documents c ↔ c.isDoc = true := by
  rw [Documents, Comment.isDoc, Bool.and_eq_true, decide_eq_true_iff, decide_eq_true_iff]
  refine and_congr_right fun _ => ?_
  cases c.value.toList with
  | nil => simp
  | cons a rest => simp [eq_comm]

theorem documentation?_eq_some_iff : s.documentation? = some c ↔
    ∃ before after, s.comments = before ++ c :: after ∧ Documents c ∧
      ∀ d ∈ after, ¬ Documents d := by
  rw [Statement.documentation?, List.getLast?_eq_some_iff]
  constructor
  · rintro ⟨docs, hdocs⟩
    obtain ⟨front, back, hcomments, -, hback⟩ := List.filter_eq_append_iff.mp hdocs
    obtain ⟨middle, after, rfl, -, hc, hafter⟩ := List.filter_eq_cons_iff.mp hback
    rw [← List.append_assoc] at hcomments
    refine ⟨front ++ middle, after, hcomments, documents_iff.mpr hc, fun d hd hdoc => ?_⟩
    exact List.filter_eq_nil_iff.mp hafter d hd (documents_iff.mp hdoc)
  · rintro ⟨before, after, hcomments, hc, hafter⟩
    have hnone : after.filter Comment.isDoc = [] :=
      List.filter_eq_nil_iff.mpr fun d hd hdoc => hafter d hd (documents_iff.mpr hdoc)
    refine ⟨before.filter Comment.isDoc, ?_⟩
    rw [hcomments, List.filter_append, List.filter_cons_of_pos (documents_iff.mp hc), hnone]

/-- **Comments are attached once and in order**: whatever stands at the top level, its statements
are kept and each gets the comments in front of it. The top level of a script is what its text is
made of, so the order is the order of the text. -/
theorem comments_attached (elements : List Element) :
    Attached elements (attach elements) ∧
      (∀ text, elements? text = some elements →
        TopLevel 1 text elements ∧ Program.ofText text = ⟨attach elements, 0⟩) ∧
      ∀ (s : Statement) c, s.documentation? = some c ↔
        ∃ before after, s.comments = before ++ c :: after ∧ Documents c ∧
          ∀ d ∈ after, ¬ Documents d := by
  refine ⟨attached_attach elements, fun text hread => ⟨topLevel_of_elements? hread, ?_⟩, ?_⟩
  · rw [Program.ofText, hread]
  · exact fun _ _ => documentation?_eq_some_iff

/-- A script with a first line that names an interpreter, and with comments of both kinds before,
between and after its statements. -/
private def mixed : List Char := "#!n\n//a\n/** b*/x;y;/*c*//** d*/z;//e".toList

/-- The texts of the statements of a script, with the comments of each and its documentation. -/
private def Program.outline (p : Program) : List (String × List Comment × Option Comment) :=
  p.statements.map fun s => (s.text, s.comments, s.documentation?)

theorem comments_attached_mixed : ∃ elements, elements? mixed = some elements ∧
    Attached elements (attach elements) ∧ TopLevel 1 mixed elements ∧
    trailing elements = [⟨.line, "e"⟩] ∧
    (Program.ofText mixed).outline =
      [("x;", [⟨.line, "a"⟩, ⟨.block, "* b"⟩], some ⟨.block, "* b"⟩),
        ("y;", [], none),
        ("z;", [⟨.block, "c"⟩, ⟨.block, "* d"⟩], some ⟨.block, "* d"⟩)] := by
  have hmixed : (elements? mixed).map (fun elements =>
      (trailing elements, (Program.mk (attach elements) 0).outline)) =
      some ([⟨.line, "e"⟩],
        [("x;", [⟨.line, "a"⟩, ⟨.block, "* b"⟩], some ⟨.block, "* b"⟩),
          ("y;", [], none),
          ("z;", [⟨.block, "c"⟩, ⟨.block, "* d"⟩], some ⟨.block, "* d"⟩)]) := by
    decide +kernel
  obtain ⟨elements, hread, hview⟩ := Option.map_eq_some_iff.mp hmixed
  rw [Prod.mk.injEq] at hview
  obtain ⟨hattached, hlayout, -⟩ := comments_attached elements
  obtain ⟨htop, hprogram⟩ := hlayout mixed hread
  refine ⟨elements, hread, hattached, htop, hview.1, ?_⟩
  rw [hprogram]
  exact hview.2

end Ambient.Script

import Ambient.Proofs.Name.Reserved
import Ambient.Proofs.TypeExpr.Shape
import Ambient.TypeExpr.Declared

/-!
# Types that cannot be declared

Of the types that a text can have, those cannot be declared in which an array literal shows, other
than one with a single item right after an ellipsis, or an `Object` with a number of arguments
other than one or two. The arguments of a type that is written without them do not show, and
neither do the labelled types of a function.

* `Name.renameType_eq_iff`: the names that are told apart when a type is written are written by no
  other name;
* `shown`, `ShownIn`, `Undeclarable`: what the text of a type depends on, and what has none;
* `RefusedIff`: a result is a refusal of a type under a condition and only then;
* **`declared_refused_iff`**: the type of an accepted text is refused if and only if a part without
  a text shows in it.
-/

namespace Ambient

/-! ## Names that are told apart -/

namespace Name

/-- A name that has no underscore when its reserved words are marked has no reserved words. -/
theorem renameReserved_eq {n : String} (h : '_' ∉ (renameReserved n).toList) :
    renameReserved n = n := by
  refine renameReserved_eq_self_iff.mpr fun word hword hreserved => h ?_
  -- The mark would show in the whole name.
  have hmark : '_' ∈ (sanitize word).toList := by
    rw [sanitize, if_pos (List.contains_iff_mem.mpr hreserved), String.toList_append]
    exact List.mem_append_right _ (List.mem_singleton.mpr rfl)
  rw [renameReserved, Text.dotted, String.toList_intercalate]
  exact (Text.infix_intercalate (List.mem_map_of_mem (List.mem_map_of_mem hword))).subset hmark

/-- The names that types are told apart by. -/
def marked : List String := [objectType, "goog.iter.Iterable", "goog.array.ArrayLike", "number"]

theorem renameType_of_mem_marked {n : String} (h : n ∈ marked) : renameType n = n := by
  simp only [marked, List.mem_cons, List.not_mem_nil, or_false] at h
  rcases h with rfl | rfl | rfl | rfl <;> decide

/-- A type that is written without a mark and not by the name that others are declared under has the
name it is written by. -/
theorem renameType_eq_self {n : String} (hmark : '_' ∉ (renameType n).toList)
    (htarget : renameType n ≠ "goog.globalEventTarget") : renameType n = n := by
  rw [renameType] at hmark htarget ⊢
  by_cases hlegacy : renameReserved n = "EventTarget"
  · rw [hlegacy] at htarget
    exact absurd rfl htarget
  · have hlookup : legacyRenames.lookup (renameReserved n) = none := by
      rw [legacyRenames, List.lookup_cons, beq_eq_false_iff_ne.mpr hlegacy]
      rfl
    rw [hlookup, Option.getD_none] at hmark ⊢
    exact renameReserved_eq hmark

/-- **A type is written by one of these names** only if it has it. -/
theorem renameType_eq_iff {n s : String} (hs : s ∈ marked) : renameType n = s ↔ n = s := by
  refine ⟨fun h => ?_, fun h => h ▸ renameType_of_mem_marked (h ▸ hs)⟩
  have hplain : '_' ∉ s.toList ∧ s ≠ "goog.globalEventTarget" := by
    simp only [marked, List.mem_cons, List.not_mem_nil, or_false] at hs
    rcases hs with rfl | rfl | rfl | rfl <;> decide
  exact (renameType_eq_self (h ▸ hplain.1) (h ▸ hplain.2)).symm.trans h

theorem isUnparameterized_renameType (n : String) :
    isUnparameterized (renameType n) = isUnparameterized n := by
  rw [Bool.eq_iff_iff]
  simp only [isUnparameterized, Bool.or_eq_true, beq_iff_eq]
  rw [renameType_eq_iff (by decide), renameType_eq_iff (by decide)]

end Name

/-! ## What shows in a type -/

namespace TypeExpr

/-- The types right inside a type, as far as its text depends on them: without the labelled types
of a function and the arguments of a type that is written without them. A literal with one item
right after an ellipsis is passed over. -/
def shown : TypeExpr → List TypeExpr
  | .optional t | .nullable _ t | .nonNullable _ t => [t]
  | .variadic (.tuple [item]) => [item]
  | .variadic t => [t]
  | .union ts | .tuple ts | .record ts => ts
  | .application (.name base) arguments => if Name.isUnparameterized base then [] else arguments
  | .application _ arguments => arguments
  | .function params result _ _ => params ++ [result]
  | .field _ t => [t]
  | .absent | .name _ | .all | .unknown | .void | .null | .undefined => []

theorem shown_variadic (t : TypeExpr) : (TypeExpr.variadic t).shown = [t.operand] := by
  rcases operand_cases t with ⟨item, rfl⟩ | ht
  · rw [shown, operand]
  · rw [shown, ht]
    exact ne_tuple_of_operand ht

/-- A type shows in another one: it is the other one, or shows in a type right inside that its text
depends on. -/
inductive ShownIn (u : TypeExpr) : TypeExpr → Prop
  | self : ShownIn u u
  | inside {t child : TypeExpr} (hchild : child ∈ t.shown) (h : ShownIn u child) : ShownIn u t

/-- An array literal, or `Object` with a number of arguments other than one or two. -/
def Undeclarable : TypeExpr → Prop
  | .tuple _ => True
  | .application (.name base) arguments =>
    base = Name.objectType ∧ arguments.length ≠ 1 ∧ arguments.length ≠ 2
  | _ => False

/-- Something shows in a type that has no text. -/
def ShowsUndeclarable (t : TypeExpr) : Prop := ∃ u, ShownIn u t ∧ u.Undeclarable

theorem showsUndeclarable_iff {t : TypeExpr} : t.ShowsUndeclarable ↔
    t.Undeclarable ∨ ∃ child ∈ t.shown, child.ShowsUndeclarable := by
  constructor
  · rintro ⟨u, hu, hundeclarable⟩
    cases hu with
    | self => exact Or.inl hundeclarable
    | inside hchild h => exact Or.inr ⟨_, hchild, u, h, hundeclarable⟩
  · rintro (h | ⟨child, hchild, u, hu, hundeclarable⟩)
    · exact ⟨t, .self, h⟩
    · exact ⟨u, .inside hchild hu, hundeclarable⟩

end TypeExpr

/-! ## Refusals -/

/-- A refusal that the type of a text can meet with. -/
def Refusal.OfType : Refusal → Prop
  | .unsupportedType kind => kind = "ArrayType"
  | .objectArguments count => count ≠ 1 ∧ count ≠ 2
  | _ => False

/-- A result is a refusal under a condition and only then, and one that a type can meet with. -/
def RefusedIff {α : Type} (x : Except Refusal α) (P : Prop) : Prop :=
  ((∃ e, x = .error e) ↔ P) ∧ ∀ e, x = .error e → e.OfType

namespace RefusedIff

variable {α β : Type} {x : Except Refusal α} {P Q : Prop}

theorem ok (a : α) : RefusedIff (.ok a : Except Refusal α) False := by
  refine ⟨⟨?_, False.elim⟩, fun e he => nomatch he⟩
  rintro ⟨e, he⟩
  cases he

theorem error {e : Refusal} (h : e.OfType) : RefusedIff (.error e : Except Refusal α) True := by
  refine ⟨⟨fun _ => trivial, fun _ => ⟨e, rfl⟩⟩, fun e' he => ?_⟩
  cases he
  exact h

theorem congr (h : RefusedIff x P) (hPQ : P ↔ Q) : RefusedIff x Q := ⟨h.1.trans hPQ, h.2⟩

theorem bind (hx : RefusedIff x P) {f : α → Except Refusal β}
    (hf : ∀ a, x = .ok a → RefusedIff (f a) Q) : RefusedIff (x >>= f) (P ∨ Q) := by
  cases x with
  | error e =>
    have hP : P := hx.1.mp ⟨e, rfl⟩
    exact (RefusedIff.error (hx.2 e rfl)).congr (iff_of_true trivial (Or.inl hP))
  | ok a =>
    have hP : ¬ P := fun h => nomatch (hx.1.mpr h).choose_spec
    exact (hf a rfl).congr (or_iff_right hP).symm

/-- A step that gives a result from any other changes nothing about refusals. -/
theorem map (hx : RefusedIff x P) (f : α → β) : RefusedIff (x >>= fun a => .ok (f a)) P :=
  (hx.bind fun a _ => ok (f a)).congr (or_iff_left not_false)

end RefusedIff

namespace TypeExpr

/-- A type is refused, wherever it stands, if and only if something undeclarable shows in it. -/
def Settled (t : TypeExpr) : Prop := ∀ place, RefusedIff (t.declaredAt place) t.ShowsUndeclarable

@[simp] theorem showsUndeclarable_field {key : String} {t : TypeExpr} :
    (TypeExpr.field key t).ShowsUndeclarable ↔ t.ShowsUndeclarable := by
  rw [showsUndeclarable_iff]
  simp [Undeclarable, shown]

@[simp] theorem not_showsUndeclarable_name (n : String) :
    ¬ (TypeExpr.name n).ShowsUndeclarable := by
  rw [showsUndeclarable_iff]
  simp [Undeclarable, shown]

@[simp] theorem not_showsUndeclarable_absent : ¬ TypeExpr.absent.ShowsUndeclarable := by
  rw [showsUndeclarable_iff]
  simp [Undeclarable, shown]

theorem settled_absent : Settled .absent := by
  intro place
  rw [declaredAt]
  exact (RefusedIff.ok _).congr (iff_of_false not_false not_showsUndeclarable_absent)

theorem refusedIff_eachAt (place : Place) {ts : List TypeExpr} (h : ∀ t ∈ ts, Settled t) :
    RefusedIff (eachAt place ts) (∃ t ∈ ts, t.ShowsUndeclarable) := by
  induction ts with
  | nil => exact (RefusedIff.ok []).congr (by simp)
  | cons t ts ih =>
    rw [List.forall_mem_cons] at h
    rw [eachAt]
    refine ((h.1 place).bind fun text _ => (ih h.2).map (text :: ·)).congr ?_
    rw [List.exists_mem_cons_iff]

theorem refusedIff_paramsFrom {ts : List TypeExpr} (h : ∀ t ∈ ts, Settled t) :
    ∀ index, RefusedIff (paramsFrom index ts) (∃ t ∈ ts, t.ShowsUndeclarable) := by
  induction ts with
  | nil => exact fun index => (RefusedIff.ok []).congr (by simp)
  | cons t ts ih =>
    intro index
    rw [List.forall_mem_cons] at h
    rw [paramsFrom]
    refine ((h.1 .alone).bind fun _ _ => (ih h.2 (index + 1)).map _).congr ?_
    rw [List.exists_mem_cons_iff]

theorem refusedIff_fieldTexts {ts : List TypeExpr}
    (h : ∀ t ∈ ts, ∃ key value, t = .field key value ∧ Settled value) :
    RefusedIff (fieldTexts ts) (∃ t ∈ ts, t.ShowsUndeclarable) := by
  induction ts with
  | nil => exact (RefusedIff.ok []).congr (by simp)
  | cons t ts ih =>
    rw [List.forall_mem_cons] at h
    obtain ⟨⟨key, value, rfl, hvalue⟩, hts⟩ := h
    rw [fieldTexts]
    refine ((hvalue .alone).bind fun _ _ => (ih hts).map _).congr ?_
    rw [List.exists_mem_cons_iff, showsUndeclarable_field]

/-- A type whose text is that of another one at some place. -/
theorem Settled.wrap {t u : TypeExpr} (h : Settled t)
    (hu : ∀ place, ∃ place', u.declaredAt place = t.declaredAt place')
    (hundeclarable : ¬ u.Undeclarable) (hshown : u.shown = [t]) : Settled u := by
  intro place
  obtain ⟨place', hplace⟩ := hu place
  rw [hplace]
  refine (h place').congr ?_
  rw [showsUndeclarable_iff (t := u), hshown]
  simp only [hundeclarable, List.mem_singleton, exists_eq_left, false_or]

theorem length_of_eachAt {place : Place} {ts : List TypeExpr} : ∀ {texts : List String},
    eachAt place ts = .ok texts → texts.length = ts.length := by
  induction ts with
  | nil =>
    intro texts h
    cases h
    rfl
  | cons t ts ih =>
    intro texts h
    rw [eachAt] at h
    obtain ⟨text, -, h⟩ := bind_eq_ok.mp h
    obtain ⟨later, hlater, h⟩ := bind_eq_ok.mp h
    cases h
    rw [List.length_cons, List.length_cons, ih hlater]

theorem exists_indexSignatureText {texts : List String} (h : texts.length = 1 ∨ texts.length = 2) :
    ∃ text, indexSignatureText texts = .ok text := by
  rcases h with h | h
  · obtain ⟨value, rfl⟩ := List.length_eq_one_iff.mp h
    exact ⟨_, rfl⟩
  · obtain ⟨index, value, rfl⟩ := List.length_eq_two.mp h
    exact ⟨_, rfl⟩

theorem declaredAt_base (n : String) :
    declaredAt .base (.name n) = .ok (Name.renameType n) := by
  rw [declaredAt, nameText, if_neg (fun h => nomatch h.2)]

theorem settled_application {base : String} {arguments : List TypeExpr}
    (h : ∀ t ∈ arguments, Settled t) : Settled (.application (.name base) arguments) := by
  intro place
  have hobject : Name.renameType base = Name.objectType ↔ base = Name.objectType :=
    Name.renameType_eq_iff (by decide)
  have hall : RefusedIff (eachAt .alone arguments) (∃ t ∈ arguments, t.ShowsUndeclarable) :=
    refusedIff_eachAt _ h
  rw [declaredAt, declaredAt_base, ok_bind]
  by_cases hname : base = Name.objectType
  · rw [if_pos (hobject.mpr hname)]
    have hshown : (TypeExpr.application (.name base) arguments).shown = arguments := by
      rw [shown, hname]
      rfl
    by_cases hlength : arguments.length = 1 ∨ arguments.length = 2
    · rw [if_pos hlength, showsUndeclarable_iff, hshown]
      refine (hall.bind fun texts htexts => ?_).congr or_comm
      obtain ⟨text, htext⟩ :=
        exists_indexSignatureText ((length_of_eachAt htexts).symm ▸ hlength)
      rw [htext]
      exact (RefusedIff.ok text).congr
        (iff_of_false not_false fun h => hlength.elim h.2.1 h.2.2)
    · rw [if_neg hlength]
      rw [not_or] at hlength
      refine (RefusedIff.error (e := .objectArguments arguments.length) hlength).congr ?_
      exact iff_of_true trivial ⟨_, .self, hname, hlength⟩
  · have hundeclarable : ¬ (TypeExpr.application (.name base) arguments).Undeclarable :=
      fun h => hname h.1
    rw [if_neg (hobject.not.mpr hname), Name.isUnparameterized_renameType, showsUndeclarable_iff]
    split_ifs with hplain
    · refine (RefusedIff.ok _).congr (iff_of_false not_false ?_)
      simp [hundeclarable, shown, hplain]
    · refine (hall.map _).congr ?_
      simp [hundeclarable, shown, hplain]

theorem settled_function {params : List TypeExpr} {result thisType newType : TypeExpr}
    (hparams : ∀ t ∈ params, Settled t) (hresult : Settled result) :
    Settled (.function params result thisType newType) := by
  intro place
  rw [declaredAt]
  refine ((refusedIff_paramsFrom hparams 0).bind (Q := result.ShowsUndeclarable)
    fun _ _ => ?_).congr ?_
  · dsimp only
    split
    · exact (RefusedIff.ok _).congr (iff_of_false not_false not_showsUndeclarable_absent)
    · exact (hresult .alone).map _
  · rw [showsUndeclarable_iff (t := .function params result thisType newType)]
    simp only [Undeclarable, shown, List.mem_append, List.mem_singleton, or_and_right, exists_or,
      exists_eq_left, false_or]

theorem declaredAt_variadic (place : Place) (t : TypeExpr) :
    declaredAt place (.variadic t) =
      declaredAt .element t.operand >>= fun text => .ok (text ++ "[]") := by
  rcases operand_cases t with ⟨item, rfl⟩ | ht
  · rw [declaredAt, operand]
  · rw [ht, declaredAt]
    exact ne_tuple_of_operand ht

theorem settled_variadic {t : TypeExpr} (h : Settled t.operand) : Settled (.variadic t) := by
  intro place
  rw [declaredAt_variadic]
  refine ((h .element).map _).congr ?_
  rw [showsUndeclarable_iff (t := .variadic t), shown_variadic]
  simp [Undeclarable]

/-- A type without types in it that has the same text everywhere. -/
theorem settled_of_text {t : TypeExpr} (htext : ∀ place, ∃ s, declaredAt place t = .ok s)
    (hundeclarable : ¬ t.Undeclarable) (hshown : t.shown = []) : Settled t := by
  intro place
  obtain ⟨s, hs⟩ := htext place
  rw [hs, showsUndeclarable_iff, hshown]
  refine (RefusedIff.ok s).congr ?_
  simp [hundeclarable]

/-- **A type that fits a place** is refused if and only if something undeclarable shows in it. -/
theorem settled_of_fits {site : Site} {t : TypeExpr} (h : Fits site t) :
    AtSite Settled site t := by
  refine fits_induction ?absent ?name ?all ?unknown ?void ?null ?undefined ?optional ?nullable
    ?nonNullable ?union ?tuple ?application ?function ?record ?variadic h
  case absent => exact settled_absent
  case name => exact fun n _ => settled_of_text (fun place => ⟨_, by rw [declaredAt]⟩) id rfl
  case all | unknown | void | null | undefined =>
    exact settled_of_text (fun place => ⟨_, by rw [declaredAt]⟩) id rfl
  case optional =>
    intro t _ ih
    refine ih.wrap (fun place => ⟨{ place with asBase := false }, ?_⟩) id rfl
    rw [declaredAt]
  case nullable | nonNullable =>
    intro _ t _ ih
    refine ih.wrap (fun place => ⟨{ place with asBase := false }, ?_⟩) id rfl
    rw [declaredAt]
  case union =>
    intro members _ _ ih place
    rw [declaredAt]
    refine ((refusedIff_eachAt _ ih).map _).congr ?_
    rw [showsUndeclarable_iff (t := .union members)]
    simp [Undeclarable, shown]
  case tuple =>
    intro items place
    rw [declaredAt]
    refine (RefusedIff.error (e := .unsupportedType "ArrayType") rfl).congr ?_
    exact iff_of_true trivial ⟨_, .self, trivial⟩
  case application => exact fun base arguments _ _ ih => settled_application ih
  case function => exact fun params result _ _ ih ihresult => settled_function ih ihresult
  case record =>
    intro fields ih place
    rw [declaredAt]
    refine ((refusedIff_fieldTexts ih).map _).congr ?_
    rw [showsUndeclarable_iff (t := .record fields)]
    simp [Undeclarable, shown]
  case variadic => exact fun t _ ih => settled_variadic ih

/-- **The type of an accepted text is refused** if and only if something undeclarable shows in it,
and only because it does; any other one has a text. -/
theorem declared_refused_iff {text : String} {n : TypeExpr} (h : parse text = .ok n) :
    ((∃ e, n.declared = .error e) ↔ n.ShowsUndeclarable) ∧
      (∀ e, n.declared = .error e → e = .unsupportedType "ArrayType" ∨
        ∃ count, count ≠ 1 ∧ count ≠ 2 ∧ e = .objectArguments count) ∧
      (¬ n.ShowsUndeclarable → ∃ s, n.declared = .ok s) := by
  have hsettled : Settled n := settled_of_fits (fits_of_parse h)
  obtain ⟨hiff, htype⟩ := hsettled .alone
  refine ⟨hiff, fun e he => ?_, fun hnot => ?_⟩
  · have := htype e he
    cases e with
    | unsupportedType kind => exact Or.inl (congrArg _ this)
    | objectArguments count => exact Or.inr ⟨count, this.1, this.2, rfl⟩
    | _ => exact this.elim
  · cases hn : n.declared with
    | error e => exact absurd (hiff.mp ⟨e, hn⟩) hnot
    | ok s => exact ⟨s, rfl⟩

theorem declared_refused_iff_application :
    (parse "function(this:[A],...[B]):goog.iter.Iterable.<[C]>" =
        .ok (.function [.variadic (.tuple [.name "B"])]
          (.application (.name "goog.iter.Iterable") [.tuple [.name "C"]])
          (.tuple [.name "A"]) .absent) ∧
      ∃ s, (TypeExpr.function [.variadic (.tuple [.name "B"])]
        (.application (.name "goog.iter.Iterable") [.tuple [.name "C"]])
        (.tuple [.name "A"]) .absent).declared = .ok s) ∧
    parse "?Object.<A,B,C>" =
        .ok (.nullable .before (.application (.name "Object") [.name "A", .name "B", .name "C"])) ∧
      ∃ e, (TypeExpr.nullable .before
        (.application (.name "Object") [.name "A", .name "B", .name "C"])).declared = .error e := by
  have hscan : Scan.ofText
      (Text.trim "function(this:[A],...[B]):goog.iter.Iterable.<[C]>".toList) =
      ⟨[⟨.function, 0⟩, ⟨.openParen, 8⟩, ⟨.name "this", 9⟩, ⟨.colon, 13⟩, ⟨.openBracket, 14⟩,
        ⟨.name "A", 15⟩, ⟨.closeBracket, 16⟩, ⟨.comma, 17⟩, ⟨.ellipsis, 18⟩, ⟨.openBracket, 21⟩,
        ⟨.name "B", 22⟩, ⟨.closeBracket, 23⟩, ⟨.closeParen, 24⟩, ⟨.colon, 25⟩,
        ⟨.name "goog.iter.Iterable", 26⟩, ⟨.dotLess, 44⟩, ⟨.openBracket, 46⟩, ⟨.name "C", 47⟩,
        ⟨.closeBracket, 48⟩, ⟨.greater, 49⟩], .endOfText⟩ := by
    decide
  have hroot : Phrase.root [⟨.function, 0⟩, ⟨.openParen, 8⟩, ⟨.name "this", 9⟩, ⟨.colon, 13⟩,
      ⟨.openBracket, 14⟩, ⟨.name "A", 15⟩, ⟨.closeBracket, 16⟩, ⟨.comma, 17⟩, ⟨.ellipsis, 18⟩,
      ⟨.openBracket, 21⟩, ⟨.name "B", 22⟩, ⟨.closeBracket, 23⟩, ⟨.closeParen, 24⟩, ⟨.colon, 25⟩,
      ⟨.name "goog.iter.Iterable", 26⟩, ⟨.dotLess, 44⟩, ⟨.openBracket, 46⟩, ⟨.name "C", 47⟩,
      ⟨.closeBracket, 48⟩, ⟨.greater, 49⟩] =
      .ok (.functionTo [.labelled "this" 9 (.tuple [.name "A"]), .variadic (.tuple [.name "B"])]
        (.application "goog.iter.Iterable" true [.tuple [.name "C"]]), []) := by
    cbv
  have hscan' : Scan.ofText (Text.trim "?Object.<A,B,C>".toList) =
      ⟨[⟨.question, 0⟩, ⟨.name "Object", 1⟩, ⟨.dotLess, 7⟩, ⟨.name "A", 9⟩, ⟨.comma, 10⟩,
        ⟨.name "B", 11⟩, ⟨.comma, 12⟩, ⟨.name "C", 13⟩, ⟨.greater, 14⟩], .endOfText⟩ := by
    decide
  have hroot' : Phrase.root [⟨.question, 0⟩, ⟨.name "Object", 1⟩, ⟨.dotLess, 7⟩, ⟨.name "A", 9⟩,
      ⟨.comma, 10⟩, ⟨.name "B", 11⟩, ⟨.comma, 12⟩, ⟨.name "C", 13⟩, ⟨.greater, 14⟩] =
      .ok (.lead .question (.application "Object" true [.name "A", .name "B", .name "C"]), []) := by
    cbv
  have hparse : parse "function(this:[A],...[B]):goog.iter.Iterable.<[C]>" =
      .ok (.function [.variadic (.tuple [.name "B"])]
        (.application (.name "goog.iter.Iterable") [.tuple [.name "C"]])
        (.tuple [.name "A"]) .absent) :=
    parse_eq_ok_iff.mpr ⟨_, _, scan_eq_iff.mp hscan, root_eq_ok_iff.mp hroot, rfl⟩
  have hparse' :=
    parse_eq_ok_iff.mpr ⟨_, _, scan_eq_iff.mp hscan', root_eq_ok_iff.mp hroot', rfl⟩
  refine ⟨⟨hparse, (declared_refused_iff hparse).2.2 ?_⟩, hparse',
    (declared_refused_iff hparse').1.mpr ⟨_, .inside List.mem_cons_self .self, rfl, by decide⟩⟩
  have hresult : ¬ (TypeExpr.application (.name "goog.iter.Iterable")
      [.tuple [.name "C"]]).ShowsUndeclarable := by
    rw [showsUndeclarable_iff]
    simp [Undeclarable, shown, Name.isUnparameterized, Name.objectType]
  have hparam : ¬ (TypeExpr.variadic (.tuple [.name "B"])).ShowsUndeclarable := by
    rw [showsUndeclarable_iff]
    simp [Undeclarable, shown]
  rw [showsUndeclarable_iff]
  simp [Undeclarable, shown, hresult, hparam]

end TypeExpr

end Ambient

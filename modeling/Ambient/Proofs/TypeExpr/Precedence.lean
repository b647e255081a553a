import Ambient.Proofs.TypeExpr.Outside
import Ambient.Proofs.TypeExpr.TypeTree
import Mathlib

/-!
# Precedence is kept

The text of a type is read as the tree that it was written for: parentheses stand wherever the
precedence of brackets, bars and arrows asks for them. The one exception is a function type behind
an ellipsis, whose result takes in the brackets.

* `tree`: the tree that a type is written for;
* `TypeTree.IsMembers`: atoms that are read as the members of a union;
* **`readBack_of_fits`**: the atoms of a type are read as its tree;
* **`declared_reads_back`**: no arrow is left bare in the member of a union, neither arrow nor bar
  behind an ellipsis unless there is a function type, and without such a type the text is read as
  the tree;
* **`function_behind_ellipsis_misread`**: texts with such a type, and with a key that is no word.
-/

namespace Ambient

open TypeExpr (Atom)

/-! ## Unions -/

theorem TypeExpr.Atom.joined_append {c : Char} {lists later : List (List Atom)} (h : lists ≠ [])
    (hlater : later ≠ []) :
    joined c (lists ++ later) = joined c lists ++ .sign c :: joined c later := by
  induction lists with
  | nil => exact absurd rfl h
  | cons first lists ih =>
    cases lists with
    | nil =>
      obtain ⟨next, later, rfl⟩ := List.exists_cons_of_ne_nil hlater
      rw [joined, joined, List.singleton_append, List.intercalate_cons_cons,
        List.intercalate_singleton, List.append_assoc]
      rfl
    | cons second lists =>
      have hrec := ih (List.cons_ne_nil _ _)
      simp only [joined, List.cons_append, List.intercalate_cons_cons, List.append_assoc]
        at hrec ⊢
      rw [hrec]

namespace TypeTree

/-- The members of a union; any other type is its own only member. -/
def parts : TypeTree → List TypeTree
  | .union members => members
  | x => [x]

theorem parts_ofMembers {xs : List TypeTree} (h : ∀ x ∈ xs, x.parts = [x]) :
    (ofMembers xs).parts = xs := by
  match xs with
  | [] => rfl
  | [x] => exact h x List.mem_cons_self
  | _ :: _ :: _ => rfl

/-- A member of a union that is none itself. -/
def IsPiece (as : List Atom) (x : TypeTree) : Prop := IsMember as x ∧ x.parts = [x]

/-- Atoms that are read as the members of a union, or as a single one. -/
def IsMembers (as : List Atom) (x : TypeTree) : Prop :=
  ofMembers x.parts = x ∧ ∃ lists, lists ≠ [] ∧ as = Atom.joined '|' lists ∧
    List.Forall₂ IsPiece lists x.parts

variable {as : List Atom} {x : TypeTree} {lists : List (List Atom)} {xs : List TypeTree}

theorem IsPiece.members (h : IsPiece as x) : IsMembers as x := by
  rw [IsMembers, h.2]
  refine ⟨rfl, [as], List.cons_ne_nil _ _, ?_, .cons h .nil⟩
  rw [Atom.joined, List.intercalate_singleton]

theorem IsMembers.isType (h : IsMembers as x) : IsType as x := by
  obtain ⟨hx, lists, hne, rfl, hlists⟩ := h
  have hall := isType_union (hlists.imp fun _ _ h => h.1) hne
  rwa [hx] at hall

theorem exists_pieces (h : List.Forall₂ IsMembers lists xs) (hne : lists ≠ []) :
    ∃ pieces, pieces ≠ [] ∧ Atom.joined '|' lists = Atom.joined '|' pieces ∧
      List.Forall₂ IsPiece pieces (xs.flatMap parts) := by
  induction h with
  | nil => exact absurd rfl hne
  | @cons as x lists xs hfirst hlater ih =>
    obtain ⟨-, pieces, hpieces, rfl, hall⟩ := hfirst
    cases hlater with
    | nil =>
      refine ⟨pieces, hpieces, ?_, ?_⟩
      · rw [Atom.joined, List.intercalate_singleton]
      · rwa [List.flatMap_singleton]
    | cons hnext hlater =>
      obtain ⟨others, hothers, hjoined, hrest⟩ := ih (List.cons_ne_nil _ _)
      refine ⟨pieces ++ others, List.append_ne_nil_of_left_ne_nil hpieces _, ?_, ?_⟩
      · rw [Atom.joined_append hpieces hothers, ← hjoined, Atom.joined, List.intercalate_cons_cons,
          List.append_assoc]
        rfl
      · rw [List.flatMap_cons]
        exact List.rel_append hall hrest

theorem parts_of_pieces (h : List.Forall₂ IsPiece lists xs) : ∀ x ∈ xs, x.parts = [x] := by
  induction h with
  | nil => exact List.forall_mem_nil _
  | cons hfirst _ ih => exact List.forall_mem_cons.mpr ⟨hfirst.2, ih⟩

/-- **The members of a union** that are unions have their members among its own. -/
theorem isMembers_union (h : List.Forall₂ IsMembers lists xs) (hne : lists ≠ []) :
    IsMembers (Atom.joined '|' lists) (ofMembers (xs.flatMap parts)) := by
  obtain ⟨pieces, hpieces, hjoined, hall⟩ := exists_pieces h hne
  rw [IsMembers, parts_ofMembers (parts_of_pieces hall)]
  exact ⟨rfl, pieces, hpieces, hjoined, hall⟩

end TypeTree

/-! ## The tree of a type -/

namespace TypeExpr

open TypeTree Atom

/-- The tree of a name by itself: a container is given its arguments. -/
def nameTree (n : String) : TypeTree :=
  if Name.arity n = 0 then .name (Name.renameType n)
  else .generic (Name.renameType n) (List.replicate (Name.arity n) (.name "any"))

/-- The index signature that `Object` with these arguments stands for, from their trees. -/
def indexTree : List TypeExpr → List TypeTree → TypeTree
  | [_], [value] => .index "string" value
  | [key, _], [_, value] => .index (indexKey key) value
  | _, _ => .union []

/-- The tree of the result of a function type, given the one it has if it is there. -/
def resultTree (result : TypeExpr) (x : TypeTree) : TypeTree :=
  match result with
  | .absent => .name "void"
  | _ => x

mutual

/-- The tree that a type is written for, in which unions have no unions for members. A type that
cannot be declared stands for the union of no types. -/
def tree : TypeExpr → TypeTree
  | .absent | .all | .unknown => .name "any"
  | .void | .null | .undefined => .name "void"
  | .name n => nameTree n
  | .optional t | .nullable _ t | .nonNullable _ t => tree t
  | .union members => .ofMembers ((trees members).flatMap TypeTree.parts)
  | .variadic (.tuple [item]) => .array (tree item)
  | .variadic t => .array (tree t)
  | .application (.name base) arguments =>
    if base = Name.objectType then indexTree arguments (trees arguments)
    else if Name.isUnparameterized base then .name (Name.renameType base)
    else .generic (Name.renameType base) (trees arguments ++
      List.replicate (Name.arity (Name.renameType base) - arguments.length) (.name "any"))
  | .function params result _ _ => .function (paramTrees 0 params) (resultTree result (tree result))
  | .record fields => .record (fieldTrees fields)
  | .tuple _ | .application _ _ | .field _ _ => .union []

/-- The trees of several types. -/
def trees : List TypeExpr → List TypeTree
  | [] => []
  | t :: ts => tree t :: trees ts

/-- The parameters of a function type, named by their positions. -/
def paramTrees (index : ℕ) : List TypeExpr → List (String × TypeTree)
  | [] => []
  | t :: ts => (parameterName ("arg" ++ toString index) t, tree t) :: paramTrees (index + 1) ts

/-- The members of a record. -/
def fieldTrees : List TypeExpr → List (String × TypeTree)
  | .field key t :: ts => (key, tree t) :: fieldTrees ts
  | _ => []

end

theorem resultTree_of_ne {result : TypeExpr} (h : result ≠ .absent) (x : TypeTree) :
    resultTree result x = x := by
  cases result with
  | absent => exact absurd rfl h
  | _ => rfl

theorem tree_variadic (t : TypeExpr) : tree (.variadic t) = .array (tree t.operand) := by
  rcases operand_cases t with ⟨item, rfl⟩ | ht
  · rw [tree, operand]
  · rw [ht, tree]
    exact ne_tuple_of_operand ht

/-! ## Every type -/

/-- No array literal shows in a type, no `Object` with a wrong number of arguments, and no function
type behind an ellipsis. -/
def Regular (t : TypeExpr) : Prop :=
  t.EachShown fun u => ¬ u.Undeclarable ∧ ∀ v, u = .variadic v → v.operand.isFunction = false

/-- Wherever a type stands, its atoms are read as its tree. -/
structure ReadBack (t : TypeExpr) : Prop where
  alone : IsType (atomsAt false false t) t.tree
  members : t.isVariadic = false → IsMembers (atomsAt true false t) t.tree
  element : t.isVariadic = false → t.isFunction = false → IsOperand (atomsAt false true t) t.tree

theorem ReadBack.of_operand {t : TypeExpr} (hparts : t.tree.parts = [t.tree])
    (h : ∀ inUnion inVariadic, IsOperand (atomsAt inUnion inVariadic t) t.tree) : ReadBack t := by
  constructor
  case alone => exact (IsPiece.members ⟨(h false false).member, hparts⟩).isType
  case members => exact fun _ => IsPiece.members ⟨(h true false).member, hparts⟩
  case element => exact fun _ _ => h false true

theorem ReadBack.wrap {t u : TypeExpr}
    (hatoms : ∀ inUnion inVariadic, atomsAt inUnion inVariadic u = atomsAt inUnion inVariadic t)
    (htree : u.tree = t.tree) (hvariadic : t.isVariadic = false)
    (hfunction : u.isFunction = t.isFunction) (h : ReadBack t) : ReadBack u := by
  constructor
  case alone =>
    rw [hatoms, htree]
    exact h.alone
  case members =>
    intro _
    rw [hatoms, htree]
    exact h.members hvariadic
  case element =>
    intro _ hu
    rw [hatoms, htree]
    exact h.element hvariadic (hfunction ▸ hu)

theorem forall₂_each {R : List Atom → TypeTree → Prop} {inUnion : Bool} {ts : List TypeExpr}
    (h : ∀ t ∈ ts, R (atomsAt inUnion false t) t.tree) :
    List.Forall₂ R (atomsOfEach inUnion ts) (trees ts) := by
  induction ts with
  | nil => exact .nil
  | cons t ts ih =>
    rw [List.forall_mem_cons] at h
    rw [atomsOfEach, trees]
    exact .cons h.1 (ih h.2)

theorem forall₂_params {ts : List TypeExpr} (h : ∀ t ∈ ts, ReadBack t) : ∀ index,
    List.Forall₂ IsPair (atomsOfParams index ts) (paramTrees index ts) := by
  induction ts with
  | nil => exact fun _ => .nil
  | cons t ts ih =>
    intro index
    rw [List.forall_mem_cons] at h
    rw [atomsOfParams, paramTrees]
    exact .cons ⟨_, rfl, h.1.alone⟩ (ih h.2 (index + 1))

theorem forall₂_fields {ts : List TypeExpr}
    (h : ∀ t ∈ ts, ∃ key value, t = .field key value ∧ ReadBack value) :
    List.Forall₂ IsPair (atomsOfFields ts) (fieldTrees ts) := by
  induction ts with
  | nil => exact .nil
  | cons t ts ih =>
    rw [List.forall_mem_cons] at h
    obtain ⟨⟨key, value, rfl, hvalue⟩, hts⟩ := h
    rw [atomsOfFields, fieldTrees]
    exact .cons ⟨_, rfl, hvalue.alone⟩ (ih hts)

theorem isType_any : IsType [ofWord "any"] (.name "any") :=
  (IsPiece.members ⟨(isOperand_name "any").member, rfl⟩).isType

theorem isOperand_named (n : String) : IsOperand (named n) (nameTree n) := by
  rw [named, nameTree]
  split
  · exact isOperand_name _
  · exact isOperand_applied _ (forall₂_replicate isType_any _)

theorem parts_nameTree (n : String) : (nameTree n).parts = [nameTree n] := by
  rw [nameTree]
  split <;> rfl

theorem readBack_union {members : List TypeExpr} (hne : members ≠ [])
    (hvariadic : ∀ t ∈ members, t.isVariadic = false) (h : ∀ t ∈ members, ReadBack t) :
    ReadBack (.union members) := by
  have hlists : atomsOfEach true members ≠ [] := by
    obtain ⟨t, later, rfl⟩ := List.exists_cons_of_ne_nil hne
    rw [atomsOfEach]
    exact List.cons_ne_nil _ _
  have hall : IsMembers (joined '|' (atomsOfEach true members)) (tree (.union members)) := by
    rw [tree]
    exact isMembers_union (forall₂_each fun t ht => (h t ht).members (hvariadic t ht)) hlists
  constructor
  case alone =>
    rw [atomsAt]
    exact hall.isType
  case members =>
    intro _
    rw [atomsAt]
    exact hall
  case element =>
    intro _ _
    rw [atomsAt]
    exact hall.isType.parens

/-- `Object` with its arguments is read as an index signature. -/
theorem exists_indexTree {arguments : List TypeExpr}
    (hlength : arguments.length = 1 ∨ arguments.length = 2) (h : ∀ t ∈ arguments, ReadBack t) :
    ∃ key value, indexTree arguments (trees arguments) = .index key value ∧
      IsOperand (indexAtoms arguments (atomsOfEach false arguments)) (.index key value) := by
  rcases hlength with hone | htwo
  · obtain ⟨value, rfl⟩ := List.length_eq_one_iff.mp hone
    rw [trees, trees, atomsOfEach, atomsOfEach]
    exact ⟨_, _, rfl, isOperand_indexed "string" (h value List.mem_cons_self).alone⟩
  · obtain ⟨key, value, rfl⟩ := List.length_eq_two.mp htwo
    have hvalue := (h value (List.mem_cons_of_mem _ List.mem_cons_self)).alone
    rw [trees, trees, trees, atomsOfEach, atomsOfEach, atomsOfEach]
    exact ⟨_, _, rfl, isOperand_indexed (indexKey key) hvalue⟩

theorem readBack_application {base : String} {arguments : List TypeExpr}
    (hdeclared : ¬ (TypeExpr.application (.name base) arguments).Undeclarable)
    (h : Name.isUnparameterized base = false → ∀ t ∈ arguments, ReadBack t) :
    ReadBack (.application (.name base) arguments) := by
  by_cases hobject : base = Name.objectType
  · have hlength : arguments.length = 1 ∨ arguments.length = 2 := by
      by_contra hlength
      exact hdeclared ⟨hobject, not_or.mp hlength⟩
    obtain ⟨key, value, htree, hread⟩ := exists_indexTree hlength (h (hobject ▸ rfl))
    have htree' : tree (.application (.name base) arguments) = .index key value := by
      rw [tree, if_pos hobject, htree]
    rw [← htree'] at hread
    refine .of_operand (htree' ▸ rfl) fun inUnion inVariadic => ?_
    rwa [atomsAt, if_pos hobject]
  · refine .of_operand ?_ fun inUnion inVariadic => ?_
    · rw [tree, if_neg hobject]
      split_ifs <;> rfl
    · rw [atomsAt, tree, if_neg hobject, if_neg hobject]
      split_ifs with hparameterized
      · exact isOperand_name _
      · have hall := forall₂_each fun t ht => (h (Bool.eq_false_iff.mpr hparameterized) t ht).alone
        exact isOperand_applied _ (List.rel_append hall (forall₂_replicate isType_any _))

theorem readBack_function {params : List TypeExpr} {result thisType newType : TypeExpr}
    (hparams : ∀ t ∈ params, ReadBack t) (hresult : ReadBack result) :
    ReadBack (.function params result thisType newType) := by
  have hresult' : IsType (resultAtoms result (atomsAt false false result))
      (resultTree result result.tree) := by
    by_cases habsent : result = .absent
    · rw [habsent]
      exact (IsPiece.members ⟨(isOperand_name "void").member, rfl⟩).isType
    · rw [resultAtoms_of_ne habsent, resultTree_of_ne habsent]
      exact hresult.alone
  have hall := isType_function (forall₂_params hparams 0) hresult'
  constructor
  case alone =>
    rw [atomsAt, tree]
    exact hall
  case members =>
    intro _
    rw [atomsAt, tree]
    exact IsPiece.members ⟨hall.parens.member, rfl⟩
  case element => exact fun _ h => absurd h.symm Bool.false_ne_true

/-- **The atoms of a type are read as its tree.** -/
theorem readBack_of_fits {site : Site} {t : TypeExpr} (h : Fits site t) :
    AtSite (fun t => t.Regular → t.ReadBack) site t := by
  refine fits_induction ?absent ?name ?all ?unknown ?void ?null ?undefined ?optional ?nullable
    ?nonNullable ?union ?tuple ?application ?function ?record ?variadic h
  case absent | all | unknown | void | null | undefined =>
    intro _
    refine .of_operand (by rw [tree]; rfl) fun _ _ => ?_
    rw [atomsAt, tree]
    exact isOperand_name _
  case name =>
    intro n _ _
    refine .of_operand (by rw [tree]; exact parts_nameTree n) fun _ _ => ?_
    rw [atomsAt, tree]
    exact isOperand_named n
  case optional =>
    intro t ht ih hregular
    exact (ih (hregular.inside List.mem_cons_self)).wrap (fun _ _ => by rw [atomsAt]) (by rw [tree])
      ht.isVariadic rfl
  case nullable | nonNullable =>
    intro _ t ht ih hregular
    exact (ih (hregular.inside List.mem_cons_self)).wrap (fun _ _ => by rw [atomsAt]) (by rw [tree])
      ht.isVariadic rfl
  case union =>
    intro members hne hfits ih hregular
    exact readBack_union hne (fun t ht => (hfits t ht).isVariadic)
      fun t ht => ih t ht (hregular.inside ht)
  case tuple =>
    intro items hregular
    exact absurd trivial (hregular _ .self).1
  case application =>
    intro base arguments _ _ ih hregular
    refine readBack_application (hregular _ .self).1 fun hparameterized t ht => ?_
    refine ih t ht (hregular.inside ?_)
    rw [shown, if_neg (by simp [hparameterized])]
    exact ht
  case function =>
    intro params result thisType newType ihparams ihresult hregular
    refine readBack_function (fun t ht => ihparams t ht (hregular.inside ?_))
      (ihresult (hregular.inside ?_))
    · exact List.mem_append_left _ ht
    · exact List.mem_append_right _ List.mem_cons_self
  case record =>
    intro fields ih hregular
    have hfields : ∀ t ∈ fields, ∃ key value, t = .field key value ∧ ReadBack value := by
      intro t ht
      obtain ⟨key, value, rfl, hvalue⟩ := ih t ht
      exact ⟨key, value, rfl, hvalue ((hregular.inside ht).inside List.mem_cons_self)⟩
    refine .of_operand (by rw [tree]; rfl) fun _ _ => ?_
    rw [atomsAt, tree]
    exact isOperand_record (forall₂_fields hfields)
  case variadic =>
    intro t ht ih hregular
    have hshown : t.operand ∈ (TypeExpr.variadic t).shown := by
      rw [shown_variadic]
      exact List.mem_cons_self
    have hoperand : t.operand.isVariadic = false := by
      rcases operand_eq_absent_or_fits ht with habsent | hfits
      · rw [habsent]
        rfl
      · exact hfits.isVariadic
    have helement : IsOperand (atomsAt false true t.operand) t.operand.tree :=
      (ih (hregular.inside hshown)).element hoperand ((hregular _ .self).2 t rfl)
    have hmembers : ∀ inUnion inVariadic,
        IsMembers (atomsAt inUnion inVariadic (.variadic t)) (tree (.variadic t)) := by
      intro inUnion inVariadic
      rw [atomsAt_variadic, tree_variadic]
      exact IsPiece.members ⟨helement.array, rfl⟩
    constructor
    case alone => exact (hmembers false false).isType
    case members | element => exact fun h => absurd h.symm Bool.false_ne_true

/-- A text whose atoms are read as a type is read as that type. -/
theorem read_of_isType {s : String} {as : List Atom} {x : TypeTree} (hatoms : HasAtoms s as)
    (h : IsType as x) : TypeTree.read s = some x := by
  have hends : Ends [] := rfl
  have hinside := h.inside (Nat.lt_succ_self _) hends
  rw [List.append_nil] at hinside
  simp only [TypeTree.read, hatoms.2.scan_eq, hinside]

/-- **Precedence is kept.** No member of a union has an arrow outside its brackets. What an ellipsis
repeats has neither arrow nor bar there, unless it is a function type; without such a one, the text
is read as the tree of the type. -/
theorem declared_reads_back {text : String} {n : TypeExpr} {s : String}
    (hparse : parse text = .ok n) (hdeclared : n.declared = .ok s) (hkeys : n.PlainKeys) :
    (∀ members, ShownIn (.union members) n →
      ∃ texts, eachAt .unionMember members = .ok texts ∧ ∀ text ∈ texts, Atom.arrow ∉ bare text) ∧
    (∀ t, ShownIn (.variadic t) n →
      ∃ text, declaredAt .element t.operand = .ok text ∧
        (t.operand.isFunction = false ↔ Atom.arrow ∉ bare text ∧ Atom.sign '|' ∉ bare text)) ∧
    ((∀ t, ShownIn (.variadic t) n → t.operand.isFunction = false) →
      TypeTree.read s = some n.tree) := by
  have hfits := fits_of_parse hparse
  have hshown : ¬ n.ShowsUndeclarable := by
    intro h
    have hsettled : Settled n := settled_of_fits hfits
    obtain ⟨e, he⟩ := (hsettled .alone).1.mpr h
    cases hdeclared.symm.trans he
  refine ⟨fun members => bare_member hfits hshown hkeys,
    fun t => bare_operand hfits hshown hkeys, ?_⟩
  intro hfunction
  have hregular : n.Regular := by
    refine fun u hu => ⟨fun hundeclarable => hshown ⟨u, hu, hundeclarable⟩, ?_⟩
    rintro v rfl
    exact hfunction v hu
  have hatoms : HasAtoms s (atomsAt false false n) :=
    laidOut_of_fits hfits hkeys false false s hdeclared
  have hread : ReadBack n := readBack_of_fits hfits hregular
  exact read_of_isType hatoms hread.alone

theorem declared_reads_back_callback :
    ∃ n, parse "function(...(A|function():B)):\x7bc:?C\x7d" = .ok n ∧
      n.declared = .ok "(...arg0: (A|(() => B))[]) => \x7bc: C\x7d" ∧ n.PlainKeys ∧
      (∀ t, ShownIn (.variadic t) n → t.operand.isFunction = false) ∧
      TypeTree.read "(...arg0: (A|(() => B))[]) => \x7bc: C\x7d" = some (.function
        [("...arg0", .array (.union [.name "A", .function [] (.name "B")]))]
        (.record [("c", .name "C")])) := by
  have hscan : Scan.ofText (Text.trim "function(...(A|function():B)):\x7bc:?C\x7d".toList) =
      ⟨[⟨.function, 0⟩, ⟨.openParen, 8⟩, ⟨.ellipsis, 9⟩, ⟨.openParen, 12⟩, ⟨.name "A", 13⟩,
        ⟨.bar, 14⟩, ⟨.function, 15⟩, ⟨.openParen, 23⟩, ⟨.closeParen, 24⟩, ⟨.colon, 25⟩,
        ⟨.name "B", 26⟩, ⟨.closeParen, 27⟩, ⟨.closeParen, 28⟩, ⟨.colon, 29⟩, ⟨.openBrace, 30⟩,
        ⟨.name "c", 31⟩, ⟨.colon, 32⟩, ⟨.question, 33⟩, ⟨.name "C", 34⟩, ⟨.closeBrace, 35⟩],
        .endOfText⟩ := by
    decide
  have hroot : Phrase.root [⟨.function, 0⟩, ⟨.openParen, 8⟩, ⟨.ellipsis, 9⟩, ⟨.openParen, 12⟩,
      ⟨.name "A", 13⟩, ⟨.bar, 14⟩, ⟨.function, 15⟩, ⟨.openParen, 23⟩, ⟨.closeParen, 24⟩,
      ⟨.colon, 25⟩, ⟨.name "B", 26⟩, ⟨.closeParen, 27⟩, ⟨.closeParen, 28⟩, ⟨.colon, 29⟩,
      ⟨.openBrace, 30⟩, ⟨.name "c", 31⟩, ⟨.colon, 32⟩, ⟨.question, 33⟩, ⟨.name "C", 34⟩,
      ⟨.closeBrace, 35⟩] =
      .ok (.functionTo [.variadic (.group [.name "A", .functionTo [] (.name "B")])]
        (.record [.field ⟨.name "c", 31⟩ (.lead .question (.name "C"))]), []) := by
    cbv
  obtain ⟨n, hn⟩ : ∃ n : TypeExpr, n = .function
      [.variadic (.union [.name "A", .function [] (.name "B") .absent .absent])]
      (.record [.field "c" (.nullable .before (.name "C"))]) .absent .absent := ⟨_, rfl⟩
  have hparse : parse "function(...(A|function():B)):\x7bc:?C\x7d" = .ok n := by
    rw [hn]
    exact parse_eq_ok_iff.mpr ⟨_, _, scan_eq_iff.mp hscan, root_eq_ok_iff.mp hroot, by cbv⟩
  have hdeclared : n.declared = .ok "(...arg0: (A|(() => B))[]) => \x7bc: C\x7d" := by
    rw [hn]
    cbv
  have hshown : n.EachShown fun u => (∀ key value, u = .field key value → IsWord key.toList) ∧
      ∀ t, u = .variadic t → t.operand.isFunction = false := by
    have hword : IsWord ['c'] := by decide
    simp [hn, eachShown_iff (t := .function _ _ _ _), eachShown_iff (t := .variadic _),
      eachShown_iff (t := .union _), eachShown_iff (t := .name _), eachShown_iff (t := .record _),
      eachShown_iff (t := .field _ _), eachShown_iff (t := .nullable _ _), shown, operand,
      isFunction, hword]
  have hkeys : n.PlainKeys := fun u hu => (hshown u hu).1
  have hfunction : ∀ t, ShownIn (.variadic t) n → t.operand.isFunction = false :=
    fun t ht => (hshown _ ht).2 t rfl
  refine ⟨n, hparse, hdeclared, hkeys, hfunction, ?_⟩
  rw [(declared_reads_back hparse hdeclared hkeys).2.2 hfunction, hn]
  cbv

theorem function_behind_ellipsis_misread :
    (∃ n, parse "...function(): string" = .ok n ∧ n.declared = .ok "() => string[]" ∧
      TypeTree.read "() => string[]" ≠ some n.tree) ∧
    ∃ n, parse "\x7b'a: A; b': B\x7d" = .ok n ∧ n.declared = .ok "\x7ba: A; b: B\x7d" ∧
      TypeTree.read "\x7ba: A; b: B\x7d" ≠ some n.tree := by
  have hscan : Scan.ofText (Text.trim "...function(): string".toList) =
      ⟨[⟨.ellipsis, 0⟩, ⟨.function, 3⟩, ⟨.openParen, 11⟩, ⟨.closeParen, 12⟩, ⟨.colon, 13⟩,
        ⟨.name "string", 15⟩], .endOfText⟩ := by
    decide
  have hroot : Phrase.root [⟨.ellipsis, 0⟩, ⟨.function, 3⟩, ⟨.openParen, 11⟩, ⟨.closeParen, 12⟩,
      ⟨.colon, 13⟩, ⟨.name "string", 15⟩] =
      .ok (.variadic (.functionTo [] (.name "string")), []) := by
    cbv
  have hscan' : Scan.ofText (Text.trim "\x7b'a: A; b': B\x7d".toList) =
      ⟨[⟨.openBrace, 0⟩, ⟨.quoted '\'' "a: A; b", 1⟩, ⟨.colon, 10⟩, ⟨.name "B", 12⟩,
        ⟨.closeBrace, 13⟩], .endOfText⟩ := by
    decide
  have hroot' : Phrase.root [⟨.openBrace, 0⟩, ⟨.quoted '\'' "a: A; b", 1⟩, ⟨.colon, 10⟩,
      ⟨.name "B", 12⟩, ⟨.closeBrace, 13⟩] =
      .ok (.record [.field ⟨.quoted '\'' "a: A; b", 1⟩ (.name "B")], []) := by
    cbv
  have hparse : parse "...function(): string" =
      .ok (.variadic (.function [] (.name "string") .absent .absent)) :=
    parse_eq_ok_iff.mpr ⟨_, _, scan_eq_iff.mp hscan, root_eq_ok_iff.mp hroot, by cbv⟩
  have hparse' : parse "\x7b'a: A; b': B\x7d" = .ok (.record [.field "a: A; b" (.name "B")]) :=
    parse_eq_ok_iff.mpr ⟨_, _, scan_eq_iff.mp hscan', root_eq_ok_iff.mp hroot', by cbv⟩
  refine ⟨⟨_, hparse, by cbv, ?_⟩, _, hparse', by cbv, ?_⟩
  · have hread : TypeTree.read "() => string[]" =
        some (.function [] (.array (.name "string"))) := by
      cbv
    have htree : tree (.variadic (.function [] (.name "string") .absent .absent)) =
        .array (.function [] (.name "string")) := by
      cbv
    rw [hread, htree]
    simp
  · have hread : TypeTree.read "\x7ba: A; b: B\x7d" =
        some (.record [("a", .name "A"), ("b", .name "B")]) := by
      cbv
    have htree : tree (.record [.field "a: A; b" (.name "B")]) =
        .record [("a: A; b", .name "B")] := by
      cbv
    rw [hread, htree]
    simp

end TypeExpr

end Ambient

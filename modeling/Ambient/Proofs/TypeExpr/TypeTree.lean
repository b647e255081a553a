import Ambient.Proofs.TypeExpr.Layout

/-!
# Declared types as they are read

A reader of the text of a declared type. Brackets behind an operand bind tightest, then bars, and
the arrow of a function type takes in all that follows it.

* `TypeTree`;
* `TypeTree.typeWithin`, `TypeTree.read`: the reader;
* `ReadBy`: atoms that are read as a tree whatever follows them;
* `IsOperand`, `IsType`: atoms that are read as an operand, and as a type;
* `isType_union`, `isType_function`: operands joined by bars, and function types, are types.
-/

namespace Ambient

open TypeExpr (Atom)

/-- A type of the declaration language. -/
inductive TypeTree
  | name (name : String)
  | generic (name : String) (arguments : List TypeTree)
  | array (element : TypeTree)
  | union (members : List TypeTree)
  | function (params : List (String × TypeTree)) (result : TypeTree)
  | record (members : List (String × TypeTree))
  | index (key : String) (value : TypeTree)
  deriving Inhabited

namespace TypeTree

/-! ## The reader -/

/-- Reads a part from the front of some atoms. -/
abbrev Reader (α : Type) := List Atom → Option (α × List Atom)

/-- The atoms after a given one. -/
def expect (a : Atom) : List Atom → Option (List Atom)
  | b :: rest => if b = a then some rest else none
  | [] => none

/-- One or more parts with a separator between each two; the fuel is the number of separators that
can follow. -/
def separated {α : Type} (sep : Atom) (part : Reader α) : ℕ → Reader (List α)
  | 0, as => do
    let (x, rest) ← part as
    some ([x], rest)
  | fuel + 1, as => do
    let (x, rest) ← part as
    match expect sep rest with
    | some after =>
      let (xs, rest) ← separated sep part fuel after
      some (x :: xs, rest)
    | none => some ([x], rest)

/-- Parts with separators up to a closing atom, possibly none. -/
def listed {α : Type} (sep close : Atom) (part : Reader α) : Reader (List α) := fun as =>
  match expect close as with
  | some rest => some ([], rest)
  | none => do
    let (xs, rest) ← separated sep part as.length as
    let rest ← expect close rest
    some (xs, rest)

/-- A type with the brackets behind it. -/
def arrays (x : TypeTree) : List Atom → TypeTree × List Atom
  | .sign '[' :: .sign ']' :: rest => arrays (.array x) rest
  | rest => (x, rest)

/-- The union of several types; of one, that type. -/
def ofMembers : List TypeTree → TypeTree
  | [x] => x
  | xs => .union xs

/-- Whether the parameters of a function type follow a parenthesis. -/
def startsParams : List Atom → Bool
  | .sign ')' :: _ => true
  | .word _ :: .sign ':' :: _ => true
  | _ => false

section

variable (inside : Reader TypeTree)

/-- A parameter, or a member of a record. -/
def pairOf : Reader (String × TypeTree)
  | .word letters :: .sign ':' :: rest => do
    let (x, rest) ← inside rest
    some ((String.ofList letters, x), rest)
  | _ => none

/-- A record or an index signature, after its brace. -/
def bracesOf : Reader TypeTree
  | .sign '[' :: .word _ :: .sign ':' :: .word key :: .sign ']' :: .sign ':' :: rest => do
    let (x, rest) ← inside rest
    let rest ← expect (.sign '\x7d') rest
    some (.index (String.ofList key) x, rest)
  | as => do
    let (members, rest) ← listed (.sign ';') (.sign '\x7d') (pairOf inside) as
    some (.record members, rest)

/-- A type without brackets behind it: a name, a type in parentheses, or one in braces. -/
def primaryOf : Reader TypeTree
  | .word letters :: rest =>
    match expect (.sign '<') rest with
    | some after => do
      let (arguments, rest) ← listed (.sign ',') (.sign '>') inside after
      some (.generic (String.ofList letters) arguments, rest)
    | none => some (.name (String.ofList letters), rest)
  | .sign '(' :: rest => do
    let (x, rest) ← inside rest
    let rest ← expect (.sign ')') rest
    some (x, rest)
  | .sign '\x7b' :: rest => bracesOf inside rest
  | _ => none

/-- A member of a union: brackets bind tighter than bars. -/
def operandOf : Reader TypeTree := fun as => do
  let (x, rest) ← primaryOf inside as
  some (arrays x rest)

/-- Operands with bars between them. -/
def unionOf : Reader TypeTree := fun as => do
  let (members, rest) ← separated (.sign '|') (operandOf inside) as.length as
  some (ofMembers members, rest)

/-- A function type, after its parenthesis: the result is all that follows the arrow. -/
def functionOf : Reader TypeTree := fun as => do
  let (params, rest) ← listed (.sign ',') (.sign ')') (pairOf inside) as
  let rest ← expect .arrow rest
  let (result, rest) ← inside rest
  some (.function params result, rest)

/-- A type. -/
def typeOf : Reader TypeTree
  | .sign '(' :: rest =>
    if startsParams rest then functionOf inside rest else unionOf inside (.sign '(' :: rest)
  | as => unionOf inside as

end

/-- The reader of types nested at most `depth` deep. -/
def typeWithin : ℕ → Reader TypeTree
  | 0 => fun _ => none
  | depth + 1 => typeOf (typeWithin depth)

/-- The type of a text. Every type inside another one follows an atom, so no text nests deeper than
it has atoms. -/
def read (s : String) : Option TypeTree :=
  let as := Atom.scan s.toList
  match typeWithin (as.length + 1) as with
  | some (x, []) => some x
  | _ => none

/-! ## Atoms that are read -/

/-- Atoms that a reader reads as one part, within their length and whatever may follow them. -/
def ReadBy {α : Type} (reader : Reader TypeTree → Reader α) (After : List Atom → Prop)
    (as : List Atom) (x : α) : Prop :=
  ∀ depth rest, as.length ≤ depth → After rest →
    reader (typeWithin depth) (as ++ rest) = some (x, rest)

theorem expect_self (a : Atom) (rest : List Atom) : expect a (a :: rest) = some rest := if_pos rfl

theorem expect_of_ne {a b : Atom} (h : b ≠ a) (rest : List Atom) : expect a (b :: rest) = none :=
  if_neg h

section

variable {α : Type} {sep close : Atom} {part : Reader α} {After : List Atom → Prop}
variable {lists : List (List Atom)} {xs : List α}

/-- The parts of a list are read one by one. -/
theorem separated_eq
    (h : List.Forall₂ (fun as x => ∀ rest, After rest → part (as ++ rest) = some (x, rest))
      lists xs) (hne : lists ≠ []) (hsep : ∀ rest, After (sep :: rest)) {rest : List Atom}
    (hrest : After rest) (hstop : expect sep rest = none) : ∀ fuel, lists.length ≤ fuel + 1 →
      separated sep part fuel ([sep].intercalate lists ++ rest) = some (xs, rest) := by
  induction h with
  | nil => exact absurd rfl hne
  | @cons as x lists xs hfirst hlater ih =>
    intro fuel hfuel
    cases hlater with
    | nil =>
      rw [List.intercalate_singleton]
      cases fuel with
      | zero => rw [separated, hfirst rest hrest]; rfl
      | succ fuel =>
        rw [separated, hfirst rest hrest]
        simp [hstop]
    | cons hnext hlater =>
      cases fuel with
      | zero => simp at hfuel
      | succ fuel =>
        rw [List.length_cons, Nat.add_le_add_iff_right] at hfuel
        have hrec := ih (List.cons_ne_nil _ _) fuel hfuel
        rw [List.intercalate_cons_cons, List.append_assoc, List.append_assoc,
          List.singleton_append, separated, hfirst _ (hsep _)]
        simp [expect_self, hrec]

theorem length_lists_le (sep : Atom) (lists : List (List Atom)) :
    lists.length ≤ ([sep].intercalate lists).length + 1 := by
  induction lists with
  | nil => exact Nat.zero_le _
  | cons first later ih =>
    cases later with
    | nil => exact Nat.le_add_left 1 _
    | cons next later =>
      rw [List.intercalate_cons_cons, List.length_append, List.length_append, List.length_cons]
      rw [List.length_singleton]
      omega

/-- The first of several parts, and the separator behind it if there are more. -/
theorem exists_joined_eq (sep : Atom) (first : List Atom) (later : List (List Atom)) :
    ∃ tail, [sep].intercalate (first :: later) = first ++ tail ∧ ∀ a ∈ tail.head?, a = sep := by
  cases later with
  | nil => exact ⟨[], by rw [List.intercalate_singleton, List.append_nil], nofun⟩
  | cons next later =>
    refine ⟨sep :: [sep].intercalate (next :: later), ?_, fun a ha => (Option.mem_some.mp ha).symm⟩
    rw [List.intercalate_cons_cons, List.append_assoc, List.singleton_append]

end

/-! ## Types and operands -/

/-- How the atoms of a type start: no parameter does so. -/
inductive Opens : List Atom → Prop
  | word {letters : List Char} {rest : List Atom} (h : rest.head? ≠ some (.sign ':')) :
      Opens (.word letters :: rest)
  | paren {rest : List Atom} : Opens (.sign '(' :: rest)
  | brace {rest : List Atom} : Opens (.sign '\x7b' :: rest)

/-- An atom that can follow a type inside another one. -/
def isEnd : Atom → Bool
  | .sign c => [',', ')', '>', ';', '\x7d'].contains c
  | _ => false

/-- Here a type is at its end. -/
def Ends (rest : List Atom) : Prop := rest.head?.all isEnd = true

/-- Here a member of a union is at its end. -/
def EndsMember (rest : List Atom) : Prop :=
  rest.head?.all (fun a => isEnd a || a == .sign '|') = true

/-- No type arguments follow. -/
def EndsName (rest : List Atom) : Prop := rest.head? ≠ some (.sign '<')

/-- Atoms that are read as a type, wherever one may end. -/
structure IsType (as : List Atom) (x : TypeTree) : Prop where
  opens : Opens as
  read : ReadBy typeOf Ends as x

/-- Atoms that a reader reads as part of a union. -/
structure IsPart (reader : Reader TypeTree → Reader TypeTree) (After : List Atom → Prop)
    (as : List Atom) (x : TypeTree) : Prop where
  opens : Opens as
  apart : ∀ inside rest, typeOf inside (as ++ rest) = unionOf inside (as ++ rest)
  read : ReadBy reader After as x

/-- Atoms that are read as a type that brackets can follow. -/
abbrev IsOperand : List Atom → TypeTree → Prop := IsPart primaryOf EndsName

/-- Atoms that are read as a member of a union. -/
abbrev IsMember : List Atom → TypeTree → Prop := IsPart operandOf EndsMember

/-- Atoms that are read as a parameter or as a member of a record. -/
def IsPair (as : List Atom) (p : String × TypeTree) : Prop :=
  ∃ bs, as = Atom.pair p.1 bs ∧ IsType bs p.2

variable {as : List Atom} {x : TypeTree} {lists : List (List Atom)} {xs : List TypeTree}
  {ps : List (String × TypeTree)}

theorem Ends.member {rest : List Atom} (h : Ends rest) : EndsMember rest := by
  cases rest with
  | nil => rfl
  | cons a rest =>
    have ha : isEnd a = true := h
    exact Bool.or_eq_true_iff.mpr (Or.inl ha)

theorem Ends.expect_bar {rest : List Atom} (h : Ends rest) : expect (.sign '|') rest = none := by
  cases rest with
  | nil => rfl
  | cons a rest =>
    refine expect_of_ne (fun ha => ?_) rest
    rw [ha] at h
    exact absurd h Bool.false_ne_true

theorem Opens.append (h : Opens as) {rest : List Atom} (hrest : rest.head? ≠ some (.sign ':')) :
    Opens (as ++ rest) := by
  cases h with
  | @word letters tail h =>
    refine .word ?_
    cases tail with
    | nil => exact hrest
    | cons a tail => exact h
  | paren => exact .paren
  | brace => exact .brace

theorem startsParams_of_opens (h : Opens as) : startsParams as = false := by
  cases h with
  | @word letters tail h =>
    rw [startsParams.eq_def]
    split
    · rename_i heq
      cases heq
    · rename_i heq
      cases heq
      exact absurd rfl h
    · rfl
  | paren | brace => rfl

theorem expect_of_opens (h : Opens as) {c : Char} (hc : c ≠ '(' ∧ c ≠ '\x7b') (rest : List Atom) :
    expect (.sign c) (as ++ rest) = none := by
  cases h with
  | @word letters =>
    have hne : Atom.word letters ≠ .sign c := nofun
    exact expect_of_ne hne _
  | paren => exact expect_of_ne (fun h => hc.1 (Atom.sign.inj h).symm) _
  | brace => exact expect_of_ne (fun h => hc.2 (Atom.sign.inj h).symm) _

theorem IsType.inside (h : IsType as x) {depth : ℕ} (hdepth : as.length < depth)
    {rest : List Atom} (hrest : Ends rest) : typeWithin depth (as ++ rest) = some (x, rest) := by
  cases depth with
  | zero => exact absurd hdepth (Nat.not_lt_zero _)
  | succ depth => exact h.read depth rest (Nat.le_of_lt_succ hdepth) hrest

theorem IsPair.read {p : String × TypeTree} (h : IsPair as p) : ReadBy pairOf Ends as p := by
  obtain ⟨bs, rfl, hbs⟩ := h
  intro depth rest hdepth hrest
  simp only [Atom.pair, List.length_cons] at hdepth
  rw [Atom.pair, Atom.ofWord, List.cons_append, List.cons_append, pairOf,
    hbs.inside (by omega) hrest]
  simp

theorem arrays_of_endsMember {rest : List Atom} (h : EndsMember rest) (x : TypeTree) :
    arrays x rest = (x, rest) := by
  rw [arrays.eq_def]
  split
  · exact absurd h Bool.false_ne_true
  · rfl

theorem endsName_of_endsMember {rest : List Atom} (h : EndsMember rest) : EndsName rest := by
  intro hopen
  rw [EndsMember, hopen] at h
  exact absurd h Bool.false_ne_true

/-! ### Operands -/

/-- An operand can stand in a union by itself. -/
theorem IsPair.expect {p : String × TypeTree} (h : IsPair as p) (c : Char) (rest : List Atom) :
    expect (.sign c) (as ++ rest) = none := by
  obtain ⟨bs, rfl, -⟩ := h
  have hne : Atom.ofWord p.1 ≠ .sign c := nofun
  exact expect_of_ne hne _

theorem IsOperand.member (h : IsOperand as x) : IsMember as x := by
  refine ⟨h.opens, h.apart, fun depth rest hdepth hrest => ?_⟩
  rw [operandOf, h.read depth rest hdepth (endsName_of_endsMember hrest)]
  simp [arrays_of_endsMember hrest]

/-- **Brackets bind tightest**: behind an operand they make an array of it. -/
theorem IsOperand.array (h : IsOperand as x) :
    IsMember (as ++ [.sign '[', .sign ']']) (.array x) := by
  constructor
  case opens => exact h.opens.append (by simp)
  case apart =>
    intro inside rest
    rw [List.append_assoc]
    exact h.apart inside _
  case read =>
    intro depth rest hdepth hrest
    have hname : EndsName ([.sign '[', .sign ']'] ++ rest) := by simp [EndsName]
    rw [List.length_append] at hdepth
    rw [List.append_assoc, operandOf, h.read depth _ (by omega) hname]
    simp [arrays, arrays_of_endsMember hrest]

theorem isOperand_name (n : String) : IsOperand [Atom.ofWord n] (.name n) := by
  refine ⟨.word (by simp), fun _ _ => rfl, fun depth rest _ hrest => ?_⟩
  have hnone : expect (.sign '<') rest = none := by
    cases rest with
    | nil => rfl
    | cons a rest => exact expect_of_ne (fun h => hrest (by rw [h]; rfl)) rest
  rw [Atom.ofWord, List.singleton_append, primaryOf, hnone]
  simp

section

variable {α : Type} {IsRead : List Atom → α → Prop} {part : Reader α} {ys : List α} {depth : ℕ}

/-- Parts that are read within their own lengths are read within any greater depth. -/
theorem forall₂_of_length_lt {After : List Atom → Prop} (h : List.Forall₂ IsRead lists ys)
    (hdepth : ∀ as ∈ lists, as.length < depth)
    (hread : ∀ as x, IsRead as x → as.length < depth → ∀ rest, After rest →
      part (as ++ rest) = some (x, rest)) :
    List.Forall₂ (fun as x => ∀ rest, After rest → part (as ++ rest) = some (x, rest))
      lists ys := by
  have hboth := (List.forall₂_and_left (p := fun as => as.length < depth) lists ys).mpr ⟨hdepth, h⟩
  exact hboth.imp fun as x h => hread as x h.2 h.1

theorem listed_eq {sep close : Char} (hsep : isEnd (.sign sep) = true)
    (hclose : isEnd (.sign close) = true) (hne : Atom.sign close ≠ .sign sep)
    (h : List.Forall₂ IsRead lists ys) (hdepth : (Atom.joined sep lists).length < depth)
    (hread : ∀ as x, IsRead as x → as.length < depth → ∀ rest, Ends rest →
      part (as ++ rest) = some (x, rest))
    (hopen : ∀ as x, IsRead as x → ∀ rest, expect (.sign close) (as ++ rest) = none)
    (rest : List Atom) :
    listed (.sign sep) (.sign close) part (Atom.joined sep lists ++ .sign close :: rest) =
      some (ys, rest) := by
  have hparts : ∀ as ∈ lists, as.length < depth := fun as has =>
    Nat.lt_of_le_of_lt (Text.infix_intercalate has).length_le hdepth
  have hall := forall₂_of_length_lt h hparts hread
  cases h with
  | nil => rw [Atom.joined, List.intercalate_nil, List.nil_append, listed, expect_self]
  | @cons first x later ys hfirst hlater =>
    have hnone : expect (.sign close) (Atom.joined sep (first :: later) ++ .sign close :: rest) =
        none := by
      obtain ⟨tail, htail, -⟩ := exists_joined_eq (.sign sep) first later
      rw [Atom.joined, htail, List.append_assoc]
      exact hopen first x hfirst _
    have hfuel : (first :: later).length ≤
        (Atom.joined sep (first :: later) ++ .sign close :: rest).length + 1 := by
      have hle : _ ≤ (Atom.joined sep (first :: later)).length + 1 := length_lists_le _ _
      rw [List.length_append]
      omega
    have hmore : ∀ rest, Ends (.sign sep :: rest) := fun _ => hsep
    have hover : Ends (.sign close :: rest) := hclose
    have hmany := separated_eq hall (List.cons_ne_nil _ _) hmore hover (expect_of_ne hne rest) _
      hfuel
    rw [listed, hnone]
    simp only [Atom.joined] at hmany ⊢
    simp only [hmany, Option.bind_eq_bind, Option.bind_some, expect_self]

end

/-- Parameters, or the members of a record. -/
theorem listed_pairs {sep close : Char} {depth : ℕ} (hsep : isEnd (.sign sep) = true)
    (hclose : isEnd (.sign close) = true) (hne : Atom.sign close ≠ .sign sep)
    (h : List.Forall₂ IsPair lists ps) (hdepth : (Atom.joined sep lists).length < depth)
    (rest : List Atom) :
    listed (.sign sep) (.sign close) (pairOf (typeWithin depth))
      (Atom.joined sep lists ++ .sign close :: rest) = some (ps, rest) :=
  listed_eq hsep hclose hne h hdepth
    (fun _ _ h hlt rest hrest => h.read depth rest (Nat.le_of_lt hlt) hrest)
    (fun _ _ h rest => h.expect close rest) rest

theorem isOperand_applied (n : String) (h : List.Forall₂ IsType lists xs) :
    IsOperand (Atom.applied n lists) (.generic n xs) := by
  refine ⟨.word (by simp [Atom.between]), fun _ _ => rfl, fun depth rest hdepth _ => ?_⟩
  simp only [Atom.applied, Atom.between, List.length_cons, List.length_append] at hdepth
  have hlength : (Atom.joined ',' lists).length < depth := by omega
  have hall : listed (.sign ',') (.sign '>') (typeWithin depth) _ = some (xs, rest) :=
    listed_eq rfl rfl (by decide) h hlength (fun as x h hlt rest hrest => h.inside hlt hrest)
      (fun as x h rest => expect_of_opens h.opens (by decide) rest) rest
  simp [Atom.applied, Atom.between, Atom.ofWord, primaryOf, expect_self, hall]

/-- **A type in parentheses** is an operand. -/
theorem IsType.parens (h : IsType as x) : IsOperand (Atom.between '(' ')' as) x := by
  constructor
  case opens => exact .paren
  case apart =>
    intro inside rest
    have hstart : startsParams (as ++ .sign ')' :: rest) = false :=
      startsParams_of_opens (h.opens.append (by simp))
    rw [Atom.between, List.cons_append, List.append_assoc, List.singleton_append, typeOf, hstart]
    rfl
  case read =>
    intro depth rest hdepth _
    simp only [Atom.between, List.length_cons, List.length_append] at hdepth
    have hinside : typeWithin depth (as ++ .sign ')' :: rest) = some (x, .sign ')' :: rest) :=
      h.inside (by omega) rfl
    simp [Atom.between, primaryOf, hinside, expect_self]

theorem isOperand_record (h : List.Forall₂ IsPair lists ps) :
    IsOperand (Atom.between '\x7b' '\x7d' (Atom.joined ';' lists)) (.record ps) := by
  refine ⟨.brace, fun _ _ => rfl, fun depth rest hdepth _ => ?_⟩
  simp only [Atom.between, List.length_cons, List.length_append] at hdepth
  have hlength : (Atom.joined ';' lists).length < depth := by omega
  have hall : listed (.sign ';') (.sign '\x7d') (pairOf (typeWithin depth)) _ = some (ps, rest) :=
    listed_pairs rfl rfl (by decide) h hlength rest
  have hbraces : bracesOf (typeWithin depth) (Atom.joined ';' lists ++ .sign '\x7d' :: rest) =
      some (.record ps, rest) := by
    rw [bracesOf.eq_def]
    split
    · rename_i hindex
      cases h with
      | nil => cases hindex
      | @cons first p later _ hfirst _ =>
        obtain ⟨tail, htail, -⟩ := exists_joined_eq (.sign ';') first later
        obtain ⟨bs, rfl, -⟩ := hfirst
        rw [Atom.joined, htail] at hindex
        cases hindex
    · simp [hall]
  rw [Atom.between, List.cons_append, List.append_assoc, List.singleton_append, primaryOf, hbraces]

theorem isOperand_indexed (key : String) (h : IsType as x) :
    IsOperand (Atom.indexed key as) (.index key x) := by
  refine ⟨.brace, fun _ _ => rfl, fun depth rest hdepth _ => ?_⟩
  simp only [Atom.indexed, Atom.between, List.length_cons, List.length_append] at hdepth
  have hinside : typeWithin depth (as ++ .sign '\x7d' :: rest) = some (x, .sign '\x7d' :: rest) :=
    h.inside (by omega) rfl
  simp [Atom.indexed, Atom.between, Atom.pair, Atom.ofWord, primaryOf, bracesOf, hinside,
    expect_self]

/-! ### Types -/

/-- **Bars bind tighter than arrows**: members with bars between them are a type. -/
theorem isType_union (h : List.Forall₂ IsMember lists xs) (hne : lists ≠ []) :
    IsType (Atom.joined '|' lists) (ofMembers xs) := by
  cases h with
  | nil => exact absurd rfl hne
  | @cons first x later xs hfirst hlater =>
    obtain ⟨tail, htail, hhead⟩ := exists_joined_eq (.sign '|') first later
    constructor
    case opens =>
      rw [Atom.joined, htail]
      refine hfirst.opens.append fun hcolon => ?_
      exact absurd (hhead _ hcolon) (by decide)
    case read =>
      intro depth rest hdepth hrest
      have hapart : typeOf (typeWithin depth) (Atom.joined '|' (first :: later) ++ rest) =
          unionOf (typeWithin depth) (Atom.joined '|' (first :: later) ++ rest) := by
        rw [Atom.joined, htail, List.append_assoc]
        exact hfirst.apart _ _
      have hparts : ∀ as ∈ first :: later, as.length < depth + 1 := fun as has =>
        Nat.lt_succ_of_le ((Text.infix_intercalate has).length_le.trans hdepth)
      have hread : ∀ as x, IsMember as x → as.length < depth + 1 → ∀ rest, EndsMember rest →
          operandOf (typeWithin depth) (as ++ rest) = some (x, rest) :=
        fun as x h hlt rest hrest => h.read depth rest (Nat.le_of_lt_succ hlt) hrest
      have hall := forall₂_of_length_lt (.cons hfirst hlater) hparts hread
      have hmore : ∀ rest, EndsMember (.sign '|' :: rest) := fun _ => rfl
      have hfuel : (first :: later).length ≤
          (Atom.joined '|' (first :: later) ++ rest).length + 1 := by
        have hle : _ ≤ (Atom.joined '|' (first :: later)).length + 1 := length_lists_le _ _
        rw [List.length_append]
        omega
      have hmany := separated_eq hall hne hmore hrest.member hrest.expect_bar _ hfuel
      rw [hapart, unionOf]
      simp only [Atom.joined] at hmany ⊢
      simp only [hmany, Option.bind_eq_bind, Option.bind_some]

/-- **The result of a function type** is all that follows its arrow. -/
theorem isType_function (h : List.Forall₂ IsPair lists ps) (hresult : IsType as x) :
    IsType (Atom.arrowed lists as) (.function ps x) := by
  refine ⟨.paren, fun depth rest hdepth hrest => ?_⟩
  simp only [Atom.arrowed, Atom.between, List.length_cons, List.length_append] at hdepth
  have hlength : (Atom.joined ',' lists).length < depth := by omega
  have hall : listed (.sign ',') (.sign ')') (pairOf (typeWithin depth)) _ = some (ps, _) :=
    listed_pairs rfl rfl (by decide) h hlength (.arrow :: (as ++ rest))
  have hinside : typeWithin depth (as ++ rest) = some (x, rest) :=
    hresult.inside (by omega) hrest
  have hstart :
      startsParams (Atom.joined ',' lists ++ .sign ')' :: .arrow :: (as ++ rest)) = true := by
    cases h with
    | nil => rfl
    | @cons first p later _ hfirst _ =>
      obtain ⟨tail, htail, -⟩ := exists_joined_eq (.sign ',') first later
      obtain ⟨bs, rfl, -⟩ := hfirst
      rw [Atom.joined, htail]
      rfl
  have hshape : Atom.arrowed lists as ++ rest =
      .sign '(' :: (Atom.joined ',' lists ++ .sign ')' :: .arrow :: (as ++ rest)) := by
    simp [Atom.arrowed, Atom.between]
  rw [hshape, typeOf, if_pos hstart, functionOf]
  simp [hall, expect_self, hinside]

end TypeTree

end Ambient

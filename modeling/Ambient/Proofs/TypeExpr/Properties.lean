import Ambient.Proofs.TypeExpr.Precedence

/-!
# The properties of declared records

A record is written with its keys as they are, without quotes. The text is read as an object type
with one property for each field, named by its key, if each key is a name that is read as itself: an
identifier, or a numeral as it is written for its value.

* `Letters`, `propertyName?`: the name that a property is given by a word;
* `Readable`, **`readable_of_fits`**: the text of each type is read as some type;
* `IsProperty`, `key?`, `NamedKeys`: the property of a field, and records with keys that are names;
* **`record_keys_read`**: the properties of a record, for which no other record is written alike;
* `quoted_keys_lost`: keys that are no names.
-/

namespace Ambient

open TypeExpr (Atom)

/-! ## Names of properties -/

/-- The characters above ASCII that an identifier can start with, and those that it can go on with.
They depend on the version of the declaration language. -/
structure Letters where
  start : Char → Bool
  part : Char → Bool

namespace Letters

/-- No characters above ASCII. -/
def ascii : Letters := ⟨fun _ => false, fun _ => false⟩

variable (letters : Letters)

/-- The characters an identifier can start with. -/
def isStart (c : Char) : Bool :=
  c.isAlpha || c == '_' || c == '$' || (0x80 ≤ c.toNat && !Text.isBlank c && letters.start c)

/-- The characters of an identifier. -/
def isPart (c : Char) : Bool :=
  letters.isStart c || c.isDigit || (0x80 ≤ c.toNat && !Text.isBlank c && letters.part c)

end Letters

/-- The text in quotes, after the first of them. Texts with escapes are not read here. -/
def quotedName? (mark : Char) (s : List Char) : Option (List Char) :=
  if s.getLast? = some mark ∧ mark ∉ s.dropLast ∧ '\\' ∉ s.dropLast then some s.dropLast else none

/-- The text for the value of a numeral: without zeros at the end of its fraction. Numerals of more
than fifteen digits and those below a millionth, whose texts are other ones, are not read here. -/
def numeralName? (s : List Char) : Option (List Char) :=
  let whole := s.takeWhile Char.isDigit
  let rest := s.dropWhile Char.isDigit
  let fraction := rest.tail.rdropWhile (· == '0')
  if whole = [] ∨ (whole.head? = some '0' ∧ whole ≠ ['0']) then none
  else if rest ≠ [] ∧ (rest.head? ≠ some '.' ∨ rest.tail.all Char.isDigit = false) then none
  else if 15 < whole.length + fraction.length then none
  else if whole = ['0'] ∧ 6 ≤ (fraction.takeWhile (· == '0')).length then none
  else some (if fraction = [] then whole else whole ++ '.' :: fraction)

/-- The name of a property that is written as an identifier, as a text in quotes or as a numeral. -/
def propertyName? (letters : Letters) : List Char → Option (List Char)
  | [] => none
  | c :: rest =>
    if letters.isStart c then
      if rest.all letters.isPart then some (c :: rest) else none
    else if c = '\x27' ∨ c = '\x22' then quotedName? c rest
    else numeralName? (c :: rest)

section

variable {letters : Letters} {c : Char} {s : List Char}

theorem isWordPart_of_isDigit (h : c.isDigit = true) : Atom.isWordPart c = true := by
  refine Atom.isWordPart_of_isNamePart ?_
  have hlow : c.toNat < 0x80 := by
    simp only [Char.isDigit, Bool.and_eq_true, decide_eq_true_eq, UInt32.le_iff_toNat_le] at h
    exact Nat.lt_of_le_of_lt h.2 (by decide)
  simp [TypeExpr.Token.isNamePart, Text.isWord, hlow, Char.isAlphanum, h]

theorem isWordPart_of_wide (hc : 0x80 ≤ c.toNat) (hblank : Text.isBlank c = false) :
    Atom.isWordPart c = true := by
  have hsign : Atom.isSign c = false := by
    by_contra hsign
    simp only [Atom.isSign, Bool.not_eq_false, List.contains_eq_mem, decide_eq_true_eq,
      List.mem_cons, List.not_mem_nil, or_false] at hsign
    rcases hsign with rfl | rfl | rfl | rfl | rfl | rfl | rfl | rfl | rfl | rfl | rfl | rfl | rfl
    all_goals exact absurd hc (by decide)
  rw [Atom.isWordPart, hsign, hblank]
  rfl

theorem isWordPart_of_isStart (h : letters.isStart c = true) : Atom.isWordPart c = true := by
  rw [Letters.isStart, Bool.or_eq_true] at h
  rcases h with h | h
  · exact Atom.isWordPart_of_isNamePart (TypeExpr.isNamePart_of_isNameStart h)
  · simp only [Bool.and_eq_true, decide_eq_true_eq, Bool.not_eq_true'] at h
    exact isWordPart_of_wide h.1.1 h.1.2

theorem isWordPart_of_isPart (h : letters.isPart c = true) : Atom.isWordPart c = true := by
  simp only [Letters.isPart, Bool.or_eq_true] at h
  rcases h with (h | h) | h
  · exact isWordPart_of_isStart h
  · exact isWordPart_of_isDigit h
  · simp only [Bool.and_eq_true, decide_eq_true_eq, Bool.not_eq_true'] at h
    exact isWordPart_of_wide h.1.1 h.1.2

theorem isWordPart_of_numeralName? {name : List Char} (h : numeralName? s = some name) :
    ∀ c ∈ name, Atom.isWordPart c = true := by
  have hwhole : ∀ c ∈ s.takeWhile Char.isDigit, Atom.isWordPart c = true :=
    fun c hc => isWordPart_of_isDigit (List.mem_takeWhile_imp hc)
  simp only [numeralName?] at h
  split_ifs at h with _ hrest _ _ hfraction
  · obtain rfl := Option.some.inj h
    exact hwhole
  · obtain rfl := Option.some.inj h
    refine List.forall_mem_append.mpr ⟨hwhole, List.forall_mem_cons.mpr ⟨by decide, ?_⟩⟩
    intro c hc
    have hmem := (List.rdropWhile_prefix _ _).subset hc
    have hne : s.dropWhile Char.isDigit ≠ [] := by
      intro hnil
      rw [hnil] at hmem
      cases hmem
    have hall : (s.dropWhile Char.isDigit).tail.all Char.isDigit = true := by
      by_contra hall
      exact hrest ⟨hne, Or.inr (Bool.not_eq_true _ ▸ hall)⟩
    exact isWordPart_of_isDigit (List.all_eq_true.mp hall c hmem)

/-- A name that is read as itself is one word. -/
theorem isWord_of_propertyName? (h : propertyName? letters s = some s) : Atom.IsWord s := by
  cases s with
  | nil => cases h
  | cons c rest =>
    refine ⟨List.cons_ne_nil _ _, ?_⟩
    rw [propertyName?] at h
    split_ifs at h with hstart hrest hquote
    · refine List.forall_mem_cons.mpr ⟨isWordPart_of_isStart hstart, fun d hd => ?_⟩
      exact isWordPart_of_isPart (List.all_eq_true.mp hrest d hd)
    · rw [quotedName?] at h
      split_ifs at h
      -- The quotes are no part of the name.
      have hlength := congrArg List.length (Option.some.inj h)
      rw [List.length_dropLast, List.length_cons] at hlength
      omega
    · exact isWordPart_of_numeralName? h

end

/-! ## Every text is a type -/

namespace TypeTree

variable {as : List Atom} {x : TypeTree} {lists : List (List Atom)}

/-- Atoms that can be told apart as operands with bars between them. -/
def IsOperands (as : List Atom) : Prop :=
  ∃ lists, lists ≠ [] ∧ as = Atom.joined '|' lists ∧ ∀ list ∈ lists, ∃ x, IsOperand list x

/-- A number of pairs of brackets. -/
def brackets : ℕ → List Atom
  | 0 => []
  | k + 1 => .sign '[' :: .sign ']' :: brackets k

theorem exists_forall₂ {α β : Type} {R : α → β → Prop} {as : List α} (h : ∀ a ∈ as, ∃ b, R a b) :
    ∃ bs, List.Forall₂ R as bs := by
  induction as with
  | nil => exact ⟨[], .nil⟩
  | cons a as ih =>
    rw [List.forall_mem_cons] at h
    obtain ⟨⟨b, hb⟩, has⟩ := h
    obtain ⟨bs, hbs⟩ := ih has
    exact ⟨b :: bs, .cons hb hbs⟩

theorem IsMember.exists_type (h : ∀ list ∈ lists, ∃ x, IsMember list x) (hne : lists ≠ []) :
    ∃ x, IsType (Atom.joined '|' lists) x := by
  obtain ⟨xs, hxs⟩ := exists_forall₂ h
  exact ⟨_, isType_union hxs hne⟩

theorem arrays_brackets (k : ℕ) {rest : List Atom} (h : EndsMember rest) :
    arrays x (brackets k ++ rest) = (TypeTree.array^[k] x, rest) := by
  induction k generalizing x with
  | zero => exact arrays_of_endsMember h x
  | succ k ih =>
    rw [brackets, List.cons_append, List.cons_append, arrays, ih, Function.iterate_succ_apply]

/-- An operand with any brackets behind it is a member of a union. -/
theorem IsOperand.repeated (h : IsOperand as x) (k : ℕ) :
    IsMember (as ++ brackets k) (TypeTree.array^[k] x) := by
  constructor
  case opens =>
    refine h.opens.append ?_
    cases k <;> simp [brackets]
  case apart =>
    intro inside rest
    rw [List.append_assoc]
    exact h.apart inside _
  case read =>
    intro depth rest hdepth hrest
    have hname : EndsName (brackets k ++ rest) := by
      cases k with
      | zero => exact endsName_of_endsMember hrest
      | succ k => simp [EndsName, brackets]
    rw [List.length_append] at hdepth
    rw [List.append_assoc, operandOf, h.read depth _ (by omega) hname]
    simp [arrays_brackets k hrest]

theorem IsOperand.operands (h : IsOperand as x) : IsOperands as :=
  ⟨[as], List.cons_ne_nil _ _, by rw [Atom.joined, List.intercalate_singleton],
    List.forall_mem_singleton.mpr ⟨x, h⟩⟩

/-- **Brackets behind operands** go with the last of them. -/
theorem IsOperands.exists_repeated (h : IsOperands as) (k : ℕ) :
    ∃ x, IsType (as ++ brackets k) x := by
  obtain ⟨lists, hne, rfl, hlists⟩ := h
  obtain ⟨others, last, rfl⟩ := (List.eq_nil_or_concat' lists).resolve_left hne
  rw [List.forall_mem_append, List.forall_mem_singleton] at hlists
  obtain ⟨hothers, x, hx⟩ := hlists
  have hjoined : Atom.joined '|' (others ++ [last]) ++ brackets k =
      Atom.joined '|' (others ++ [last ++ brackets k]) := by
    by_cases hnil : others = []
    · rw [hnil, List.nil_append, List.nil_append, Atom.joined, Atom.joined,
        List.intercalate_singleton, List.intercalate_singleton]
    · rw [TypeExpr.Atom.joined_append hnil (List.cons_ne_nil _ _),
        TypeExpr.Atom.joined_append hnil (List.cons_ne_nil _ _), Atom.joined, Atom.joined,
        Atom.joined, List.intercalate_singleton, List.intercalate_singleton, List.append_assoc,
        List.cons_append]
  rw [hjoined]
  refine IsMember.exists_type ?_ (List.append_ne_nil_of_right_ne_nil _ (List.cons_ne_nil _ _))
  rw [List.forall_mem_append, List.forall_mem_singleton]
  refine ⟨fun list hlist => ?_, _, hx.repeated k⟩
  obtain ⟨y, hy⟩ := hothers list hlist
  exact ⟨y, hy.member⟩

theorem isOperands_joined (h : ∀ list ∈ lists, IsOperands list) (hne : lists ≠ []) :
    IsOperands (Atom.joined '|' lists) := by
  induction lists with
  | nil => exact absurd rfl hne
  | cons list later ih =>
    rw [List.forall_mem_cons] at h
    by_cases hnil : later = []
    · rw [hnil, Atom.joined, List.intercalate_singleton]
      exact h.1
    · obtain ⟨first, hfirst, rfl, hall⟩ := h.1
      obtain ⟨others, hothers, hjoined, hall'⟩ := ih h.2 hnil
      have hsplit : Atom.joined '|' (Atom.joined '|' first :: later) =
          Atom.joined '|' first ++ .sign '|' :: Atom.joined '|' later := by
        have happend := TypeExpr.Atom.joined_append (c := '|')
          (List.cons_ne_nil (Atom.joined '|' first) []) hnil
        rwa [List.singleton_append, Atom.joined.eq_1 _ [_], List.intercalate_singleton] at happend
      refine ⟨first ++ others, List.append_ne_nil_of_left_ne_nil hfirst _, ?_,
        List.forall_mem_append.mpr ⟨hall, hall'⟩⟩
      rw [hsplit, hjoined, TypeExpr.Atom.joined_append hfirst hothers]

end TypeTree

namespace TypeExpr

open TypeTree Atom

/-- The atoms of a type are read as some type, wherever it stands and with any brackets behind. -/
structure Readable (t : TypeExpr) : Prop where
  members : t.isVariadic = false → IsOperands (atomsAt true false t)
  repeated : ∀ inVariadic k, ∃ x, IsType (atomsAt false inVariadic t ++ brackets k) x

theorem Readable.alone {t : TypeExpr} (h : Readable t) : ∃ x, IsType (atomsAt false false t) x := by
  obtain ⟨x, hx⟩ := h.repeated false 0
  rw [brackets, List.append_nil] at hx
  exact ⟨x, hx⟩

theorem Readable.of_operand {t : TypeExpr}
    (h : ∀ inUnion inVariadic, ∃ x, IsOperand (atomsAt inUnion inVariadic t) x) : Readable t := by
  have hall : ∀ inUnion inVariadic, IsOperands (atomsAt inUnion inVariadic t) := by
    intro inUnion inVariadic
    obtain ⟨x, hx⟩ := h inUnion inVariadic
    exact hx.operands
  exact ⟨fun _ => hall true false, fun inVariadic => (hall false inVariadic).exists_repeated⟩

theorem Readable.wrap {t u : TypeExpr}
    (hatoms : ∀ inUnion inVariadic, atomsAt inUnion inVariadic u = atomsAt inUnion inVariadic t)
    (hvariadic : t.isVariadic = false) (h : Readable t) : Readable u := by
  constructor
  case members =>
    intro _
    rw [hatoms]
    exact h.members hvariadic
  case repeated =>
    intro inVariadic k
    rw [hatoms]
    exact h.repeated inVariadic k

theorem readable_union {members : List TypeExpr} (hne : members ≠ [])
    (hvariadic : ∀ t ∈ members, t.isVariadic = false) (h : ∀ t ∈ members, Readable t) :
    Readable (.union members) := by
  have hlists : atomsOfEach true members ≠ [] := by
    obtain ⟨t, later, rfl⟩ := List.exists_cons_of_ne_nil hne
    rw [atomsOfEach]
    exact List.cons_ne_nil _ _
  have hall : IsOperands (joined '|' (atomsOfEach true members)) := by
    refine isOperands_joined (fun as has => ?_) hlists
    obtain ⟨t, ht, rfl⟩ := mem_atomsOfEach has
    exact (h t ht).members (hvariadic t ht)
  constructor
  case members =>
    intro _
    rw [atomsAt]
    exact hall
  case repeated =>
    intro inVariadic k
    rw [atomsAt]
    cases inVariadic with
    | false => exact hall.exists_repeated k
    | true =>
      obtain ⟨x, hx⟩ := hall.exists_repeated 0
      rw [brackets, List.append_nil] at hx
      exact hx.parens.operands.exists_repeated k

theorem exists_pairs_of_params {ts : List TypeExpr} (h : ∀ t ∈ ts, Readable t) (index : ℕ) :
    ∃ ps, List.Forall₂ IsPair (atomsOfParams index ts) ps := by
  refine exists_forall₂ fun as has => ?_
  obtain ⟨name, t, ht, rfl⟩ := mem_atomsOfParams has
  obtain ⟨x, hx⟩ := (h t ht).alone
  exact ⟨(name, x), _, rfl, hx⟩

/-- The name and the type that the member of a record is read as, for a field. -/
def IsProperty (field : TypeExpr) (member : String × TypeTree) : Prop :=
  ∃ value, field = .field member.1 value

theorem exists_pairs_of_fields {fields : List TypeExpr}
    (h : ∀ t ∈ fields, ∃ key value, t = .field key value ∧ Readable value) :
    ∃ ps, List.Forall₂ IsPair (atomsOfFields fields) ps ∧ List.Forall₂ IsProperty fields ps := by
  induction fields with
  | nil => exact ⟨[], .nil, .nil⟩
  | cons t ts ih =>
    rw [List.forall_mem_cons] at h
    obtain ⟨⟨key, value, rfl, hvalue⟩, hts⟩ := h
    obtain ⟨ps, hps, hproperties⟩ := ih hts
    obtain ⟨x, hx⟩ := hvalue.alone
    rw [atomsOfFields]
    exact ⟨(key, x) :: ps, .cons ⟨_, rfl, hx⟩ hps, .cons ⟨value, rfl⟩ hproperties⟩

/-- **The result of a function type** takes in the brackets behind it. -/
theorem readable_function {params : List TypeExpr} {result thisType newType : TypeExpr}
    (hparams : ∀ t ∈ params, Readable t) (hresult : Readable result) :
    Readable (.function params result thisType newType) := by
  obtain ⟨ps, hps⟩ := exists_pairs_of_params hparams 0
  have hresult' : ∀ k,
      ∃ x, IsType (resultAtoms result (atomsAt false false result) ++ brackets k) x := by
    intro k
    by_cases habsent : result = .absent
    · rw [habsent]
      exact (isOperand_name "void").operands.exists_repeated k
    · rw [resultAtoms_of_ne habsent]
      exact hresult.repeated false k
  have hall : ∀ k, ∃ x, IsType (arrowed (atomsOfParams 0 params)
      (resultAtoms result (atomsAt false false result)) ++ brackets k) x := by
    intro k
    obtain ⟨x, hx⟩ := hresult' k
    have hfunction := isType_function hps hx
    rw [arrowed, ← List.cons_append, ← List.append_assoc] at hfunction
    exact ⟨_, hfunction⟩
  constructor
  case members =>
    intro _
    obtain ⟨x, hx⟩ := hall 0
    rw [brackets, List.append_nil] at hx
    rw [atomsAt]
    exact hx.parens.operands
  case repeated =>
    intro inVariadic k
    rw [atomsAt]
    exact hall k

/-- `Object` with its arguments is read as an index signature. -/
theorem exists_isOperand_index {arguments : List TypeExpr}
    (hlength : arguments.length = 1 ∨ arguments.length = 2) (h : ∀ t ∈ arguments, Readable t) :
    ∃ x, IsOperand (indexAtoms arguments (atomsOfEach false arguments)) x := by
  rcases hlength with hone | htwo
  · obtain ⟨value, rfl⟩ := List.length_eq_one_iff.mp hone
    obtain ⟨x, hx⟩ := (h value List.mem_cons_self).alone
    rw [atomsOfEach, atomsOfEach]
    exact ⟨_, isOperand_indexed "string" hx⟩
  · obtain ⟨key, value, rfl⟩ := List.length_eq_two.mp htwo
    obtain ⟨x, hx⟩ := (h value (List.mem_cons_of_mem _ List.mem_cons_self)).alone
    rw [atomsOfEach, atomsOfEach, atomsOfEach]
    exact ⟨_, isOperand_indexed (indexKey key) hx⟩

theorem readable_application {base : String} {arguments : List TypeExpr}
    (hdeclared : ¬ (TypeExpr.application (.name base) arguments).Undeclarable)
    (h : Name.isUnparameterized base = false → ∀ t ∈ arguments, Readable t) :
    Readable (.application (.name base) arguments) := by
  refine .of_operand fun _ _ => ?_
  rw [atomsAt]
  split_ifs with hobject hparameterized
  · have hlength : arguments.length = 1 ∨ arguments.length = 2 := by
      by_contra hlength
      exact hdeclared ⟨hobject, not_or.mp hlength⟩
    exact exists_isOperand_index hlength (h (hobject ▸ rfl))
  · exact ⟨_, isOperand_name _⟩
  · have hlists : ∀ as ∈ atomsOfEach false arguments, ∃ x, IsType as x := by
      intro as has
      obtain ⟨t, ht, rfl⟩ := mem_atomsOfEach has
      exact (h (Bool.eq_false_iff.mpr hparameterized) t ht).alone
    obtain ⟨xs, hxs⟩ := exists_forall₂ hlists
    exact ⟨_, isOperand_applied _ (List.rel_append hxs (forall₂_replicate isType_any _))⟩

/-- **Every type that can be declared is read as some type.** -/
theorem readable_of_fits {site : Site} {t : TypeExpr} (h : Fits site t) :
    AtSite (fun t => ¬ t.ShowsUndeclarable → t.Readable) site t := by
  have hinside : ∀ {t child : TypeExpr}, ¬ t.ShowsUndeclarable → child ∈ t.shown →
      ¬ child.ShowsUndeclarable := by
    intro t child ht hchild hundeclarable
    exact ht (showsUndeclarable_iff.mpr (Or.inr ⟨child, hchild, hundeclarable⟩))
  refine fits_induction ?absent ?name ?all ?unknown ?void ?null ?undefined ?optional ?nullable
    ?nonNullable ?union ?tuple ?application ?function ?record ?variadic h
  case absent | all | unknown | void | null | undefined =>
    refine fun _ => .of_operand fun _ _ => ?_
    rw [atomsAt]
    exact ⟨_, isOperand_name _⟩
  case name =>
    refine fun n _ _ => .of_operand fun _ _ => ?_
    rw [atomsAt]
    exact ⟨_, isOperand_named n⟩
  case optional =>
    intro t ht ih hdeclared
    exact (ih (hinside hdeclared List.mem_cons_self)).wrap (fun _ _ => by rw [atomsAt])
      ht.isVariadic
  case nullable | nonNullable =>
    intro _ t ht ih hdeclared
    exact (ih (hinside hdeclared List.mem_cons_self)).wrap (fun _ _ => by rw [atomsAt])
      ht.isVariadic
  case union =>
    intro members hne hfits ih hdeclared
    exact readable_union hne (fun t ht => (hfits t ht).isVariadic)
      fun t ht => ih t ht (hinside hdeclared ht)
  case tuple =>
    exact fun items hdeclared => absurd ⟨_, .self, trivial⟩ hdeclared
  case application =>
    intro base arguments _ _ ih hdeclared
    refine readable_application (fun h => hdeclared ⟨_, .self, h⟩) fun hparameterized t ht => ?_
    refine ih t ht (hinside hdeclared ?_)
    rw [shown, if_neg (by simp [hparameterized])]
    exact ht
  case function =>
    intro params result thisType newType ihparams ihresult hdeclared
    refine readable_function (fun t ht => ihparams t ht (hinside hdeclared ?_))
      (ihresult (hinside hdeclared ?_))
    · exact List.mem_append_left _ ht
    · exact List.mem_append_right _ List.mem_cons_self
  case record =>
    intro fields ih hdeclared
    have hfields : ∀ t ∈ fields, ∃ key value, t = .field key value ∧ Readable value := by
      intro t ht
      obtain ⟨key, value, rfl, hvalue⟩ := ih t ht
      exact ⟨key, value, rfl, hvalue (hinside (hinside hdeclared ht) List.mem_cons_self)⟩
    obtain ⟨ps, hps, -⟩ := exists_pairs_of_fields hfields
    refine .of_operand fun _ _ => ?_
    rw [atomsAt]
    exact ⟨_, isOperand_record hps⟩
  case variadic =>
    intro t _ ih hdeclared
    have hoperand : Readable t.operand := by
      refine ih (hinside hdeclared ?_)
      rw [shown_variadic]
      exact List.mem_cons_self
    constructor
    case members => exact fun h => absurd h.symm Bool.false_ne_true
    case repeated =>
      intro inVariadic k
      rw [atomsAt_variadic, List.append_assoc]
      exact hoperand.repeated true (k + 1)

/-! ## Records -/

/-- The key of the member of a record. -/
def key? : TypeExpr → Option String
  | .field key _ => some key
  | _ => none

/-- The keys of all records are names that are read as themselves. -/
def NamedKeys (letters : Letters) (t : TypeExpr) : Prop :=
  t.EachShown fun u => ∀ key value, u = .field key value →
    propertyName? letters key.toList = some key.toList

theorem NamedKeys.plain {letters : Letters} {t : TypeExpr} (h : t.NamedKeys letters) :
    t.PlainKeys :=
  fun u hu key value hfield => isWord_of_propertyName? (h u hu key value hfield)

theorem AtSite.of_ne_field {P : TypeExpr → Prop} {site : Site} {t : TypeExpr}
    (h : AtSite P site t) (ht : ∀ key value, t ≠ .field key value) : P t := by
  cases site with
  | inner => exact h.1
  | member =>
    obtain ⟨key, value, rfl, -⟩ := h
    exact absurd rfl (ht key value)
  | value | outer => exact h

theorem fits_member_of_record {site : Site} {fields : List TypeExpr}
    (h : Fits site (.record fields)) : ∀ t ∈ fields, Fits .member t := by
  generalize ht : TypeExpr.record fields = t at h
  induction h with
  | record h =>
    cases ht
    exact h
  | plain _ ih | outer _ ih => exact ih ht
  | _ => cases ht

theorem map_key?_of_properties {fields : List TypeExpr} {members : List (String × TypeTree)}
    (h : List.Forall₂ IsProperty fields members) :
    fields.map key? = members.map fun member => some member.1 := by
  induction h with
  | nil => rfl
  | cons hfirst _ ih =>
    obtain ⟨value, rfl⟩ := hfirst
    rw [List.map_cons, List.map_cons, ih, key?]

/-- **The text of a record** is read as an object type with a property for each field. -/
theorem exists_read_record {site : Site} {fields : List TypeExpr} {s : String}
    (hfits : Fits site (.record fields)) (hdeclared : (TypeExpr.record fields).declared = .ok s)
    (hkeys : (TypeExpr.record fields).PlainKeys) :
    ∃ members, TypeTree.read s = some (.record members) ∧
      List.Forall₂ IsProperty fields members := by
  have hne : ∀ key value, TypeExpr.record fields ≠ .field key value := nofun
  have hsettled : Settled (.record fields) := (settled_of_fits hfits).of_ne_field hne
  have hshown : ∀ t ∈ fields, ¬ t.ShowsUndeclarable := by
    intro t ht h
    obtain ⟨e, he⟩ := (hsettled .alone).1.mpr (showsUndeclarable_iff.mpr (Or.inr ⟨t, ht, h⟩))
    cases hdeclared.symm.trans he
  have hfields : ∀ t ∈ fields, ∃ key value, t = .field key value ∧ Readable value := by
    intro t ht
    obtain ⟨key, value, rfl, hvalue⟩ := readable_of_fits (fits_member_of_record hfits t ht)
    exact ⟨key, value, rfl, hvalue (mt showsUndeclarable_field.mpr (hshown _ ht))⟩
  obtain ⟨members, hmembers, hproperties⟩ := exists_pairs_of_fields hfields
  have hatoms : HasAtoms s (atomsAt false false (.record fields)) :=
    (laidOut_of_fits hfits).of_ne_field hne hkeys false false s hdeclared
  have htype := (IsPiece.members ⟨(isOperand_record hmembers).member, rfl⟩).isType
  rw [atomsAt] at hatoms
  exact ⟨members, read_of_isType hatoms htype, hproperties⟩

/-- **The keys of a record** that are names are those of the properties of its text, one for each
field and in order, wherever the record shows in an accepted type. A record with other keys that are
words has another text. -/
theorem record_keys_read {text s : String} {n : TypeExpr} {fields : List TypeExpr}
    {letters : Letters} (hparse : parse text = .ok n) (hshown : ShownIn (.record fields) n)
    (hdeclared : (TypeExpr.record fields).declared = .ok s)
    (hkeys : (TypeExpr.record fields).NamedKeys letters) :
    (∃ members, TypeTree.read s = some (.record members) ∧
      List.Forall₂ (fun field member => ∃ key value, field = .field key value ∧
        propertyName? letters member.1.toList = some key.toList) fields members) ∧
    ∀ {text' : String} {n' : TypeExpr} {fields' : List TypeExpr}, parse text' = .ok n' →
      ShownIn (.record fields') n' → (TypeExpr.record fields').PlainKeys →
      (TypeExpr.record fields').declared = .ok s → fields'.map key? = fields.map key? := by
  have hfits : ∀ {text : String} {n : TypeExpr} {fields : List TypeExpr}, parse text = .ok n →
      ShownIn (.record fields) n → ∃ site, Fits site (.record fields) := by
    intro text n fields hparse hshown
    exact (fits_of_shownIn hshown (fits_of_parse hparse)).resolve_left (nomatch ·)
  obtain ⟨site, hrecord⟩ := hfits hparse hshown
  obtain ⟨members, hread, hproperties⟩ := exists_read_record hrecord hdeclared hkeys.plain
  refine ⟨⟨members, hread, ?_⟩, ?_⟩
  · refine (List.forall₂_and_left (p := (· ∈ fields)) fields members).mpr
      ⟨fun _ hfield => hfield, hproperties⟩ |>.imp ?_
    rintro field ⟨key, x⟩ ⟨hfield, value, rfl⟩
    exact ⟨key, value, rfl, hkeys.inside hfield _ .self key value rfl⟩
  · intro text' n' fields' hparse' hshown' hkeys' hdeclared'
    obtain ⟨site', hrecord'⟩ := hfits hparse' hshown'
    obtain ⟨members', hread', hproperties'⟩ := exists_read_record hrecord' hdeclared' hkeys'
    obtain rfl : members' = members :=
      TypeTree.record.inj (Option.some.inj (hread'.symm.trans hread))
    rw [map_key?_of_properties hproperties, map_key?_of_properties hproperties']

theorem record_keys_read_nested :
    ∃ fields, parse "\x7ba: \x7b$: A\x7d, 'b1': function(...function()), 15: B\x7d" =
        .ok (.record fields) ∧
      ∃ members,
        TypeTree.read "\x7ba: \x7b$: A\x7d; b1: (...arg0: () => void[]) => void; 15: B\x7d" =
          some (.record members) ∧
        List.Forall₂ (fun field member => ∃ key value, field = .field key value ∧
          propertyName? .ascii member.1.toList = some key.toList) fields members := by
  have hscan : Scan.ofText
      (Text.trim "\x7ba: \x7b$: A\x7d, 'b1': function(...function()), 15: B\x7d".toList) =
      ⟨[⟨.openBrace, 0⟩, ⟨.name "a", 1⟩, ⟨.colon, 2⟩, ⟨.openBrace, 4⟩, ⟨.name "$", 5⟩, ⟨.colon, 6⟩,
        ⟨.name "A", 8⟩, ⟨.closeBrace, 9⟩, ⟨.comma, 10⟩, ⟨.quoted '\x27' "b1", 12⟩, ⟨.colon, 16⟩,
        ⟨.function, 18⟩, ⟨.openParen, 26⟩, ⟨.ellipsis, 27⟩, ⟨.function, 30⟩, ⟨.openParen, 38⟩,
        ⟨.closeParen, 39⟩, ⟨.closeParen, 40⟩, ⟨.comma, 41⟩, ⟨.number "15", 43⟩, ⟨.colon, 45⟩,
        ⟨.name "B", 47⟩, ⟨.closeBrace, 48⟩], .endOfText⟩ := by
    decide
  have hroot : Phrase.root
      [⟨.openBrace, 0⟩, ⟨.name "a", 1⟩, ⟨.colon, 2⟩, ⟨.openBrace, 4⟩, ⟨.name "$", 5⟩, ⟨.colon, 6⟩,
        ⟨.name "A", 8⟩, ⟨.closeBrace, 9⟩, ⟨.comma, 10⟩, ⟨.quoted '\x27' "b1", 12⟩, ⟨.colon, 16⟩,
        ⟨.function, 18⟩, ⟨.openParen, 26⟩, ⟨.ellipsis, 27⟩, ⟨.function, 30⟩, ⟨.openParen, 38⟩,
        ⟨.closeParen, 39⟩, ⟨.closeParen, 40⟩, ⟨.comma, 41⟩, ⟨.number "15", 43⟩, ⟨.colon, 45⟩,
        ⟨.name "B", 47⟩, ⟨.closeBrace, 48⟩] =
      .ok (.record [.field ⟨.name "a", 1⟩ (.record [.field ⟨.name "$", 5⟩ (.name "A")]),
        .field ⟨.quoted '\x27' "b1", 12⟩ (.function [.variadic (.function [])]),
        .field ⟨.number "15", 43⟩ (.name "B")], []) := by
    cbv
  obtain ⟨fields, hfields⟩ : ∃ fields : List TypeExpr, fields =
      [.field "a" (.record [.field "$" (.name "A")]),
        .field "b1" (.function [.variadic (.function [] .absent .absent .absent)]
          .absent .absent .absent),
        .field "15" (.name "B")] := ⟨_, rfl⟩
  have hparse : parse "\x7ba: \x7b$: A\x7d, 'b1': function(...function()), 15: B\x7d" =
      .ok (.record fields) := by
    rw [hfields]
    exact parse_eq_ok_iff.mpr ⟨_, _, scan_eq_iff.mp hscan, root_eq_ok_iff.mp hroot, by cbv⟩
  have hdeclared : (TypeExpr.record fields).declared =
      .ok "\x7ba: \x7b$: A\x7d; b1: (...arg0: () => void[]) => void; 15: B\x7d" := by
    rw [hfields]
    cbv
  have hkeys : (TypeExpr.record fields).NamedKeys .ascii := by
    simp [NamedKeys, hfields, eachShown_iff (t := .function _ _ _ _),
      eachShown_iff (t := .variadic _), eachShown_iff (t := .name _),
      eachShown_iff (t := .record _), eachShown_iff (t := .field _ _), eachShown_iff (t := .absent),
      shown]
    decide
  exact ⟨fields, hparse, (record_keys_read hparse .self hdeclared hkeys).1⟩

/-- A key in quotes that is no name: another record is written alike, and no property is named by
it. -/
theorem quoted_keys_lost :
    (∃ fields fields', parse "\x7b'a: A; b': B\x7d" = .ok (.record fields) ∧
      parse "\x7ba: A, b: B\x7d" = .ok (.record fields') ∧
      (TypeExpr.record fields).declared = .ok "\x7ba: A; b: B\x7d" ∧
      (TypeExpr.record fields').declared = .ok "\x7ba: A; b: B\x7d" ∧
      fields.map key? ≠ fields'.map key?) ∧
    ∃ value, parse "\x7b'x-y': A\x7d" = .ok (.record [.field "x-y" value]) ∧
      (TypeExpr.record [.field "x-y" value]).declared = .ok "\x7bx-y: A\x7d" ∧
      TypeTree.read "\x7bx-y: A\x7d" = some (.record [("x-y", .name "A")]) ∧
      ∀ letters, propertyName? letters "x-y".toList = none := by
  have hscan : Scan.ofText (Text.trim "\x7b'a: A; b': B\x7d".toList) =
      ⟨[⟨.openBrace, 0⟩, ⟨.quoted '\x27' "a: A; b", 1⟩, ⟨.colon, 10⟩, ⟨.name "B", 12⟩,
        ⟨.closeBrace, 13⟩], .endOfText⟩ := by
    decide
  have hroot : Phrase.root [⟨.openBrace, 0⟩, ⟨.quoted '\x27' "a: A; b", 1⟩, ⟨.colon, 10⟩,
      ⟨.name "B", 12⟩, ⟨.closeBrace, 13⟩] =
      .ok (.record [.field ⟨.quoted '\x27' "a: A; b", 1⟩ (.name "B")], []) := by
    cbv
  have hscan' : Scan.ofText (Text.trim "\x7ba: A, b: B\x7d".toList) =
      ⟨[⟨.openBrace, 0⟩, ⟨.name "a", 1⟩, ⟨.colon, 2⟩, ⟨.name "A", 4⟩, ⟨.comma, 5⟩, ⟨.name "b", 7⟩,
        ⟨.colon, 8⟩, ⟨.name "B", 10⟩, ⟨.closeBrace, 11⟩], .endOfText⟩ := by
    decide
  have hroot' : Phrase.root [⟨.openBrace, 0⟩, ⟨.name "a", 1⟩, ⟨.colon, 2⟩, ⟨.name "A", 4⟩,
      ⟨.comma, 5⟩, ⟨.name "b", 7⟩, ⟨.colon, 8⟩, ⟨.name "B", 10⟩, ⟨.closeBrace, 11⟩] =
      .ok (.record [.field ⟨.name "a", 1⟩ (.name "A"), .field ⟨.name "b", 7⟩ (.name "B")], []) := by
    cbv
  have hscan'' : Scan.ofText (Text.trim "\x7b'x-y': A\x7d".toList) =
      ⟨[⟨.openBrace, 0⟩, ⟨.quoted '\x27' "x-y", 1⟩, ⟨.colon, 6⟩, ⟨.name "A", 8⟩,
        ⟨.closeBrace, 9⟩], .endOfText⟩ := by
    decide
  have hroot'' : Phrase.root [⟨.openBrace, 0⟩, ⟨.quoted '\x27' "x-y", 1⟩, ⟨.colon, 6⟩,
      ⟨.name "A", 8⟩, ⟨.closeBrace, 9⟩] =
      .ok (.record [.field ⟨.quoted '\x27' "x-y", 1⟩ (.name "A")], []) := by
    cbv
  have hparse : parse "\x7b'a: A; b': B\x7d" = .ok (.record [.field "a: A; b" (.name "B")]) :=
    parse_eq_ok_iff.mpr ⟨_, _, scan_eq_iff.mp hscan, root_eq_ok_iff.mp hroot, by cbv⟩
  have hparse' : parse "\x7ba: A, b: B\x7d" =
      .ok (.record [.field "a" (.name "A"), .field "b" (.name "B")]) :=
    parse_eq_ok_iff.mpr ⟨_, _, scan_eq_iff.mp hscan', root_eq_ok_iff.mp hroot', by cbv⟩
  have hparse'' : parse "\x7b'x-y': A\x7d" = .ok (.record [.field "x-y" (.name "A")]) :=
    parse_eq_ok_iff.mpr ⟨_, _, scan_eq_iff.mp hscan'', root_eq_ok_iff.mp hroot'', by cbv⟩
  refine ⟨⟨_, _, hparse, hparse', by cbv, by cbv, by decide⟩, _, hparse'', by cbv, by cbv, ?_⟩
  intro letters
  have hstart : letters.isStart 'x' = true := rfl
  have hsign : letters.isPart '-' = false := rfl
  simp [propertyName?, hstart, hsign]

end TypeExpr

end Ambient

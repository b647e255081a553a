import Ambient.Proofs.TypeExpr.Layout

/-!
# Outside the brackets

What stands outside all brackets of the text of a type decides how it goes together with what is
written around it: an arrow there takes in all that follows, and a bar what follows up to the next
one.

* `outside`, `bare`: the atoms outside all brackets;
* `Closed`: atoms that close the brackets they open;
* **`enclosed_of_fits`**: no arrow stands outside the brackets of the member of a union, and what is
  repeated by an ellipsis has neither arrow nor bar there unless it is a function type;
* **`bare_member`, `bare_operand`**: the same for all texts in the text of a type.
-/

namespace Ambient.TypeExpr

open Atom

namespace Atom

/-- A sign that opens brackets. -/
def isOpening : Atom → Bool
  | .sign c => ['(', '[', '\x7b', '<'].contains c
  | _ => false

/-- A sign that closes brackets. -/
def isClosing : Atom → Bool
  | .sign c => [')', ']', '\x7d', '>'].contains c
  | _ => false

/-- The atoms outside all brackets, of which some are open at first. -/
def outside : ℕ → List Atom → List Atom
  | _, [] => []
  | depth, a :: as =>
    if a.isOpening then outside (depth + 1) as
    else if a.isClosing then outside (depth - 1) as
    else if depth = 0 then a :: outside depth as
    else outside depth as

/-- The atoms of a text outside all brackets. -/
def bare (s : String) : List Atom := outside 0 (scan s.toList)

/-- Atoms that close the brackets they open, whatever follows. -/
def Closed (as : List Atom) : Prop :=
  ∀ depth rest, outside depth (as ++ rest) =
    (if depth = 0 then outside 0 as else []) ++ outside depth rest

variable {a : Atom} {as bs : List Atom} {lists : List (List Atom)}

theorem closed_nil : Closed [] := by
  intro depth rest
  simp [outside]

/-- An atom that is no bracket. -/
def IsPlain (a : Atom) : Prop := a.isOpening = false ∧ a.isClosing = false

theorem outside_cons (ha : a.IsPlain) (depth : ℕ) (as : List Atom) :
    outside depth (a :: as) = (if depth = 0 then [a] else []) ++ outside depth as := by
  rw [outside, ha.1, ha.2]
  by_cases hdepth : depth = 0 <;> simp [hdepth]

theorem Closed.cons (ha : a.IsPlain) (h : Closed as) : Closed (a :: as) := by
  intro depth rest
  rw [List.cons_append, outside_cons ha, h, outside_cons ha]
  by_cases hdepth : depth = 0 <;> simp [hdepth]

theorem Closed.outside_append (h : Closed as) (bs : List Atom) :
    outside 0 (as ++ bs) = outside 0 as ++ outside 0 bs := h 0 bs

theorem Closed.append (ha : Closed as) (hb : Closed bs) : Closed (as ++ bs) := by
  intro depth rest
  rw [List.append_assoc, ha, hb, ha.outside_append]
  by_cases hdepth : depth = 0 <;> simp [hdepth]

theorem outside_between {opening closing : Char} (hopening : isOpening (.sign opening) = true)
    (hclosing : isClosing (.sign closing) = true ∧ isOpening (.sign closing) = false)
    (h : Closed as) (depth : ℕ) (rest : List Atom) :
    outside depth (between opening closing as ++ rest) = outside depth rest := by
  have hopen : ∀ bs, outside depth (.sign opening :: bs) = outside (depth + 1) bs := by
    intro bs
    rw [outside, if_pos hopening]
  have hclose : outside (depth + 1) (.sign closing :: rest) = outside depth rest := by
    rw [outside, hclosing.2, hclosing.1]
    rfl
  rw [between, List.cons_append, List.append_assoc, hopen, h, if_neg (Nat.succ_ne_zero depth),
    List.nil_append, List.singleton_append, hclose]

/-- **Atoms in brackets** are closed, and nothing of them is outside. -/
theorem closed_between {opening closing : Char} (hopening : isOpening (.sign opening) = true)
    (hclosing : isClosing (.sign closing) = true ∧ isOpening (.sign closing) = false)
    (h : Closed as) :
    Closed (between opening closing as) ∧ outside 0 (between opening closing as) = [] := by
  have hnil : outside 0 (between opening closing as) = [] := by
    have hall := outside_between hopening hclosing h 0 []
    rwa [List.append_nil, outside] at hall
  refine ⟨fun depth rest => ?_, hnil⟩
  rw [outside_between hopening hclosing h, hnil, ite_self, List.nil_append]

theorem closed_joined {c : Char} (hc : (Atom.sign c).IsPlain) (h : ∀ as ∈ lists, Closed as) :
    Closed (joined c lists) ∧ ∀ b ∈ outside 0 (joined c lists),
      b = .sign c ∨ ∃ as ∈ lists, b ∈ outside 0 as := by
  induction lists with
  | nil => exact ⟨closed_nil, fun b hb => absurd hb List.not_mem_nil⟩
  | cons as later ih =>
    rw [List.forall_mem_cons] at h
    obtain ⟨hlater, hmem⟩ := ih h.2
    cases later with
    | nil =>
      rw [joined, List.intercalate_singleton]
      exact ⟨h.1, fun b hb => Or.inr ⟨as, List.mem_cons_self, hb⟩⟩
    | cons next later =>
      rw [joined, List.intercalate_cons_cons, List.append_assoc, List.singleton_append, ← joined]
      refine ⟨h.1.append (hlater.cons hc), fun b hb => ?_⟩
      rw [h.1.outside_append, outside_cons hc, List.mem_append, List.mem_append] at hb
      rcases hb with hb | hb | hb
      · exact Or.inr ⟨as, List.mem_cons_self, hb⟩
      · exact Or.inl (List.mem_singleton.mp hb)
      · rcases hmem b hb with rfl | ⟨cs, hcs, hb⟩
        · exact Or.inl rfl
        · exact Or.inr ⟨cs, List.mem_cons_of_mem _ hcs, hb⟩

/-- What is seen as one word from outside. -/
def Compact (as : List Atom) : Prop :=
  Closed as ∧ ∀ a ∈ outside 0 as, ∃ letters, a = .word letters

theorem Compact.arrow_notMem (h : Compact as) : Atom.arrow ∉ outside 0 as := by
  intro hmem
  obtain ⟨letters, hword⟩ := h.2 _ hmem
  cases hword

theorem Compact.sign_notMem (h : Compact as) (c : Char) : Atom.sign c ∉ outside 0 as := by
  intro hmem
  obtain ⟨letters, hword⟩ := h.2 _ hmem
  cases hword

theorem compact_nil : Compact [] := ⟨closed_nil, List.forall_mem_nil _⟩

theorem compact_word (letters : List Char) : Compact [.word letters] :=
  ⟨closed_nil.cons ⟨rfl, rfl⟩, fun _ ha => ⟨letters, List.mem_singleton.mp ha⟩⟩

theorem compact_between {opening closing : Char} (hopening : isOpening (.sign opening) = true)
    (hclosing : isClosing (.sign closing) = true ∧ isOpening (.sign closing) = false)
    (h : Closed as) : Compact (between opening closing as) := by
  obtain ⟨hclosed, houtside⟩ := closed_between hopening hclosing h
  refine ⟨hclosed, ?_⟩
  rw [houtside]
  exact List.forall_mem_nil _

theorem Compact.append (ha : Compact as) (hb : Compact bs) : Compact (as ++ bs) := by
  refine ⟨ha.1.append hb.1, ?_⟩
  rw [ha.1.outside_append, List.forall_mem_append]
  exact ⟨ha.2, hb.2⟩

theorem compact_applied (name : String) (h : ∀ as ∈ lists, Closed as) :
    Compact (applied name lists) :=
  (compact_word _).append (compact_between rfl ⟨rfl, rfl⟩ (closed_joined ⟨rfl, rfl⟩ h).1)

theorem closed_pair (name : String) (h : Closed as) : Closed (pair name as) :=
  (h.cons ⟨rfl, rfl⟩).cons ⟨rfl, rfl⟩

theorem compact_indexed (key : String) (h : Closed as) : Compact (indexed key as) := by
  have hkey : Compact (between '[' ']' (pair "index" [ofWord key])) :=
    compact_between rfl ⟨rfl, rfl⟩ (closed_pair _ (compact_word _).1)
  exact compact_between rfl ⟨rfl, rfl⟩ (hkey.1.append (h.cons ⟨rfl, rfl⟩))

/-- From outside, a function type is an arrow and what is outside its result. -/
theorem closed_arrowed {result : List Atom} (h : ∀ as ∈ lists, Closed as)
    (hresult : Closed result) :
    Closed (arrowed lists result) ∧
      outside 0 (arrowed lists result) = .arrow :: outside 0 result := by
  obtain ⟨hclosed, houtside⟩ : Closed (between '(' ')' (joined ',' lists)) ∧ _ :=
    closed_between rfl ⟨rfl, rfl⟩ (closed_joined ⟨rfl, rfl⟩ h).1
  refine ⟨hclosed.append (hresult.cons ⟨rfl, rfl⟩), ?_⟩
  rw [arrowed, hclosed.outside_append, houtside, outside_cons ⟨rfl, rfl⟩]
  rfl

end Atom

/-! ## Every type -/

/-- A function type, marks of nullability aside. -/
def isFunction : TypeExpr → Bool
  | .optional t | .nullable _ t | .nonNullable _ t => isFunction t
  | .function _ _ _ _ => true
  | _ => false

theorem Fits.isVariadic {t : TypeExpr} (h : Fits .inner t) : t.isVariadic = false := by
  cases h <;> rfl

/-- What stands outside the brackets of the text of a type, by the place where it stands. -/
structure Enclosed (t : TypeExpr) : Prop where
  closed : ∀ inUnion inVariadic, Closed (atomsAt inUnion inVariadic t)
  member : t.isVariadic = false → ∀ inVariadic, Atom.arrow ∉ outside 0 (atomsAt true inVariadic t)
  operand : t.isVariadic = false → t.isFunction = false → ∀ inUnion,
    Atom.arrow ∉ outside 0 (atomsAt inUnion true t) ∧
      Atom.sign '|' ∉ outside 0 (atomsAt inUnion true t)
  function : t.isFunction = true → ∀ inVariadic, Atom.arrow ∈ outside 0 (atomsAt false inVariadic t)

theorem Enclosed.of_compact {t : TypeExpr} (hfunction : t.isFunction = false)
    (h : ∀ inUnion inVariadic, Compact (atomsAt inUnion inVariadic t)) : Enclosed t := by
  constructor
  case closed => exact fun inUnion inVariadic => (h inUnion inVariadic).1
  case member => exact fun _ inVariadic => (h true inVariadic).arrow_notMem
  case operand =>
    exact fun _ _ inUnion => ⟨(h inUnion true).arrow_notMem, (h inUnion true).sign_notMem '|'⟩
  case function =>
    intro h
    rw [hfunction] at h
    cases h

theorem Enclosed.wrap {t u : TypeExpr}
    (hatoms : ∀ inUnion inVariadic, atomsAt inUnion inVariadic u = atomsAt inUnion inVariadic t)
    (hvariadic : t.isVariadic = false) (hfunction : u.isFunction = t.isFunction)
    (h : Enclosed t) : Enclosed u := by
  constructor
  case closed =>
    intro inUnion inVariadic
    rw [hatoms]
    exact h.closed inUnion inVariadic
  case member =>
    intro _ inVariadic
    rw [hatoms]
    exact h.member hvariadic inVariadic
  case operand =>
    intro _ hu inUnion
    rw [hatoms]
    exact h.operand hvariadic (hfunction ▸ hu) inUnion
  case function =>
    intro hu inVariadic
    rw [hatoms]
    exact h.function (hfunction ▸ hu) inVariadic

theorem mem_atomsOfEach {inUnion : Bool} {ts : List TypeExpr} {as : List Atom}
    (h : as ∈ atomsOfEach inUnion ts) : ∃ t ∈ ts, as = atomsAt inUnion false t := by
  induction ts with
  | nil => cases h
  | cons t ts ih =>
    rw [atomsOfEach] at h
    rcases List.mem_cons.mp h with rfl | h
    · exact ⟨t, List.mem_cons_self, rfl⟩
    · obtain ⟨u, hu, rfl⟩ := ih h
      exact ⟨u, List.mem_cons_of_mem _ hu, rfl⟩

theorem mem_atomsOfParams {ts : List TypeExpr} {as : List Atom} : ∀ {index : ℕ},
    as ∈ atomsOfParams index ts → ∃ name, ∃ t ∈ ts, as = pair name (atomsAt false false t) := by
  induction ts with
  | nil => exact fun h => absurd h List.not_mem_nil
  | cons t ts ih =>
    intro index h
    rw [atomsOfParams] at h
    rcases List.mem_cons.mp h with rfl | h
    · exact ⟨_, t, List.mem_cons_self, rfl⟩
    · obtain ⟨name, u, hu, rfl⟩ := ih h
      exact ⟨name, u, List.mem_cons_of_mem _ hu, rfl⟩

theorem closed_atomsOfFields {ts : List TypeExpr}
    (h : ∀ t ∈ ts, ∃ key value, t = .field key value ∧ Enclosed value) :
    ∀ as ∈ atomsOfFields ts, Closed as := by
  induction ts with
  | nil => exact List.forall_mem_nil _
  | cons t ts ih =>
    rw [List.forall_mem_cons] at h
    obtain ⟨⟨key, value, rfl, hvalue⟩, hts⟩ := h
    rw [atomsOfFields]
    exact List.forall_mem_cons.mpr ⟨closed_pair key (hvalue.closed false false), ih hts⟩

theorem closed_atomsOfEach {inUnion : Bool} {ts : List TypeExpr} (h : ∀ t ∈ ts, Enclosed t) :
    ∀ as ∈ atomsOfEach inUnion ts, Closed as := by
  intro as has
  obtain ⟨t, ht, rfl⟩ := mem_atomsOfEach has
  exact (h t ht).closed inUnion false

theorem enclosed_union {members : List TypeExpr}
    (hvariadic : ∀ t ∈ members, t.isVariadic = false) (h : ∀ t ∈ members, Enclosed t) :
    Enclosed (.union members) := by
  obtain ⟨hclosed, hmem⟩ := closed_joined (c := '|') ⟨rfl, rfl⟩ (closed_atomsOfEach h)
  have hparens : Compact (between '(' ')' (joined '|' (atomsOfEach true members))) :=
    compact_between rfl ⟨rfl, rfl⟩ hclosed
  constructor
  case closed =>
    intro inUnion inVariadic
    rw [atomsAt]
    cases inVariadic with
    | false => exact hclosed
    | true => exact hparens.1
  case member =>
    intro _ inVariadic harrow
    rw [atomsAt] at harrow
    cases inVariadic with
    | false =>
      rcases hmem _ harrow with h | ⟨as, has, harrow⟩
      · cases h
      · obtain ⟨t, ht, rfl⟩ := mem_atomsOfEach has
        exact (h t ht).member (hvariadic t ht) false harrow
    | true => exact hparens.arrow_notMem harrow
  case operand =>
    intro _ _ inUnion
    rw [atomsAt]
    exact ⟨hparens.arrow_notMem, hparens.sign_notMem '|'⟩
  case function => exact fun h => absurd h Bool.false_ne_true

theorem compact_named (n : String) : Compact (named n) := by
  rw [named]
  split
  · exact compact_word _
  · exact compact_applied _ fun as has => (List.eq_of_mem_replicate has).symm ▸ (compact_word _).1

theorem compact_application {base : String} {arguments : List TypeExpr}
    (h : ∀ t ∈ arguments, Enclosed t) (inUnion inVariadic : Bool) :
    Compact (atomsAt inUnion inVariadic (.application (.name base) arguments)) := by
  have hclosed : ∀ as ∈ atomsOfEach false arguments, Closed as := closed_atomsOfEach h
  rw [atomsAt]
  split_ifs
  · rw [indexAtoms.eq_def]
    split
    · rename_i heq
      rw [heq] at hclosed
      exact compact_indexed _ (hclosed _ List.mem_cons_self)
    · rename_i heq
      rw [heq] at hclosed
      exact compact_indexed _ (hclosed _ (List.mem_cons_of_mem _ List.mem_cons_self))
    · exact compact_nil
  · exact compact_word _
  · refine compact_applied _ (List.forall_mem_append.mpr ⟨hclosed, fun as has => ?_⟩)
    exact (List.eq_of_mem_replicate has).symm ▸ (compact_word _).1

theorem enclosed_function {params : List TypeExpr} {result thisType newType : TypeExpr}
    (hparams : ∀ t ∈ params, Enclosed t) (hresult : Enclosed result) :
    Enclosed (.function params result thisType newType) := by
  have hlists : ∀ as ∈ atomsOfParams 0 params, Closed as := by
    intro as has
    obtain ⟨name, t, ht, rfl⟩ := mem_atomsOfParams has
    exact closed_pair name ((hparams t ht).closed false false)
  have hresult' : Closed (resultAtoms result (atomsAt false false result)) := by
    by_cases habsent : result = .absent
    · rw [habsent]
      exact (compact_word _).1
    · rw [resultAtoms_of_ne habsent]
      exact hresult.closed false false
  obtain ⟨hclosed, houtside⟩ := closed_arrowed hlists hresult'
  have hparens : Compact (between '(' ')' (arrowed _ _)) :=
    compact_between rfl ⟨rfl, rfl⟩ hclosed
  constructor
  case closed =>
    intro inUnion inVariadic
    rw [atomsAt]
    cases inUnion with
    | false => exact hclosed
    | true => exact hparens.1
  case member =>
    intro _ inVariadic
    rw [atomsAt]
    exact hparens.arrow_notMem
  case operand => exact fun _ h => absurd h.symm Bool.false_ne_true
  case function =>
    intro _ inVariadic
    rw [atomsAt, inParens, if_neg Bool.false_ne_true, houtside]
    exact List.mem_cons_self

/-- **What stands outside the brackets** of a type that fits a place. -/
theorem enclosed_of_fits {site : Site} {t : TypeExpr} (h : Fits site t) :
    AtSite Enclosed site t := by
  refine fits_induction ?absent ?name ?all ?unknown ?void ?null ?undefined ?optional ?nullable
    ?nonNullable ?union ?tuple ?application ?function ?record ?variadic h
  case absent | all | unknown | void | null | undefined =>
    exact .of_compact rfl fun _ _ => by rw [atomsAt]; exact compact_word _
  case name =>
    refine fun n _ => .of_compact rfl fun _ _ => ?_
    rw [atomsAt]
    exact compact_named n
  case optional =>
    intro t ht ih
    exact ih.wrap (fun _ _ => by rw [atomsAt]) ht.isVariadic rfl
  case nullable | nonNullable =>
    intro _ t ht ih
    exact ih.wrap (fun _ _ => by rw [atomsAt]) ht.isVariadic rfl
  case union =>
    exact fun members _ hfits ih => enclosed_union (fun t ht => (hfits t ht).isVariadic) ih
  case tuple =>
    refine fun items => .of_compact rfl fun _ _ => ?_
    rw [atomsAt]
    exact compact_nil
  case application => exact fun base arguments _ _ ih => .of_compact rfl (compact_application ih)
  case function => exact fun params result _ _ ih ihresult => enclosed_function ih ihresult
  case record =>
    intro fields ih
    refine .of_compact rfl fun _ _ => ?_
    rw [atomsAt]
    exact compact_between rfl ⟨rfl, rfl⟩ (closed_joined ⟨rfl, rfl⟩ (closed_atomsOfFields ih)).1
  case variadic =>
    intro t _ ih
    have hclosed : ∀ inUnion inVariadic, Closed (atomsAt inUnion inVariadic (.variadic t)) := by
      intro inUnion inVariadic
      rw [atomsAt_variadic]
      exact (ih.closed false true).append (closed_between rfl ⟨rfl, rfl⟩ closed_nil).1
    constructor
    case closed => exact hclosed
    case member | operand => exact fun h => absurd h.symm Bool.false_ne_true
    case function => exact fun h => absurd h Bool.false_ne_true

/-! ## Types inside -/

theorem ShownIn.trans {t u v : TypeExpr} (hv : ShownIn v u) (hu : ShownIn u t) : ShownIn v t := by
  induction hu with
  | self => exact hv
  | inside hchild _ ih => exact .inside hchild ih

theorem eq_absent_of_shownIn {u : TypeExpr} (h : ShownIn u .absent) : u = .absent := by
  cases h with
  | self => rfl
  | inside hchild _ => cases hchild

/-- What shows right inside a type fits some place, if it is there at all. -/
theorem fits_of_mem_shown {site : Site} {t child : TypeExpr} (h : Fits site t)
    (hchild : child ∈ t.shown) : child = .absent ∨ ∃ site', Fits site' child := by
  have hthere : ∀ {u : TypeExpr} {site : Site}, (u ≠ .absent → Fits site u) → child = u →
      child = .absent ∨ ∃ site', Fits site' child := by
    rintro u site h rfl
    exact or_iff_not_imp_left.mpr fun hne => ⟨site, h hne⟩
  induction h with
  | name | all | unknown | void | null | undefined => cases hchild
  | nullable _ h | nonNullable _ h | optional h =>
    exact Or.inr ⟨_, List.mem_singleton.mp hchild ▸ h⟩
  | union _ h | tuple h | record h => exact Or.inr ⟨_, h child hchild⟩
  | application _ _ h =>
    rw [shown] at hchild
    split_ifs at hchild
    · cases hchild
    · exact Or.inr ⟨_, h child hchild⟩
  | function hparams hresult _ _ =>
    rw [shown] at hchild
    rcases List.mem_append.mp hchild with hchild | hchild
    · exact Or.inr ⟨_, hparams child hchild⟩
    · exact hthere hresult (List.mem_singleton.mp hchild)
  | member _ h => exact hthere h (List.mem_singleton.mp hchild)
  | plain _ ih | outer _ ih => exact ih hchild
  | @variadic t h =>
    rw [shown_variadic] at hchild
    by_cases ht : t = .absent
    · subst ht
      exact Or.inl (List.mem_singleton.mp hchild)
    · exact Or.inr ⟨_, List.mem_singleton.mp hchild ▸ (h ht).operand⟩

theorem fits_of_shownIn {t u : TypeExpr} (hu : ShownIn u t) : ∀ {site : Site}, Fits site t →
    u = .absent ∨ ∃ site', Fits site' u := by
  induction hu with
  | self => exact fun h => Or.inr ⟨_, h⟩
  | inside hchild hshown ih =>
    intro site h
    rcases fits_of_mem_shown h hchild with rfl | ⟨site', h⟩
    · exact Or.inl (eq_absent_of_shownIn hshown)
    · exact ih h

theorem fits_inner_of_union {site : Site} {members : List TypeExpr}
    (h : Fits site (.union members)) : ∀ t ∈ members, Fits .inner t := by
  generalize ht : TypeExpr.union members = t at h
  induction h with
  | union _ h =>
    cases ht
    exact h
  | plain _ ih | outer _ ih => exact ih ht
  | _ => cases ht

theorem fits_inner_of_variadic {site : Site} {t : TypeExpr} (h : Fits site (.variadic t)) :
    t ≠ .absent → Fits .inner t := by
  generalize hv : TypeExpr.variadic t = v at h
  induction h with
  | variadic h =>
    cases hv
    exact h
  | plain _ ih | outer _ ih => exact ih hv
  | _ => cases hv

theorem operand_eq_absent_or_fits {t : TypeExpr} (h : t ≠ .absent → Fits .inner t) :
    t.operand = .absent ∨ Fits .inner t.operand := by
  by_cases ht : t = .absent
  · subst ht
    exact Or.inl rfl
  · exact Or.inr (h ht).operand

theorem mem_of_eachAt {place : Place} {ts : List TypeExpr} {text : String} :
    ∀ {texts : List String}, eachAt place ts = .ok texts → text ∈ texts →
      ∃ t ∈ ts, declaredAt place t = .ok text := by
  induction ts with
  | nil =>
    intro texts htexts hmem
    cases htexts
    cases hmem
  | cons t ts ih =>
    intro texts htexts hmem
    obtain ⟨first, later, hfirst, hlater, rfl⟩ := eachAt_cons htexts
    rcases List.mem_cons.mp hmem with rfl | hmem
    · exact ⟨t, List.mem_cons_self, hfirst⟩
    · obtain ⟨u, hu, htext⟩ := ih hlater hmem
      exact ⟨u, List.mem_cons_of_mem _ hu, htext⟩

section

variable {n : TypeExpr} {site : Site}

/-- **A member of a union** has no arrow outside its brackets. -/
theorem bare_member (h : Fits site n) (hdeclared : ¬ n.ShowsUndeclarable) (hkeys : n.PlainKeys)
    {members : List TypeExpr} (hmembers : ShownIn (.union members) n) :
    ∃ texts, eachAt .unionMember members = .ok texts ∧
      ∀ text ∈ texts, Atom.arrow ∉ bare text := by
  obtain hunion | ⟨site', hunion⟩ := fits_of_shownIn hmembers h
  · cases hunion
  have hfits := fits_inner_of_union hunion
  have hrefused := refusedIff_eachAt .unionMember fun t ht => (settled_of_fits (hfits t ht)).1
  cases htexts : eachAt .unionMember members with
  | error e =>
    obtain ⟨t, ht, u, hu, hundeclarable⟩ := hrefused.1.mp ⟨e, htexts⟩
    exact absurd ⟨u, (ShownIn.inside ht hu).trans hmembers, hundeclarable⟩ hdeclared
  | ok texts =>
    refine ⟨texts, rfl, fun text htext => ?_⟩
    obtain ⟨t, ht, htext⟩ := mem_of_eachAt htexts htext
    have hplain : t.PlainKeys := fun u hu => hkeys u ((hu.trans (.inside ht .self)).trans hmembers)
    have hatoms := (laidOut_of_fits (hfits t ht)).1 hplain true false text htext
    rw [bare, hatoms.2.scan_eq]
    exact (enclosed_of_fits (hfits t ht)).1.member (hfits t ht).isVariadic false

/-- **What an ellipsis repeats** has neither arrow nor bar outside its brackets, unless it is a
function type. -/
theorem bare_operand (h : Fits site n) (hdeclared : ¬ n.ShowsUndeclarable) (hkeys : n.PlainKeys)
    {t : TypeExpr} (ht : ShownIn (.variadic t) n) :
    ∃ text, declaredAt .element t.operand = .ok text ∧
      (t.operand.isFunction = false ↔ Atom.arrow ∉ bare text ∧ Atom.sign '|' ∉ bare text) := by
  obtain hvariadic | ⟨site', hvariadic⟩ := fits_of_shownIn ht h
  · cases hvariadic
  rcases operand_eq_absent_or_fits (fits_inner_of_variadic hvariadic) with habsent | hfits
  · rw [habsent]
    exact ⟨"any", by rw [declaredAt], by decide⟩
  have hshown : ShownIn t.operand n := by
    refine (ShownIn.inside ?_ .self).trans ht
    rw [shown_variadic]
    exact List.mem_cons_self
  have hsettled : Settled t.operand := (settled_of_fits hfits).1
  cases htext : declaredAt .element t.operand with
  | error e =>
    obtain ⟨u, hu, hundeclarable⟩ := (hsettled .element).1.mp ⟨e, htext⟩
    exact absurd ⟨u, hu.trans hshown, hundeclarable⟩ hdeclared
  | ok text =>
    have hplain : t.operand.PlainKeys := fun u hu => hkeys u (hu.trans hshown)
    have hatoms := (laidOut_of_fits hfits).1 hplain false true text htext
    have henclosed : Enclosed t.operand := (enclosed_of_fits hfits).1
    refine ⟨text, rfl, ?_⟩
    rw [bare, hatoms.2.scan_eq]
    constructor
    · exact fun hfunction => henclosed.operand hfits.isVariadic hfunction false
    · rintro ⟨harrow, -⟩
      by_contra hfunction
      exact harrow (henclosed.function (Bool.not_eq_false _ ▸ hfunction) true)

end

end Ambient.TypeExpr

import Ambient.Proofs.TypeExpr.Alike

/-!
# Arguments that are left out

A known container gets `any` for every argument that is left out, and `any` is also what `?` stands
for. So it makes no difference whether the missing arguments are written as `?`: a container that
stands by itself looks its number of arguments up by its own name, one with arguments by the name it
is declared under, and both numbers are the same.

* `Name.arity_renameType`: a name has as many parameters as the name it is declared under;
* `padded`: a type with all arguments of its containers, at every depth;
* `alike_padded`: a type that fits a place is declared as the padded one is;
* **`declared_padded`**: padding changes nothing about the type of an accepted text.
-/

namespace Ambient

/-! ## Names of containers -/

namespace Name

/-- The names of the containers have no mark in them, and none is a name that others are declared
under. -/
theorem unmarked_of_arity {n : String} (h : arity n ≠ 0) :
    Unreserved n ∧ '_' ∉ n.toList ∧ n ≠ "EventTarget" ∧ n ≠ "goog.globalEventTarget" := by
  have hall : ∀ c ∈ containers, Unreserved c.1 ∧ '_' ∉ c.1.toList ∧ c.1 ≠ "EventTarget" ∧
      c.1 ≠ "goog.globalEventTarget" := by
    decide +kernel
  rw [arity] at h
  cases hlookup : containers.lookup n with
  | none => exact absurd (by rw [hlookup]; rfl) h
  | some k =>
    obtain ⟨l₁, l₂, hsplit, -⟩ := List.lookup_eq_some_iff.mp hlookup
    exact hall (n, k) (hsplit ▸ List.mem_append_right _ List.mem_cons_self)

theorem renameType_of_arity {n : String} (h : arity n ≠ 0) : renameType n = n := by
  obtain ⟨hunreserved, -, htarget, -⟩ := unmarked_of_arity h
  rw [renameType, renameReserved_eq_self_iff.mpr hunreserved, legacyRenames, List.lookup_cons,
    beq_eq_false_iff_ne.mpr htarget]
  rfl

/-- **A name has as many parameters** as the name it is declared under. -/
theorem arity_renameType (n : String) : arity (renameType n) = arity n := by
  by_cases h : arity (renameType n) = 0
  · by_cases hn : arity n = 0
    · rw [h, hn]
    · rw [renameType_of_arity hn]
  · obtain ⟨-, hmark, -, htarget⟩ := unmarked_of_arity h
    rw [renameType_eq_self hmark htarget]

/-- A container is neither written as an index signature nor without its arguments. -/
theorem ne_of_arity {n : String} (h : arity n ≠ 0) :
    n ≠ objectType ∧ isUnparameterized n = false := by
  constructor
  · rintro rfl
    exact h (by decide)
  · rw [Bool.eq_false_iff]
    intro hplain
    simp only [isUnparameterized, Bool.or_eq_true, beq_iff_eq] at hplain
    rcases hplain with rfl | rfl <;> exact h (by decide)

end Name

/-! ## Padded types -/

namespace TypeExpr

mutual

/-- A type whose containers have all their arguments: those that are left out are written as `?`. -/
def padded : TypeExpr → TypeExpr
  | .name n =>
    if Name.arity n = 0 then .name n
    else .application (.name n) (List.replicate (Name.arity n) .unknown)
  | .application (.name base) arguments =>
    .application (.name base)
      (paddedEach arguments ++ List.replicate (Name.arity base - arguments.length) .unknown)
  | .application base arguments => .application (padded base) (paddedEach arguments)
  | .optional t => .optional (padded t)
  | .nullable side t => .nullable side (padded t)
  | .nonNullable side t => .nonNullable side (padded t)
  | .union members => .union (paddedEach members)
  | .variadic t => .variadic (padded t)
  | .tuple items => .tuple (paddedEach items)
  | .function params result thisType newType =>
    .function (paddedEach params) (padded result) (padded thisType) (padded newType)
  | .field key t => .field key (padded t)
  | .record fields => .record (paddedEach fields)
  | .absent => .absent
  | .all => .all
  | .unknown => .unknown
  | .void => .void
  | .null => .null
  | .undefined => .undefined

/-- Several types with all arguments of their containers. -/
def paddedEach : List TypeExpr → List TypeExpr
  | [] => []
  | t :: ts => padded t :: paddedEach ts

end

variable {t : TypeExpr} {ts : List TypeExpr}

theorem paddedEach_eq_map : ∀ ts : List TypeExpr, paddedEach ts = ts.map padded
  | [] => by rw [paddedEach, List.map_nil]
  | t :: ts => by rw [paddedEach, paddedEach_eq_map ts, List.map_cons]

/-- What an ellipsis repeats is padded with the type after it. -/
theorem operand_padded (t : TypeExpr) : t.padded.operand = t.operand.padded := by
  cases t with
  | tuple items =>
    rcases items with _ | ⟨item, _ | ⟨item', items⟩⟩ <;> simp only [padded, paddedEach, operand]
  | name n =>
    have hname : (TypeExpr.name n).operand = .name n := rfl
    rw [hname, padded]
    split_ifs <;> rfl
  | application base arguments => cases base <;> simp only [padded, operand]
  | _ => simp only [padded, operand]

/-! ## Texts of containers -/

theorem eachAt_append_unknown (place : Place) (k : ℕ) (ts : List TypeExpr) :
    eachAt place (ts ++ List.replicate k .unknown) =
      eachAt place ts >>= fun texts => .ok (texts ++ List.replicate k "any") := by
  induction ts with
  | nil =>
    rw [List.nil_append, eachAt, ok_bind, List.nil_append]
    induction k with
    | zero => rfl
    | succ k ih => rw [List.replicate_succ, eachAt, declaredAt, ok_bind, ih, ok_bind]; rfl
  | cons t ts ih =>
    rw [List.cons_append, eachAt, eachAt, ih]
    cases declaredAt place t with
    | error e => rfl
    | ok text => cases eachAt place ts <;> rfl

/-- A container gets `any` for the arguments that are left out. -/
theorem declaredAt_container {base : String} (h : Name.arity base ≠ 0) (place : Place)
    (ts : List TypeExpr) : declaredAt place (.application (.name base) ts) =
      eachAt .alone ts >>= fun texts => .ok (withArguments (Name.renameType base)
        (texts ++ List.replicate (Name.arity base - texts.length) "any")) := by
  obtain ⟨hobject, hplain⟩ := Name.ne_of_arity h
  rw [declaredAt, declaredAt_base, ok_bind, Name.arity_renameType, Name.renameType_of_arity h,
    if_neg hobject, hplain]
  rfl

/-- **An application that is completed** has the text it had before. -/
theorem declaredAt_completed (place : Place) (base : String) (ts : List TypeExpr) :
    declaredAt place (.application (.name base)
        (ts ++ List.replicate (Name.arity base - ts.length) .unknown)) =
      declaredAt place (.application (.name base) ts) := by
  by_cases h : Name.arity base = 0
  · rw [h, Nat.zero_sub, List.replicate_zero, List.append_nil]
  · rw [declaredAt_container h, declaredAt_container h, eachAt_append_unknown]
    cases htexts : eachAt .alone ts with
    | error e => rfl
    | ok texts =>
      have hlength := length_of_eachAt htexts
      rw [ok_bind, ok_bind, ok_bind, List.append_assoc, List.replicate_append_replicate]
      congr 4
      rw [List.length_append, List.length_replicate]
      omega

/-- A container by itself has the text of the one with all its arguments. -/
theorem declaredAt_bare {n : String} (h : Name.arity n ≠ 0) {place : Place}
    (hplace : place.asBase = false) :
    declaredAt place (.application (.name n) (List.replicate (Name.arity n) .unknown)) =
      declaredAt place (.name n) := by
  have hcompleted := declaredAt_completed place n []
  rw [List.nil_append, List.length_nil, Nat.sub_zero] at hcompleted
  rw [hcompleted, declaredAt_container h, eachAt, ok_bind, declaredAt, nameText, hplace,
    if_pos ⟨h, rfl⟩]
  rfl

/-! ## Padding -/

/-- A type is declared as the padded one is. -/
def KeptByPadding (t : TypeExpr) : Prop := Alike .same t t.padded

theorem KeptByPadding.forall₂ (h : ∀ t ∈ ts, KeptByPadding t) :
    List.Forall₂ (Alike .same) ts (paddedEach ts) := by
  rw [paddedEach_eq_map, List.forall₂_map_right_iff, List.forall₂_same]
  exact h

theorem KeptByPadding.members
    (h : ∀ t ∈ ts, ∃ key value, t = .field key value ∧ KeptByPadding value) :
    List.Forall₂ (AlikeMembers .same) ts (paddedEach ts) := by
  rw [paddedEach_eq_map, List.forall₂_map_right_iff, List.forall₂_same]
  intro t ht
  obtain ⟨key, value, rfl, hvalue⟩ := h t ht
  exact ⟨key, value, value.padded, rfl, by rw [padded], hvalue⟩

/-- **A type that fits a place** is declared as the padded one is. -/
theorem alike_padded {site : Site} (h : Fits site t) : AtSite KeptByPadding site t := by
  refine fits_induction ?absent ?name ?all ?unknown ?void ?null ?undefined ?optional ?nullable
    ?nonNullable ?union ?tuple ?application ?function ?record ?variadic h
  case absent | all | unknown | void | null | undefined =>
    rw [KeptByPadding, padded]
    exact .refl _
  case name =>
    intro n _
    rw [KeptByPadding, padded]
    split_ifs with h
    · exact .refl _
    · refine .of_ordinary rfl rfl fun place hplace => ?_
      exact (declaredAt_bare h hplace).symm
  case optional =>
    intro t _ ih
    rw [KeptByPadding, padded]
    exact ih.optional
  case nullable =>
    intro side t _ ih
    rw [KeptByPadding, padded]
    exact ih.nullable side
  case nonNullable =>
    intro side t _ ih
    rw [KeptByPadding, padded]
    exact ih.nonNullable side
  case union =>
    intro members _ _ ih
    rw [KeptByPadding, padded]
    exact .union (KeptByPadding.forall₂ ih)
  case tuple =>
    intro items
    rw [KeptByPadding, padded]
    exact .tuple _ _
  case application =>
    intro base arguments _ _ ih
    have hall := KeptByPadding.forall₂ ih
    rw [KeptByPadding, padded, hall.length_eq]
    refine .of_ordinary rfl rfl fun place hplace => ?_
    have htext : declaredAt place (.application (.name base) arguments) =
        declaredAt place (.application (.name base) (paddedEach arguments)) :=
      (Alike.application base hall).text place hplace
    exact htext.trans (declaredAt_completed place base _).symm
  case function =>
    intro params result thisType newType ih ihresult
    rw [KeptByPadding, padded]
    exact .function (KeptByPadding.forall₂ ih) ihresult _ _ _ _
  case record =>
    intro fields ih
    rw [KeptByPadding, padded]
    exact .record (KeptByPadding.members ih)
  case variadic =>
    intro t _ ih
    rw [KeptByPadding, padded]
    refine .variadic ?_
    rw [operand_padded]
    exact ih.text .element rfl

/-- **Padding changes nothing.** The type of an accepted text is declared by the same text, or
refused for the same reason, when the missing arguments of its containers are written as `?`. -/
theorem declared_padded {text : String} {n : TypeExpr} (h : parse text = .ok n) :
    n.padded.declared = n.declared := by
  have hkept : KeptByPadding n := alike_padded (fits_of_parse h)
  exact (hkept.text .alone rfl).symm

theorem declared_padded_union :
    parse "Array.<Map>|goog.Promise.<A>" =
        .ok (.union [.application (.name "Array") [.name "Map"],
          .application (.name "goog.Promise") [.name "A"]]) ∧
      (TypeExpr.union [.application (.name "Array")
          [.application (.name "Map") [.unknown, .unknown]],
        .application (.name "goog.Promise") [.name "A", .unknown]]).declared =
      (TypeExpr.union [.application (.name "Array") [.name "Map"],
        .application (.name "goog.Promise") [.name "A"]]).declared := by
  have hscan : Scan.ofText (Text.trim "Array.<Map>|goog.Promise.<A>".toList) =
      ⟨[⟨.name "Array", 0⟩, ⟨.dotLess, 5⟩, ⟨.name "Map", 7⟩, ⟨.greater, 10⟩, ⟨.bar, 11⟩,
        ⟨.name "goog.Promise", 12⟩, ⟨.dotLess, 24⟩, ⟨.name "A", 26⟩, ⟨.greater, 27⟩],
        .endOfText⟩ := by
    decide
  have hroot : Phrase.root [⟨.name "Array", 0⟩, ⟨.dotLess, 5⟩, ⟨.name "Map", 7⟩, ⟨.greater, 10⟩,
      ⟨.bar, 11⟩, ⟨.name "goog.Promise", 12⟩, ⟨.dotLess, 24⟩, ⟨.name "A", 26⟩, ⟨.greater, 27⟩] =
      .ok (.union [.application "Array" true [.name "Map"],
        .application "goog.Promise" true [.name "A"]], []) := by
    cbv
  have hparse : parse "Array.<Map>|goog.Promise.<A>" =
      .ok (.union [.application (.name "Array") [.name "Map"],
        .application (.name "goog.Promise") [.name "A"]]) :=
    parse_eq_ok_iff.mpr ⟨_, _, scan_eq_iff.mp hscan, root_eq_ok_iff.mp hroot, rfl⟩
  exact ⟨hparse, declared_padded hparse⟩

end TypeExpr

end Ambient

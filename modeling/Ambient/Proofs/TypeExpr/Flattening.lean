import Ambient.Proofs.TypeExpr.Alike
import Ambient.Proofs.TypeExpr.Outside
import Mathlib.Logic.Relation

/-!
# Unions in unions

A union whose members are unions is declared as the one that has their members in place: the
members of both are told apart by bars alone, and a mark of nullability leaves no trace.

* `Frame`: a type with a place left open right inside;
* `Spreads`, `Flattens`: the members that stand for a member of a union, and one union put into
  another one, at any depth;
* `pieces`: the members of the full flattening;
* `Alike.fill`: a type with a part that is declared alike;
* `alike_of_flattens`: a step of flattening;
* **`declared_flattened`**: flattening changes nothing about the type of an accepted text, and the
  text of a union is that of its full flattening.
-/

namespace Ambient.TypeExpr

/-! ## Places inside a type -/

/-- A type with a place left open right inside. The base of an application is a name and the member
of a record has a key, so that no place is left open for these two. -/
inductive Frame
  | optional
  | nullable (side : Side)
  | nonNullable (side : Side)
  | variadic
  | union (before after : List TypeExpr)
  | tuple (before after : List TypeExpr)
  | argument (base : String) (before after : List TypeExpr)
  | param (before after : List TypeExpr) (result thisType newType : TypeExpr)
  | returned (params : List TypeExpr) (thisType newType : TypeExpr)
  | thisLabelled (params : List TypeExpr) (result newType : TypeExpr)
  | newLabelled (params : List TypeExpr) (result thisType : TypeExpr)
  | member (before : List TypeExpr) (key : String) (after : List TypeExpr)

/-- The type with another one in its open place. -/
def Frame.fill : Frame → TypeExpr → TypeExpr
  | .optional, t => .optional t
  | .nullable side, t => .nullable side t
  | .nonNullable side, t => .nonNullable side t
  | .variadic, t => .variadic t
  | .union before after, t => .union (before ++ t :: after)
  | .tuple before after, t => .tuple (before ++ t :: after)
  | .argument base before after, t => .application (.name base) (before ++ t :: after)
  | .param before after result thisType newType, t =>
    .function (before ++ t :: after) result thisType newType
  | .returned params thisType newType, t => .function params t thisType newType
  | .thisLabelled params result newType, t => .function params result t newType
  | .newLabelled params result thisType, t => .function params result thisType t
  | .member before key after, t => .record (before ++ .field key t :: after)

/-- A type is a part of another one: the other one itself, or a part of what fills a place in it. -/
inductive Within (t : TypeExpr) : TypeExpr → Prop
  | self : Within t t
  | inside (f : Frame) {u : TypeExpr} (h : Within t u) : Within t (f.fill u)

/-! ## Flattening -/

/-- The members that stand for one member of a union if that is a union itself, with or without
marks of nullability before it. A mark is left out or goes to each of them. -/
inductive Spreads : TypeExpr → List TypeExpr → Prop
  | union (t : TypeExpr) (ts : List TypeExpr) : Spreads (.union (t :: ts)) (t :: ts)
  | nullable (side : Side) {t : TypeExpr} {ts : List TypeExpr} (h : Spreads t ts) :
      Spreads (.nullable side t) ts
  | nonNullable (side : Side) {t : TypeExpr} {ts : List TypeExpr} (h : Spreads t ts) :
      Spreads (.nonNullable side t) ts
  | nullableEach (side : Side) {t : TypeExpr} {ts : List TypeExpr} (h : Spreads t ts) :
      Spreads (.nullable side t) (ts.map (.nullable side))
  | nonNullableEach (side : Side) {t : TypeExpr} {ts : List TypeExpr} (h : Spreads t ts) :
      Spreads (.nonNullable side t) (ts.map (.nonNullable side))

/-- One type is another one with the members of one union put in place of it in the union around
it, anywhere. -/
inductive Flattens : TypeExpr → TypeExpr → Prop
  | spread (before after : List TypeExpr) {t : TypeExpr} {ts : List TypeExpr} (h : Spreads t ts) :
      Flattens (.union (before ++ t :: after)) (.union (before ++ ts ++ after))
  | inside (f : Frame) {t u : TypeExpr} (h : Flattens t u) : Flattens (f.fill t) (f.fill u)

/-- A union, with or without marks of nullability. -/
def isUnion : TypeExpr → Bool
  | .union _ => true
  | .nullable _ t | .nonNullable _ t => isUnion t
  | _ => false

mutual

/-- The members of the full flattening of a member of a union: those of its own members if it is a
union, and otherwise that member. -/
def pieces : TypeExpr → List TypeExpr
  | .union ts => piecesOfEach ts
  | .nullable side t => if t.isUnion then pieces t else [.nullable side t]
  | .nonNullable side t => if t.isUnion then pieces t else [.nonNullable side t]
  | t => [t]

/-- The members of the full flattening of several members of a union. -/
def piecesOfEach : List TypeExpr → List TypeExpr
  | [] => []
  | t :: ts => pieces t ++ piecesOfEach ts

end

variable {R : Comparison} {t u : TypeExpr} {ts us : List TypeExpr}

/-! ## Types with a part that is declared alike -/

theorem forall₂_replace {α : Type} {r : α → α → Prop} (hrefl : ∀ a, r a a) {a b : α} (h : r a b)
    (before after : List α) : List.Forall₂ r (before ++ a :: after) (before ++ b :: after) :=
  List.rel_append (List.forall₂_same.mpr fun a _ => hrefl a)
    (.cons h (List.forall₂_same.mpr fun a _ => hrefl a))

/-- The members of a record, one of which has a type that is declared alike. -/
theorem rel_fieldTexts_replace (h : Alike R t u) (key : String) (before after : List TypeExpr) :
    R.rel (fieldTexts (before ++ .field key t :: after))
      (fieldTexts (before ++ .field key u :: after)) := by
  induction before with
  | nil =>
    rw [List.nil_append, List.nil_append, fieldTexts, fieldTexts]
    exact R.bind (h.text .alone rfl) fun _ => R.refl _
  | cons first before ih =>
    cases first with
    | field key' v =>
      rw [List.cons_append, List.cons_append, fieldTexts, fieldTexts]
      exact R.bind (R.refl _) fun _ => R.bind ih fun _ => R.refl _
    | _ => exact R.refl _

/-- A type with a part that is declared alike, also after an ellipsis. -/
theorem Alike.fill (f : Frame) (h : Alike R t u)
    (hoperand : Alike R t.operand u.operand) : Alike R (f.fill t) (f.fill u) := by
  cases f with
  | optional => exact h.optional
  | nullable side => exact h.nullable side
  | nonNullable side => exact h.nonNullable side
  | variadic => exact .variadic (hoperand.text .element rfl)
  | union before after => exact .union (forall₂_replace .refl h before after)
  | tuple before after => exact .tuple _ _
  | argument base before after => exact .application base (forall₂_replace .refl h before after)
  | param before after result thisType newType =>
    exact .function (forall₂_replace .refl h before after) (.refl result) _ _ _ _
  | returned params thisType newType =>
    exact .function (List.forall₂_same.mpr fun t _ => .refl t) h _ _ _ _
  | thisLabelled params result newType | newLabelled params result thisType =>
    exact .function (List.forall₂_same.mpr fun t _ => .refl t) (.refl result) _ _ _ _
  | member before key after =>
    refine .of_ordinary rfl rfl fun place _ => ?_
    rw [Frame.fill, Frame.fill, declaredAt, declaredAt]
    exact R.bind (rel_fieldTexts_replace h key before after) fun _ => R.refl _

/-- What an ellipsis repeats is the filled type itself, or what fills it if it is an array literal
with no other item. -/
theorem operand_fill (f : Frame) :
    (∀ t, (f.fill t).operand = f.fill t) ∨ ∀ t, (f.fill t).operand = t := by
  cases f with
  | tuple before after =>
    rcases before with _ | ⟨first, before⟩
    · rcases after with _ | ⟨second, after⟩
      · exact Or.inr fun _ => rfl
      · exact Or.inl fun _ => rfl
    · rcases before with _ | ⟨second, before⟩ <;> exact Or.inl fun _ => rfl
  | _ => exact Or.inl fun _ => rfl

/-! ## The text of a union -/

theorem eachAt_append (place : Place) (ts us : List TypeExpr) :
    eachAt place (ts ++ us) = eachAt place ts >>= fun texts => eachAt place us >>= fun later =>
      .ok (texts ++ later) := by
  induction ts with
  | nil =>
    rw [List.nil_append, eachAt, ok_bind]
    cases eachAt place us <;> rfl
  | cons t ts ih =>
    rw [List.cons_append, eachAt, eachAt, ih]
    cases declaredAt place t with
    | error e => rfl
    | ok text =>
      cases eachAt place ts with
      | error e => rfl
      | ok texts => cases eachAt place us <;> rfl

theorem eachAt_map (place : Place) {f : TypeExpr → TypeExpr}
    (hf : ∀ t, declaredAt place (f t) = declaredAt place t) (ts : List TypeExpr) :
    eachAt place (ts.map f) = eachAt place ts := by
  induction ts with
  | nil => rfl
  | cons t ts ih => rw [List.map_cons, eachAt, eachAt, hf, ih]

/-- Texts with bars between them, one of which is made of texts with bars between them. -/
theorem intercalate_spread {texts : List String} (h : texts ≠ []) (before after : List String) :
    String.intercalate "|" (before ++ String.intercalate "|" texts :: after) =
      String.intercalate "|" (before ++ texts ++ after) := by
  have hafter : String.intercalate "|" (String.intercalate "|" texts :: after) =
      String.intercalate "|" (texts ++ after) := by
    cases after with
    | nil => rw [String.intercalate_singleton, List.append_nil]
    | cons next after =>
      rw [String.intercalate_cons_cons, Text.intercalate_append "|" h (List.cons_ne_nil _ _)]
  cases before with
  | nil => exact hafter
  | cons first before =>
    rw [List.append_assoc, Text.intercalate_append "|" (List.cons_ne_nil _ _)
      (List.cons_ne_nil _ _), hafter, Text.intercalate_append "|" (List.cons_ne_nil _ _)
      (List.append_ne_nil_of_left_ne_nil h _)]

theorem Spreads.ne_nil (h : Spreads t ts) : ts ≠ [] := by
  induction h with
  | union t ts => exact List.cons_ne_nil _ _
  | nullable _ _ ih | nonNullable _ _ ih => exact ih
  | nullableEach _ _ ih | nonNullableEach _ _ ih => exact List.map_eq_nil_iff.not.mpr ih

/-- A union in a union is written as its members are, with bars between them. -/
theorem Spreads.declaredAt_eq (h : Spreads t ts) : declaredAt .unionMember t =
    eachAt .unionMember ts >>= fun texts => .ok (String.intercalate "|" texts) := by
  induction h with
  | union t ts =>
    rw [declaredAt]
    rfl
  | nullable _ _ ih | nonNullable _ _ ih =>
    rw [declaredAt]
    exact ih
  | nullableEach _ _ ih | nonNullableEach _ _ ih =>
    rw [declaredAt, eachAt_map]
    · exact ih
    · exact fun t => by rw [declaredAt]; rfl

/-- **The text of a union** with the members of one of its members in place of that member. -/
theorem declaredAt_spread (h : Spreads t ts) (place : Place) (before after : List TypeExpr) :
    declaredAt place (.union (before ++ t :: after)) =
      declaredAt place (.union (before ++ ts ++ after)) := by
  rw [declaredAt, declaredAt, eachAt_append, eachAt_append, eachAt_append, eachAt,
    h.declaredAt_eq]
  cases eachAt .unionMember before with
  | error e => rfl
  | ok first =>
    cases htexts : eachAt .unionMember ts with
    | error e => rfl
    | ok texts =>
      have hne : texts ≠ [] := by
        rintro rfl
        exact h.ne_nil (List.length_eq_zero_iff.mp (length_of_eachAt htexts).symm)
      cases eachAt .unionMember after with
      | error e => rfl
      | ok later =>
        simp only [ok_bind]
        rw [intercalate_spread hne]

/-- **A step of flattening** leaves a type that is declared alike, also after an ellipsis. -/
theorem alike_of_flattens (h : Flattens t u) :
    Alike .same t u ∧ Alike .same t.operand u.operand := by
  induction h with
  | spread before after h =>
    have hunion : Alike .same (.union (before ++ _ :: after)) (.union (before ++ _ ++ after)) :=
      .of_ordinary rfl rfl fun place _ => declaredAt_spread h place before after
    exact ⟨hunion, hunion⟩
  | @inside f t u _ ih =>
    have hfill : Alike .same (f.fill t) (f.fill u) := .fill f ih.1 ih.2
    refine ⟨hfill, ?_⟩
    rcases operand_fill f with hf | hf
    · rwa [hf, hf]
    · rw [hf, hf]
      exact ih.1

/-! ## The full flattening -/

theorem pieces_of_not_isUnion (h : t.isUnion = false) : t.pieces = [t] := by
  cases t with
  | union ts => cases h
  | nullable side t | nonNullable side t =>
    rw [isUnion] at h
    rw [pieces, h]
    rfl
  | _ => rw [pieces]; all_goals exact nofun

/-- The full flattening of a member of a union: the members it stands for can be put in its place
and flattened further, whatever stands around them, and none is a union in the end. -/
structure Flattenable (t : TypeExpr) : Prop where
  spreads : t.isUnion = true → ∃ ts, Spreads t ts ∧ ∀ before after,
    Relation.ReflTransGen Flattens (.union (before ++ ts ++ after))
      (.union (before ++ t.pieces ++ after))
  plain : ∀ u ∈ t.pieces, u.isUnion = false

theorem flattens_piecesOfEach (h : ∀ t ∈ ts, Flattenable t) : ∀ before after,
    Relation.ReflTransGen Flattens (.union (before ++ ts ++ after))
      (.union (before ++ piecesOfEach ts ++ after)) := by
  induction ts with
  | nil =>
    intro before after
    rw [piecesOfEach]
  | cons t ts ih =>
    intro before after
    rw [List.forall_mem_cons] at h
    have hlater := ih h.2 (before ++ t.pieces) after
    rw [piecesOfEach, ← List.append_assoc before]
    refine Relation.ReflTransGen.trans ?_ hlater
    rw [List.append_assoc, List.append_assoc, List.append_assoc, List.cons_append]
    cases hunion : t.isUnion with
    | false =>
      rw [pieces_of_not_isUnion hunion, List.singleton_append]
    | true =>
      obtain ⟨members, hspreads, hmembers⟩ := h.1.spreads hunion
      have hall := hmembers before (ts ++ after)
      rw [List.append_assoc _ t.pieces] at hall
      exact .head (.spread before (ts ++ after) hspreads) hall

theorem isUnion_of_mem_piecesOfEach (h : ∀ t ∈ ts, Flattenable t) :
    ∀ u ∈ piecesOfEach ts, u.isUnion = false := by
  induction ts with
  | nil =>
    intro u hu
    rw [piecesOfEach] at hu
    cases hu
  | cons t ts ih =>
    rw [List.forall_mem_cons] at h
    rw [piecesOfEach, List.forall_mem_append]
    exact ⟨h.1.plain, ih h.2⟩

theorem Flattenable.of_not_isUnion (h : t.isUnion = false) : Flattenable t := by
  constructor
  case spreads =>
    intro hunion
    rw [h] at hunion
    cases hunion
  case plain =>
    rw [pieces_of_not_isUnion h]
    exact List.forall_mem_singleton.mpr h

/-- A mark of nullability changes nothing about the members of a union. -/
theorem Flattenable.marked {marked : TypeExpr} (h : Flattenable t)
    (hunion : marked.isUnion = t.isUnion) (hspreads : ∀ ts, Spreads t ts → Spreads marked ts)
    (hpieces : marked.pieces = if t.isUnion then t.pieces else [marked]) :
    Flattenable marked := by
  cases hmarked : t.isUnion with
  | false => exact .of_not_isUnion (hunion.trans hmarked)
  | true =>
    rw [if_pos hmarked] at hpieces
    obtain ⟨ts, hts, hflattens⟩ := h.spreads hmarked
    constructor
    case spreads =>
      intro _
      rw [hpieces]
      exact ⟨ts, hspreads ts hts, hflattens⟩
    case plain =>
      rw [hpieces]
      exact h.plain

theorem flattenable_of_fits {site : Site} (h : Fits site t) : AtSite Flattenable site t := by
  refine fits_induction ?absent ?name ?all ?unknown ?void ?null ?undefined ?optional ?nullable
    ?nonNullable ?union ?tuple ?application ?function ?record ?variadic h
  case union =>
    intro members hne _ ih
    obtain ⟨first, later, rfl⟩ := List.exists_cons_of_ne_nil hne
    constructor
    case spreads =>
      refine fun _ => ⟨first :: later, .union first later, fun before after => ?_⟩
      rw [pieces]
      exact flattens_piecesOfEach ih before after
    case plain =>
      rw [pieces]
      exact isUnion_of_mem_piecesOfEach ih
  case nullable =>
    exact fun side t _ ih => ih.marked rfl (fun _ hts => .nullable side hts) (by rw [pieces])
  case nonNullable =>
    exact fun side t _ ih => ih.marked rfl (fun _ hts => .nonNullable side hts) (by rw [pieces])
  all_goals intros; exact .of_not_isUnion rfl

/-! ## The unions of an accepted text -/

/-- What fills a place of a type that fits fits some place itself, if it is there at all. -/
theorem fits_of_fill {site : Site} {f : Frame} (h : Fits site (f.fill t)) :
    t = .absent ∨ ∃ site', Fits site' t := by
  have hthere : ∀ {site : Site}, (t ≠ .absent → Fits site t) →
      t = .absent ∨ ∃ site', Fits site' t :=
    fun h => or_iff_not_imp_left.mpr fun hne => ⟨_, h hne⟩
  generalize hu : f.fill t = u at h
  induction h with
  | name | all | unknown | void | null | undefined | member => cases f <;> cases hu
  | nullable _ h | nonNullable _ h | optional h =>
    cases f <;> cases hu
    exact Or.inr ⟨_, h⟩
  | union _ h | tuple h | application _ _ h =>
    cases f <;> cases hu
    exact Or.inr ⟨_, h t (List.mem_append_right _ List.mem_cons_self)⟩
  | function hparams hresult hthis hnew =>
    cases f <;> cases hu
    · exact Or.inr ⟨_, hparams t (List.mem_append_right _ List.mem_cons_self)⟩
    · exact hthere hresult
    · exact hthere hthis
    · exact hthere hnew
  | record h =>
    cases f <;> cases hu
    cases h _ (List.mem_append_right _ List.mem_cons_self) with
    | member _ h => exact hthere h
  | plain _ ih | outer _ ih => exact ih hu
  | variadic h =>
    cases f <;> cases hu
    exact hthere h

theorem eq_absent_of_within (h : Within t .absent) : t = .absent := by
  generalize hu : TypeExpr.absent = u at h
  cases h with
  | self => rfl
  | inside f h => cases f <;> cases hu

theorem fits_of_within (h : Within t u) : ∀ {site : Site}, Fits site u →
    t = .absent ∨ ∃ site', Fits site' t := by
  induction h with
  | self => exact fun h => Or.inr ⟨_, h⟩
  | inside f hwithin ih =>
    intro site h
    rcases fits_of_fill h with rfl | ⟨site', h⟩
    · exact Or.inl (eq_absent_of_within hwithin)
    · exact ih h

/-- **Flattening changes nothing.** The type of an accepted text is declared by the same text, or
refused for the same reason, when unions anywhere in it are put in place among the members of the
unions around them. So a union anywhere in it has the text of its full flattening: that of its
members that are no unions, in their order, each as a member of a union, with bars between them. -/
theorem declared_flattened {text : String} {n : TypeExpr} (h : parse text = .ok n) :
    (∀ n', Relation.ReflTransGen Flattens n n' → n'.declared = n.declared) ∧
    ∀ members, Within (.union members) n →
      Relation.ReflTransGen Flattens (.union members) (.union (piecesOfEach members)) ∧
      (∀ t ∈ piecesOfEach members, t.isUnion = false) ∧
      ∀ place, declaredAt place (.union members) =
        eachAt .unionMember (piecesOfEach members) >>= fun texts =>
          .ok (parenthesize place.inVariadic (String.intercalate "|" texts)) := by
  have hsame : ∀ {t u : TypeExpr}, Relation.ReflTransGen Flattens t u →
      ∀ place : Place, place.asBase = false → declaredAt place t = declaredAt place u := by
    intro t u htu place hplace
    induction htu with
    | refl => rfl
    | tail _ hstep ih => exact ih.trans ((alike_of_flattens hstep).1.text place hplace)
  refine ⟨fun n' hn' => (hsame hn' .alone rfl).symm, fun members hmembers => ?_⟩
  obtain hunion | ⟨site, hunion⟩ := fits_of_within hmembers (fits_of_parse h)
  · cases hunion
  have hflattenable : ∀ t ∈ members, Flattenable t := fun t ht =>
    (flattenable_of_fits (fits_inner_of_union hunion t ht)).1
  have hflattens : Relation.ReflTransGen Flattens (.union members)
      (.union (piecesOfEach members)) := by
    have hall := flattens_piecesOfEach hflattenable [] []
    rwa [List.nil_append, List.nil_append, List.append_nil, List.append_nil] at hall
  refine ⟨hflattens, isUnion_of_mem_piecesOfEach hflattenable, fun place => ?_⟩
  have htext := hsame hflattens ⟨place.inUnion, place.inVariadic, false⟩ rfl
  rw [declaredAt, declaredAt] at htext
  rw [declaredAt]
  exact htext

theorem declared_flattened_groups :
    parse "...(function():(A|(B))|?((C)|D))" =
        .ok (.variadic (.union [.function [] (.union [.name "A", .union [.name "B"]])
          .absent .absent, .nullable .before (.union [.union [.name "C"], .name "D"])])) ∧
      (TypeExpr.variadic (.union [.function [] (.union [.name "A", .name "B"]) .absent .absent,
        .name "C", .name "D"])).declared = .ok "((() => A|B)|C|D)[]" ∧
      ∀ place, declaredAt place (.union [.union [.name "C"], .name "D"]) =
        eachAt .unionMember [.name "C", .name "D"] >>= fun texts =>
          .ok (parenthesize place.inVariadic (String.intercalate "|" texts)) := by
  have hscan : Scan.ofText (Text.trim "...(function():(A|(B))|?((C)|D))".toList) =
      ⟨[⟨.ellipsis, 0⟩, ⟨.openParen, 3⟩, ⟨.function, 4⟩, ⟨.openParen, 12⟩, ⟨.closeParen, 13⟩,
        ⟨.colon, 14⟩, ⟨.openParen, 15⟩, ⟨.name "A", 16⟩, ⟨.bar, 17⟩, ⟨.openParen, 18⟩,
        ⟨.name "B", 19⟩, ⟨.closeParen, 20⟩, ⟨.closeParen, 21⟩, ⟨.bar, 22⟩, ⟨.question, 23⟩,
        ⟨.openParen, 24⟩, ⟨.openParen, 25⟩, ⟨.name "C", 26⟩, ⟨.closeParen, 27⟩, ⟨.bar, 28⟩,
        ⟨.name "D", 29⟩, ⟨.closeParen, 30⟩, ⟨.closeParen, 31⟩], .endOfText⟩ := by
    decide
  have hroot : Phrase.root [⟨.ellipsis, 0⟩, ⟨.openParen, 3⟩, ⟨.function, 4⟩, ⟨.openParen, 12⟩,
      ⟨.closeParen, 13⟩, ⟨.colon, 14⟩, ⟨.openParen, 15⟩, ⟨.name "A", 16⟩, ⟨.bar, 17⟩,
      ⟨.openParen, 18⟩, ⟨.name "B", 19⟩, ⟨.closeParen, 20⟩, ⟨.closeParen, 21⟩, ⟨.bar, 22⟩,
      ⟨.question, 23⟩, ⟨.openParen, 24⟩, ⟨.openParen, 25⟩, ⟨.name "C", 26⟩, ⟨.closeParen, 27⟩,
      ⟨.bar, 28⟩, ⟨.name "D", 29⟩, ⟨.closeParen, 30⟩, ⟨.closeParen, 31⟩] =
      .ok (.variadic (.group [.functionTo [] (.group [.name "A", .group [.name "B"]]),
        .lead .question (.group [.group [.name "C"], .name "D"])]), []) := by
    cbv
  have hparse : parse "...(function():(A|(B))|?((C)|D))" = .ok _ :=
    parse_eq_ok_iff.mpr ⟨_, _, scan_eq_iff.mp hscan, root_eq_ok_iff.mp hroot, rfl⟩
  have hwithin : Within (.union [.union [.name "C"], .name "D"]) (.variadic (.union
      [.function [] (.union [.name "A", .union [.name "B"]]) .absent .absent,
        .nullable .before (.union [.union [.name "C"], .name "D"])])) :=
    .inside .variadic (.inside (.union [_] []) (.inside (.nullable .before) .self))
  refine ⟨hparse, ?_, ((declared_flattened hparse).2 _ hwithin).2.2⟩
  -- The union behind the mark is put in place first, then the two unions with one member.
  rw [(declared_flattened hparse).1 _ ?_]
  · decide +kernel
  refine .head (.inside .variadic (.spread [_] [] (.nullable .before (.union _ _)))) ?_
  refine .head (.inside .variadic (.spread [_] [_] (.union _ _))) ?_
  refine .head (.inside .variadic (.inside (.union [] _) (.inside (.returned _ _ _)
    (.spread [_] [] (.union _ _))))) ?_
  exact .refl

end Ambient.TypeExpr

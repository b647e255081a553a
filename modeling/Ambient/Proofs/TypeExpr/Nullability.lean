import Ambient.Proofs.TypeExpr.Alike

/-!
# Marks of nullability

Every declared type admits null, so a mark of nullability leaves no trace: a type that has a text
has it also without any of the marks in it, wherever they stand.

* `Erased`: a type with some of its marks left out;
* `alike_of_erased`: whatever has been left out of a type that fits a place, its text stays;
* **`declared_erased`**: marks of nullability can be left out of the type of an accepted text.
-/

namespace Ambient.TypeExpr

/-- One type is another one without some of its marks of nullability, at any depth. -/
inductive Erased : TypeExpr → TypeExpr → Prop
  | same (t : TypeExpr) : Erased t t
  | dropNullable {side : Side} {t u : TypeExpr} (h : Erased t u) : Erased (.nullable side t) u
  | dropNonNullable {side : Side} {t u : TypeExpr} (h : Erased t u) : Erased (.nonNullable side t) u
  | nullable {side : Side} {t u : TypeExpr} (h : Erased t u) :
      Erased (.nullable side t) (.nullable side u)
  | nonNullable {side : Side} {t u : TypeExpr} (h : Erased t u) :
      Erased (.nonNullable side t) (.nonNullable side u)
  | optional {t u : TypeExpr} (h : Erased t u) : Erased (.optional t) (.optional u)
  | variadic {t u : TypeExpr} (h : Erased t u) : Erased (.variadic t) (.variadic u)
  | union {ts us : List TypeExpr} (h : List.Forall₂ Erased ts us) : Erased (.union ts) (.union us)
  | tuple {ts us : List TypeExpr} (h : List.Forall₂ Erased ts us) : Erased (.tuple ts) (.tuple us)
  | application {base base' : TypeExpr} {ts us : List TypeExpr} (hbase : Erased base base')
      (h : List.Forall₂ Erased ts us) : Erased (.application base ts) (.application base' us)
  | function {ts us : List TypeExpr} {result result' thisType thisType' newType newType' : TypeExpr}
      (h : List.Forall₂ Erased ts us) (hresult : Erased result result')
      (hthis : Erased thisType thisType') (hnew : Erased newType newType') :
      Erased (.function ts result thisType newType) (.function us result' thisType' newType')
  | field {key : String} {t u : TypeExpr} (h : Erased t u) : Erased (.field key t) (.field key u)
  | record {ts us : List TypeExpr} (h : List.Forall₂ Erased ts us) :
      Erased (.record ts) (.record us)

/-- Whatever marks are left out of a type, its text is kept. -/
def KeptByErasure (t : TypeExpr) : Prop := ∀ u, Erased t u → Alike .kept t u

variable {t u : TypeExpr} {ts us : List TypeExpr}

theorem KeptByErasure.forall₂ (h : ∀ t ∈ ts, KeptByErasure t) (hus : List.Forall₂ Erased ts us) :
    List.Forall₂ (Alike .kept) ts us := by
  induction hus with
  | nil => exact .nil
  | cons hhead _ ih =>
    rw [List.forall_mem_cons] at h
    exact .cons (h.1 _ hhead) (ih h.2)

theorem KeptByErasure.members
    (h : ∀ t ∈ ts, ∃ key value, t = .field key value ∧ KeptByErasure value)
    (hus : List.Forall₂ Erased ts us) : List.Forall₂ (AlikeMembers .kept) ts us := by
  induction hus with
  | nil => exact .nil
  | cons hhead _ ih =>
    rw [List.forall_mem_cons] at h
    obtain ⟨⟨key, value, rfl, hvalue⟩, hrest⟩ := h
    refine .cons ?_ (ih hrest)
    cases hhead with
    | same => exact ⟨key, value, value, rfl, rfl, .refl _⟩
    | field hu => exact ⟨key, value, _, rfl, rfl, hvalue _ hu⟩

/-- After an ellipsis too: what is inside an array literal is passed over only if the literal stands
there without a mark, and another one has no text that could be lost. -/
theorem KeptByErasure.operand (h : KeptByErasure t.operand) (hu : Erased t u) :
    ∀ s, t.operand.declaredAt .element = .ok s → u.operand.declaredAt .element = .ok s := by
  intro s hs
  rcases operand_cases t with ⟨item, rfl⟩ | ht
  · cases hu with
    | same => exact hs
    | tuple hus =>
      cases hus with
      | cons hitem hnil =>
        cases hnil
        exact (h _ hitem).text .element rfl s hs
  · rw [ht] at h hs
    have htext : u.declaredAt .element = .ok s := (h u hu).text .element rfl s hs
    rcases operand_cases u with ⟨item, rfl⟩ | hoperand
    · rw [declaredAt] at htext
      cases htext
    · rwa [hoperand]

/-- A mark that is left out: the text of a marked type is the one inside. -/
theorem Alike.dropped {marked : TypeExpr} (ht : Fits .inner t) (hmarked : marked.isOrdinary = true)
    (htext : ∀ place : Place, marked.declaredAt place =
      t.declaredAt { place with asBase := false })
    (h : Alike .kept t u) : Alike .kept marked u := by
  refine .of_ordinary hmarked (h.isOrdinary ht.isOrdinary) fun place hplace => ?_
  have hsame : { place with asBase := false } = place := by
    rw [← hplace]
  rw [htext, hsame]
  exact h.text place hplace

/-- **A type that fits a place** keeps its text without any of the marks in it. -/
theorem alike_of_erased {site : Site} (h : Fits site t) : AtSite KeptByErasure site t := by
  refine fits_induction ?absent ?name ?all ?unknown ?void ?null ?undefined ?optional ?nullable
    ?nonNullable ?union ?tuple ?application ?function ?record ?variadic h
  case absent | all | unknown | void | null | undefined =>
    rintro u ⟨⟩
    exact .refl _
  case name =>
    rintro n - u ⟨⟩
    exact .refl _
  case optional =>
    intro t _ ih u hu
    cases hu with
    | same => exact .refl _
    | optional hu => exact (ih _ hu).optional
  case nullable =>
    intro side t ht ih u hu
    cases hu with
    | same => exact .refl _
    | nullable hu => exact (ih _ hu).nullable side
    | dropNullable hu =>
      refine (ih _ hu).dropped ht rfl fun place => ?_
      rw [declaredAt]
  case nonNullable =>
    intro side t ht ih u hu
    cases hu with
    | same => exact .refl _
    | nonNullable hu => exact (ih _ hu).nonNullable side
    | dropNonNullable hu =>
      refine (ih _ hu).dropped ht rfl fun place => ?_
      rw [declaredAt]
  case union =>
    intro members _ _ ih u hu
    cases hu with
    | same => exact .refl _
    | union hus => exact .union (KeptByErasure.forall₂ ih hus)
  case tuple =>
    -- An array literal is refused whatever is in it.
    intro items u hu
    cases hu with
    | same => exact .refl _
    | tuple hus => exact .tuple _ _
  case application =>
    intro base arguments _ _ ih u hu
    cases hu with
    | same => exact .refl _
    | application hbase hus =>
      -- The base of an accepted application is a name, so nothing is left out there.
      cases hbase
      exact .application base (KeptByErasure.forall₂ ih hus)
  case function =>
    intro params result thisType newType ih ihresult u hu
    cases hu with
    | same => exact .refl _
    | function hus hresult _ _ =>
      exact .function (KeptByErasure.forall₂ ih hus) (ihresult _ hresult) _ _ _ _
  case record =>
    intro fields ih u hu
    cases hu with
    | same => exact .refl _
    | record hus => exact .record (KeptByErasure.members ih hus)
  case variadic =>
    intro t ht ih u hu
    cases hu with
    | same => exact .refl _
    | variadic hu => exact .variadic (KeptByErasure.operand ih hu)

/-- **Marks of nullability leave no trace.** If the type of an accepted text can be declared, then
it can be declared without any of the marks of nullability in it, and by the same text. -/
theorem declared_erased {text s : String} {n n' : TypeExpr} (h : parse text = .ok n)
    (hs : n.declared = .ok s) (herased : Erased n n') : n'.declared = .ok s := by
  have hkept : KeptByErasure n := alike_of_erased (fits_of_parse h)
  exact (hkept n' herased).text .alone rfl s hs

theorem declared_erased_function :
    parse "function(?A=,...!B):C?" =
        .ok (.function [.optional (.nullable .before (.name "A")),
          .variadic (.nonNullable .before (.name "B"))] (.nullable .after (.name "C"))
          .absent .absent) ∧
      (TypeExpr.function [.optional (.name "A"), .variadic (.nonNullable .before (.name "B"))]
        (.name "C") .absent .absent).declared = .ok "(arg0?: A, ...arg1: B[]) => C" := by
  have hscan : Scan.ofText (Text.trim "function(?A=,...!B):C?".toList) =
      ⟨[⟨.function, 0⟩, ⟨.openParen, 8⟩, ⟨.question, 9⟩, ⟨.name "A", 10⟩, ⟨.equals, 11⟩,
        ⟨.comma, 12⟩, ⟨.ellipsis, 13⟩, ⟨.bang, 16⟩, ⟨.name "B", 17⟩, ⟨.closeParen, 18⟩,
        ⟨.colon, 19⟩, ⟨.name "C", 20⟩, ⟨.question, 21⟩], .endOfText⟩ := by
    decide
  have hroot : Phrase.root [⟨.function, 0⟩, ⟨.openParen, 8⟩, ⟨.question, 9⟩, ⟨.name "A", 10⟩,
      ⟨.equals, 11⟩, ⟨.comma, 12⟩, ⟨.ellipsis, 13⟩, ⟨.bang, 16⟩, ⟨.name "B", 17⟩,
      ⟨.closeParen, 18⟩, ⟨.colon, 19⟩, ⟨.name "C", 20⟩, ⟨.question, 21⟩] =
      .ok (.functionTo [.optional (.lead .question (.name "A")),
        .variadic (.lead .bang (.name "B"))] (.trail (.name "C") .question), []) := by
    cbv
  have hparse : parse "function(?A=,...!B):C?" = .ok _ :=
    parse_eq_ok_iff.mpr ⟨_, _, scan_eq_iff.mp hscan, root_eq_ok_iff.mp hroot, rfl⟩
  refine ⟨hparse, declared_erased hparse ?_ ?_⟩
  · decide +kernel
  · exact .function (.cons (.optional (.dropNullable (.same _))) (.cons (.same _) .nil))
      (.dropNullable (.same _)) (.same _) (.same _)

end Ambient.TypeExpr

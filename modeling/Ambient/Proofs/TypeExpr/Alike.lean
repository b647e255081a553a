import Ambient.Proofs.TypeExpr.Refused
import Mathlib.Data.List.Forall2

/-!
# Types that are declared alike

Two types whose parts are declared alike are declared alike themselves, as long as the parts look
the same from outside: a parameter is marked by what its type is, and nothing stands for a result
that is not written. What "alike" means is left open as far as every step of a computation keeps it.

* `Comparison`: a way to compare results; `Comparison.same`, `Comparison.kept`;
* `Alike`: two types that look the same from outside and whose texts compare;
* `rel_eachAt`, `rel_paramsFrom`, `rel_fieldTexts`: the texts of parts that are alike;
* **`Alike.union`, `Alike.application`, `Alike.function`, `Alike.record`, `Alike.variadic`**: types
  with such parts.
-/

namespace Ambient.TypeExpr

/-! ## Comparing results -/

/-- A way to compare results that every step of a computation keeps. -/
structure Comparison where
  rel : ∀ {α : Type}, Except Refusal α → Except Refusal α → Prop
  refl : ∀ {α : Type} (x : Except Refusal α), rel x x
  bind : ∀ {α β : Type} {x y : Except Refusal α} {f g : α → Except Refusal β},
    rel x y → (∀ a, rel (f a) (g a)) → rel (x >>= f) (y >>= g)

namespace Comparison

/-- Both results are the same. -/
def same : Comparison where
  rel x y := x = y
  refl _ := rfl
  bind := by
    rintro α β x _ f g rfl hfg
    rw [funext hfg]

/-- What the first one gives is given by the second one. -/
def kept : Comparison where
  rel x y := ∀ a, x = .ok a → y = .ok a
  refl _ _ h := h
  bind := by
    intro α β x y f g hxy hfg b hb
    obtain ⟨a, ha, hb⟩ := bind_eq_ok.mp hb
    rw [hxy a ha, ok_bind, hfg a b hb]

end Comparison

/-! ## Types -/

/-- A type that is written, and that a parameter is not marked for. -/
def isOrdinary : TypeExpr → Bool
  | .absent | .optional _ | .variadic _ => false
  | _ => true

theorem isOrdinary_iff {t : TypeExpr} : t.isOrdinary = true ↔
    t ≠ .absent ∧ t.isOptional = false ∧ t.isVariadic = false := by
  cases t <;> simp [isOrdinary, isOptional, isVariadic]

theorem Fits.isOrdinary {t : TypeExpr} (h : Fits .inner t) : t.isOrdinary = true := by
  cases h <;> rfl

/-- Two types that look the same from outside, and whose texts compare wherever they stand. -/
structure Alike (R : Comparison) (t u : TypeExpr) : Prop where
  written : t = .absent ↔ u = .absent
  isOptional : u.isOptional = t.isOptional
  isVariadic : u.isVariadic = t.isVariadic
  text : ∀ place : Place, place.asBase = false → R.rel (t.declaredAt place) (u.declaredAt place)

variable {R : Comparison} {t u : TypeExpr} {ts us : List TypeExpr}

namespace Alike

theorem refl (t : TypeExpr) : Alike R t t := ⟨Iff.rfl, rfl, rfl, fun _ _ => R.refl _⟩

theorem isOrdinary (h : Alike R t u) (ht : t.isOrdinary = true) : u.isOrdinary = true := by
  rw [isOrdinary_iff] at ht ⊢
  rwa [h.isOptional, h.isVariadic, Ne, ← h.written]

theorem of_ordinary (ht : t.isOrdinary = true) (hu : u.isOrdinary = true)
    (htext : ∀ place : Place, place.asBase = false →
      R.rel (t.declaredAt place) (u.declaredAt place)) : Alike R t u := by
  obtain ⟨htw, hto, htv⟩ := isOrdinary_iff.mp ht
  obtain ⟨huw, huo, huv⟩ := isOrdinary_iff.mp hu
  exact ⟨iff_of_false htw huw, huo.trans hto.symm, huv.trans htv.symm, htext⟩

end Alike

/-! ## Parts -/

theorem rel_eachAt (h : List.Forall₂ (Alike R) ts us) {place : Place}
    (hplace : place.asBase = false) : R.rel (eachAt place ts) (eachAt place us) := by
  induction h with
  | nil => exact R.refl _
  | cons hhead _ ih =>
    rw [eachAt, eachAt]
    exact R.bind (hhead.text place hplace) fun _ => R.bind ih fun _ => R.refl _

theorem rel_paramsFrom (h : List.Forall₂ (Alike R) ts us) :
    ∀ index, R.rel (paramsFrom index ts) (paramsFrom index us) := by
  induction h with
  | nil => exact fun _ => R.refl _
  | cons hhead _ ih =>
    intro index
    rw [paramsFrom, paramsFrom, parameterName, parameterName, hhead.isOptional, hhead.isVariadic]
    exact R.bind (hhead.text .alone rfl) fun _ => R.bind (ih (index + 1)) fun _ => R.refl _

/-- Two members of a record with the same key and types that are alike. -/
def AlikeMembers (R : Comparison) (t u : TypeExpr) : Prop :=
  ∃ key v w, t = .field key v ∧ u = .field key w ∧ Alike R v w

theorem rel_fieldTexts (h : List.Forall₂ (AlikeMembers R) ts us) :
    R.rel (fieldTexts ts) (fieldTexts us) := by
  induction h with
  | nil => exact R.refl _
  | cons hhead _ ih =>
    obtain ⟨key, v, w, rfl, rfl, hvalue⟩ := hhead
    rw [fieldTexts, fieldTexts]
    exact R.bind (hvalue.text .alone rfl) fun _ => R.bind ih fun _ => R.refl _

/-- The text of the result of a function type, empty if it is not written. -/
def resultAlone : TypeExpr → Except Refusal String
  | .absent => .ok ""
  | t => declaredAt .alone t

theorem resultAlone_of_ne (h : t ≠ .absent) : resultAlone t = declaredAt .alone t := by
  rw [resultAlone]
  exact h

theorem declaredAt_function (place : Place) (params : List TypeExpr)
    (result thisType newType : TypeExpr) :
    declaredAt place (.function params result thisType newType) =
      paramsFrom 0 params >>= fun params => resultAlone result >>= fun result =>
        .ok (functionType place.inUnion params result) := by
  rw [declaredAt]
  cases result <;> rfl

theorem rel_resultAlone (h : Alike R t u) : R.rel (resultAlone t) (resultAlone u) := by
  by_cases ht : t = .absent
  · rw [ht, h.written.mp ht]
    exact R.refl _
  · rw [resultAlone_of_ne ht, resultAlone_of_ne fun hu => ht (h.written.mpr hu)]
    exact h.text .alone rfl

/-! ## Types with parts -/

namespace Alike

theorem optional (h : Alike R t u) : Alike R (.optional t) (.optional u) := by
  refine ⟨iff_of_false TypeExpr.noConfusion TypeExpr.noConfusion, rfl, rfl, fun place _ => ?_⟩
  rw [declaredAt, declaredAt]
  exact h.text _ rfl

theorem nullable (side : Side) (h : Alike R t u) :
    Alike R (.nullable side t) (.nullable side u) := by
  refine of_ordinary rfl rfl fun place _ => ?_
  rw [declaredAt, declaredAt]
  exact h.text _ rfl

theorem nonNullable (side : Side) (h : Alike R t u) :
    Alike R (.nonNullable side t) (.nonNullable side u) := by
  refine of_ordinary rfl rfl fun place _ => ?_
  rw [declaredAt, declaredAt]
  exact h.text _ rfl

theorem union (h : List.Forall₂ (Alike R) ts us) : Alike R (.union ts) (.union us) := by
  refine of_ordinary rfl rfl fun place _ => ?_
  rw [declaredAt, declaredAt]
  exact R.bind (rel_eachAt h rfl) fun _ => R.refl _

theorem tuple (ts us : List TypeExpr) : Alike R (.tuple ts) (.tuple us) := by
  refine of_ordinary rfl rfl fun place _ => ?_
  rw [declaredAt, declaredAt]
  exact R.refl _

theorem application (base : String) (h : List.Forall₂ (Alike R) ts us) :
    Alike R (.application (.name base) ts) (.application (.name base) us) := by
  refine of_ordinary rfl rfl fun place _ => ?_
  rw [declaredAt, declaredAt, h.length_eq]
  refine R.bind (R.refl _) fun text => ?_
  split_ifs
  · exact R.bind (rel_eachAt h rfl) fun _ => R.refl _
  · exact R.refl _
  · exact R.refl _
  · exact R.bind (rel_eachAt h rfl) fun _ => R.refl _

theorem record (h : List.Forall₂ (AlikeMembers R) ts us) : Alike R (.record ts) (.record us) := by
  refine of_ordinary rfl rfl fun place _ => ?_
  rw [declaredAt, declaredAt]
  exact R.bind (rel_fieldTexts h) fun _ => R.refl _

/-- The labelled types do not matter. -/
theorem function (h : List.Forall₂ (Alike R) ts us) (hresult : Alike R t u)
    (thisType newType thisType' newType' : TypeExpr) :
    Alike R (.function ts t thisType newType) (.function us u thisType' newType') := by
  refine of_ordinary rfl rfl fun place _ => ?_
  rw [declaredAt_function, declaredAt_function]
  exact R.bind (rel_paramsFrom h 0) fun _ => R.bind (rel_resultAlone hresult) fun _ => R.refl _

theorem variadic (h : R.rel (t.operand.declaredAt .element) (u.operand.declaredAt .element)) :
    Alike R (.variadic t) (.variadic u) := by
  refine ⟨iff_of_false TypeExpr.noConfusion TypeExpr.noConfusion, rfl, rfl, fun place _ => ?_⟩
  rw [declaredAt_variadic, declaredAt_variadic]
  exact R.bind h fun _ => R.refl _

end Alike

end Ambient.TypeExpr

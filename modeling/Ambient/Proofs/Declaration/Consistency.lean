import Ambient.Proofs.Declaration.Effect

/-!
# Consistent registers

After every run the classes that are found are the classes that are printed, and the constructor and
the static members of a class fit its kind.

* `ClassEntry.FitsKind`, `Namespace.Sound`: what every step keeps;
* `Entry.Fits`: what a declaration must be for its place, and `fits_of_recorded`: that it is so;
* `sound_classify`, `sound_after`: from a step to a run;
* **`registers_consistent`**: every namespace is `Namespace.Consistent` after every part of a list
  of statements without empty names.
-/

namespace Ambient.Declaration

open Ambient.Script (Statement)

variable {filter : Name.Filter} {ns ns' : Namespace}

/-- The constructor and the members of a class fit its kind: what has a constructor can be
constructed, and an interface has no static members. -/
structure ClassEntry.FitsKind (c : ClassEntry) : Prop where
  signature_iff : c.signature.isSome ↔ c.kind = .constructible
  methods_interface : c.kind = .interface → ∀ f ∈ c.methods, f.isStatic = false
  properties_interface : c.kind = .interface → ∀ v ∈ c.properties, v.isStatic = false

/-- What every step keeps of a namespace. -/
structure Namespace.Sound (ns : Namespace) : Prop where
  registered : ns.Registered
  classes_fit : ∀ c ∈ ns.classes, c.FitsKind
  vars_instance : ∀ v ∈ ns.vars, v.isStatic = false
  functions_instance : ∀ f ∈ ns.functions, f.isStatic = false

/-- A static member needs a class as its owner that can be constructed. -/
def StaticFits (ns : Namespace) (owner : Option String) (isStatic : Bool) : Prop :=
  isStatic = true → ∃ n c, owner = some n ∧ ns.findClass? n = some c ∧ c.kind = .constructible

/-- A declaration fits its place in a namespace. -/
def Entry.Fits (ns : Namespace) (owner : Option String) : Entry → Prop
  | .class c => c.signature.isSome ↔ c.kind = .constructible
  | .function f => StaticFits ns owner f.isStatic
  | .variable v => StaticFits ns owner v.isStatic
  | _ => True

theorem StaticFits.of_none {isStatic : Bool} (h : StaticFits ns none isStatic) :
    isStatic = false := by
  by_contra hs
  obtain ⟨n, c, hn, -⟩ := h (by simpa using hs)
  cases hn

theorem StaticFits.of_interface {isStatic : Bool} {n : String} {c : ClassEntry}
    (h : StaticFits ns (some n) isStatic) (hc : ns.findClass? n = some c)
    (hkind : c.kind = .interface) : isStatic = false := by
  by_contra hs
  obtain ⟨_, d, hn, hd, hdkind⟩ := h (by simpa using hs)
  obtain rfl := Option.some.inj hn
  obtain rfl : c = d := Option.some.inj (hc.symm.trans hd)
  rw [hkind] at hdkind
  cases hdkind

/-! ## What a step keeps -/

theorem Namespace.sound_empty : Namespace.empty.Sound where
  registered := registered_empty
  classes_fit := by simp [empty]
  vars_instance := by simp [empty]
  functions_instance := by simp [empty]

/-- What holds of every element also holds of every element of a list with one put at its end. -/
theorem forall_mem_concat {α : Type} {P : α → Prop} {l : List α} {a : α} (h : ∀ e ∈ l, P e)
    (ha : P a) : ∀ e ∈ l ++ [a], P e :=
  List.forall_mem_append.mpr ⟨h, List.forall_mem_singleton.mpr ha⟩

namespace ClassEntry.FitsKind

variable {c : ClassEntry}

theorem addMethod (h : c.FitsKind) {f : Function} (hf : c.kind = .interface → f.isStatic = false) :
    FitsKind { c with methods := c.methods ++ [f] } :=
  ⟨h.signature_iff, fun hkind => forall_mem_concat (h.methods_interface hkind) (hf hkind),
    h.properties_interface⟩

theorem addProperty (h : c.FitsKind) {v : Variable}
    (hv : c.kind = .interface → v.isStatic = false) :
    FitsKind { c with properties := c.properties ++ [v] } :=
  ⟨h.signature_iff, h.methods_interface,
    fun hkind => forall_mem_concat (h.properties_interface hkind) (hv hkind)⟩

end ClassEntry.FitsKind

namespace Namespace.Sound

/-- A class may be changed to one that fits its kind too. -/
theorem replace {name : String} {before after : List ClassEntry} {c d : ClassEntry}
    (hns : ns.Sound) (hc : ns.Latest name before c after) (hd : c.FitsKind → d.FitsKind)
    (hreg : Registered { ns with classes := before ++ d :: after }) :
    Sound { ns with classes := before ++ d :: after } := by
  have hall := hns.classes_fit
  rw [hc.classes_eq, List.forall_mem_append, List.forall_mem_cons] at hall
  obtain ⟨hbefore, hfit, hafter⟩ := hall
  refine ⟨hreg, ?_, hns.vars_instance, hns.functions_instance⟩
  exact List.forall_mem_append.mpr ⟨hbefore, List.forall_mem_cons.mpr ⟨hd hfit, hafter⟩⟩

theorem gains {owner : Option String} {entry : Entry} (hns : ns.Sound)
    (hentry : entry.Fits ns owner) (h : ns.Gains owner entry ns') : ns'.Sound := by
  have hreg := h.registered hns.registered
  cases h with
  | «variable» v =>
    have hvars := forall_mem_concat hns.vars_instance (StaticFits.of_none hentry)
    exact ⟨hreg, hns.classes_fit, hvars, hns.functions_instance⟩
  | function f =>
    have hfunctions := forall_mem_concat hns.functions_instance (StaticFits.of_none hentry)
    exact ⟨hreg, hns.classes_fit, hns.vars_instance, hfunctions⟩
  | typeAlias _ a => exact ⟨hreg, hns.classes_fit, hns.vars_instance, hns.functions_instance⟩
  | enumeration _ e => exact ⟨hreg, hns.classes_fit, hns.vars_instance, hns.functions_instance⟩
  | «class» _ c hmethods hproperties =>
    have hc : c.FitsKind := ⟨hentry, by simp [hmethods], by simp [hproperties]⟩
    have hclasses := forall_mem_concat hns.classes_fit hc
    exact ⟨hreg, hclasses, hns.vars_instance, hns.functions_instance⟩
  | method f hfound hc =>
    exact hns.replace hc (fun hfit => hfit.addMethod fun hkind => hentry.of_interface hfound hkind)
      hreg
  | property v hfound hc =>
    exact hns.replace hc
      (fun hfit => hfit.addProperty fun hkind => hentry.of_interface hfound hkind) hreg

end Namespace.Sound

/-! ## What is recorded fits its place -/

/-- No segment of the name that a statement declares is empty. -/
def Named (s : Statement) : Prop := ∀ segments, s.path? = .ok (some segments) → "" ∉ segments

instance (s : Statement) : Decidable (Named s) :=
  match h : s.path? with
  | .ok (some segments) => decidable_of_iff ("" ∉ segments) (by simp [Named, h])
  | .ok none => .isTrue (by simp [Named, h])
  | .error _ => .isTrue (by simp [Named, h])

section Recorded

variable {m : Model} {s : Statement} {sub : Subject} {place : Placement} {entry : Entry}

theorem staticFits_of_placed (hpath : "" ∉ sub.path) (hplace : Placed m sub place) :
    StaticFits ((m.get? place.path).getD .empty) place.owner place.isStatic := by
  cases hplace with
  | onInstances => intro h; cases h
  | inNamespace => intro h; cases h
  | onClass above n c habove _ hfound hkind =>
    intro _
    have hn : n ≠ "" := by
      rintro rfl
      exact hpath (by simp [habove])
    obtain ⟨ns, hget, hc⟩ := Option.bind_eq_some_iff.mp hfound
    refine ⟨n, c, ?_, ?_, hkind⟩
    · simp [habove, ownerOf, hn]
    · rw [hget]
      exact hc

theorem fits_of_recorded (hs : Named s) (hsub : subject filter s = .ok sub)
    (hplace : placement m sub = .ok place)
    (hentry : entryOf sub.role sub.name place.isStatic s sub.doc sub.comment = .ok entry) :
    entry.Fits ((m.get? place.path).getD .empty) place.owner := by
  have hpath : "" ∉ sub.path := fun h =>
    hs _ (screened_of_subject hsub).path?_eq (List.mem_append_left _ h)
  have hstatic := staticFits_of_placed hpath (placed_of_placement hplace)
  cases built_of_entryOf hentry with
  | «class» c _ _ hsig => exact hsig
  | function f _ _ _ hf => rw [← hf] at hstatic; exact hstatic
  | enumeration e => trivial
  | typeAlias a => trivial
  | «variable» v _ _ _ _ _ hv => rw [← hv] at hstatic; exact hstatic

end Recorded

/-! ## Runs -/

theorem sound_classify {m : Model} (hm : m.Each Namespace.Sound) {s : Statement} (hs : Named s) :
    (classify filter m s).2.Each Namespace.Sound := by
  have hreg : m.Each Namespace.Registered := fun entry hentry => (hm entry hentry).registered
  rcases hc : classify filter m s with ⟨o, next⟩
  cases step_of_classify hc with
  | skipped => exact hm
  | unreadable => exact hm
  | refused => exact hm.update (hm.getD Namespace.sound_empty _)
  | recorded sub place entry hsub hplace hentry =>
    have hns := hm.getD Namespace.sound_empty place.path
    exact hm.update (hns.gains (fits_of_recorded hs hsub hplace hentry)
      (gains_at_place hreg hplace hentry))

theorem sound_after {statements : List Statement} (hs : ∀ s ∈ statements, Named s) :
    (Model.empty.after filter statements).Each Namespace.Sound :=
  Model.after_invariant (Model.Each Namespace.Sound)
    (fun s hmem _ hm => sound_classify hm (hs s hmem)) _ Model.each_empty

/-- What is found in a namespace is what it lists, and its declarations fit their places. -/
structure Namespace.Consistent (ns : Namespace) : Prop where
  /-- A class is found under a name if and only if one of that name is listed. -/
  found_iff : ∀ name, (ns.findClass? name).isSome ↔ ∃ c ∈ ns.classes, c.name = name
  /-- What is found is the one listed last under the name, and what is done to it is done in the
  list. -/
  found_latest : ∀ name c, ns.findClass? name = some c →
    ∃ before after, ns.Latest name before c after ∧
      ∀ f, ns.updateClass name f = { ns with classes := before ++ f c :: after }
  classes_fit : ∀ c ∈ ns.classes, c.FitsKind
  vars_instance : ∀ v ∈ ns.vars, v.isStatic = false
  functions_instance : ∀ f ∈ ns.functions, f.isStatic = false

theorem Namespace.Sound.consistent (h : ns.Sound) : ns.Consistent where
  found_iff _ := h.registered.isSome_findClass?_iff
  found_latest name c hc := by
    obtain ⟨before, after, hl⟩ := h.registered.findClass?_eq_some_iff.mp hc
    exact ⟨before, after, hl, h.registered.updateClass_eq hl⟩
  classes_fit := h.classes_fit
  vars_instance := h.vars_instance
  functions_instance := h.functions_instance

/-- **Consistency.** After every part of a list of statements without empty names, every namespace
is consistent. -/
theorem registers_consistent (filter : Name.Filter) (statements : List Statement)
    (hs : ∀ s ∈ statements, Named s) (n : ℕ) :
    ∀ entry ∈ (Model.empty.after filter (statements.take n)).namespaces, entry.2.Consistent := by
  intro entry hentry
  exact (sound_after (fun s hmem => hs s (List.mem_of_mem_take hmem)) entry hentry).consistent

/-- An interface, a class of the same name, and a member of that name. -/
def reregistered : List Statement :=
  [documented "* @interface " (chain "goog" ["A"]),
    documented "* @constructor " (chain "goog" ["A"]),
    documented "* @const " (assignment "goog" ["A", "x"])]

/-- Both are listed, and the static member goes to the class. -/
theorem registers_consistent_reregistered :
    (∀ s ∈ reregistered, Named s) ∧
      ∃ ns ∈ (Model.empty.after .standard (reregistered.take 3)).namespaces,
        ns.2.Consistent ∧
          ns.2.classes.map (fun c => (c.kind, c.properties.map (·.isStatic))) =
            [(.interface, []), (.constructible, [true])] := by
  have hnamed : ∀ s ∈ reregistered, Named s := by decide +kernel
  have hlisted : ∃ ns ∈ (Model.empty.after .standard (reregistered.take 3)).namespaces,
      ns.2.classes.map (fun c => (c.kind, c.properties.map (·.isStatic))) =
        [(.interface, []), (.constructible, [true])] := by decide +kernel
  obtain ⟨ns, hmem, hkinds⟩ := hlisted
  exact ⟨hnamed, ns, hmem, registers_consistent .standard reregistered hnamed 3 ns hmem, hkinds⟩

end Ambient.Declaration

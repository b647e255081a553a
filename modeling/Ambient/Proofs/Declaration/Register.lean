import Ambient.Declaration.Model
import Mathlib.Data.List.Induction

/-!
# The register of classes

Classes are looked up through the register of a namespace and printed from its list of classes. The
two agree if the register leads every name to the class that is listed last under it.

* `Latest`: the class listed last under a name, with what stands before and after it;
* `Registered`; `registered_empty`, `registered_addClass`, `Registered.of_names`;
* **`Registered.findClass?_eq_some_iff`**: what is found under a name is what is listed last under
  it;
* **`Registered.updateClass_eq`**: what is changed under a name is what is listed last under it.
-/

namespace Ambient.Declaration

/-- The last position of a name in a list of names. -/
def LastAt (names : List String) (name : String) (i : ℕ) : Prop :=
  names[i]? = some name ∧ ∀ j, i < j → names[j]? ≠ some name

theorem LastAt.unique {names : List String} {name : String} {i j : ℕ} (hi : LastAt names name i)
    (hj : LastAt names name j) : i = j := by
  rcases Nat.lt_trichotomy i j with h | h | h
  · exact absurd hj.1 (hi.2 j h)
  · exact h
  · exact absurd hi.1 (hj.2 i h)

theorem lastAt_concat_self (names : List String) (name : String) :
    LastAt (names ++ [name]) name names.length := by
  refine ⟨by simp, fun j hj => ?_⟩
  rw [List.getElem?_eq_none (by simp; omega)]
  exact Option.some_ne_none name |>.symm

theorem lastAt_concat_of_ne {names : List String} {other name : String} (h : other ≠ name) (i : ℕ) :
    LastAt (names ++ [other]) name i ↔ LastAt names name i := by
  have hget : ∀ j : ℕ, (names ++ [other])[j]? = some name ↔ names[j]? = some name := by
    intro j
    rcases Nat.lt_trichotomy j names.length with hj | hj | hj
    · rw [List.getElem?_append_left hj]
    · subst hj
      simp [h]
    · rw [List.getElem?_eq_none (by simp; omega), List.getElem?_eq_none (by omega)]
  simp only [LastAt, hget, ne_eq]

theorem exists_lastAt {name : String} : ∀ {names : List String}, name ∈ names →
    ∃ i, LastAt names name i := by
  intro names
  induction names using List.reverseRecOn with
  | nil => intro h; cases h
  | append_singleton names other ih =>
    intro h
    by_cases ho : other = name
    · subst ho
      exact ⟨_, lastAt_concat_self names other⟩
    · rcases List.mem_append.mp h with h | h
      · obtain ⟨i, hi⟩ := ih h
        exact ⟨i, (lastAt_concat_of_ne ho i).mpr hi⟩
      · exact absurd (List.mem_singleton.mp h).symm ho

namespace Namespace

variable {ns : Namespace} {name : String} {c : ClassEntry} {before after : List ClassEntry}

/-- The class `c` is listed last under a name, between the classes `before` and `after` it. -/
structure Latest (ns : Namespace) (name : String) (before : List ClassEntry) (c : ClassEntry)
    (after : List ClassEntry) : Prop where
  classes_eq : ns.classes = before ++ c :: after
  name_eq : c.name = name
  after_ne : ∀ d ∈ after, d.name ≠ name

/-- The names under which classes are listed. -/
def classNames (ns : Namespace) : List String := ns.classes.map ClassEntry.name

theorem Latest.lastAt (h : ns.Latest name before c after) :
    LastAt ns.classNames name before.length := by
  rw [classNames, h.classes_eq]
  refine ⟨by simp [h.name_eq], fun j hj hn => ?_⟩
  obtain ⟨k, rfl⟩ : ∃ k, j = before.length + 1 + k := ⟨j - before.length - 1, by omega⟩
  rw [List.getElem?_map, List.getElem?_append_right (by omega),
    show before.length + 1 + k - before.length = k + 1 by omega, List.getElem?_cons_succ,
    Option.map_eq_some_iff] at hn
  obtain ⟨d, hd, hname⟩ := hn
  exact h.after_ne d (List.mem_of_getElem? hd) hname

theorem exists_latest_of_lastAt {i : ℕ} (h : LastAt ns.classNames name i) :
    ∃ before c after, ns.Latest name before c after ∧ before.length = i := by
  obtain ⟨c, hc, hname⟩ := Option.map_eq_some_iff.mp ((List.getElem?_map ..).symm.trans h.1)
  obtain ⟨hi, hget⟩ := List.getElem?_eq_some_iff.mp hc
  refine ⟨ns.classes.take i, c, ns.classes.drop (i + 1), ⟨?_, hname, fun d hd hn => ?_⟩,
    List.length_take_of_le (by omega)⟩
  · rw [← hget, List.getElem_cons_drop, List.take_append_drop]
  · obtain ⟨k, hk⟩ := List.getElem?_of_mem hd
    rw [List.getElem?_drop] at hk
    refine h.2 (i + 1 + k) (by omega) ?_
    rw [classNames, List.getElem?_map, hk, Option.map_some, hn]

theorem exists_latest (h : ∃ c ∈ ns.classes, c.name = name) :
    ∃ before c after, ns.Latest name before c after := by
  obtain ⟨i, hi⟩ := exists_lastAt (List.mem_map.mpr h : name ∈ ns.classNames)
  obtain ⟨before, c, after, hc, -⟩ := exists_latest_of_lastAt hi
  exact ⟨before, c, after, hc⟩

/-- The register leads every name to the class listed last under it, and no other name anywhere. -/
def Registered (ns : Namespace) : Prop :=
  ∀ name i, ns.register.lookup name = some i ↔ LastAt ns.classNames name i

theorem registered_empty : empty.Registered := by
  intro name i
  simp [empty, classNames, LastAt]

theorem registered_addClass (h : ns.Registered) (c : ClassEntry) : (ns.addClass c).Registered := by
  intro name i
  have hnames : (ns.addClass c).classNames = ns.classNames ++ [c.name] := by
    simp [classNames, addClass]
  have hlength : ns.classes.length = ns.classNames.length := by simp [classNames]
  rw [hnames, addClass, List.lookup_cons]
  by_cases hc : c.name = name
  · subst hc
    simp only [beq_self_eq_true, Option.some.injEq, hlength]
    constructor
    · rintro rfl
      exact lastAt_concat_self ..
    · exact (lastAt_concat_self ..).unique
  · rw [show (name == c.name) = false from beq_eq_false_iff_ne.mpr (Ne.symm hc),
      lastAt_concat_of_ne hc]
    exact h name i

/-- The names of the classes are all that a register depends on. -/
theorem Registered.of_names {ns' : Namespace} (h : ns.Registered)
    (hnames : ns'.classNames = ns.classNames) (hreg : ns'.register = ns.register) :
    ns'.Registered := by
  intro name i
  rw [hreg, hnames]
  exact h name i

theorem Registered.lookup_eq (h : ns.Registered) (hc : ns.Latest name before c after) :
    ns.register.lookup name = some before.length := (h name _).mpr hc.lastAt

/-- **Lookup.** What is found under a name is the class listed last under it. -/
theorem Registered.findClass?_eq_some_iff (h : ns.Registered) :
    ns.findClass? name = some c ↔ ∃ before after, ns.Latest name before c after := by
  constructor
  · intro hf
    obtain ⟨i, hi, hc⟩ := Option.bind_eq_some_iff.mp hf
    obtain ⟨before, d, after, hd, rfl⟩ := exists_latest_of_lastAt ((h name i).mp hi)
    rw [hd.classes_eq] at hc
    obtain rfl : d = c := by simpa using hc
    exact ⟨before, after, hd⟩
  · rintro ⟨before, after, hc⟩
    rw [findClass?, h.lookup_eq hc, Option.bind_some, hc.classes_eq]
    simp

theorem Registered.isSome_findClass?_iff (h : ns.Registered) :
    (ns.findClass? name).isSome ↔ ∃ c ∈ ns.classes, c.name = name := by
  rw [Option.isSome_iff_exists]
  constructor
  · rintro ⟨c, hc⟩
    obtain ⟨before, after, hl⟩ := h.findClass?_eq_some_iff.mp hc
    exact ⟨c, by simp [hl.classes_eq], hl.name_eq⟩
  · intro hc
    obtain ⟨before, c, after, hl⟩ := exists_latest hc
    exact ⟨c, h.findClass?_eq_some_iff.mpr ⟨before, after, hl⟩⟩

/-- **Change.** What is changed under a name is the class listed last under it. -/
theorem Registered.updateClass_eq (h : ns.Registered) (hc : ns.Latest name before c after)
    (f : ClassEntry → ClassEntry) :
    ns.updateClass name f = { ns with classes := before ++ f c :: after } := by
  simp only [updateClass, h.lookup_eq hc]
  rw [hc.classes_eq, List.modify_eq_take_cons_drop (by simp)]
  simp

/-- Under a name at which a class is found, one is changed in the list. -/
theorem Registered.exists_updateClass_eq (h : ns.Registered)
    (hfound : (ns.findClass? name).isSome) : ∃ before c after, ns.findClass? name = some c ∧
      ns.Latest name before c after ∧
      ∀ f, ns.updateClass name f = { ns with classes := before ++ f c :: after } := by
  obtain ⟨c, hc⟩ := Option.isSome_iff_exists.mp hfound
  obtain ⟨before, after, hl⟩ := h.findClass?_eq_some_iff.mp hc
  exact ⟨before, c, after, hc, hl, h.updateClass_eq hl⟩

/-- A namespace without declarations registers nothing. -/
theorem Registered.eq_empty (h : ns.Registered) (he : ns.isEmpty = true) : ns = .empty := by
  obtain ⟨vars, typeAliases, functions, enums, classes, register⟩ := ns
  simp only [isEmpty, Bool.and_eq_true, List.isEmpty_iff] at he
  obtain ⟨⟨⟨⟨rfl, rfl⟩, rfl⟩, rfl⟩, rfl⟩ := he
  cases register with
  | nil => rfl
  | cons first rest =>
    have := ((h first.1 first.2).mp List.lookup_cons_self).1
    simp [classNames] at this

end Namespace

end Ambient.Declaration
